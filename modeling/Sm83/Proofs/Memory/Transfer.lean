import Sm83.Proofs.Memory.ReadWrite

/-!
# Transfers to OAM

A transfer reads the bytes of a page one after the other, and it writes each to OAM before it reads
the next. The page may be that of OAM itself, where each byte is read before it is overwritten, or
that of the register by which transfers are started, which holds the new page by then. So a transfer
is a snapshot of the page: the order of reads and writes shows in no byte.

## Main definitions

* `Memory.transferSource` — the addresses that a transfer reads.
* `Memory.partlyCopied` — OAM after some bytes of a transfer.

## Main results

* `Memory.copyByte_partlyCopied`, `Memory.copyToOam_eq_snapshot` — one byte of a transfer, and all.
* `Memory.write8_transfer` — the memory after a transfer that was started by a write.
* `oam_transfer_is_snapshot` — the same by what is read.
-/

namespace Sm83

/-- An invariant of a loop over `Fin n`, by the number of rounds. -/
theorem foldl_fin_invariant {α : Type u} {n : Nat} (f : α → Fin n → α) (P : Nat → α → Prop) {x : α}
    (hinit : P 0 x) (hstep : ∀ (k : Fin n) (y : α), P k.val y → P (k.val + 1) (f y k)) :
    P n (Fin.foldl n f x) := by
  induction n with
  | zero => exact hinit
  | succ n ih =>
    rw [Fin.foldl_succ_last]
    exact hstep (Fin.last n) _ (ih _ fun k y => hstep k.castSucc y)

namespace Memory

/-! ### OAM and the register of transfers -/

/-- Outside of OAM its bytes are not seen. -/
theorem readLocation_withOam (m : Memory) (oam : Vector UInt8 0xA0) {l : Location}
    (hl : l.region ≠ .oam) : { m with oam := oam }.readLocation l = m.readLocation l := by
  obtain ⟨r, o⟩ := l
  cases r with
  | oam => exact absurd rfl hl
  | _ => rfl

/-- In the register of transfers all bits of the page are seen. -/
theorem ioShown_transferPage (m : Memory) (page : UInt8) :
    ioShown 0x46 ((m.io.set 0x46 page (by decide)).get 0x46) = page :=
  (congrArg (ioShown 0x46) (Vector.getElem_set_self _)).trans UInt8.or_zero

/-- The address of an offset of OAM leads there. -/
theorem resolve_oamAddress (m : Memory) (i : Fin 0xA0) :
    m.resolve (.ofNat (0xFE00 + i.val)) = ⟨.oam, i⟩ := by
  have haddress : (UInt16.ofNat (0xFE00 + i.val)).toNat = 0xFE00 + i.val := by
    rw [UInt16.toNat_ofNat']
    omega
  refine locate_eq_of_toNat_eq ⟨fun h => ?_, fun h => ?_⟩ haddress
  · cases h
  · omega

/-- The address of a byte that a transfer reads. -/
def transferSource (page : UInt8) (i : Nat) : UInt16 :=
  .ofNat (page.toNat * 256 + i)

theorem toNat_transferSource (page : UInt8) {i : Nat} (hi : i < 0xA0) :
    (transferSource page i).toNat = page.toNat * 256 + i := by
  have hpage := page.toNat_lt
  rw [transferSource, UInt16.toNat_ofNat']
  omega

theorem word_eq_transferSource (page : UInt8) (i : Fin 0xA0) :
    word page (UInt8.ofNat i) = transferSource page i := by
  apply UInt16.toNat_inj.mp
  rw [toNat_word, toNat_transferSource page i.isLt, UInt8.toNat_ofNat']
  omega

/-! ### The loop of a transfer -/

/-- OAM after the first `k` bytes of a transfer, each as it was in the page before. -/
def partlyCopied (m : Memory) (page : UInt8) (k : Nat) : Vector UInt8 0xA0 :=
  .ofFn fun i => if i.val < k then m.read8 (transferSource page i) else m.oam.get i

section UsualMode

variable {m : Memory} (hmode : m.isFlat = false)

include hmode

theorem read8_withOam (oam : Vector UInt8 0xA0) (a : UInt16) :
    { m with oam := oam }.read8 a = { m with oam := oam }.readLocation (m.resolve a) :=
  read8_of_not_isFlat (m := { m with oam := oam }) hmode a

/-- The next byte of the page is as it was before the transfer: only in the page of OAM it could
have been overwritten, and there it is the next one to be. -/
theorem read8_transferSource_partlyCopied (page : UInt8) (k : Fin 0xA0) :
    { m with oam := m.partlyCopied page k }.read8 (transferSource page k) =
      m.read8 (transferSource page k) := by
  rw [read8_of_not_isFlat hmode, read8_withOam hmode]
  rcases hplace : m.resolve (transferSource page k) with ⟨r, o⟩
  by_cases hoam : r = .oam
  · subst hoam
    have haddress := toNat_of_locate_eq_oam hplace
    rw [toNat_transferSource page k.isLt] at haddress
    have ho : o.val < 0xA0 := o.isLt
    obtain rfl : o = k := Fin.ext (by omega)
    change (m.partlyCopied page o)[o.val] = m.oam[o.val]
    rw [partlyCopied, Vector.getElem_ofFn]
    exact if_neg (Nat.lt_irrefl _)
  · exact m.readLocation_withOam _ hoam

/-- One byte of a transfer. -/
theorem copyByte_partlyCopied (page : UInt8) (k : Fin 0xA0) :
    let m' := { m with oam := m.partlyCopied page k }
    { m' with oam := m'.oam.set k (m'.read8 (word page (UInt8.ofNat k))) k.isLt } =
      { m with oam := m.partlyCopied page (k + 1) } := by
  intro m'
  have hoam : m'.oam.set k (m'.read8 (word page (UInt8.ofNat k))) k.isLt =
      m.partlyCopied page (k + 1) := by
    rw [word_eq_transferSource, read8_transferSource_partlyCopied hmode]
    refine Vector.ext fun i hi => ?_
    simp only [m', partlyCopied, Vector.getElem_set, Vector.getElem_ofFn]
    rcases Nat.lt_trichotomy i k.val with hbefore | rfl | hbehind
    · rw [if_neg (by omega), if_pos hbefore, if_pos (by omega)]
    · rw [if_pos rfl, if_pos (by omega)]
    · rw [if_neg (by omega), if_neg (by omega), if_neg (by omega)]
  rw [hoam]

/-- **A transfer is a snapshot of the page.** -/
theorem copyToOam_eq_snapshot (page : UInt8) :
    m.copyToOam page = { m with oam := .ofFn fun i => m.read8 (transferSource page i) } := by
  have hinit : m = { m with oam := m.partlyCopied page 0 } := by
    have hnone : m.partlyCopied page 0 = m.oam := by
      refine Vector.ext fun i hi => ?_
      rw [partlyCopied, Vector.getElem_ofFn]
      exact if_neg (Nat.not_lt_zero i)
    rw [hnone]
  have hall : m.partlyCopied page 0xA0 = .ofFn fun i => m.read8 (transferSource page i) := by
    refine Vector.ext fun i hi => ?_
    rw [partlyCopied, Vector.getElem_ofFn, Vector.getElem_ofFn]
    exact if_pos hi
  rw [copyToOam, ← hall]
  refine foldl_fin_invariant _ (fun k m' => m' = { m with oam := m.partlyCopied page k }) hinit ?_
  rintro k _ rfl
  exact copyByte_partlyCopied hmode page k

/-! ### The register of the transfer -/

/-- The page of the last transfer is seen at its own address only. -/
theorem read8_withTransferPage (page : UInt8) (a : UInt16) :
    { m with io := m.io.set 0x46 page (by decide) }.read8 a =
      if a = 0xFF46 then page else m.read8 a := by
  rw [read8_of_not_isFlat hmode,
    read8_of_not_isFlat (m := { m with io := m.io.set 0x46 page (by decide) }) hmode]
  change { m with io := m.io.set 0x46 page (by decide) }.readLocation (m.resolve a) = _
  have hregister : a = 0xFF46 ↔ m.resolve a = ⟨.io, 0x46⟩ := (locate_eq_io_iff (o := 0x46)).symm
  simp only [hregister]
  rcases hplace : m.resolve a with ⟨r, o⟩
  cases r with
  | io =>
    have hsame : (⟨.io, o⟩ : Location) = ⟨.io, 0x46⟩ ↔ o = 0x46 := by simp
    simp only [hsame, readLocation]
    by_cases ho : o = 0x46
    · subst ho
      rw [if_pos rfl]
      exact m.ioShown_transferPage page
    · have hcell := m.io.getElem_set_ne (by decide : 0x46 < 0x80) o.isLt (x := page)
        fun h => ho (Fin.ext h.symm)
      rw [if_neg ho]
      unfold readIo
      cases ioRegister o with
      | serial | timer | requests => rfl
      | dma | lockout | cell => exact congrArg (ioShown o) hcell
  | _ =>
    rw [if_neg (by simp)]
    rfl

/-- **The memory after a transfer** that a write has started: OAM is a copy of the page, and the
register holds the page. -/
theorem write8_transfer (page : UInt8) :
    m.write8 0xFF46 page = { m with
      oam := .ofFn fun i =>
        if transferSource page i = 0xFF46 then page else m.read8 (transferSource page i)
      io := m.io.set 0x46 page (by decide) } := by
  have hplace : m.resolve 0xFF46 = ⟨.io, 0x46⟩ := locate_eq_io_iff.mpr rfl
  have hstarted : m.write8 0xFF46 page =
      copyToOam { m with io := m.io.set 0x46 page (by decide) } page := by
    rw [write8_of_not_isFlat hmode, hplace]
    rfl
  have hcopied := copyToOam_eq_snapshot (m := { m with io := m.io.set 0x46 page (by decide) })
    hmode page
  rw [hstarted, hcopied]
  simp only [read8_withTransferPage hmode]

end UsualMode

/-- The page that holds the register of transfers is the last one. -/
theorem transferSource_eq_iff {page : UInt8} {i : Nat} (hi : i < 0xA0) :
    transferSource page i = 0xFF46 ↔ page = 0xFF ∧ i = 0x46 := by
  rw [← UInt16.toNat_inj, ← UInt8.toNat_inj, toNat_transferSource page hi]
  simp only [UInt16.reduceToNat, UInt8.reduceToNat]
  omega

end Memory

/-- **A transfer to OAM is a snapshot of a page.** In the usual mode, a write of a page to the
register of transfers leaves every byte of OAM as the byte of the page was before, whatever is read
there: OAM itself, registers, the boot ROM, the echo of work RAM, or nothing. Only that register,
which lies in the last page, is read as the new page. Nothing but OAM and the register changes, so
that everything else is read as before. -/
theorem oam_transfer_is_snapshot {m : Memory} (hmode : m.isFlat = false) (page : UInt8) :
    let m' := m.write8 0xFF46 page
    (∀ i < 0xA0, m'.read8 (.ofNat (0xFE00 + i)) =
        if page = 0xFF ∧ i = 0x46 then page else m.read8 (.ofNat (page.toNat * 256 + i))) ∧
      (∃ oam, m' = { m with oam := oam, io := m.io.set 0x46 page (by decide) }) ∧
      m'.read8 0xFF46 = page ∧
      ∀ a, ¬(0xFE00 ≤ a ∧ a ≤ 0xFE9F) → a ≠ 0xFF46 → m'.read8 a = m.read8 a := by
  intro m'
  have hmode' : m'.isFlat = false := (m.isFlat_write8 _ _).trans hmode
  have htransfer : m' = _ := Memory.write8_transfer hmode page
  refine ⟨fun i hi => ?_, ⟨_, htransfer⟩, ?_, fun a hoam ha => ?_⟩
  · have hplace : m'.resolve (.ofNat (0xFE00 + i)) = ⟨.oam, ⟨i, hi⟩⟩ :=
      m'.resolve_oamAddress ⟨i, hi⟩
    rw [Memory.read8_of_not_isFlat hmode', hplace, htransfer]
    change (Vector.ofFn _)[i] = _
    rw [Vector.getElem_ofFn]
    simp only [Memory.transferSource_eq_iff hi]
    rfl
  · have hplace : m'.resolve 0xFF46 = ⟨.io, 0x46⟩ := locate_eq_io_iff.mpr rfl
    rw [Memory.read8_of_not_isFlat hmode', hplace, htransfer]
    exact m.ioShown_transferPage page
  · refine Memory.read8_write8_of_not_mem_footprint hmode ha ?_ page
    simpa [footprint, UInt16.le_iff_toNat_le, ← UInt16.toNat_inj] using hoam

/-- A transfer of the last page: where `IF` and the register of transfers were, OAM holds what is
read of the requests, and the new page. -/
theorem transfer_of_registers :
    let m : Memory := { requests := 0x05 }
    let m' := m.write8 0xFF46 0xFF
    m.isFlat = false ∧ (0x0F < 0xA0 ∧ m'.read8 0xFE0F = 0xE5) ∧
      (0x46 < 0xA0 ∧ m'.read8 0xFE46 = 0xFF) ∧
      ¬((0xFE00 : UInt16) ≤ 0xFEA0 ∧ (0xFEA0 : UInt16) ≤ 0xFE9F) ∧ (0xFEA0 : UInt16) ≠ 0xFF46 ∧
      m'.read8 0xFEA0 = 0xFF := by
  intro m m'
  have hmode : m.isFlat = false := rfl
  obtain ⟨hoam, -, -, hother⟩ := oam_transfer_is_snapshot hmode 0xFF
  exact ⟨hmode, ⟨by decide, (hoam 0x0F (by decide)).trans (by decide)⟩,
    ⟨by decide, (hoam 0x46 (by decide)).trans (by decide)⟩, by decide, by decide,
    (hother 0xFEA0 (by decide) (by decide)).trans (by decide)⟩

end Sm83
