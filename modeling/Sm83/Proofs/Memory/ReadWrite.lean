import Mathlib.Data.Set.Insert
import Mathlib.Tactic.SplitIfs
import Sm83.Proofs.Memory.Devices

/-!
# Reads after writes

In the usual mode a write changes what is read at its own address and at a few others, its
footprint: the echo of work RAM shows what work RAM shows, and a few registers have an effect on
others. Everywhere else reads are as before. Where an address belongs to a memory a read gives what
was written; where nothing can be written it gives what it gave before.

## Main definitions

* `footprint` — the other addresses at which a write can be seen.
* `storage` — the addresses that hold what is written.
* `unwritable` — the addresses at which nothing can be written.

## Main results

* `Memory.readLocation_writeLocation` — reads after a write to a memory.
* `Memory.readLocation_writeIo`, `Memory.readIo_writeIo_of_ne` — reads after a write to a register.
* `Memory.read8_write8_of_not_mem_footprint`, `Memory.read8_write8_of_mem_storage`,
  `Memory.read8_write8_of_mem_unwritable` — reads after writes, by address.
* `memory_map_law` — all of this together, for bytes and words.
-/

namespace Sm83

/-! ### Sets of addresses -/

/-- The addresses other than its own at which a write to an address can be seen: the echo of work
RAM, or work RAM itself; the data register and the requests, when `SC` is written; the counter and
the requests, when `DIV` or `TAC` is; OAM, when a transfer to it is started; and the first page,
when the boot ROM is unmapped. -/
def footprint (a : UInt16) : Set UInt16 :=
  {b | (0xC000 ≤ a ∧ a ≤ 0xDDFF) ∧ b = a + 0x2000 ∨
    (0xE000 ≤ a ∧ a ≤ 0xFDFF) ∧ b = a - 0x2000 ∨
    a = 0xFF02 ∧ (b = 0xFF01 ∨ b = 0xFF0F) ∨
    (a = 0xFF04 ∨ a = 0xFF07) ∧ (b = 0xFF05 ∨ b = 0xFF0F) ∨
    a = 0xFF46 ∧ (0xFE00 ≤ b ∧ b ≤ 0xFE9F) ∨
    a = 0xFF50 ∧ b ≤ 0x00FF}

/-- The addresses that hold what is written: video RAM, work RAM and its echo, OAM, high RAM and
`IE`. -/
def storage : Set UInt16 :=
  {a | 0x8000 ≤ a ∧ a ≤ 0x9FFF ∨ 0xC000 ≤ a ∧ a ≤ 0xDFFF ∨ 0xE000 ≤ a ∧ a ≤ 0xFDFF ∨
    0xFE00 ≤ a ∧ a ≤ 0xFE9F ∨ 0xFF80 ≤ a ∧ a ≤ 0xFFFE ∨ a = 0xFFFF}

/-- The addresses of the I/O page without a register that can be read. -/
def noRegister : Set UInt16 :=
  {a | a = 0xFF03 ∨ 0xFF08 ≤ a ∧ a ≤ 0xFF0E ∨ a = 0xFF15 ∨ a = 0xFF1F ∨ 0xFF27 ≤ a ∧ a ≤ 0xFF2F ∨
    0xFF4C ≤ a ∧ a ≤ 0xFF7F}

/-- The addresses at which nothing can be written: ROM, external RAM, the gap behind OAM, `LY`, and
those of the I/O page without a register. -/
def unwritable : Set UInt16 :=
  {a | a ≤ 0x7FFF ∨ 0xA000 ≤ a ∧ a ≤ 0xBFFF ∨ 0xFEA0 ≤ a ∧ a ≤ 0xFEFF ∨ a = 0xFF44 ∨
    a ∈ noRegister}

instance (a : UInt16) : DecidablePred (· ∈ footprint a) := fun _ =>
  inferInstanceAs (Decidable (_ ∨ _))

instance : DecidablePred (· ∈ storage) := fun _ => inferInstanceAs (Decidable (_ ∨ _))

instance : DecidablePred (· ∈ noRegister) := fun _ => inferInstanceAs (Decidable (_ ∨ _))

instance : DecidablePred (· ∈ unwritable) := fun _ => inferInstanceAs (Decidable (_ ∨ _))

/-! ### Reads after writes to a memory -/

/-- Whether a region holds what is written to it. -/
def Region.stores : Region → Bool
  | vram | wram | oam | hram | ie => true
  | bootRom | rom0 | rom1 | externalRam | unusable | io => false

namespace Memory

/-- A write to a place of a memory changes that place and no other one. -/
theorem readLocation_writeLocation (m : Memory) {l : Location} (hl : l.region.stores = true)
    (l' : Location) (v : UInt8) :
    (m.writeLocation l v).readLocation l' = if l' = l then v else m.readLocation l' := by
  obtain ⟨r, o⟩ := l
  obtain ⟨r', o'⟩ := l'
  cases r <;> simp only [Region.stores, Bool.false_eq_true] at hl <;>
    cases r' <;>
      simp [writeLocation, readLocation, readIo, Vector.getElem_set, Fin.ext_iff, eq_comm]

/-! ### Reads after writes to a register -/

/-- A write to a register is not seen outside of the I/O page, but in OAM when it starts a
transfer. -/
theorem readLocation_writeIo (m : Memory) {o : Fin 0x80} (v : UInt8) {l : Location}
    (hio : l.region ≠ .io) (htransfer : ioAddress o = 0xFF46 → l.region ≠ .oam) :
    (m.writeIo o v).readLocation l = m.readLocation l := by
  obtain ⟨oam, hoam, hwrite⟩ := m.writeIo_eq o v
  rw [hwrite]
  obtain ⟨r, offset⟩ := l
  cases r with
  | io => exact absurd rfl hio
  | oam =>
    rw [hoam fun h => htransfer h rfl]
    rfl
  | _ => rfl

end Memory

/-! ### Reads of the devices after writes to them -/

namespace Serial

/-- The address of a register. -/
def Register.address : Register → UInt16
  | sb => 0xFF01
  | sc => 0xFF02

theorem Register.ofAddress?_eq_some_iff {a : UInt16} {r : Register} :
    ofAddress? a = some r ↔ a = r.address := by
  constructor
  · intro h
    unfold ofAddress? at h
    split at h <;> cases h <;> rfl
  · rintro rfl
    cases r <;> rfl

/-- A write to one register is seen in another only where a transfer ends: the byte that arrives
in `SB`. -/
theorem readAt_writeAt_of_ne {a b : UInt16} (hne : b ≠ a) (hdata : a = 0xFF02 → b ≠ 0xFF01)
    (s : Serial) (v : UInt8) : (s.writeAt a v).2.readAt b = s.readAt b := by
  cases ha : Register.ofAddress? a with
  | none => simp only [writeAt, ha]
  | some r =>
    cases hb : Register.ofAddress? b with
    | none => simp only [readAt, hb, Option.elim_none]
    | some r' =>
      simp only [writeAt, readAt, ha, hb, Option.elim_some]
      obtain rfl := Register.ofAddress?_eq_some_iff.mp ha
      obtain rfl := Register.ofAddress?_eq_some_iff.mp hb
      cases r with
      | sb =>
        cases r' with
        | sb => exact absurd rfl hne
        | sc => rfl
      | sc =>
        cases r' with
        | sb => exact absurd rfl (hdata rfl)
        | sc => exact absurd rfl hne

/-- Only a write to `SC` completes a transfer. -/
theorem fst_writeAt_of_ne {a : UInt16} (ha : a ≠ 0xFF02) (s : Serial) (v : UInt8) :
    (s.writeAt a v).1 = false := by
  unfold writeAt
  split
  case h_2 => rfl
  case h_1 r hr =>
    obtain rfl := Register.ofAddress?_eq_some_iff.mp hr
    cases r with
    | sb => rfl
    | sc => exact absurd rfl ha

end Serial

namespace Timer

/-- The address of a register. -/
def Register.address : Register → UInt16
  | div => 0xFF04
  | tima => 0xFF05
  | tma => 0xFF06
  | tac => 0xFF07

theorem Register.ofAddress?_eq_some_iff {a : UInt16} {r : Register} :
    ofAddress? a = some r ↔ a = r.address := by
  constructor
  · intro h
    unfold ofAddress? at h
    split at h <;> cases h <;> rfl
  · rintro rfl
    cases r <;> rfl

theorem read_refresh {r : Register} (hr : r ≠ .tima) (t : Timer) :
    t.refresh.2.read r = t.read r := by
  simp only [refresh, count]
  cases r with
  | tima => exact absurd rfl hr
  | div | tma | tac => split_ifs <;> rfl

/-- A write to one register is seen in another only where the signal may fall: in the counter. -/
theorem readAt_writeAt_of_ne {a b : UInt16} (hne : b ≠ a)
    (hcounter : a = 0xFF04 ∨ a = 0xFF07 → b ≠ 0xFF05) (t : Timer) (v : UInt8) :
    (t.writeAt a v).2.readAt b = t.readAt b := by
  cases ha : Register.ofAddress? a with
  | none => simp only [writeAt, ha]
  | some r =>
    cases hb : Register.ofAddress? b with
    | none => simp only [readAt, hb, Option.elim_none]
    | some r' =>
      simp only [writeAt, readAt, ha, hb, Option.elim_some]
      obtain rfl := Register.ofAddress?_eq_some_iff.mp ha
      obtain rfl := Register.ofAddress?_eq_some_iff.mp hb
      have hr : r' ≠ r := fun h => hne (congrArg Register.address h)
      have htima (h : r = .div ∨ r = .tac) : r' ≠ .tima := by
        rintro rfl
        exact hcounter (h.imp (congrArg Register.address) (congrArg Register.address)) rfl
      cases r with
      | div =>
        rw [write, read_refresh (htima (.inl rfl))]
        cases r' with
        | div => exact absurd rfl hr
        | tima | tma | tac => rfl
      | tac =>
        rw [write, read_refresh (htima (.inr rfl))]
        cases r' with
        | tac => exact absurd rfl hr
        | div | tima | tma => rfl
      | tima =>
        cases r' with
        | tima => exact absurd rfl hr
        | div | tma | tac => rfl
      | tma =>
        cases r' with
        | tma => exact absurd rfl hr
        | div | tima | tac => rfl

/-- Only writes to `DIV` and `TAC` make the counter overflow. -/
theorem fst_writeAt_of_ne {a : UInt16} (hdiv : a ≠ 0xFF04) (htac : a ≠ 0xFF07) (t : Timer)
    (v : UInt8) : (t.writeAt a v).1 = false := by
  unfold writeAt
  split
  case h_2 => rfl
  case h_1 r hr =>
    obtain rfl := Register.ofAddress?_eq_some_iff.mp hr
    cases r with
    | div => exact absurd rfl hdiv
    | tac => exact absurd rfl htac
    | tima | tma => rfl

end Timer

/-! ### Reads of the I/O page after writes to it -/

namespace Memory

/-- A write to one register is seen in another only if the other belongs to its footprint. -/
theorem readIo_writeIo_of_ne {o o' : Fin 0x80} (hne : o' ≠ o)
    (hfoot : ioAddress o' ∉ footprint (ioAddress o)) (m : Memory) (v : UInt8) :
    (m.writeIo o v).readIo o' = m.readIo o' := by
  have haddress : ioAddress o' ≠ ioAddress o := mt ioAddress_inj.mp hne
  simp only [footprint, Set.mem_ofPred_eq, not_or, not_and] at hfoot
  obtain ⟨-, -, hserial, htimer, -, -⟩ := hfoot
  obtain ⟨oam, -, hwrite⟩ := m.writeIo_eq o v
  rw [hwrite]
  unfold readIo
  cases hr : ioRegister o' with
  | serial r =>
    have hread := m.serial.readAt_writeAt_of_ne haddress (fun h => (hserial h).1) v
    simpa only [Serial.readAt, ← serial?_ioRegister, hr, IoRegister.serial?, Option.elim_some]
      using hread
  | timer r =>
    have hread := m.timer.readAt_writeAt_of_ne haddress (fun h => (htimer h).1) v
    simpa only [Timer.readAt, ← timer?_ioRegister, hr, IoRegister.timer?, Option.elim_some]
      using hread
  | requests =>
    have hrequests : ioAddress o' = 0xFF0F := (ioRegister_eq_requests_iff o').mp hr
    have hsc : ioAddress o ≠ 0xFF02 := fun h => (hserial h).2 hrequests
    have hdiv : ioAddress o ≠ 0xFF04 := fun h => (htimer (.inl h)).2 hrequests
    have htac : ioAddress o ≠ 0xFF07 := fun h => (htimer (.inr h)).2 hrequests
    have hown : ioAddress o ≠ 0xFF0F := fun h => haddress (hrequests.trans h.symm)
    simp only [Serial.fst_writeAt_of_ne hsc, Timer.fst_writeAt_of_ne hdiv htac, if_neg hown,
      Interrupt.request, Bool.false_eq_true, if_false]
  | dma | lockout | cell =>
    have hcell := m.io.getElem_set_ne o.isLt o'.isLt
      (x := ioWritten o (m.io.get o) v) (fun h => hne (Fin.ext h.symm))
    exact congrArg (ioShown o') hcell

end Memory

/-! ### The regions of the addresses -/

theorem toNat_of_locate_eq_oam {bootMapped : Bool} {a : UInt16} {o : Fin 0xA0}
    (h : locate bootMapped a = ⟨.oam, o⟩) : a.toNat = 0xFE00 + o.val := by
  have haddress := hasAddress_locate bootMapped a
  rw [h] at haddress
  rcases haddress with haddress | ⟨hwram, -⟩
  · exact haddress
  · cases hwram

theorem ne_add_one (a : UInt16) : a ≠ a + 1 := by
  have ha := a.toNat_lt
  simp only [Ne, ← UInt16.toNat_inj, UInt16.toNat_add, UInt16.reduceToNat]
  omega

theorem not_mem_footprint_add_one {a : UInt16} (h : a + 1 ∈ storage) : a ∉ footprint (a + 1) := by
  have ha := a.toNat_lt
  simp only [storage, footprint, Set.mem_ofPred_eq, UInt16.le_iff_toNat_le, ← UInt16.toNat_inj,
    UInt16.reduceToNat, UInt16.toNat_add, UInt16.toNat_sub] at h ⊢
  omega

theorem stores_of_mem_storage (bootMapped : Bool) {a : UInt16} (ha : a ∈ storage) :
    (locate bootMapped a).region.stores = true := by
  have haddress := hasAddress_locate bootMapped a
  generalize locate bootMapped a = l at haddress
  obtain ⟨r, o⟩ := l
  have ho := o.isLt
  simp only [storage, Set.mem_ofPred_eq, UInt16.le_iff_toNat_le, ← UInt16.toNat_inj,
    UInt16.reduceToNat] at ha
  rcases haddress with haddress | ⟨rfl, -⟩
  · cases r with
    | vram | wram | oam | hram | ie => rfl
    | bootRom | rom0 | rom1 | externalRam | unusable | io =>
      simp only [Region.start, Region.size] at haddress ho
      omega
  · rfl

/-- Of the registers of the I/O page that cannot be written, none belongs to a device, and each has
no bits to be written or none to be read. -/
theorem ioWritable_eq_zero_or_of_mem_unwritable {o : Fin 0x80} (ho : ioAddress o ∈ unwritable) :
    (ioRegister o = .cell ∨ ioRegister o = .lockout) ∧
      (ioWritable o = 0x00 ∨ ioOnes o = 0xFF) := by
  revert o
  decide +kernel

theorem ioShown_of_ioOnes_eq_allOnes {o : Fin 0x80} (h : ioOnes o = 0xFF) (content : UInt8) :
    ioShown o content = 0xFF := by
  have hones : (0xFF : UInt8) = -1 := rfl
  simp [ioShown, h, hones]

namespace Memory

theorem readIo_writeIo_of_mem_unwritable {o : Fin 0x80} (ho : ioAddress o ∈ unwritable) (m : Memory)
    (v : UInt8) : (m.writeIo o v).readIo o = m.readIo o := by
  obtain ⟨hregister, hbits⟩ := ioWritable_eq_zero_or_of_mem_unwritable ho
  obtain ⟨oam, -, hwrite⟩ := m.writeIo_eq o v
  have hread (m : Memory) : m.readIo o = ioShown o (m.io.get o) := by
    rcases hregister with hr | hr <;> simp only [readIo, hr]
  rw [hread, hread, hwrite]
  rcases hbits with hwritable | hones
  · rw [ioWritten_of_ioWritable_eq_zero hwritable]
    exact congrArg (ioShown o) (Vector.getElem_set_self _)
  · rw [ioShown_of_ioOnes_eq_allOnes hones, ioShown_of_ioOnes_eq_allOnes hones]

/-- A place at which nothing can be written belongs to the I/O page, or a write there is lost. -/
theorem writeLocation_eq_self_or_of_mem_unwritable (m : Memory) {a : UInt16} (ha : a ∈ unwritable)
    (v : UInt8) : m.writeLocation (m.resolve a) v = m ∨ ∃ o, m.resolve a = ⟨.io, o⟩ := by
  have haddress : (m.resolve a).HasAddress a := hasAddress_locate m.bootMapped a
  generalize m.resolve a = l at haddress
  obtain ⟨r, o⟩ := l
  have ho := o.isLt
  simp only [unwritable, noRegister, Set.mem_ofPred_eq, UInt16.le_iff_toNat_le, ← UInt16.toNat_inj,
    UInt16.reduceToNat] at ha
  rcases haddress with haddress | ⟨rfl, hecho, haddress⟩
  · cases r with
    | bootRom | rom0 | rom1 | externalRam | unusable => exact .inl rfl
    | io => exact .inr ⟨o, rfl⟩
    | vram | wram | oam | hram | ie =>
      simp only [Region.start, Region.size] at haddress ho
      omega
  · simp only at haddress hecho
    omega

/-! ### Reads after writes, by address -/

section UsualMode

variable {m : Memory} (hmode : m.isFlat = false) {a b : UInt16}

include hmode

/-- A write does not change the place of an address, except that the lock of the boot ROM unmaps the
first page. -/
theorem resolve_write8 (hb : a = 0xFF50 → 0x00FF < b) (v : UInt8) :
    (m.write8 a v).resolve b = m.resolve b := by
  by_cases ha : a = 0xFF50
  · exact locate_eq_of_le _ _ (UInt16.lt_iff_toNat_lt.mp (hb ha))
  · rw [resolve, bootMapped_write8 hmode, decide_eq_true ha, Bool.and_true, resolve]

theorem resolve_write8_self (v : UInt8) : (m.write8 a v).resolve a = m.resolve a := by
  refine resolve_write8 hmode ?_ v
  rintro rfl
  decide

/-- A write is not seen outside of its address and its footprint. -/
theorem read8_write8_of_not_mem_footprint (hne : b ≠ a) (hfoot : b ∉ footprint a) (v : UInt8) :
    (m.write8 a v).read8 b = m.read8 b := by
  have hmode' : (m.write8 a v).isFlat = false := (m.isFlat_write8 a v).trans hmode
  have houtside := hfoot
  simp only [footprint, Set.mem_ofPred_eq, not_or, not_and, UInt16.not_le] at houtside
  obtain ⟨-, -, -, -, htransfer, hfirst⟩ := houtside
  rw [read8_of_not_isFlat hmode', resolve_write8 hmode hfirst, read8_of_not_isFlat hmode,
    write8_of_not_isFlat hmode]
  rcases hplace : m.resolve a with ⟨r, o⟩
  cases r with
  | bootRom | rom0 | rom1 | externalRam | unusable => rfl
  | vram | wram | oam | hram | ie =>
    rw [readLocation_writeLocation m rfl, if_neg]
    rw [← hplace]
    intro hshared
    rcases eq_or_echo_of_locate_eq hshared with h | h | h
    · exact hne h
    · exact hfoot (.inl h)
    · exact hfoot (.inr (.inl h))
  | io =>
    obtain rfl : a = ioAddress o := locate_eq_io_iff.mp hplace
    rcases hplace' : m.resolve b with ⟨r', o'⟩
    by_cases hio : r' = .io
    · subst hio
      obtain rfl : b = ioAddress o' := locate_eq_io_iff.mp hplace'
      exact readIo_writeIo_of_ne (fun h => hne (congrArg ioAddress h)) hfoot m v
    · refine readLocation_writeIo m v hio ?_
      rintro hdma rfl
      have haddress : b.toNat = 0xFE00 + o'.val := toNat_of_locate_eq_oam hplace'
      have ho' : o'.val < 0xA0 := o'.isLt
      have hhigh := UInt16.lt_iff_toNat_lt.mp
        (htransfer hdma (UInt16.le_iff_toNat_le.mpr (by rw [haddress]; exact Nat.le_add_right _ _)))
      rw [haddress] at hhigh
      exact absurd hhigh (by simp only [UInt16.reduceToNat]; omega)

/-- What is written to a memory can be read there. -/
theorem read8_write8_of_mem_storage (ha : a ∈ storage) (v : UInt8) :
    (m.write8 a v).read8 a = v := by
  have hmode' : (m.write8 a v).isFlat = false := (m.isFlat_write8 a v).trans hmode
  have hstores : (m.resolve a).region.stores = true := stores_of_mem_storage m.bootMapped ha
  rw [read8_of_not_isFlat hmode', resolve_write8_self hmode, write8_of_not_isFlat hmode,
    readLocation_writeLocation m hstores, if_pos rfl]

/-- Where nothing can be written, a write is not seen either. -/
theorem read8_write8_of_mem_unwritable (ha : a ∈ unwritable) (v : UInt8) :
    (m.write8 a v).read8 a = m.read8 a := by
  have hmode' : (m.write8 a v).isFlat = false := (m.isFlat_write8 a v).trans hmode
  rw [read8_of_not_isFlat hmode', resolve_write8_self hmode, read8_of_not_isFlat hmode,
    write8_of_not_isFlat hmode]
  rcases m.writeLocation_eq_self_or_of_mem_unwritable ha v with hlost | ⟨o, ho⟩
  · rw [hlost]
  · obtain rfl : a = ioAddress o := locate_eq_io_iff.mp ho
    rw [ho]
    exact readIo_writeIo_of_mem_unwritable ha m v

/-- A word that is written to a memory can be read there: its second byte does not touch the first
one. -/
theorem read16_write16_of_mem_storage (ha : a ∈ storage) (hnext : a + 1 ∈ storage) (w : UInt16) :
    (m.write16 a w).read16 a = w := by
  have hmode' : (m.write8 a (lowByte w)).isFlat = false :=
    (m.isFlat_write8 a _).trans hmode
  rw [write16, read16, read8_write8_of_mem_storage hmode' hnext,
    read8_write8_of_not_mem_footprint hmode' (ne_add_one a) (not_mem_footprint_add_one hnext),
    read8_write8_of_mem_storage hmode ha, word_highByte_lowByte]

end UsualMode

end Memory

/-- **The law of the address map.** In the usual mode a write is seen at its own address and at
those of its footprint only. Where a memory answers (video RAM, work RAM and its echo, OAM, high RAM
and `IE`) what was written is read; where nothing can be written (ROM, external RAM, the gap behind
OAM, `LY`, and the I/O page without a register) the same is read as before. So a word that is
written to a memory is read there. -/
theorem memory_map_law {m : Memory} (hmode : m.isFlat = false) (a : UInt16) (v : UInt8) :
    (∀ b, b ≠ a → b ∉ footprint a → (m.write8 a v).read8 b = m.read8 b) ∧
    (a ∈ storage → (m.write8 a v).read8 a = v) ∧
    (a ∈ unwritable → (m.write8 a v).read8 a = m.read8 a) ∧
    (∀ w, a ∈ storage → a + 1 ∈ storage → (m.write16 a w).read16 a = w) :=
  ⟨fun _ hne hfoot => Memory.read8_write8_of_not_mem_footprint hmode hne hfoot v,
    fun ha => Memory.read8_write8_of_mem_storage hmode ha v,
    fun ha => Memory.read8_write8_of_mem_unwritable hmode ha v,
    fun w ha hnext => Memory.read16_write16_of_mem_storage hmode ha hnext w⟩

/-- At power-on a word can be written across the end of work RAM into its echo, a transfer to OAM
does not touch the counter of the timer, and `LY` cannot be written. -/
theorem word_is_read_across_end_of_wram :
    let m : Memory := {}
    m.isFlat = false ∧
      ((0xDFFF : UInt16) ∈ storage ∧ (0xDFFF : UInt16) + 1 ∈ storage ∧
        (m.write16 0xDFFF 0x1234).read16 0xDFFF = 0x1234) ∧
      ((0xFF05 : UInt16) ≠ 0xFF46 ∧ (0xFF05 : UInt16) ∉ footprint 0xFF46 ∧
        (m.write8 0xFF46 0xC0).read8 0xFF05 = m.read8 0xFF05) ∧
      ((0xFF44 : UInt16) ∈ unwritable ∧ (m.write8 0xFF44 0x90).read8 0xFF44 = m.read8 0xFF44) := by
  intro m
  have hmode : m.isFlat = false := rfl
  have hword : (0xDFFF : UInt16) ∈ storage ∧ (0xDFFF : UInt16) + 1 ∈ storage := by decide
  have hcounter : (0xFF05 : UInt16) ≠ 0xFF46 ∧ (0xFF05 : UInt16) ∉ footprint 0xFF46 := by decide
  have hly : (0xFF44 : UInt16) ∈ unwritable := by decide
  refine ⟨hmode, ⟨hword.1, hword.2, ?_⟩, ⟨hcounter.1, hcounter.2, ?_⟩, hly, ?_⟩
  · exact (memory_map_law hmode 0xDFFF 0x00).2.2.2 0x1234 hword.1 hword.2
  · exact (memory_map_law hmode 0xFF46 0xC0).1 0xFF05 hcounter.1 hcounter.2
  · exact (memory_map_law hmode 0xFF44 0x90).2.2.1 hly

end Sm83
