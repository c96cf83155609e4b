import Sm83.Proofs.Memory.ReadWrite

/-!
# Slices of memory

The bytes that are stored from an address to the end of its region can be had in one slice, without
a read of each of them. As a rule the slice shows what reads show. The echo of work RAM is an
exception: it is shorter than work RAM, but a slice that begins in it goes on to the end of work
RAM. So it reaches over addresses to which the echo does not extend, up to the end of memory.

## Main definitions

* `deviceAddresses` — the addresses at which devices answer.

## Main results

* `Memory.getElem_of_backing?` — the bytes of a slice are those of the places in its region.
* `Memory.getElem_eq_read8`, `Memory.getElem_eq_read8_of_mem_echo` — the bytes of a slice as reads.
* `Memory.backing?_eq_none_iff` — the addresses without a slice.
* `slice_shows_reads_iff` — which slices show what reads show.
-/

namespace Sm83

/-- The addresses at which devices answer: the I/O page and `IE`. -/
def deviceAddresses : Set UInt16 :=
  {a | 0xFF00 ≤ a ∧ a ≤ 0xFF7F ∨ a = 0xFFFF}

instance : DecidablePred (· ∈ deviceAddresses) := fun _ => inferInstanceAs (Decidable (_ ∨ _))

theorem mem_deviceAddresses_iff {a : UInt16} :
    a ∈ deviceAddresses ↔ 0xFF00 ≤ a.toNat ∧ a.toNat < 0xFF80 ∨ a.toNat = 0xFFFF := by
  simp only [deviceAddresses, Set.mem_ofPred_eq, UInt16.le_iff_toNat_le, ← UInt16.toNat_inj,
    UInt16.reduceToNat]
  omega

/-- Where the echo ends work RAM still goes on. -/
theorem add_eq_of_mem_echo {a : UInt16} (ha : a ∈ echo) (j : Nat) :
    a - 0x2000 + .ofNat (0xFE00 - a.toNat + j) = 0xDE00 + .ofNat j ∧
      a + .ofNat (0xFE00 - a.toNat + j) = 0xFE00 + .ofNat j := by
  have hbounds := mem_echo_iff.mp ha
  simp only [← UInt16.toNat_inj, UInt16.toNat_add, UInt16.toNat_sub, UInt16.toNat_ofNat',
    UInt16.reduceToNat]
  omega

namespace Memory

variable {m : Memory} {addr : UInt16} {s : Array UInt8}

/-! ### Flat mode -/

/-- In flat mode a slice goes on to the end of memory. -/
theorem add_size_of_isFlat (hmode : m.isFlat = true) (hs : m.backing? addr = some s) :
    addr.toNat + s.size = 0x10000 := by
  obtain ⟨ram, hram⟩ := Option.isSome_iff_exists.mp hmode
  simp only [backing?, hram, Option.some.injEq] at hs
  have haddr := addr.toNat_lt
  rw [← hs, Array.size_extract, Vector.size_toArray]
  omega

theorem getElem_of_isFlat (hmode : m.isFlat = true) (hs : m.backing? addr = some s) {i : Nat}
    (hi : i < s.size) : s[i] = m.read8 (addr + .ofNat i) := by
  have hsize := add_size_of_isFlat hmode hs
  have hsum : (addr + .ofNat i).toNat = addr.toNat + i := toNat_add_ofNat (by omega)
  obtain ⟨ram, hram⟩ := Option.isSome_iff_exists.mp hmode
  simp only [backing?, hram, Option.some.injEq] at hs
  subst hs
  simp only [read8, hram, Array.getElem_extract, Vector.getElem_toArray]
  exact getElem_congr_idx hsum.symm

/-! ### Slices of regions -/

section UsualMode

variable (hmode : m.isFlat = false)

include hmode

/-- The bytes of a slice are those of the places that follow in its region. -/
theorem getElem_of_backing? (hs : m.backing? addr = some s) {i : Nat} (hi : i < s.size) :
    ∃ h : (m.resolve addr).offset.val + i < (m.resolve addr).region.size,
      s[i] = m.readLocation ⟨(m.resolve addr).region, ⟨(m.resolve addr).offset.val + i, h⟩⟩ := by
  simp only [backing?, flat_of_not_isFlat hmode] at hs
  generalize m.resolve addr = l at hs ⊢
  obtain ⟨r, o⟩ := l
  have ho := o.isLt
  cases r with
  | bootRom =>
    have hbound := m.boot.size_le
    simp only at hs
    split_ifs at hs
    obtain rfl := Option.some.inj hs
    rw [Array.size_extract] at hi
    refine ⟨by simp only [Region.size]; omega, ?_⟩
    have hin : o.val + i < m.boot.bytes.size := by omega
    simp [readLocation, Image.read, hin]
  | rom0 | rom1 =>
    obtain rfl := Option.some.inj hs
    simp only [bankFrom, Array.size_ofFn] at hi
    refine ⟨by simp only [Region.size]; omega, ?_⟩
    simp [bankFrom, readLocation, Nat.add_assoc]
  | vram | wram | oam | hram =>
    obtain rfl := Option.some.inj hs
    rw [Array.size_extract, Vector.size_toArray] at hi
    refine ⟨by simp only [Region.size]; omega, ?_⟩
    simp [readLocation]
  | externalRam | unusable | io | ie => cases hs

/-- A slice of work RAM goes on to the end of work RAM. -/
theorem size_of_wram {o : Fin 0x2000} (hplace : m.resolve addr = ⟨.wram, o⟩)
    (hs : m.backing? addr = some s) : s.size = 0x2000 - o.val := by
  simp only [backing?, flat_of_not_isFlat hmode, hplace, Option.some.injEq] at hs
  rw [← hs, Array.size_extract, Vector.size_toArray, Nat.min_self]

/-- There are slices but of external RAM, the gap behind OAM, and devices; and none begins in the
first page behind the end of a short boot ROM. -/
theorem backing?_eq_none_iff : m.backing? addr = none ↔
    (0xA000 ≤ addr ∧ addr ≤ 0xBFFF) ∨ (0xFEA0 ≤ addr ∧ addr ≤ 0xFEFF) ∨ addr ∈ deviceAddresses ∨
      m.bootMapped = true ∧ addr < 0x100 ∧ m.boot.bytes.size < addr.toNat := by
  have haddress : (m.resolve addr).HasAddress addr := hasAddress_locate m.bootMapped addr
  have hboot := region_locate_eq_bootRom_iff m.bootMapped addr
  simp only [backing?, flat_of_not_isFlat hmode, mem_deviceAddresses_iff, UInt16.le_iff_toNat_le,
    UInt16.lt_iff_toNat_lt, UInt16.reduceToNat]
  change (m.resolve addr).region = .bootRom ↔ _ at hboot
  generalize m.resolve addr = l at haddress hboot ⊢
  obtain ⟨r, o⟩ := l
  have ho := o.isLt
  rcases haddress with haddress | ⟨rfl, hlow, haddress⟩
  · simp only at haddress hboot
    cases r with
    | bootRom =>
      simp only [Region.start, Region.size, true_iff] at haddress ho hboot
      simp only [ite_eq_right_iff, reduceCtorEq, imp_false, hboot.1, true_and]
      omega
    | rom0 | rom1 | vram | wram | oam | hram =>
      simp only [Region.start, Region.size, reduceCtorEq, false_iff, not_and] at haddress ho hboot
      refine iff_of_false (by simp) ?_
      rintro (h | h | h | ⟨hmapped, hlow, -⟩)
      · omega
      · omega
      · omega
      · exact hboot hmapped hlow
    | externalRam | unusable | io | ie =>
      simp only [Region.start, Region.size] at haddress ho
      exact iff_of_true rfl (by omega)
  · simp only [Region.size] at haddress hlow ho
    exact iff_of_false (by simp) (by omega)

/-- A slice ends within memory. -/
theorem add_size_le (hs : m.backing? addr = some s) : addr.toNat + s.size ≤ 0x10000 := by
  have haddr := addr.toNat_lt
  rcases Nat.eq_zero_or_pos s.size with hnone | hpos
  · omega
  · -- the last byte belongs to the region, and the region ends within memory
    obtain ⟨hlast, -⟩ := getElem_of_backing? hmode hs (Nat.sub_lt hpos Nat.one_pos)
    have haddress : (m.resolve addr).HasAddress addr := hasAddress_locate m.bootMapped addr
    generalize m.resolve addr = l at hlast haddress
    have hend := l.region.start_add_size_le
    rcases haddress with haddress | ⟨hwram, -, haddress⟩
    · omega
    · have hsize : l.region.size = 0x2000 := by rw [hwram]
      omega

/-! ### Slices and reads -/

/-- Outside of the echo a slice shows what reads show. -/
theorem getElem_eq_read8 (hecho : addr ∉ echo) (hs : m.backing? addr = some s) {i : Nat}
    (hi : i < s.size) : s[i] = m.read8 (addr + .ofNat i) := by
  obtain ⟨hin, hbyte⟩ := getElem_of_backing? hmode hs hi
  have hplace : m.resolve (addr + .ofNat i) = _ := locate_add hecho hin
  rw [hbyte, read8_of_not_isFlat hmode, hplace]
  rfl

/-- Outside of the echo no slice reaches devices. -/
theorem add_notMem_deviceAddresses (hecho : addr ∉ echo) (hs : m.backing? addr = some s) {i : Nat}
    (hi : i < s.size) : addr + .ofNat i ∉ deviceAddresses := by
  intro hdevice
  obtain ⟨hin, -⟩ := getElem_of_backing? hmode hs hi
  have hsome : ¬ m.backing? addr = none := by simp [hs]
  rw [backing?_eq_none_iff hmode] at hsome
  have haddress : addr.toNat = (m.resolve addr).region.start + (m.resolve addr).offset.val :=
    toNat_of_notMem_echo m.bootMapped hecho
  have hbound := add_size_le hmode hs
  have hsum : (addr + .ofNat i).toNat = addr.toNat + i := toNat_add_ofNat (by omega)
  simp only [mem_deviceAddresses_iff, hsum] at hdevice hsome
  generalize m.resolve addr = l at hin haddress
  obtain ⟨r, o⟩ := l
  cases r <;> simp only [Region.start, Region.size] at hin haddress <;> omega

/-! ### Slices of the echo -/

theorem read8_of_wram {a : UInt16} {o : Fin 0x2000} (ha : a.toNat = 0xC000 + o.val) :
    m.read8 a = m.readLocation ⟨.wram, o⟩ := by
  have hplace : m.resolve a = ⟨.wram, o⟩ :=
    locate_eq_of_toNat_eq (iff_of_false Region.noConfusion (by omega)) ha
  rw [read8_of_not_isFlat hmode, hplace]

/-- The echo shows what work RAM shows. -/
theorem read8_of_mem_echo {a : UInt16} (ha : a ∈ echo) : m.read8 a = m.read8 (a - 0x2000) := by
  obtain ⟨o, hplace, haddress⟩ := locate_of_mem_echo m.bootMapped ha
  have hdown : (a - 0x2000).toNat = 0xC000 + o.val := by
    simp only [UInt16.toNat_sub, UInt16.reduceToNat, haddress]
    omega
  rw [read8_of_wram hmode hdown, read8_of_not_isFlat hmode]
  exact congrArg m.readLocation hplace

/-- A slice that begins in the echo goes on to the end of memory. -/
theorem add_size_of_mem_echo (hecho : addr ∈ echo) (hs : m.backing? addr = some s) :
    addr.toNat + s.size = 0x10000 := by
  obtain ⟨o, hplace, haddress⟩ := locate_of_mem_echo m.bootMapped hecho
  have hsize := size_of_wram hmode hplace hs
  omega

/-- A slice that begins in the echo shows work RAM, behind the end of the echo as well. -/
theorem getElem_eq_read8_of_mem_echo (hecho : addr ∈ echo) (hs : m.backing? addr = some s) {i : Nat}
    (hi : i < s.size) : s[i] = m.read8 (addr - 0x2000 + .ofNat i) := by
  obtain ⟨o, hplace, haddress⟩ := locate_of_mem_echo m.bootMapped hecho
  have hplace : m.resolve addr = ⟨.wram, o⟩ := hplace
  obtain ⟨hin, hbyte⟩ : ∃ h : o.val + i < 0x2000,
      s[i] = m.readLocation ⟨.wram, ⟨o.val + i, h⟩⟩ := by
    have hbyte := getElem_of_backing? hmode hs hi
    generalize m.resolve addr = l at hplace hbyte
    subst hplace
    exact hbyte
  have hsum : (addr - 0x2000 + .ofNat i).toNat = 0xC000 + (o.val + i) := by
    rw [UInt16.toNat_add, UInt16.toNat_sub, UInt16.toNat_ofNat', haddress]
    simp only [UInt16.reduceToNat]
    omega
  exact hbyte.trans (read8_of_wram hmode (o := ⟨o.val + i, hin⟩) hsum).symm

/-- A slice that begins in the echo shows what reads show exactly if the end of work RAM, which the
echo leaves out, happens to hold what is read at the end of memory. -/
theorem getElem_eq_read8_iff_of_mem_echo (hecho : addr ∈ echo) (hs : m.backing? addr = some s) :
    (∀ i (hi : i < s.size), s[i] = m.read8 (addr + .ofNat i)) ↔
      ∀ j < 0x200, m.read8 (0xDE00 + .ofNat j) = m.read8 (0xFE00 + .ofNat j) := by
  have hsize := add_size_of_mem_echo hmode hecho hs
  have hbounds := mem_echo_iff.mp hecho
  constructor
  · intro h j hj
    have hi : 0xFE00 - addr.toNat + j < s.size := by omega
    obtain ⟨hlow, hhigh⟩ := add_eq_of_mem_echo hecho j
    rw [← hlow, ← hhigh, ← h _ hi, getElem_eq_read8_of_mem_echo hmode hecho hs hi]
  · intro h i hi
    rw [getElem_eq_read8_of_mem_echo hmode hecho hs hi]
    rcases Nat.lt_or_ge (addr.toNat + i) 0xFE00 with hin | hpast
    · have hsum : (addr + .ofNat i).toNat = addr.toNat + i := toNat_add_ofNat (by omega)
      have hdown : addr + .ofNat i - 0x2000 = addr - 0x2000 + .ofNat i := by grind
      rw [read8_of_mem_echo hmode (a := addr + .ofNat i) (mem_echo_iff.mpr (by omega)), hdown]
    · obtain ⟨j, rfl⟩ := Nat.exists_eq_add_of_le (show 0xFE00 - addr.toNat ≤ i by omega)
      obtain ⟨hlow, hhigh⟩ := add_eq_of_mem_echo hecho j
      rw [hlow, hhigh]
      exact h j (by omega)

end UsualMode

end Memory

/-- **Slices of memory.** In flat mode every address has a slice; in the usual mode external RAM,
the gap behind OAM and the devices have none, nor do addresses of the first page behind the end of a
short boot ROM. A slice ends within memory. Its bytes are what is read at the addresses from its own
on, if the mode is flat or the slice does not begin in the echo of work RAM; if it does, that is so
only if the last 512 bytes of work RAM are what is read at the last 512 addresses. In the usual mode
a slice reaches an address at which a device answers exactly if it begins in the echo. -/
theorem slice_shows_reads_iff (m : Memory) (addr : UInt16) :
    (m.backing? addr = none ↔ m.isFlat = false ∧
      ((0xA000 ≤ addr ∧ addr ≤ 0xBFFF) ∨ (0xFEA0 ≤ addr ∧ addr ≤ 0xFEFF) ∨
        addr ∈ deviceAddresses ∨
        m.bootMapped = true ∧ addr < 0x100 ∧ m.boot.bytes.size < addr.toNat)) ∧
    ∀ s, m.backing? addr = some s →
      addr.toNat + s.size ≤ 0x10000 ∧
      ((∀ i (hi : i < s.size), s[i] = m.read8 (addr + .ofNat i)) ↔
        m.isFlat = true ∨ addr ∉ echo ∨
          ∀ j < 0x200, m.read8 (0xDE00 + .ofNat j) = m.read8 (0xFE00 + .ofNat j)) ∧
      (m.isFlat = false →
        ((∀ i < s.size, addr + .ofNat i ∉ deviceAddresses) ↔ addr ∉ echo)) := by
  cases hmode : m.isFlat with
  | true =>
    obtain ⟨ram, hram⟩ := Option.isSome_iff_exists.mp hmode
    refine ⟨iff_of_false (by simp [Memory.backing?, hram]) (by simp), fun s hs =>
      ⟨(Memory.add_size_of_isFlat hmode hs).le, ?_, nofun⟩⟩
    exact iff_of_true (fun i hi => Memory.getElem_of_isFlat hmode hs hi) (.inl rfl)
  | false =>
    refine ⟨by simpa using Memory.backing?_eq_none_iff hmode, fun s hs =>
      ⟨Memory.add_size_le hmode hs, ?_, fun _ => ?_⟩⟩
    · by_cases hecho : addr ∈ echo
      · simpa [hecho] using Memory.getElem_eq_read8_iff_of_mem_echo hmode hecho hs
      · exact iff_of_true (fun i hi => Memory.getElem_eq_read8 hmode hecho hs hi)
          (.inr (.inl hecho))
    · refine ⟨fun h hecho => ?_, fun hecho i hi =>
        Memory.add_notMem_deviceAddresses hmode hecho hs hi⟩
      -- the slice goes on to the end of memory, and so over the I/O page
      have hsize := Memory.add_size_of_mem_echo hmode hecho hs
      have hbounds := mem_echo_iff.mp hecho
      refine h (0xFF00 - addr.toNat) (by omega) (mem_deviceAddresses_iff.mpr (.inl ?_))
      rw [toNat_add_ofNat (by omega)]
      omega

/-- The last two bytes of high RAM are a slice, and it ends before `IE`. -/
theorem slice_of_end_of_high_ram :
    let m : Memory := {}
    m.backing? 0xFFFD = some #[0x00, 0x00] ∧ m.isFlat = false ∧
      (∀ i (hi : i < 2), (#[0x00, 0x00] : Array UInt8)[i] = m.read8 (0xFFFD + .ofNat i)) ∧
      ∀ i < 2, 0xFFFD + .ofNat i ∉ deviceAddresses := by
  intro m
  have hs : m.backing? 0xFFFD = some #[0x00, 0x00] := by decide +kernel
  have hecho : (0xFFFD : UInt16) ∉ echo := fun h => absurd (mem_echo_iff.mp h) (by decide)
  obtain ⟨-, hreads, hdevices⟩ := (slice_shows_reads_iff m 0xFFFD).2 _ hs
  exact ⟨hs, rfl, hreads.mpr (.inr (.inl hecho)), (hdevices rfl).mpr hecho⟩

/-- The slice at the last address of the echo is not one byte long. It goes on to the end of memory,
over the I/O page, and its second byte is the one at `DE00` and not the one of OAM that is read. -/
theorem slice_runs_over_end_of_echo :
    let m : Memory := ({} : Memory).write8 0xDE00 0x77
    ∃ s : Array UInt8, m.backing? 0xFDFF = some s ∧ s.size = 0x201 ∧
      s[1]? = some 0x77 ∧ m.read8 (0xFDFF + 1) = 0x00 ∧
      (0xFDFF + .ofNat 0x101 : UInt16) ∈ deviceAddresses := by
  intro m
  have hmode : m.isFlat = false := Memory.isFlat_write8 _ _ _
  have hecho : (0xFDFF : UInt16) ∈ echo := mem_echo_iff.mpr (by decide)
  have hsome : m.backing? 0xFDFF ≠ none := by
    rw [ne_eq, Memory.backing?_eq_none_iff hmode, mem_deviceAddresses_iff]
    intro h
    simp [UInt16.le_iff_toNat_le, UInt16.lt_iff_toNat_lt] at h
  obtain ⟨s, hs⟩ := Option.ne_none_iff_exists'.mp hsome
  have hsize : s.size = 0x201 := by
    have hend := Memory.add_size_of_mem_echo hmode hecho hs
    have haddr : (0xFDFF : UInt16).toNat = 0xFDFF := rfl
    omega
  have hbyte : s[1] = 0x77 := by
    rw [Memory.getElem_eq_read8_of_mem_echo hmode hecho hs]
    exact Memory.read8_write8_of_mem_storage (a := 0xDE00) rfl (by decide) 0x77
  have hoam : m.read8 (0xFDFF + 1) = ({} : Memory).read8 0xFE00 :=
    Memory.read8_write8_of_not_mem_footprint rfl (by decide) (by decide) 0x77
  exact ⟨s, hs, hsize, Array.getElem?_eq_some_iff.mpr ⟨by omega, hbyte⟩, hoam.trans (by decide),
    mem_deviceAddresses_iff.mpr (by decide)⟩

end Sm83
