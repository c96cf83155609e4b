import Mathlib.Data.Set.Insert
import Mathlib.Tactic.ByContra
import Sm83.Memory.Region

/-!
# The address map, read backwards

An address lies at its offset from the start of its region or, in the echo of work RAM, as far from
the start of the echo. So two addresses share a place only if one is the echo of the other, and
outside of the echo the addresses of a region follow one another as its offsets do. The boot ROM
covers the first page alone, and the I/O page is found at the same addresses with and without it.

## Main definitions

* `Region.start` — the lowest address of a region.
* `Location.HasAddress` — the addresses of a place.
* `echo` — the addresses of the echo of work RAM.
* `ioAddress` — the address of an offset of the I/O page.

## Main results

* `hasAddress_locate` — every address is one of its place.
* `eq_or_echo_of_locate_eq` — the addresses that share a place.
* `locate_eq_of_le` — the boot ROM covers the first page alone.
* `locate_eq_of_toNat_eq`, `locate_add`, `locate_of_mem_echo` — the place of an address, by its
  distance from the start of a region or of the echo.
* `locate_eq_io_iff` — the addresses of the I/O page.
-/

namespace Sm83

/-- The lowest address of a region. -/
def Region.start : Region → Nat
  | bootRom => 0x0000
  | rom0 => 0x0000
  | rom1 => 0x4000
  | vram => 0x8000
  | externalRam => 0xA000
  | wram => 0xC000
  | oam => 0xFE00
  | unusable => 0xFEA0
  | io => 0xFF00
  | hram => 0xFF80
  | ie => 0xFFFF

/-! ### The addresses of a place -/

/-- The addresses of a place: the start of its region and its offset, and the echo of work RAM. -/
def Location.HasAddress (l : Location) (a : UInt16) : Prop :=
  a.toNat = l.region.start + l.offset.val ∨
    l.region = .wram ∧ l.offset.val < 0x1E00 ∧ a.toNat = 0xE000 + l.offset.val

/-- Every address is one of its place. -/
theorem hasAddress_locate (bootMapped : Bool) (a : UInt16) :
    (locate bootMapped a).HasAddress a := by
  have ha : a.toNat < 0x10000 := a.toNat_lt
  have hsub {s : Nat} (h : ¬ a.toNat < s) : a.toNat = s + (a.toNat - s) :=
    (Nat.add_sub_cancel' (Nat.not_lt.mp h)).symm
  unfold locate
  dsimp only
  by_cases h₀ : bootMapped = true ∧ a.toNat < 0x100
  · rw [dif_pos h₀]
    exact .inl (Nat.zero_add _).symm
  rw [dif_neg h₀]
  by_cases h₁ : a.toNat < 0x4000
  · rw [dif_pos h₁]
    exact .inl (Nat.zero_add _).symm
  rw [dif_neg h₁]
  by_cases h₂ : a.toNat < 0x8000
  · rw [dif_pos h₂]
    exact .inl (hsub h₁)
  rw [dif_neg h₂]
  by_cases h₃ : a.toNat < 0xA000
  · rw [dif_pos h₃]
    exact .inl (hsub h₂)
  rw [dif_neg h₃]
  by_cases h₄ : a.toNat < 0xC000
  · rw [dif_pos h₄]
    exact .inl (hsub h₃)
  rw [dif_neg h₄]
  by_cases h₅ : a.toNat < 0xE000
  · rw [dif_pos h₅]
    exact .inl (hsub h₄)
  rw [dif_neg h₅]
  by_cases h₆ : a.toNat < 0xFE00
  · rw [dif_pos h₆]
    exact .inr ⟨rfl, Nat.sub_lt_right_of_lt_add (Nat.not_lt.mp h₅) h₆, hsub h₅⟩
  rw [dif_neg h₆]
  by_cases h₇ : a.toNat < 0xFEA0
  · rw [dif_pos h₇]
    exact .inl (hsub h₆)
  rw [dif_neg h₇]
  by_cases h₈ : a.toNat < 0xFF00
  · rw [dif_pos h₈]
    exact .inl (hsub h₇)
  rw [dif_neg h₈]
  by_cases h₉ : a.toNat < 0xFF80
  · rw [dif_pos h₉]
    exact .inl (hsub h₈)
  rw [dif_neg h₉]
  by_cases h₁₀ : a.toNat < 0xFFFF
  · rw [dif_pos h₁₀]
    exact .inl (hsub h₉)
  rw [dif_neg h₁₀]
  exact .inl (Nat.le_antisymm (Nat.le_of_lt_succ ha) (Nat.not_lt.mp h₁₀))

/-- Two addresses share a place only if one is the echo of the other. -/
theorem eq_or_echo_of_locate_eq {bootMapped : Bool} {a b : UInt16}
    (h : locate bootMapped b = locate bootMapped a) :
    b = a ∨ (0xC000 ≤ a ∧ a ≤ 0xDDFF) ∧ b = a + 0x2000 ∨
      (0xE000 ≤ a ∧ a ≤ 0xFDFF) ∧ b = a - 0x2000 := by
  have ha := hasAddress_locate bootMapped a
  have hb := hasAddress_locate bootMapped b
  rw [h] at hb
  generalize locate bootMapped a = l at ha hb
  obtain ⟨r, o⟩ := l
  simp only [← UInt16.toNat_inj, UInt16.le_iff_toNat_le, UInt16.toNat_add, UInt16.toNat_sub,
    UInt16.reduceToNat]
  rcases ha with ha | ⟨rfl, hlow, ha⟩
  · rcases hb with hb | ⟨rfl, hlow, hb⟩
    · exact .inl (hb.trans ha.symm)
    · simp only [Region.start] at ha hlow hb
      omega
  · rcases hb with hb | ⟨-, -, hb⟩
    · simp only [Region.start] at hb hlow ha
      omega
    · exact .inl (hb.trans ha.symm)

/-- The boot ROM covers the first page alone. -/
theorem locate_eq_of_le (bootMapped bootMapped' : Bool) {a : UInt16} (ha : 0x100 ≤ a.toNat) :
    locate bootMapped a = locate bootMapped' a := by
  have hfirst (b : Bool) : ¬ (b = true ∧ a.toNat < 0x100) := fun h => Nat.not_lt.mpr ha h.2
  unfold locate
  dsimp only
  rw [dif_neg (hfirst bootMapped), dif_neg (hfirst bootMapped')]

/-! ### Regions side by side -/

theorem Region.start_add_size_le (r : Region) : r.start + r.size ≤ 0x10000 := by
  cases r <;> decide

/-- Regions do not overlap, but that the boot ROM covers a part of another one. -/
theorem Region.le_start_or_le_start {r r' : Region} (hr : r ≠ bootRom) (hr' : r' ≠ bootRom)
    (hne : r ≠ r') : r.start + r.size ≤ r'.start ∨ r'.start + r'.size ≤ r.start := by
  revert hr hr' hne
  cases r <;> cases r' <;> decide

/-- No region begins or ends in the echo of work RAM. -/
theorem Region.le_echo_or_echo_le (r : Region) :
    r.start + r.size ≤ 0xE000 ∨ 0xFE00 ≤ r.start := by
  cases r <;> decide

/-- The boot ROM covers the first page while it is mapped. -/
theorem region_locate_eq_bootRom_iff (bootMapped : Bool) (a : UInt16) :
    (locate bootMapped a).region = .bootRom ↔ bootMapped = true ∧ a.toNat < 0x100 := by
  constructor
  · intro hregion
    have haddress := hasAddress_locate bootMapped a
    rcases hplace : locate bootMapped a with ⟨r, o⟩
    rw [hplace] at hregion haddress
    obtain rfl : r = .bootRom := hregion
    have ho : o.val < 0x100 := o.isLt
    have hlow : a.toNat < 0x100 := by
      rcases haddress with haddress | ⟨hwram, -⟩
      · simp only [Region.start] at haddress
        omega
      · cases hwram
    cases bootMapped with
    | true => exact ⟨rfl, hlow⟩
    | false =>
      have hrom : (locate false a).region = .rom0 := by
        unfold locate
        dsimp only
        rw [dif_neg (fun h => Bool.false_ne_true h.1), dif_pos (by omega)]
      rw [hplace] at hrom
      cases hrom
  · intro h
    unfold locate
    dsimp only
    rw [dif_pos h]

/-- An address at an offset from the start of a region has that place, where the boot ROM does not
cover it. -/
theorem locate_eq_of_toNat_eq {bootMapped : Bool} {a : UInt16} {r : Region} {o : Fin r.size}
    (hboot : r = .bootRom ↔ bootMapped = true ∧ a.toNat < 0x100)
    (ha : a.toNat = r.start + o.val) : locate bootMapped a = ⟨r, o⟩ := by
  have hboot' := region_locate_eq_bootRom_iff bootMapped a
  have haddress := hasAddress_locate bootMapped a
  generalize locate bootMapped a = l at hboot' haddress
  obtain ⟨r', o'⟩ := l
  have ho := o.isLt
  have ho' := o'.isLt
  have hecho := r.le_echo_or_echo_le
  rcases haddress with haddress | ⟨-, hlow, haddress⟩
  · simp only at haddress hboot'
    obtain rfl : r = r' := by
      by_contra hne
      by_cases hcovered : bootMapped = true ∧ a.toNat < 0x100
      · exact hne ((hboot.mpr hcovered).trans (hboot'.mpr hcovered).symm)
      · have hapart :=
          Region.le_start_or_le_start (mt hboot.mp hcovered) (mt hboot'.mp hcovered) hne
        omega
    obtain rfl : o = o' := Fin.ext (by omega)
    rfl
  · simp only at haddress hlow
    omega

/-- The addresses of the echo of work RAM. -/
def echo : Set UInt16 :=
  {a | 0xE000 ≤ a ∧ a ≤ 0xFDFF}

instance : DecidablePred (· ∈ echo) := fun _ => inferInstanceAs (Decidable (_ ∧ _))

theorem mem_echo_iff {a : UInt16} : a ∈ echo ↔ 0xE000 ≤ a.toNat ∧ a.toNat < 0xFE00 := by
  simp only [echo, Set.mem_ofPred_eq, UInt16.le_iff_toNat_le, UInt16.reduceToNat]
  omega

/-- Outside of the echo an address lies at its offset from the start of its region. -/
theorem toNat_of_notMem_echo (bootMapped : Bool) {a : UInt16} (ha : a ∉ echo) :
    a.toNat = (locate bootMapped a).region.start + (locate bootMapped a).offset.val := by
  rcases hasAddress_locate bootMapped a with haddress | ⟨-, hlow, haddress⟩
  · exact haddress
  · exact absurd (mem_echo_iff.mpr (by omega)) ha

/-- The place of an address of the echo is in work RAM. -/
theorem locate_of_mem_echo (bootMapped : Bool) {a : UInt16} (ha : a ∈ echo) :
    ∃ o : Fin 0x2000, locate bootMapped a = ⟨.wram, o⟩ ∧ a.toNat = 0xE000 + o.val := by
  have haddress := hasAddress_locate bootMapped a
  rcases hplace : locate bootMapped a with ⟨r, o⟩
  have ho := o.isLt
  have hecho := r.le_echo_or_echo_le
  rw [mem_echo_iff] at ha
  rw [hplace] at haddress
  rcases haddress with haddress | ⟨rfl, -, haddress⟩
  · simp only at haddress
    omega
  · exact ⟨o, rfl, haddress⟩

/-- Addresses as numbers, up to the end of memory. -/
theorem toNat_add_ofNat {a : UInt16} {i : Nat} (h : a.toNat + i < 0x10000) :
    (a + .ofNat i).toNat = a.toNat + i := by
  rw [UInt16.toNat_add, UInt16.toNat_ofNat']
  omega

/-- Outside of the echo, the addresses of a region follow one another as its offsets do. -/
theorem locate_add {bootMapped : Bool} {a : UInt16} (ha : a ∉ echo) {i : Nat}
    (hi : (locate bootMapped a).offset.val + i < (locate bootMapped a).region.size) :
    locate bootMapped (a + .ofNat i) =
      ⟨(locate bootMapped a).region, ⟨(locate bootMapped a).offset.val + i, hi⟩⟩ := by
  have haddress := toNat_of_notMem_echo bootMapped ha
  have hboot := region_locate_eq_bootRom_iff bootMapped a
  generalize locate bootMapped a = l at hi haddress hboot ⊢
  obtain ⟨r, o⟩ := l
  simp only at hi haddress hboot ⊢
  have hbound := r.start_add_size_le
  have hsum : (a + .ofNat i).toNat = a.toNat + i := toNat_add_ofNat (by omega)
  refine locate_eq_of_toNat_eq ⟨fun h => ?_, fun h => hboot.mpr ⟨h.1, by omega⟩⟩ ?_
  · subst h
    simp only [Region.start, Region.size] at haddress hi
    exact ⟨(hboot.mp rfl).1, by omega⟩
  · rw [hsum, haddress, Nat.add_assoc]

/-! ### The I/O page -/

/-- The address of an offset of the I/O page. -/
def ioAddress (o : Fin 0x80) : UInt16 :=
  UInt16.ofNat (0xFF00 + o.val)

theorem toNat_ioAddress (o : Fin 0x80) : (ioAddress o).toNat = 0xFF00 + o.val := by
  rw [ioAddress, UInt16.toNat_ofNat']
  omega

theorem ioAddress_inj {o o' : Fin 0x80} : ioAddress o = ioAddress o' ↔ o = o' := by
  rw [← UInt16.toNat_inj, toNat_ioAddress, toNat_ioAddress, Nat.add_left_cancel_iff, Fin.ext_iff]

theorem locate_of_io (bootMapped : Bool) {a : UInt16} (hlow : 0xFF00 ≤ a.toNat)
    (hhigh : a.toNat < 0xFF80) :
    locate bootMapped a = ⟨.io, a.toNat - 0xFF00, by simp only [Region.size]; omega⟩ := by
  unfold locate
  dsimp only
  rw [dif_neg (by omega), dif_neg (by omega), dif_neg (by omega), dif_neg (by omega),
    dif_neg (by omega), dif_neg (by omega), dif_neg (by omega), dif_neg (by omega),
    dif_neg (by omega), dif_pos (by omega)]

/-- A place of the I/O page has its address at its offset from `0xFF00`. -/
theorem locate_eq_io_iff {bootMapped : Bool} {a : UInt16} {o : Fin 0x80} :
    locate bootMapped a = ⟨.io, o⟩ ↔ a = ioAddress o := by
  constructor
  · intro h
    have haddress := hasAddress_locate bootMapped a
    rw [h] at haddress
    rcases haddress with haddress | ⟨hwram, -⟩
    · exact UInt16.toNat_inj.mp (haddress.trans (toNat_ioAddress o).symm)
    · cases hwram
  · rintro rfl
    have ho := toNat_ioAddress o
    rw [locate_of_io bootMapped (by omega) (by omega), Location.mk.injEq]
    simp only [ho, Nat.add_sub_cancel_left, true_and]
    rfl

end Sm83
