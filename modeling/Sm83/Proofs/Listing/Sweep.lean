import Mathlib.Data.List.Range
import Mathlib.Logic.Function.Iterate
import Mathlib.Order.Monotone.Basic
import Sm83.Listing
import Sm83.Proofs.Text.Numerals

/-!
# Listings as sweeps

A listing of a range goes from its start on, each line at the address where the operation before it
ends, as long as the address is below the end of the range. The addresses are numbers here, so
nothing wraps around at the top of memory. A sweep can be cut in two at the addresses that it
visits, and only there: cut in the middle of an operation, the second part lists a line that the
whole does not have.

## Main definitions

* `addressBehind` — the address behind the operation at an address.
* `sweepAddress`, `sweepEntry` — the addresses that a sweep visits, and what it finds there.
* `sweepLines` — the lines of the operations from an address on.

## Main results

* `strictMono_sweepAddress`, `existsUnique_sweepAddress_le_lt` — the operations of a sweep follow
  one another without gaps.
* `exists_toList_sweepFrom_eq` — what a sweep finds.
* `exists_sweepFrom_eq_sweepFrom_sweepFrom` — a sweep in two parts.
* `listing_is_linear_sweep` — listings as texts, and where they can be cut.
-/

namespace Sm83

/-! ### The addresses of a sweep -/

/-- The address behind the operation at an address, as a number. -/
def addressBehind (read : UInt16 → UInt8) (pc : Nat) : Nat :=
  pc + (fetch (UInt16.ofNat pc) read).1.length

/-- The address that a sweep visits after so many operations. -/
def sweepAddress (read : UInt16 → UInt8) (start i : Nat) : Nat :=
  (addressBehind read)^[i] start

/-- What a sweep finds after so many operations. -/
def sweepEntry (read : UInt16 → UInt8) (start i : Nat) : UInt16 × Fetched :=
  let addr := UInt16.ofNat (sweepAddress read start i)
  (addr, (fetch addr read).1)

section Addresses

variable (read : UInt16 → UInt8) (start : Nat)

theorem lt_addressBehind (pc : Nat) : pc < addressBehind read pc :=
  Nat.lt_add_of_pos_right (length_fetch_pos _ _)

theorem sweepAddress_zero : sweepAddress read start 0 = start :=
  rfl

theorem sweepAddress_succ (i : Nat) :
    sweepAddress read start (i + 1) = addressBehind read (sweepAddress read start i) :=
  Function.iterate_succ_apply' _ _ _

/-- The rest of a sweep is the sweep from the second address on. -/
theorem sweepAddress_addressBehind (i : Nat) :
    sweepAddress read (addressBehind read start) i = sweepAddress read start (i + 1) :=
  rfl

theorem strictMono_sweepAddress : StrictMono (sweepAddress read start) :=
  strictMono_nat_of_lt_succ fun i => by
    rw [sweepAddress_succ]
    exact lt_addressBehind read _

theorem add_le_sweepAddress (i : Nat) : start + i ≤ sweepAddress read start i := by
  induction i with
  | zero => exact le_rfl
  | succ i ih =>
    have hnext := strictMono_sweepAddress read start i.lt_add_one
    omega

variable {start}

/-- Every address from the start of a sweep on belongs to exactly one of its operations. -/
theorem existsUnique_sweepAddress_le_lt {p : Nat} (hp : start ≤ p) :
    ∃! i, sweepAddress read start i ≤ p ∧ p < sweepAddress read start (i + 1) := by
  have hpast : ∃ j, p < sweepAddress read start j :=
    ⟨p + 1, lt_of_lt_of_le (by omega) (add_le_sweepAddress read start (p + 1))⟩
  obtain ⟨i, hi⟩ : ∃ i, Nat.find hpast = i + 1 := by
    refine Nat.exists_eq_succ_of_ne_zero fun h => ?_
    exact Nat.not_lt.mpr hp ((Nat.find_eq_zero hpast).mp h)
  have hlow : sweepAddress read start i ≤ p := Nat.not_lt.mp (Nat.find_min hpast (by omega))
  have hhigh : p < sweepAddress read start (i + 1) := hi ▸ Nat.find_spec hpast
  refine ⟨i, ⟨hlow, hhigh⟩, fun j ⟨hlow', hhigh'⟩ => ?_⟩
  have hmono := strictMono_sweepAddress read start
  have h₁ : j < i + 1 := hmono.lt_iff_lt.mp (lt_of_le_of_lt hlow' hhigh)
  have h₂ : i < j + 1 := hmono.lt_iff_lt.mp (lt_of_le_of_lt hlow hhigh')
  omega

end Addresses

/-! ### What a sweep finds -/

section Sweep

variable {read : UInt16 → UInt8} {bound pc k : Nat}

theorem sweepAddress_lt_iff_of_not_lt (hpc : ¬ pc < bound) (i : Nat) :
    sweepAddress read pc i < bound ↔ i < 0 := by
  have hle := add_le_sweepAddress read pc i
  omega

theorem sweepAddress_lt_iff_succ (hpc : pc < bound)
    (hk : ∀ i, sweepAddress read (addressBehind read pc) i < bound ↔ i < k) (i : Nat) :
    sweepAddress read pc i < bound ↔ i < k + 1 := by
  cases i with
  | zero => exact iff_of_true hpc k.succ_pos
  | succ i => rw [← sweepAddress_addressBehind, hk, Nat.succ_lt_succ_iff]

variable (read pc) (stop : Nat) (found : Array (UInt16 × Fetched))

/-- A sweep finds the operations at the addresses below its end that it visits. -/
theorem exists_toList_sweepFrom_eq :
    ∃ k, (∀ i, sweepAddress read pc i < stop ↔ i < k) ∧
      (sweepFrom read stop pc found).toList =
        found.toList ++ (List.range k).map (sweepEntry read pc) := by
  fun_induction sweepFrom read stop pc found with
  | case1 pc found hpc fetched ih =>
    obtain ⟨k, hk, hfound⟩ := ih
    refine ⟨k + 1, sweepAddress_lt_iff_succ hpc hk, ?_⟩
    rw [hfound, Array.toList_push, List.append_assoc, List.range_succ_eq_map, List.map_cons,
      List.map_map]
    rfl
  | case2 pc found hpc => exact ⟨0, sweepAddress_lt_iff_of_not_lt hpc, by simp⟩

theorem sweepFrom_eq_append :
    sweepFrom read stop pc found = found ++ sweepFrom read stop pc #[] := by
  obtain ⟨k, hk, hfound⟩ := exists_toList_sweepFrom_eq read pc stop found
  obtain ⟨k', hk', hnone⟩ := exists_toList_sweepFrom_eq read pc stop #[]
  have hkk' : k = k' := eq_of_forall_lt_iff fun i => (hk i).symm.trans (hk' i)
  rw [← Array.toList_inj, Array.toList_append, hfound, hnone, hkk']
  rfl

/-- A sweep to a later end takes up where the sweep to an earlier one ends. -/
theorem exists_sweepFrom_eq_sweepFrom_sweepFrom {mid : Nat} (hmid : mid ≤ stop) :
    ∃ k, (∀ i, sweepAddress read pc i < mid ↔ i < k) ∧
      sweepFrom read stop pc found =
        sweepFrom read stop (sweepAddress read pc k) (sweepFrom read mid pc found) := by
  fun_induction sweepFrom read mid pc found with
  | case1 pc found hpc fetched ih =>
    obtain ⟨k, hk, hcut⟩ := ih
    refine ⟨k + 1, sweepAddress_lt_iff_succ hpc hk, ?_⟩
    rw [sweepFrom, if_pos (by omega)]
    exact hcut
  | case2 pc found hpc => exact ⟨0, sweepAddress_lt_iff_of_not_lt hpc, rfl⟩

end Sweep

/-! ### The lines of a sweep -/

/-- The lines of the operations from an address on, which need not be an address of memory. -/
def sweepLines (m : Memory) (indent stop pc : Nat) : Array ListingLine :=
  (sweepFrom m.read8 stop pc #[]).map fun (addr, f) => .operation indent addr f

section Lines

variable (m : Memory) (indent : Nat) {stop mid pc : Nat}

theorem rangeLines_eq_sweepLines (start stop : UInt16) :
    rangeLines m indent start stop = sweepLines m indent stop.toNat start.toNat :=
  rfl

/-- The lines of a range, by the addresses that its sweep visits. -/
theorem exists_toList_rangeLines_eq (start stop : UInt16) :
    let a := sweepAddress m.read8 start.toNat
    ∃ k, (∀ i, a i < stop.toNat ↔ i < k) ∧
      (rangeLines m indent start stop).toList = (List.range k).map fun i =>
        .operation indent (.ofNat (a i)) (fetch (.ofNat (a i)) m.read8).1 := by
  obtain ⟨k, hk, hfound⟩ := exists_toList_sweepFrom_eq m.read8 start.toNat stop.toNat #[]
  refine ⟨k, hk, ?_⟩
  rw [rangeLines, Array.toList_map, sweep, hfound, List.nil_append, List.map_map]
  rfl

theorem sweepLines_of_not_lt (h : ¬ pc < stop) : sweepLines m indent stop pc = #[] := by
  rw [sweepLines, sweepFrom, if_neg h, Array.map_empty]

theorem sweepLines_of_lt (h : pc < stop) : sweepLines m indent stop pc =
    #[.operation indent (.ofNat pc) (fetch (.ofNat pc) m.read8).1] ++
      sweepLines m indent stop (addressBehind m.read8 pc) := by
  rw [sweepLines, sweepFrom, if_pos h, sweepFrom_eq_append, Array.map_append, Array.map_push,
    Array.map_empty]
  rfl

/-- The lines up to an earlier end, and those from there on. -/
theorem exists_sweepLines_eq_append (pc : Nat) (h : mid ≤ stop) :
    ∃ k, (∀ i, sweepAddress m.read8 pc i < mid ↔ i < k) ∧
      sweepLines m indent stop pc =
        sweepLines m indent mid pc ++ sweepLines m indent stop (sweepAddress m.read8 pc k) := by
  obtain ⟨k, hk, hcut⟩ := exists_sweepFrom_eq_sweepFrom_sweepFrom m.read8 pc stop #[] h
  refine ⟨k, hk, ?_⟩
  rw [sweepLines, hcut, sweepFrom_eq_append, Array.map_append]
  rfl

end Lines

/-! ### Listings as texts -/

section Text

variable (symbols : SymbolTable)

theorem listingText_eq_join (ls : Array ListingLine) :
    listingText symbols ls =
      String.join (ls.toList.map fun l => l.text symbols.labelAt ++ "\n") := by
  rw [listingText, String.join, List.foldl_map, ← Array.foldl_toList]
  simp only [String.append_assoc]

theorem listingText_append (ls ls' : Array ListingLine) :
    listingText symbols (ls ++ ls') = listingText symbols ls ++ listingText symbols ls' := by
  simp only [listingText_eq_join, Array.toList_append, List.map_append, ← String.toList_inj,
    String.toList_append, String.toList_join, List.flatMap_append]

variable (m : Memory) (indent : Nat) {stop pc pc' : Nat}

/-- A listing begins with its first address. -/
theorem exists_toList_listingText_sweepLines (h : pc < stop) :
    ∃ rest, (listingText symbols (sweepLines m indent stop pc)).toList =
      List.replicate indent ' ' ++ '$' :: ((hexWord (.ofNat pc)).toList ++ rest) := by
  rw [sweepLines_of_lt m indent h, listingText_append, listingText_eq_join]
  let f := (fetch (.ofNat pc) m.read8).1
  let rest := listingText symbols (sweepLines m indent stop (addressBehind m.read8 pc))
  refine ⟨(": " ++ f.instruction.textAt f.next symbols.labelAt ++ "\n" ++ rest).toList, ?_⟩
  simp [ListingLine.text, f, rest]

/-- So listings from two addresses differ. -/
theorem eq_of_listingText_sweepLines_eq (hstop : stop ≤ 0x10000) (hpc : pc < stop)
    (h : listingText symbols (sweepLines m indent stop pc') =
      listingText symbols (sweepLines m indent stop pc)) : pc' = pc := by
  obtain ⟨rest, htext⟩ := exists_toList_listingText_sweepLines symbols m indent hpc
  by_cases hpc' : pc' < stop
  · obtain ⟨rest', htext'⟩ := exists_toList_listingText_sweepLines symbols m indent hpc'
    rw [h, htext, List.append_cancel_left_eq, List.cons.injEq] at htext'
    have hword : (hexWord (.ofNat pc)).toList = (hexWord (.ofNat pc')).toList :=
      List.append_inj_left htext'.2 (by simp only [hexWord, length_hexNumeral])
    have hnumber := congrArg (readHex? 0x10000) hword
    rw [readHex?_hexWord, readHex?_hexWord, Option.some.injEq, UInt16.toNat_ofNat',
      UInt16.toNat_ofNat'] at hnumber
    omega
  · -- there is no line from `pc'` on, but there is one from `pc` on
    rw [← h, sweepLines_of_not_lt m indent hpc'] at htext
    have hlength := congrArg List.length htext
    simp [listingText] at hlength

end Text

/-- **Listings are linear sweeps.** A listing of a range has one line for each address that is
visited below the end of the range, beginning with its start and going on behind each operation; the
line shows the address and the operation there. The addresses do not wrap around, and each one from
the start to the end of the last operation belongs to exactly one line. The listing of the range is
the listing up to an address in it followed by the listing from there on exactly if that address is
visited. -/
theorem listing_is_linear_sweep (m : Memory) (symbols : SymbolTable) (indent : Nat)
    (start stop : UInt16) :
    let a := sweepAddress m.read8 start.toNat
    let f := fun i => (fetch (.ofNat (a i)) m.read8).1
    let text := fun start stop => listingText symbols (rangeLines m indent start stop)
    (a 0 = start.toNat ∧ ∀ i, a (i + 1) = a i + (f i).length) ∧
    (∃ k ≤ stop.toNat - start.toNat,
      (∀ i, a i < stop.toNat ↔ i < k) ∧
      (∀ i < k, (UInt16.ofNat (a i)).toNat = a i) ∧
      text start stop = String.join ((List.range k).map fun i =>
        String.ofList (List.replicate indent ' ') ++ "$" ++ hexWord (.ofNat (a i)) ++ ": " ++
          (f i).instruction.textAt (f i).next symbols.labelAt ++ "\n") ∧
      ∀ p, start.toNat ≤ p → p < a k → ∃! i, i < k ∧ a i ≤ p ∧ p < a (i + 1)) ∧
    ∀ mid, start ≤ mid → mid < stop →
      (text start stop = text start mid ++ text mid stop ↔ ∃ i, a i = mid.toNat) := by
  intro a f text
  have hmono : StrictMono a := strictMono_sweepAddress m.read8 start.toNat
  have hstop := stop.toNat_lt
  refine ⟨⟨sweepAddress_zero m.read8 start.toNat, sweepAddress_succ m.read8 start.toNat⟩, ?_,
    fun mid _ hhigh => ?_⟩
  · obtain ⟨k, hk, hlines⟩ := exists_toList_rangeLines_eq m indent start stop
    refine ⟨k, ?_, hk, fun i hi => ?_, ?_, fun p hp hpk => ?_⟩
    · cases k with
      | zero => exact Nat.zero_le _
      | succ k =>
        have hlast : a k < stop.toNat := (hk k).mpr k.lt_add_one
        have hle : start.toNat + k ≤ a k := add_le_sweepAddress m.read8 start.toNat k
        omega
    · have hai : a i < stop.toNat := (hk i).mpr hi
      rw [UInt16.toNat_ofNat']
      omega
    · change listingText symbols (rangeLines m indent start stop) = _
      rw [listingText_eq_join, hlines, List.map_map]
      rfl
    · obtain ⟨i, ⟨hai, hpi⟩, hunique⟩ := existsUnique_sweepAddress_le_lt m.read8 hp
      have hik : i < k := hmono.lt_iff_lt.mp (lt_of_le_of_lt hai hpk)
      exact ⟨i, ⟨hik, hai, hpi⟩, fun j hj => hunique j hj.2⟩
  · rw [UInt16.lt_iff_toNat_lt] at hhigh
    obtain ⟨k, hk, hcut⟩ := exists_sweepLines_eq_append m indent start.toNat hhigh.le
    have hcut : text start stop =
        text start mid ++ listingText symbols (sweepLines m indent stop.toNat (a k)) := by
      simp only [text, rangeLines_eq_sweepLines, hcut, listingText_append]
      rfl
    rw [hcut, String.append_right_inj]
    constructor
    · intro h
      exact ⟨k, eq_of_listingText_sweepLines_eq symbols m indent hstop.le hhigh h⟩
    · rintro ⟨i, hi⟩
      have hki : k = i := by
        refine eq_of_forall_lt_iff fun j => ?_
        rw [← hk, ← hi]
        exact hmono.lt_iff_lt
      rw [hki, hi]
      rfl

/-- The listing of `NOP`, `LD A, $05` and `JP $0100` can be cut before the jump, but not between the
two bytes of the load. The last byte of the jump belongs to its line, although the range ends
before it. -/
theorem listing_is_cut_before_jump :
    let m : Memory := { cartridge := ⟨#[0x00, 0x3E, 0x05, 0xC3, 0x00, 0x01], by decide⟩ }
    let a := sweepAddress m.read8 0
    let text := fun start stop => listingText {} (rangeLines m 2 start stop)
    ((0 : UInt16) ≤ 3 ∧ (3 : UInt16) < 4 ∧ text 0 4 = text 0 3 ++ text 3 4) ∧
      ((0 : UInt16) ≤ 2 ∧ (2 : UInt16) < 4 ∧ text 0 4 ≠ text 0 2 ++ text 2 4) ∧
      (∀ i, a i < 4 ↔ i < 3) ∧ ∃! i, i < 3 ∧ a i ≤ 5 ∧ 5 < a (i + 1) := by
  intro m a text
  have haddresses : a 1 = 1 ∧ a 2 = 3 ∧ a 3 = 6 := by decide +kernel
  have hmono : StrictMono a := strictMono_sweepAddress m.read8 0
  obtain ⟨-, ⟨k, -, hk, -, -, hbytes⟩, hcut⟩ := listing_is_linear_sweep m {} 2 0 4
  have hskipped : ¬ ∃ i, a i = 2 := by
    rintro ⟨i, hi⟩
    have h₁ : 1 < i := hmono.lt_iff_lt.mp (by omega)
    have h₂ : i < 2 := hmono.lt_iff_lt.mp (by omega)
    omega
  obtain rfl : k = 3 := by
    have h₂ : 2 < k := (hk 2).mp (by change a 2 < 4; omega)
    have h₃ : ¬ 3 < k := fun h => absurd ((hk 3).mpr h) (by change ¬ a 3 < 4; omega)
    omega
  refine ⟨⟨by decide, by decide, (hcut 3 (by decide) (by decide)).mpr ⟨2, haddresses.2.1⟩⟩,
    ⟨by decide, by decide, fun h => hskipped ((hcut 2 (by decide) (by decide)).mp h)⟩, hk, ?_⟩
  exact hbytes 5 (by decide) (by change 5 < a 3; omega)

end Sm83
