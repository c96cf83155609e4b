import Mathlib.Data.List.TakeWhile
import Mathlib.Tactic.Ring
import Sm83.Text.Numerals

/-!
# Numerals are read back

What is written as a numeral is read as the number it was written for. Hexadecimal numerals of a
fixed width lose the digits in front, so the number has to fit the width; decimal numerals lose
nothing. A numeral is made of digits alone, so a reader finds its end at any sign of punctuation.

## Main definitions

* `readInteger? bound cs` — the integer that a text denotes, a minus sign in front of its digits.

## Main results

* `readHex?_hexNumeral`, `readDecimal?_repr`, `readInteger?_decimal` — numerals are read back.
* `readHex?_of_map_toUpper` — so are hexadecimal numerals in the other case.
* `mem_hexDigitsOnto`, `isDigit_of_mem_repr`, `mem_decimal` — the characters of numerals.
-/

namespace Sm83

/-! ### Hexadecimal numerals -/

theorem hexDigitValue?_hexDigit {d : Nat} (h : d < 16) :
    hexDigitValue? (hexDigit d) = some d := by
  revert d
  decide

/-- The characters of a hexadecimal numeral are digits. -/
theorem mem_hexDigitsOnto {c : Char} {width n : Nat} {tail : List Char}
    (h : c ∈ hexDigitsOnto width n tail) : (∃ d < 16, c = hexDigit d) ∨ c ∈ tail := by
  induction width generalizing n tail with
  | zero => exact .inr h
  | succ width ih =>
    rcases ih h with hdigit | htail
    · exact .inl hdigit
    · rcases List.mem_cons.mp htail with rfl | htail
      · exact .inl ⟨n % 16, Nat.mod_lt n (by decide), rfl⟩
      · exact .inr htail

theorem length_hexDigitsOnto (width n : Nat) (tail : List Char) :
    (hexDigitsOnto width n tail).length = width + tail.length := by
  induction width generalizing n tail with
  | zero => rw [hexDigitsOnto, Nat.zero_add]
  | succ width ih =>
    rw [hexDigitsOnto, ih, List.length_cons]
    omega

theorem length_hexNumeral (width n : Nat) : (hexNumeral width n).toList.length = width := by
  rw [hexNumeral, String.toList_ofList, length_hexDigitsOnto, List.length_nil, Nat.add_zero]

/-- Reading a numeral after the digits of `a` appends its digits to those of `a`. -/
theorem readHexOnto?_hexDigitsOnto {bound a width n : Nat} (tail : List Char)
    (h : a * 16 ^ width + n % 16 ^ width < bound) :
    readHexOnto? bound a (hexDigitsOnto width n tail) =
      readHexOnto? bound (a * 16 ^ width + n % 16 ^ width) tail := by
  induction width generalizing n tail with
  | zero => simp [hexDigitsOnto, Nat.mod_one]
  | succ width ih =>
    have hvalue : a * 16 ^ (width + 1) + n % 16 ^ (width + 1) =
        (a * 16 ^ width + n / 16 % 16 ^ width) * 16 + n % 16 := by
      rw [Nat.pow_succ', Nat.mod_mul]
      ring
    rw [hvalue] at h ⊢
    rw [hexDigitsOnto, ih _ (by omega), readHexOnto?,
      hexDigitValue?_hexDigit (Nat.mod_lt n (by decide))]
    simp [h]

/-- No sign or other punctuation is a hexadecimal digit. -/
theorem notMem_hexNumeral {c : Char} (h : ∀ d < 16, c ≠ hexDigit d) (width n : Nat) :
    c ∉ (hexNumeral width n).toList := by
  intro hmem
  rw [hexNumeral, String.toList_ofList] at hmem
  rcases mem_hexDigitsOnto hmem with ⟨d, hd, rfl⟩ | hnil
  · exact h d hd rfl
  · cases hnil

theorem readHex?_of_notMem {bound : Nat} {cs : List Char} (hne : cs ≠ []) (hplus : '+' ∉ cs) :
    readHex? bound cs = readHexOnto? bound 0 cs := by
  unfold readHex?
  split
  · exact absurd rfl hne
  · exact absurd (List.mem_singleton_self _) hplus
  · exact absurd List.mem_cons_self hplus
  · rfl

/-- A hexadecimal numeral that is wide enough for its number is read back. -/
theorem readHex?_hexNumeral {bound width n : Nat} (hwidth : 0 < width) (hn : n < 16 ^ width)
    (hbound : n < bound) : readHex? bound (hexNumeral width n).toList = some n := by
  have hplus := notMem_hexNumeral (c := '+') (by decide) width n
  have hne : (hexNumeral width n).toList ≠ [] := by
    intro hnil
    have hlength := length_hexNumeral width n
    rw [hnil, List.length_nil] at hlength
    omega
  have hmod : n % 16 ^ width = n := Nat.mod_eq_of_lt hn
  rw [readHex?_of_notMem hne hplus, hexNumeral, String.toList_ofList,
    readHexOnto?_hexDigitsOnto [] (by omega), Nat.zero_mul, Nat.zero_add, hmod, readHexOnto?]

theorem readHex?_hexByte {bound : Nat} (h : 0x100 ≤ bound) (b : UInt8) :
    readHex? bound (hexByte b).toList = some b.toNat :=
  readHex?_hexNumeral (by decide) b.toNat_lt (b.toNat_lt.trans_le h)

theorem readHex?_hexWord (w : UInt16) : readHex? 0x10000 (hexWord w).toList = some w.toNat :=
  readHex?_hexNumeral (by decide) w.toNat_lt w.toNat_lt

/-- A character is its own upper case, or it is one of the letters of the lower case. -/
theorem toUpper_cases (c : Char) : c.toUpper = c ∨ ∃ k : Fin 26, c = Char.ofNat (97 + k.val) := by
  by_cases h : 'a'.val ≤ c.val ∧ c.val ≤ 'z'.val
  · have hlow : 97 ≤ c.toNat := h.1
    have hhigh : c.toNat ≤ 122 := h.2
    have hnat : 97 + (c.toNat - 97) = c.toNat := by omega
    refine .inr ⟨⟨c.toNat - 97, by omega⟩, ?_⟩
    simp only [hnat, Char.ofNat_toNat]
  · exact .inl (dif_neg h)

theorem hexDigitValue?_toUpper (c : Char) : hexDigitValue? c.toUpper = hexDigitValue? c := by
  rcases toUpper_cases c with h | ⟨k, rfl⟩
  · rw [h]
  · revert k
    decide

/-- Digits are read in either case. -/
theorem readHexOnto?_map_toUpper (bound n : Nat) (cs : List Char) :
    readHexOnto? bound n (cs.map Char.toUpper) = readHexOnto? bound n cs := by
  induction cs generalizing n with
  | nil => rfl
  | cons c cs ih => simp only [List.map_cons, readHexOnto?, hexDigitValue?_toUpper, ih]

/-- A numeral whose digits are in any case is read back. -/
theorem readHex?_of_map_toUpper {bound width n : Nat} {cs : List Char}
    (hcs : cs.map Char.toUpper = (hexNumeral width n).toList) (hwidth : 0 < width)
    (hn : n < 16 ^ width) (hbound : n < bound) : readHex? bound cs = some n := by
  have hplus := notMem_hexNumeral (c := '+') (by decide) width n
  have hplus' : '+' ∉ cs := fun h => hplus (hcs ▸ List.mem_map_of_mem (f := Char.toUpper) h)
  have hread := readHex?_hexNumeral hwidth hn hbound
  have hne : (hexNumeral width n).toList ≠ [] := by
    intro hnil
    rw [hnil] at hread
    cases hread
  have hne' : cs ≠ [] := by
    rintro rfl
    exact hne hcs.symm
  rw [readHex?_of_notMem hne' hplus', ← readHexOnto?_map_toUpper, hcs,
    ← readHex?_of_notMem hne hplus, hread]

/-! ### Decimal numerals -/

theorem isDigit_of_mem_repr {c : Char} {n : Nat} (h : c ∈ (Nat.repr n).toList) :
    c.isDigit = true := by
  rw [Nat.toList_repr] at h
  exact Nat.isDigit_of_mem_toDigits (by decide) (by decide) h

/-- No sign or other punctuation is a decimal digit. -/
theorem notMem_repr {c : Char} (h : c.isDigit = false) (n : Nat) : c ∉ (Nat.repr n).toList := by
  intro hmem
  rw [isDigit_of_mem_repr hmem] at h
  cases h

/-- The digits of a decimal numeral denote its number. -/
theorem leadingDigits_repr (n : Nat) :
    ∃ d ds, leadingDigits (Nat.repr n).toList = (d :: ds, []) ∧ numberOf 10 (d :: ds) = n := by
  have hdigits (c : Char) (hc : c ∈ (Nat.repr n).toList) : c.isDigit = true :=
    isDigit_of_mem_repr hc
  have hvalue : numberOf 10 ((Nat.repr n).toList.map fun c => c.toNat - 48) = n := by
    rw [numberOf, List.foldl_map, Nat.toList_repr]
    simpa only [Nat.ofDigitChars, Nat.mul_comm 10, Char.reduceToNat] using
      Nat.ofDigitChars_toDigits (n := n) (b := 10) (by decide) (by decide)
  have hleading : leadingDigits (Nat.repr n).toList =
      ((Nat.repr n).toList.map fun c => c.toNat - 48, []) := by
    rw [leadingDigits, List.takeWhile_eq_self_iff.mpr hdigits,
      List.dropWhile_eq_nil_iff.mpr hdigits]
  cases hds : (Nat.repr n).toList.map fun c => c.toNat - 48 with
  | nil =>
    rw [List.map_eq_nil_iff, Nat.toList_repr] at hds
    exact absurd hds Nat.toDigits_ne_nil
  | cons d ds =>
    rw [hds] at hleading hvalue
    exact ⟨d, ds, hleading, hvalue⟩

/-- A single plus sign in front of a decimal text makes no difference. -/
theorem readDecimal?_plus {bound : Nat} {cs : List Char} (h : '+' ∉ cs) :
    readDecimal? bound ('+' :: cs) = readDecimal? bound cs := by
  cases cs with
  | nil => rfl
  | cons c cs =>
    have hc : c ≠ '+' := fun hc => h (hc ▸ List.mem_cons_self)
    simp [readDecimal?, hc]

/-- A decimal numeral is read back. -/
theorem readDecimal?_repr {bound n : Nat} (h : n < bound) :
    readDecimal? bound (Nat.repr n).toList = some n := by
  obtain ⟨d, ds, hleading, hvalue⟩ := leadingDigits_repr n
  rw [← readDecimal?_plus (notMem_repr (by decide) n), readDecimal?]
  simp only [hleading, hvalue, h, if_true]

/-- The integer that a decimal text denotes, provided that it is below `bound` in size. Its digits
may follow a sign. -/
def readInteger? (bound : Nat) : List Char → Option Int
  | '-' :: cs => (readDecimal? bound cs).map fun n : Nat => -(n : Int)
  | cs => (readDecimal? bound cs).map Int.ofNat

/-- The characters of a decimal numeral are digits, and a minus sign if the number is
negative. -/
theorem mem_decimal {c : Char} {z : Int} (h : c ∈ (decimal z).toList) :
    c.isDigit = true ∨ c = '-' := by
  cases z with
  | ofNat n => exact .inl (isDigit_of_mem_repr h)
  | negSucc n =>
    rw [decimal, String.toList_append, List.mem_append] at h
    rcases h with hsign | hdigit
    · exact .inr (List.mem_singleton.mp hsign)
    · exact .inl (isDigit_of_mem_repr hdigit)

theorem readInteger?_of_notMem {bound : Nat} {cs : List Char} (h : '-' ∉ cs) :
    readInteger? bound cs = (readDecimal? bound cs).map Int.ofNat := by
  unfold readInteger?
  split
  · exact absurd List.mem_cons_self h
  · rfl

/-- The decimal numeral of an integer is read back. -/
theorem readInteger?_decimal {bound : Nat} {z : Int} (h : z.natAbs < bound) :
    readInteger? bound (decimal z).toList = some z := by
  cases z with
  | ofNat n =>
    change n < bound at h
    rw [decimal, readInteger?_of_notMem (notMem_repr (by decide) n), readDecimal?_repr h,
      Option.map_some]
  | negSucc n =>
    change n + 1 < bound at h
    have htext : (decimal (.negSucc n)).toList = '-' :: (Nat.repr (n + 1)).toList := by
      rw [decimal, String.toList_append]
      rfl
    rw [htext, readInteger?, readDecimal?_repr h]
    rfl

/-- The decimal numeral of a natural number is read back when a plus sign precedes it. -/
theorem readInteger?_plus {bound : Nat} {z : Int} (hz : 0 ≤ z) (h : z.natAbs < bound) :
    readInteger? bound ('+' :: (decimal z).toList) = some z := by
  obtain ⟨n, rfl⟩ := Int.eq_ofNat_of_zero_le hz
  have hminus : '-' ∉ '+' :: (Nat.repr n).toList :=
    List.not_mem_cons_of_ne_of_not_mem (by decide) (notMem_repr (by decide) n)
  have hdigits : readDecimal? bound ('+' :: (Nat.repr n).toList) = some n :=
    (readDecimal?_plus (notMem_repr (by decide) n)).trans (readDecimal?_repr h)
  exact (readInteger?_of_notMem hminus).trans (congrArg (Option.map Int.ofNat) hdigits)

end Sm83
