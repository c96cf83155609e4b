/-!
# Bisection

If a list begins with the elements that have some property, and those that do not have it follow,
then the former can be counted without a look at each of them. The binary digits of the number are
decided one by one, the highest first, by one look each.

## Main definitions

* `partitionPoint` — the number of elements with a property, in such a list.

## Main results

* `partitionPoint_eq_length_takeWhile` — what is found where the list is in such an order.
* `take_partitionPoint`, `getElem?_partitionPoint` — the elements before it, and the one behind.
-/

namespace Sm83

variable {α : Type u}

/-- Decide the remaining digits of a number of which the higher digits are decided. -/
def partitionPointFrom (p : α → Bool) (xs : List α) : (digits sofar : Nat) → Nat
  | 0, sofar => sofar
  | digits + 1, sofar =>
    let next := sofar + 1 <<< digits
    partitionPointFrom p xs digits (if xs[next - 1]?.any p then next else sofar)

/-- The number of elements with a property, in a list that begins with them. -/
def partitionPoint (p : α → Bool) (xs : List α) : Nat :=
  partitionPointFrom p xs (xs.length.log2 + 1) 0

variable {p : α → Bool} {xs : List α}

theorem partitionPointFrom_eq {k : Nat} (hk : ∀ i, xs[i]?.any p = decide (i < k))
    {digits sofar : Nat} (hlow : sofar ≤ k) (hhigh : k < sofar + 1 <<< digits) :
    partitionPointFrom p xs digits sofar = k := by
  induction digits generalizing sofar with
  | zero => exact Nat.le_antisymm hlow (Nat.lt_succ_iff.mp hhigh)
  | succ digits ih =>
    have hpos : 0 < 1 <<< digits := Nat.one_shiftLeft digits ▸ Nat.two_pow_pos digits
    have hdouble : 1 <<< (digits + 1) = 2 * 1 <<< digits := Nat.shiftLeft_succ 1 digits
    simp only [partitionPointFrom, hk, decide_eq_true_eq]
    split
    · exact ih (by omega) (by omega)
    · exact ih hlow (by omega)

/-- In a list that begins with its elements with the property, these are the ones up to the first
without it. -/
theorem any_getElem?_eq (h : xs.Pairwise fun x y => p y = true → p x = true) (i : Nat) :
    xs[i]?.any p = decide (i < (xs.takeWhile p).length) := by
  induction xs generalizing i with
  | nil => simp
  | cons x xs ih =>
    obtain ⟨hfirst, hrest⟩ := List.pairwise_cons.mp h
    by_cases hx : p x = true
    · rw [List.takeWhile_cons_of_pos hx]
      cases i with
      | zero => simpa using hx
      | succ i => simpa using ih hrest i
    · have hnone (y : α) (hy : y ∈ x :: xs) : p y = false := by
        rcases List.mem_cons.mp hy with rfl | hy
        · exact Bool.eq_false_iff.mpr hx
        · exact Bool.eq_false_iff.mpr fun hyes => hx (hfirst y hy hyes)
      rw [List.takeWhile_cons_of_neg hx]
      simpa [Option.any_eq_false] using fun y hy => hnone y (List.mem_of_getElem? hy)

/-- What is found in a list in which every element before one with the property has it as well. -/
theorem partitionPoint_eq_length_takeWhile (h : xs.Pairwise fun x y => p y = true → p x = true) :
    partitionPoint p xs = (xs.takeWhile p).length := by
  refine partitionPointFrom_eq (any_getElem?_eq h) (Nat.zero_le _) ?_
  have hle : (xs.takeWhile p).length ≤ xs.length := (List.takeWhile_sublist p).length_le
  have hlog : xs.length < 1 <<< (xs.length.log2 + 1) :=
    Nat.one_shiftLeft _ ▸ Nat.lt_log2_self
  omega

theorem take_partitionPoint (h : xs.Pairwise fun x y => p y = true → p x = true) :
    xs.take (partitionPoint p xs) = xs.takeWhile p := by
  rw [partitionPoint_eq_length_takeWhile h]
  exact (List.prefix_iff_eq_take.mp (List.takeWhile_prefix p)).symm

theorem getElem?_length_takeWhile (p : α → Bool) (xs : List α) :
    xs[(xs.takeWhile p).length]? = (xs.dropWhile p).head? := by
  induction xs with
  | nil => rfl
  | cons x xs ih =>
    by_cases hx : p x = true
    · simpa [hx] using ih
    · simp [hx]

theorem getElem?_partitionPoint (h : xs.Pairwise fun x y => p y = true → p x = true) :
    xs[partitionPoint p xs]? = (xs.dropWhile p).head? := by
  rw [partitionPoint_eq_length_takeWhile h, getElem?_length_takeWhile]

end Sm83
