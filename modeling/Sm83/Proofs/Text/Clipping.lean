import Sm83.Text.Lines

/-!
# Clipped texts

A text is clipped behind the last of its first characters that fit, so no longer start of it fits.
The same place is found from the other end: from the greatest number of bytes downwards, byte by
byte, up to the first position at which a character starts or the text ends. There is such a
position, since the text itself starts at zero.

## Main definitions

* `boundaryUpTo?` — the search for a boundary of characters, downwards.
* `bytesUpTo?` — the bytes of a text up to the boundary that is found.

## Main results

* `clip_isPrefix`, `byteLength_clip_le`, `isPrefix_clip` — the longest start that fits.
* `clip_append_cons_eq_iff` — whether a clipped text shows what is appended.
* `bytesUpTo?_eq` — both ways to the cut.
-/

namespace Sm83

/-! ### Bytes of a text -/

/-- The bytes of a text are those of its characters. -/
theorem utf8ByteSize_ofList_eq (cs : List Char) :
    (String.ofList cs).utf8ByteSize = byteLength cs := by
  induction cs with
  | nil => rfl
  | cons c cs ih =>
    have hcons : String.ofList (c :: cs) = String.singleton c ++ String.ofList cs := by
      rw [String.singleton_eq_ofList, ← String.ofList_append]
      rfl
    rw [hcons, String.utf8ByteSize_append, String.utf8ByteSize_singleton, ih, byteLength]

theorem byteLength_toList (s : String) : byteLength s.toList = s.utf8ByteSize := by
  rw [← utf8ByteSize_ofList_eq, String.ofList_toList]

theorem byteLength_append (cs ds : List Char) :
    byteLength (cs ++ ds) = byteLength cs + byteLength ds := by
  induction cs with
  | nil => exact (Nat.zero_add _).symm
  | cons c cs ih => rw [List.cons_append, byteLength, byteLength, ih, Nat.add_assoc]

theorem byteLength_le_of_isPrefix {cs ds : List Char} (h : cs <+: ds) :
    byteLength cs ≤ byteLength ds := by
  obtain ⟨rest, rfl⟩ := h
  rw [byteLength_append]
  exact Nat.le_add_right _ _

/-! ### The longest start that fits -/

section Clip

variable {max : Nat} {cs : List Char}

variable (max cs) in
theorem clip_isPrefix : clip max cs <+: cs := by
  fun_induction clip max cs with
  | case1 => exact List.nil_prefix
  | case2 max c cs hfit ih => exact (List.prefix_cons_inj c).mpr ih
  | case3 => exact List.nil_prefix

variable (max cs) in
theorem byteLength_clip_le : byteLength (clip max cs) ≤ max := by
  fun_induction clip max cs with
  | case1 => exact Nat.zero_le _
  | case2 max c cs hfit ih =>
    rw [byteLength]
    omega
  | case3 => exact Nat.zero_le _

/-- No longer start of a text fits. -/
theorem isPrefix_clip {ds : List Char} (hstart : ds <+: cs) (hfit : byteLength ds ≤ max) :
    ds <+: clip max cs := by
  induction ds generalizing max cs with
  | nil => exact List.nil_prefix
  | cons d ds ih =>
    obtain ⟨rest, rfl⟩ := hstart
    rw [byteLength] at hfit
    rw [List.cons_append, clip, if_pos (by omega), List.prefix_cons_inj]
    exact ih (List.prefix_append ds rest) (by omega)

/-- A text of few bytes is not cut. -/
theorem clip_eq_self (h : byteLength cs ≤ max) : clip max cs = cs := by
  induction cs generalizing max with
  | nil => rfl
  | cons c cs ih =>
    rw [byteLength] at h
    rw [clip, if_pos (by omega), ih (by omega)]

theorem clip_eq_self_iff : clip max cs = cs ↔ byteLength cs ≤ max :=
  ⟨fun h => h ▸ byteLength_clip_le max cs, clip_eq_self⟩

theorem clip_ne_nil {c : Char} (h : c.utf8Size ≤ max) : clip max (c :: cs) ≠ [] := by
  rw [clip, if_pos h]
  exact List.cons_ne_nil c _

/-- What is appended to a text is cut off exactly if its first character does not fit. -/
theorem clip_append_cons_eq_iff {c : Char} {rest : List Char} :
    clip max (cs ++ c :: rest) = clip max cs ↔ max < byteLength cs + c.utf8Size := by
  induction cs generalizing max with
  | nil =>
    rw [List.nil_append, clip, clip, byteLength]
    split
    · next hfit => exact iff_of_false (List.cons_ne_nil c _) (by omega)
    · next hlong => exact iff_of_true rfl (by omega)
  | cons d cs ih =>
    rw [List.cons_append, clip, clip, byteLength]
    split
    · next hfit =>
      rw [List.cons_inj_right, ih]
      omega
    · next hlong => exact iff_of_true rfl (by omega)

end Clip

/-! ### The search for a boundary -/

/-- The greatest position up to a given one at which a character of a text starts or the text ends,
searched for downwards; `none` if the search goes below zero. -/
def boundaryUpTo? (s : String) : (position : Nat) → Option Nat
  | 0 => if String.Pos.Raw.isValid s ⟨0⟩ then some 0 else none
  | position + 1 =>
    if String.Pos.Raw.isValid s ⟨position + 1⟩ then some (position + 1)
    else boundaryUpTo? s position

/-- The bytes of a text if they are not too many, and otherwise those up to the boundary that is
found; `none` if the search for it goes below zero. -/
def bytesUpTo? (s : String) (max : Nat) : Option ByteArray :=
  if s.utf8ByteSize ≤ max then some s.toByteArray
  else (boundaryUpTo? s max).map (s.toByteArray.extract 0 ·)

theorem isValid_iff {s : String} {position : Nat} :
    String.Pos.Raw.isValid s ⟨position⟩ = true ↔
      ∃ t rest, s = t ++ rest ∧ t.utf8ByteSize = position := by
  rw [String.Pos.Raw.isValid_eq_true_iff, String.Pos.Raw.isValid_iff_exists_append]
  simp only [String.Pos.Raw.ext_iff, String.byteIdx_rawEndPos, eq_comm (a := position)]

/-- The search ends at the last boundary. -/
theorem boundaryUpTo?_eq_some {s : String} {last position : Nat}
    (hlast : String.Pos.Raw.isValid s ⟨last⟩ = true) (hle : last ≤ position)
    (hnone : ∀ i, last < i → i ≤ position → String.Pos.Raw.isValid s ⟨i⟩ = false) :
    boundaryUpTo? s position = some last := by
  induction position with
  | zero =>
    obtain rfl : last = 0 := Nat.le_zero.mp hle
    rw [boundaryUpTo?, if_pos hlast]
  | succ position ih =>
    rcases Nat.eq_or_lt_of_le hle with rfl | hlt
    · rw [boundaryUpTo?, if_pos hlast]
    · have hfalse := hnone (position + 1) hlt (Nat.le_refl _)
      rw [boundaryUpTo?, hfalse, if_neg Bool.false_ne_true]
      exact ih (Nat.le_of_lt_succ hlt) fun i hi hi' => hnone i hi (Nat.le_succ_of_le hi')

section Cut

variable (s : String) (max : Nat)

theorem exists_eq_clip_append : ∃ rest, s = String.ofList (clip max s.toList) ++ rest := by
  obtain ⟨rest, hrest⟩ := clip_isPrefix max s.toList
  exact ⟨String.ofList rest, by rw [← String.ofList_append, hrest, String.ofList_toList]⟩

theorem utf8ByteSize_clip_le : (String.ofList (clip max s.toList)).utf8ByteSize ≤ max := by
  rw [utf8ByteSize_ofList_eq]
  exact byteLength_clip_le max s.toList

variable {s max} in
theorem utf8ByteSize_le_clip {t rest : String} (hstart : s = t ++ rest)
    (hfit : t.utf8ByteSize ≤ max) :
    t.utf8ByteSize ≤ (String.ofList (clip max s.toList)).utf8ByteSize := by
  rw [← byteLength_toList] at hfit
  rw [utf8ByteSize_ofList_eq, ← byteLength_toList]
  refine byteLength_le_of_isPrefix (isPrefix_clip ?_ hfit)
  rw [hstart, String.toList_append]
  exact List.prefix_append t.toList rest.toList

/-- **Both ways to the cut**: the search for a boundary does not go below zero, and the bytes up to
the boundary that it finds are those of the clipped text. -/
theorem bytesUpTo?_eq :
    bytesUpTo? s max = some (String.ofList (clip max s.toList)).toByteArray := by
  unfold bytesUpTo?
  split
  · next hfit =>
    rw [← byteLength_toList] at hfit
    rw [clip_eq_self hfit, String.ofList_toList]
  · obtain ⟨rest, hrest⟩ := exists_eq_clip_append s max
    have hboundary : boundaryUpTo? s max =
        some (String.ofList (clip max s.toList)).utf8ByteSize := by
      refine boundaryUpTo?_eq_some (isValid_iff.mpr ⟨_, rest, hrest, rfl⟩)
        (utf8ByteSize_clip_le s max) fun i hlast hmax => ?_
      rw [Bool.eq_false_iff, Ne, isValid_iff]
      rintro ⟨t, rest, hstart, rfl⟩
      exact Nat.not_le.mpr hlast (utf8ByteSize_le_clip hstart hmax)
    rw [hboundary, Option.map_some]
    generalize String.ofList (clip max s.toList) = cut at hrest
    rw [hrest, String.toByteArray_append, ByteArray.extract_append_eq_left]
    rfl

end Cut

end Sm83
