import Mathlib.Data.List.Basic
import Mathlib.Data.List.TakeDrop
import Mathlib.Data.List.TakeWhile
import Sm83.Symbol.Basic

/-!
# The columns of a line

A line of a symbol file that names a symbol has two columns, the place and the name. There may be
blanks in front of them and behind them, and there are blanks between them, but none in the place
and none at the ends of the name. So the columns are found by removing the blanks at the ends and
cutting at the first blank that is left. A line says nothing if it has no other characters than
blanks, or if the first other character is a semicolon.

## Main definitions

* `HasColumns` — the place and the name on a line, and the blanks behind them.

## Main results

* `trim_append_of_isBlank`, `trim_append_blanks`, `trim_eq_self` — the removal of blanks.
* `SymbolLine.read_eq_empty_iff` — the lines that say nothing.
* `SymbolLine.read_eq_named_iff` — the lines that name a symbol, by their columns.
-/

namespace Sm83

/-! ### Blanks at the ends -/

theorem trimStart_append_of_isBlank {gap : List Char} (hgap : ∀ c ∈ gap, isBlank c = true)
    (cs : List Char) : trimStart (gap ++ cs) = trimStart cs :=
  List.dropWhile_append_of_pos hgap

/-- Blanks in front of a text are removed. -/
theorem trim_append_of_isBlank {gap : List Char} (hgap : ∀ c ∈ gap, isBlank c = true)
    (cs : List Char) : trim (gap ++ cs) = trim cs := by
  rw [trim, trimStart_append_of_isBlank hgap, trim]

theorem trimStart_eq_self {cs : List Char} (h : ∀ c, cs.head? = some c → isBlank c = false) :
    trimStart cs = cs := by
  cases cs with
  | nil => rfl
  | cons c cs => exact List.dropWhile_cons_of_neg (by simp [h c rfl])

/-- What is left begins with a character that is not a blank. -/
theorem isBlank_head_trimStart (cs : List Char) :
    ∀ c, (trimStart cs).head? = some c → isBlank c = false := by
  intro c hc
  have hnot := List.head?_dropWhile_not isBlank cs
  rw [← trimStart, hc] at hnot
  exact hnot

theorem trimEnd_append_of_isBlank {blanks : List Char} (h : ∀ c ∈ blanks, isBlank c = true)
    (cs : List Char) : trimEnd (cs ++ blanks) = trimEnd cs := by
  have hreverse : ∀ c ∈ blanks.reverse, isBlank c = true := by simpa using h
  rw [trimEnd, List.reverse_append, List.dropWhile_append_of_pos hreverse, trimEnd]

/-- A character that is not a blank keeps all that stands before it. -/
theorem trimEnd_append_cons {c : Char} (hc : isBlank c = false) (cs rest : List Char) :
    trimEnd (cs ++ c :: rest) = cs ++ c :: trimEnd rest := by
  have hdrop (ds : List Char) : (ds ++ [c] ++ cs.reverse).dropWhile isBlank =
      ds.dropWhile isBlank ++ [c] ++ cs.reverse := by
    induction ds with
    | nil => exact List.dropWhile_cons_of_neg (by simp [hc])
    | cons d ds ih =>
      simp only [List.cons_append, List.dropWhile_cons]
      split
      · exact ih
      · rfl
  rw [trimEnd, List.reverse_append, List.reverse_cons, hdrop, trimEnd]
  simp

theorem trimEnd_eq_self {cs : List Char} (h : ∀ c, cs.getLast? = some c → isBlank c = false) :
    trimEnd cs = cs := by
  have hreverse : trimStart cs.reverse = cs.reverse := by
    refine trimStart_eq_self fun c hc => h c ?_
    rwa [List.head?_reverse] at hc
  rw [trimEnd, ← trimStart, hreverse, List.reverse_reverse]

/-- The blanks that are removed from the end of a text. -/
theorem exists_eq_trimEnd_append (cs : List Char) :
    ∃ blanks, (∀ c ∈ blanks, isBlank c = true) ∧ cs = trimEnd cs ++ blanks := by
  refine ⟨(cs.reverse.takeWhile isBlank).reverse, fun c hc => ?_, ?_⟩
  · exact List.mem_takeWhile_imp (List.mem_reverse.mp hc)
  · rw [trimEnd, ← List.reverse_append, List.takeWhile_append_dropWhile, List.reverse_reverse]

/-- What is left ends in a character that is not a blank. -/
theorem isBlank_last_trimEnd (cs : List Char) :
    ∀ c, (trimEnd cs).getLast? = some c → isBlank c = false := by
  intro c hc
  rw [trimEnd, List.getLast?_reverse] at hc
  exact isBlank_head_trimStart _ c hc

/-- Blanks behind a text are removed. -/
theorem trim_append_blanks {blanks : List Char} (h : ∀ c ∈ blanks, isBlank c = true)
    (cs : List Char) : trim (cs ++ blanks) = trim cs := by
  rw [trim, trim, trimStart, List.dropWhile_append]
  split
  · next hempty =>
    have hall : blanks.dropWhile isBlank = [] := List.dropWhile_eq_nil_iff.mpr h
    have hnone : trimStart cs = [] := List.isEmpty_iff.mp hempty
    rw [hall, hnone]
  · exact trimEnd_append_of_isBlank h _

/-- A text without blanks at its ends stays as it is. -/
theorem trim_eq_self {cs : List Char} (hhead : ∀ c, cs.head? = some c → isBlank c = false)
    (hlast : ∀ c, cs.getLast? = some c → isBlank c = false) : trim cs = cs := by
  rw [trim, trimStart_eq_self hhead, trimEnd_eq_self hlast]

/-- The blanks that are removed from both ends of a text. -/
theorem exists_eq_append_trim (cs : List Char) :
    ∃ front behind, (∀ c ∈ front, isBlank c = true) ∧ (∀ c ∈ behind, isBlank c = true) ∧
      cs = front ++ trim cs ++ behind := by
  obtain ⟨behind, hbehind, hend⟩ := exists_eq_trimEnd_append (trimStart cs)
  refine ⟨cs.takeWhile isBlank, behind, fun c => List.mem_takeWhile_imp, hbehind, ?_⟩
  rw [trim, List.append_assoc, ← hend, trimStart, List.takeWhile_append_dropWhile]

theorem isBlank_head_trim (cs : List Char) :
    ∀ c, (trim cs).head? = some c → isBlank c = false := by
  intro c hc
  obtain ⟨behind, -, hend⟩ := exists_eq_trimEnd_append (trimStart cs)
  refine isBlank_head_trimStart cs c ?_
  rw [hend, ← trim, List.head?_append, hc, Option.some_or]

/-- Of a text that does not end in a blank only blanks in front are removed. -/
theorem exists_gap_append_trim {cs : List Char}
    (hlast : ∀ c, cs.getLast? = some c → isBlank c = false) :
    ∃ gap, (∀ c ∈ gap, isBlank c = true) ∧ cs = gap ++ trim cs := by
  obtain ⟨front, behind, hfront, hbehind, hcut⟩ := exists_eq_append_trim cs
  rcases behind.eq_nil_or_concat with rfl | ⟨init, c, rfl⟩
  · exact ⟨front, hfront, hcut.trans (List.append_nil _)⟩
  · have hc : isBlank c = true := hbehind c (by simp)
    have hend : cs.getLast? = some c := by
      rw [hcut, List.concat_eq_append, ← List.append_assoc, List.getLast?_concat]
    rw [hlast c hend] at hc
    cases hc

theorem span_of_forall {p : Char → Bool} {cs rest : List Char} {c : Char}
    (hcs : ∀ d ∈ cs, p d = true) (hc : p c = false) :
    (cs ++ c :: rest).span p = (cs, c :: rest) := by
  rw [List.span_eq_takeWhile_dropWhile, List.takeWhile_append_of_pos hcs,
    List.dropWhile_append_of_pos hcs, List.takeWhile_cons_of_neg (by simp [hc]),
    List.dropWhile_cons_of_neg (by simp [hc]), List.append_nil]

/-! ### Lines that say nothing -/

/-- A line says nothing if it is blank or its first character that is not a blank is a semicolon. -/
theorem SymbolLine.read_eq_empty_iff {line : List Char} :
    SymbolLine.read line = .empty ↔
      trimStart line = [] ∨ ∃ comment, trimStart line = ';' :: comment := by
  rw [read, trim]
  cases hstart : trimStart line with
  | nil => exact iff_of_true rfl (.inl rfl)
  | cons c cs =>
    have hc : isBlank c = false := isBlank_head_trimStart line c (by rw [hstart]; rfl)
    have hend : trimEnd (c :: cs) = c :: trimEnd cs := trimEnd_append_cons hc [] cs
    rw [hend]
    by_cases hcomment : c = ';'
    · subst hcomment
      exact iff_of_true rfl (.inr ⟨cs, rfl⟩)
    · refine iff_of_false ?_ (by simp [hcomment])
      split
      · next h => cases h
      · next h => exact absurd (List.cons.inj h).1 hcomment
      · cases Symbol.ofLine? (c :: trimEnd cs) <;> exact nofun

/-! ### Columns -/

theorem Symbol.name_of_ofColumns? {place name : List Char} {s : Symbol}
    (h : Symbol.ofColumns? place name = some s) :
    name ≠ [] ∧ s.name = String.ofList (clip maxNameBytes name) := by
  unfold Symbol.ofColumns? at h
  split at h
  · cases h
  · simp only [Option.bind_eq_bind, Option.bind_eq_some_iff] at h
    obtain ⟨bank, -, start, -, hname⟩ := h
    split at hname
    · cases hname
    · next hfull =>
      cases hname
      exact ⟨by simpa using hfull, rfl⟩

/-- A line has a place and a name, and blanks may stand behind them. -/
structure HasColumns (line place name behind : List Char) : Prop where
  place_ne_nil : place ≠ []
  isBlank_place : ∀ c ∈ place, isBlank c = false
  name_ne_nil : name ≠ []
  isBlank_head : ∀ c, name.head? = some c → isBlank c = false
  isBlank_last : ∀ c, name.getLast? = some c → isBlank c = false
  isBlank_behind : ∀ c ∈ behind, isBlank c = true
  line_eq : ∃ front gap, (∀ c ∈ front, isBlank c = true) ∧ (∀ c ∈ gap, isBlank c = true) ∧
    gap ≠ [] ∧ line = front ++ (place ++ gap ++ name) ++ behind

namespace HasColumns

variable {line place name behind : List Char}

theorem exists_trim_eq (h : HasColumns line place name behind) :
    ∃ gap, (∀ c ∈ gap, isBlank c = true) ∧ gap ≠ [] ∧ trim line = place ++ gap ++ name := by
  obtain ⟨front, gap, hfront, hgap, hne, rfl⟩ := h.line_eq
  refine ⟨gap, hgap, hne, ?_⟩
  rw [trim_append_blanks h.isBlank_behind, trim_append_of_isBlank hfront]
  refine trim_eq_self (fun c hc => ?_) fun c hc => ?_
  · rw [List.append_assoc, List.head?_append_of_ne_nil _ h.place_ne_nil] at hc
    exact h.isBlank_place c (List.mem_of_head? hc)
  · rw [List.getLast?_append_of_ne_nil _ h.name_ne_nil] at hc
    exact h.isBlank_last c hc

/-- The columns of a line are read apart. -/
theorem ofLine?_trim (h : HasColumns line place name behind) :
    Symbol.ofLine? (trim line) = Symbol.ofColumns? place name := by
  obtain ⟨gap, hgap, hne, htrim⟩ := h.exists_trim_eq
  obtain ⟨c, gap, rfl⟩ := List.exists_cons_of_ne_nil hne
  have hspan : (place ++ c :: gap ++ name).span (!isBlank ·) = (place, c :: (gap ++ name)) := by
    rw [List.append_assoc, List.cons_append]
    exact span_of_forall (fun d hd => by simp [h.isBlank_place d hd])
      (by simp [hgap c List.mem_cons_self])
  have hname : trim (gap ++ name) = name := by
    rw [trim_append_of_isBlank fun d hd => hgap d (List.mem_cons_of_mem c hd)]
    exact trim_eq_self h.isBlank_head h.isBlank_last
  simp only [htrim, Symbol.ofLine?, hspan, hname]

end HasColumns

/-- A line from which a symbol is read has columns. -/
theorem exists_hasColumns {line : List Char} {s : Symbol}
    (h : Symbol.ofLine? (trim line) = some s) :
    ∃ place name behind, HasColumns line place name behind ∧
      Symbol.ofColumns? place name = some s := by
  obtain ⟨front, behind, hfront, hbehind, hline⟩ := exists_eq_append_trim line
  have hhead := isBlank_head_trim line
  have hlast : ∀ c, (trim line).getLast? = some c → isBlank c = false := isBlank_last_trimEnd _
  generalize trim line = text at h hline hhead hlast
  rw [Symbol.ofLine?, List.span_eq_takeWhile_dropWhile] at h
  have hsplit : text.takeWhile (!isBlank ·) ++ text.dropWhile (!isBlank ·) = text :=
    List.takeWhile_append_dropWhile
  have hplace : ∀ c ∈ text.takeWhile (!isBlank ·), isBlank c = false := fun c hc => by
    simpa using List.mem_takeWhile_imp hc
  have hblank := List.head?_dropWhile_not (!isBlank ·) text
  generalize text.takeWhile (!isBlank ·) = place at h hsplit hplace
  cases hrest : text.dropWhile (!isBlank ·) with
  | nil =>
    rw [hrest] at h
    cases h
  | cons d rest =>
    rw [hrest] at h hsplit hblank
    have hname := (Symbol.name_of_ofColumns? h).1
    have hd : isBlank d = true := by simpa using hblank
    -- The name ends where the text of the line ends, so no blanks are removed from its end.
    obtain ⟨gap, hgap, hcut⟩ : ∃ gap, (∀ c ∈ gap, isBlank c = true) ∧ rest = gap ++ trim rest := by
      refine exists_gap_append_trim fun c hc => hlast c ?_
      simp [← hsplit, List.getLast?_append, List.getLast?_cons, hc]
    have htext : text = place ++ d :: gap ++ trim rest := by
      rw [List.append_assoc, List.cons_append, ← hcut, hsplit]
    refine ⟨place, trim rest, behind, ⟨?_, hplace, hname, isBlank_head_trim rest,
      isBlank_last_trimEnd _, hbehind, front, d :: gap, hfront, ?_, List.cons_ne_nil d gap, ?_⟩, h⟩
    · rintro rfl
      exact absurd (hhead d (by rw [htext]; rfl)) (by simp [hd])
    · exact List.forall_mem_cons.mpr ⟨hd, hgap⟩
    · rw [hline, htext]

theorem SymbolLine.ofLine?_of_read {line : List Char} {s : Symbol}
    (h : SymbolLine.read line = .named s) : Symbol.ofLine? (trim line) = some s := by
  unfold read at h
  split at h
  · cases h
  · cases h
  · cases hs : Symbol.ofLine? (trim line) with
    | none => rw [hs] at h; cases h
    | some s' => rw [hs] at h; cases h; rfl

/-- **The lines that name a symbol** have columns, and the symbol is read from these; their first
character that is not a blank is no semicolon. -/
theorem SymbolLine.read_eq_named_iff {line : List Char} {s : Symbol} :
    SymbolLine.read line = .named s ↔ ∃ place name behind, HasColumns line place name behind ∧
      place.head? ≠ some ';' ∧ Symbol.ofColumns? place name = some s := by
  constructor
  · intro h
    obtain ⟨place, name, behind, hcolumns, hs⟩ := exists_hasColumns (ofLine?_of_read h)
    refine ⟨place, name, behind, hcolumns, fun hcomment => ?_, hs⟩
    obtain ⟨gap, -, -, htrim⟩ := hcolumns.exists_trim_eq
    obtain ⟨rest, rfl⟩ := List.head?_eq_some_iff.mp hcomment
    rw [read, htrim] at h
    cases h
  · rintro ⟨place, name, behind, hcolumns, hcomment, hs⟩
    have hsymbol := hcolumns.ofLine?_trim.trans hs
    obtain ⟨gap, -, -, htrim⟩ := hcolumns.exists_trim_eq
    have hhead : (trim line).head? = place.head? := by
      rw [htrim, List.append_assoc, List.head?_append_of_ne_nil _ hcolumns.place_ne_nil]
    unfold read
    split
    · next hempty => rw [hempty] at hsymbol; cases hsymbol
    · next hsemicolon => rw [hsemicolon] at hhead; exact absurd hhead.symm hcomment
    · rw [hsymbol]
      rfl

end Sm83
