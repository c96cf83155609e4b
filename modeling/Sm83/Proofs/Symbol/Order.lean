import Sm83.Symbol.Table

/-!
# The order of symbols

A table is made in two steps: the symbols are ordered by address, where those of one address stay
as they are, and then each is given its length. The result of the first step is the only list with
these two properties. The second step looks at the symbols that follow, and not at the lengths
that they had before; so it does not matter whether some of the symbols have been in a table.

## Main definitions

* `orderedSymbols` — symbols in the order of their addresses.
* `Symbol.unmeasured` — a symbol without its length.
* `Symbol.next?` — the first symbol of the same bank among those that follow.

## Main results

* `eq_of_filter_start_eq` — ordered symbols are determined by the symbols of each address.
* `measured_cons` — the length of a symbol, by the next one of its bank.
* `SymbolTable.ofSymbols_append` — symbols that have been in a table, and others.
-/

namespace Sm83

/-! ### Ordering by address -/

/-- Symbols in the order of their addresses, as they stand in a table. -/
def orderedSymbols (symbols : List Symbol) : List Symbol :=
  symbols.mergeSort fun s t => s.start ≤ t.start

theorem decide_start_le_trans (s t u : Symbol) (hst : decide (s.start ≤ t.start) = true)
    (htu : decide (t.start ≤ u.start) = true) : decide (s.start ≤ u.start) = true :=
  decide_eq_true (UInt16.le_trans (of_decide_eq_true hst) (of_decide_eq_true htu))

theorem decide_start_le_total (s t : Symbol) :
    (decide (s.start ≤ t.start) || decide (t.start ≤ s.start)) = true := by
  simpa using UInt16.le_total s.start t.start

theorem pairwise_orderedSymbols (symbols : List Symbol) :
    (orderedSymbols symbols).Pairwise fun s t => s.start ≤ t.start :=
  (List.pairwise_mergeSort decide_start_le_trans decide_start_le_total symbols).imp
    of_decide_eq_true

theorem orderedSymbols_perm (symbols : List Symbol) : (orderedSymbols symbols).Perm symbols :=
  List.mergeSort_perm symbols _

/-- Symbols of one address stay in their order. -/
theorem filter_start_orderedSymbols (symbols : List Symbol) (addr : UInt16) :
    (orderedSymbols symbols).filter (·.start == addr) = symbols.filter (·.start == addr) := by
  -- Symbols of one address are in order already, so that they are still a part of the list in this
  -- order once it is sorted; and there are no more of them there.
  have hordered : (symbols.filter (·.start == addr)).Pairwise
      fun s t => decide (s.start ≤ t.start) = true := by
    refine List.pairwise_of_forall_mem_list fun s hs t ht => decide_eq_true ?_
    have hs : s.start = addr := by simpa using (List.mem_filter.mp hs).2
    have ht : t.start = addr := by simpa using (List.mem_filter.mp ht).2
    rw [hs, ht]
    exact UInt16.le_refl addr
  have hpart : (symbols.filter (·.start == addr)).Sublist (orderedSymbols symbols) :=
    List.sublist_mergeSort decide_start_le_trans decide_start_le_total hordered
      List.filter_sublist
  have hagain := hpart.filter (·.start == addr)
  rw [List.filter_filter] at hagain
  simp only [Bool.and_self] at hagain
  exact (hagain.eq_of_length ((orderedSymbols_perm symbols).filter _).length_eq.symm).symm

theorem mem_iff_of_filter_start_eq {xs ys : List Symbol}
    (h : ∀ addr, xs.filter (·.start == addr) = ys.filter (·.start == addr)) (s : Symbol) :
    s ∈ xs ↔ s ∈ ys := by
  have hiff : s ∈ xs.filter (·.start == s.start) ↔ s ∈ ys.filter (·.start == s.start) := by
    rw [h]
  simpa using hiff

/-- The first of ordered symbols has the lowest address. -/
theorem start_le_of_mem_cons {x : Symbol} {xs : List Symbol}
    (h : (x :: xs).Pairwise fun s t => s.start ≤ t.start) {s : Symbol} (hs : s ∈ x :: xs) :
    x.start ≤ s.start := by
  rcases List.mem_cons.mp hs with rfl | hin
  · exact UInt16.le_refl _
  · exact List.rel_of_pairwise_cons h hin

/-- **Ordered symbols are determined by the symbols of each address**, in their order. -/
theorem eq_of_filter_start_eq {xs ys : List Symbol}
    (hxs : xs.Pairwise fun s t => s.start ≤ t.start)
    (hys : ys.Pairwise fun s t => s.start ≤ t.start)
    (h : ∀ addr, xs.filter (·.start == addr) = ys.filter (·.start == addr)) : xs = ys := by
  have hmem := mem_iff_of_filter_start_eq h
  induction xs generalizing ys with
  | nil =>
    refine (List.eq_nil_iff_forall_not_mem.mpr fun s hs => ?_).symm
    exact List.not_mem_nil ((hmem s).mpr hs)
  | cons x xs ih =>
    cases ys with
    | nil => exact absurd ((hmem x).mp List.mem_cons_self) List.not_mem_nil
    | cons y ys =>
      have hstart : x.start = y.start :=
        UInt16.le_antisymm (start_le_of_mem_cons hxs ((hmem y).mpr List.mem_cons_self))
          (start_le_of_mem_cons hys ((hmem x).mp List.mem_cons_self))
      have hfirst : x = y := by
        have hboth := h x.start
        rw [List.filter_cons_of_pos (by simp), List.filter_cons_of_pos (by simp [hstart])] at hboth
        exact (List.cons.inj hboth).1
      subst hfirst
      have hrest (addr : UInt16) : xs.filter (·.start == addr) = ys.filter (·.start == addr) := by
        have hboth := h addr
        simp only [List.filter_cons] at hboth
        split at hboth
        · exact (List.cons.inj hboth).2
        · exact hboth
      rw [ih hxs.of_cons hys.of_cons hrest (mem_iff_of_filter_start_eq hrest)]

/-- Symbols that are ordered already can be ordered together with others. -/
theorem orderedSymbols_append (xs ys : List Symbol) :
    orderedSymbols (orderedSymbols xs ++ ys) = orderedSymbols (xs ++ ys) := by
  refine eq_of_filter_start_eq (pairwise_orderedSymbols _) (pairwise_orderedSymbols _)
    fun addr => ?_
  simp only [filter_start_orderedSymbols, List.filter_append]

/-- Symbols can be ordered before or after a change that keeps their starts. -/
theorem orderedSymbols_map {f : Symbol → Symbol} (hf : ∀ s, (f s).start = s.start)
    (symbols : List Symbol) : orderedSymbols (symbols.map f) = (orderedSymbols symbols).map f := by
  unfold orderedSymbols
  exact (List.map_mergeSort (f := f) fun s _ t _ => by rw [hf s, hf t]).symm

/-! ### Lengths -/

/-- The symbol without its length. -/
def Symbol.unmeasured (s : Symbol) : Symbol :=
  { s with length := 0 }

/-- The next symbol of the same bank, among those that follow in a table. -/
def Symbol.next? (s : Symbol) (following : List Symbol) : Option Symbol :=
  following.find? (·.bank == s.bank)

theorem Symbol.mem_of_next?_eq_some {s next : Symbol} {following : List Symbol}
    (h : s.next? following = some next) : next ∈ following :=
  List.mem_of_find?_eq_some h

/-- The next symbol is not looked for in other banks. -/
theorem Symbol.next?_filter_bank (s : Symbol) (following : List Symbol) :
    s.next? (following.filter (·.bank == s.bank)) = s.next? following := by
  rw [next?, List.find?_filter]
  simp only [and_self, Bool.decide_eq_true]
  rfl

theorem foldr_measureOnto_fst (symbols : List Symbol) :
    (symbols.foldr Symbol.measureOnto ([], [])).1 = symbols.map fun s => (s.bank, s.start) := by
  induction symbols with
  | nil => rfl
  | cons s rest ih => rw [List.foldr_cons, List.map_cons, ← ih]; rfl

/-- The start that is kept for a bank is that of its next symbol. -/
theorem lookup_starts (symbols : List Symbol) (bank : Bank) :
    (symbols.map fun s => (s.bank, s.start)).lookup bank =
      (symbols.find? (·.bank == bank)).map Symbol.start := by
  induction symbols with
  | nil => rfl
  | cons s rest ih =>
    by_cases h : s.bank = bank
    · simp [h]
    · have hne : (bank == s.bank) = false := beq_eq_false_iff_ne.mpr (Ne.symm h)
      simpa [List.lookup_cons, h, hne] using ih

@[simp] theorem measured_nil : measured [] = [] := rfl

/-- The length of a symbol, by the next one of its bank. -/
theorem measured_cons (s : Symbol) (rest : List Symbol) :
    measured (s :: rest) =
      { s with length := (s.next? rest).elim 0 (·.start - s.start) } :: measured rest := by
  have hlookup : (rest.foldr Symbol.measureOnto ([], [])).1.lookup s.bank =
      (s.next? rest).map Symbol.start := by
    rw [foldr_measureOnto_fst, lookup_starts, Symbol.next?]
  simp only [measured, List.foldr_cons, Symbol.measureOnto, hlookup, Option.elim_map]
  rfl

@[simp] theorem length_measured (symbols : List Symbol) :
    (measured symbols).length = symbols.length := by
  induction symbols with
  | nil => rfl
  | cons s rest ih => simp [measured_cons, ih]

/-- Nothing but lengths is changed by measuring. -/
theorem map_unmeasured_measured (symbols : List Symbol) :
    (measured symbols).map Symbol.unmeasured = symbols.map Symbol.unmeasured := by
  induction symbols with
  | nil => rfl
  | cons s rest ih => simp only [measured_cons, List.map_cons, ih]; rfl

/-- The lengths that symbols had before have no influence. -/
theorem measured_map_unmeasured (symbols : List Symbol) :
    measured (symbols.map Symbol.unmeasured) = measured symbols := by
  induction symbols with
  | nil => rfl
  | cons s rest ih =>
    have hnext : s.unmeasured.next? (rest.map Symbol.unmeasured) =
        (s.next? rest).map Symbol.unmeasured := List.find?_map
    rw [List.map_cons, measured_cons, measured_cons, ih, hnext, Option.elim_map]
    rfl

/-! ### Tables -/

namespace SymbolTable

theorem ofSymbols_symbols (symbols : List Symbol) :
    (ofSymbols symbols).symbols = measured (orderedSymbols symbols) := rfl

theorem length_ofSymbols (symbols : List Symbol) :
    (ofSymbols symbols).symbols.length = symbols.length := by
  rw [ofSymbols_symbols, length_measured, (orderedSymbols_perm symbols).length_eq]

/-- The symbols of one address are in a table in the order in which they were given. -/
theorem filter_start_ofSymbols (symbols : List Symbol) (addr : UInt16) :
    ((ofSymbols symbols).symbols.filter (·.start == addr)).map Symbol.unmeasured =
      (symbols.map Symbol.unmeasured).filter (·.start == addr) := by
  calc ((measured (orderedSymbols symbols)).filter (·.start == addr)).map Symbol.unmeasured
      = ((measured (orderedSymbols symbols)).map Symbol.unmeasured).filter (·.start == addr) := by
        rw [List.filter_map]
        rfl
    _ = (orderedSymbols (symbols.map Symbol.unmeasured)).filter (·.start == addr) := by
        rw [map_unmeasured_measured, orderedSymbols_map (f := Symbol.unmeasured) fun _ => rfl]
    _ = (symbols.map Symbol.unmeasured).filter (·.start == addr) := filter_start_orderedSymbols _ _

theorem ofSymbols_map_unmeasured (symbols : List Symbol) :
    ofSymbols (symbols.map Symbol.unmeasured) = ofSymbols symbols := by
  have hsymbols : measured (orderedSymbols (symbols.map Symbol.unmeasured)) =
      measured (orderedSymbols symbols) := by
    rw [orderedSymbols_map (f := Symbol.unmeasured) fun _ => rfl, measured_map_unmeasured]
  exact congrArg SymbolTable.mk hsymbols

/-- Of two symbols with one start, either can be in a table in the place of the other only if they
differ in nothing but their lengths. -/
theorem ofSymbols_append_cons_eq_iff {s t : Symbol} (hstart : s.start = t.start)
    (before following : List Symbol) :
    ofSymbols (before ++ s :: following) = ofSymbols (before ++ t :: following) ↔
      s.unmeasured = t.unmeasured := by
  constructor
  · intro h
    have hsame := filter_start_ofSymbols (before ++ s :: following) t.start
    rw [h, filter_start_ofSymbols] at hsame
    simp only [List.map_append, List.map_cons, List.filter_append,
      List.append_cancel_left_eq] at hsame
    have hfirst (u : Symbol) (hu : u.start = t.start) (rest : List Symbol) :
        (u :: rest).filter (·.start == t.start) = u :: rest.filter (·.start == t.start) :=
      List.filter_cons_of_pos (by simpa using hu)
    rw [hfirst t.unmeasured rfl, hfirst s.unmeasured hstart] at hsame
    exact (List.cons.inj hsame).1.symm
  · intro h
    rw [← ofSymbols_map_unmeasured, ← ofSymbols_map_unmeasured (before ++ t :: following)]
    simp only [List.map_append, List.map_cons, h]

/-- **Symbols that have been in a table, and others**: the table of all of them does not show
which is which. -/
theorem ofSymbols_append (xs ys : List Symbol) :
    ofSymbols ((ofSymbols xs).symbols ++ ys) = ofSymbols (xs ++ ys) := by
  have hsymbols : measured (orderedSymbols (orderedSymbols xs ++ ys)) =
      measured (orderedSymbols (xs ++ ys)) := by
    rw [orderedSymbols_append]
  calc ofSymbols ((ofSymbols xs).symbols ++ ys)
      = ofSymbols ((orderedSymbols xs ++ ys).map Symbol.unmeasured) := by
        rw [← ofSymbols_map_unmeasured, List.map_append, ofSymbols_symbols,
          map_unmeasured_measured, ← List.map_append]
    _ = ofSymbols (orderedSymbols xs ++ ys) := ofSymbols_map_unmeasured _
    _ = ofSymbols (xs ++ ys) := congrArg SymbolTable.mk hsymbols

end SymbolTable

end Sm83
