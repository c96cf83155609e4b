import Mathlib
import Sm83.Proofs.Symbol.Loading

/-!
# What a symbol table says

In a table each symbol ends where the next one of its bank starts. The symbols of one bank, taken
alone, are a table again, in which the ranges follow one another without a gap from the start of the
first one to the start of the last one. Look-up by address finds its place in a table by bisection.
That the table is ordered is all that is needed for it to find the same as a search from the first
symbol, or from the last one.

## Main definitions

* `IsLaidOut` — symbols as they stand in a table.
* `checkedMeasured`, `SymbolTable.checkedExtend` — lengths that are never wrapped around.

## Main results

* `IsLaidOut.pairwise_stop_le`, `IsLaidOut.exists_covers_iff` — the ranges of a bank.
* `SymbolTable.labelAt_eq`, `SymbolTable.containing_eq` — look-up by address.
* `SymbolTable.checkedExtend_eq` — no subtraction wraps around.
* `symbol_table_after_calls` — the table after any calls, and what is looked up in it.
-/

namespace Sm83

theorem Symbol.covers_eq_true_iff {s : Symbol} {addr : UInt16} :
    s.covers addr = true ↔ s.start.toNat ≤ addr.toNat ∧ addr.toNat < s.stop :=
  decide_eq_true_iff

/-! ### Symbols as they stand in a table -/

/-- Symbols in the order of their addresses, each with its length. -/
structure IsLaidOut (symbols : List Symbol) : Prop where
  ordered : symbols.Pairwise fun s t => s.start ≤ t.start
  measured_eq : measured symbols = symbols

theorem pairwise_start_measured {symbols : List Symbol}
    (h : symbols.Pairwise fun s t => s.start ≤ t.start) :
    (measured symbols).Pairwise fun s t => s.start ≤ t.start := by
  have hsame : (measured symbols).map Symbol.start = symbols.map Symbol.start := by
    calc (measured symbols).map Symbol.start
        = ((measured symbols).map Symbol.unmeasured).map Symbol.start := by rw [List.map_map]; rfl
      _ = (symbols.map Symbol.unmeasured).map Symbol.start := by rw [map_unmeasured_measured]
      _ = symbols.map Symbol.start := by rw [List.map_map]; rfl
  rw [← List.pairwise_map (f := Symbol.start) (R := (· ≤ ·))] at h ⊢
  rw [hsame]
  exact h

theorem measured_measured (symbols : List Symbol) :
    measured (measured symbols) = measured symbols := by
  rw [← measured_map_unmeasured, map_unmeasured_measured, measured_map_unmeasured]

theorem SymbolTable.isLaidOut_ofSymbols (symbols : List Symbol) :
    IsLaidOut (ofSymbols symbols).symbols where
  ordered := pairwise_start_measured (pairwise_orderedSymbols symbols)
  measured_eq := measured_measured _

namespace IsLaidOut

variable {s : Symbol} {rest : List Symbol}

theorem of_cons (h : IsLaidOut (s :: rest)) : IsLaidOut rest where
  ordered := h.ordered.of_cons
  measured_eq := (List.cons.inj ((measured_cons s rest).symm.trans h.measured_eq)).2

theorem of_append {before following : List Symbol} (h : IsLaidOut (before ++ following)) :
    IsLaidOut following := by
  induction before with
  | nil => exact h
  | cons s before ih => exact ih h.of_cons

theorem length_eq (h : IsLaidOut (s :: rest)) :
    s.length = (s.next? rest).elim 0 (·.start - s.start) := by
  have hfirst := (List.cons.inj ((measured_cons s rest).symm.trans h.measured_eq)).1
  exact (congrArg Symbol.length hfirst).symm

theorem start_le (h : IsLaidOut (s :: rest)) {t : Symbol} (ht : t ∈ rest) : s.start ≤ t.start :=
  List.rel_of_pairwise_cons h.ordered ht

/-- A symbol ends where the next one of its bank starts. -/
theorem stop_eq (h : IsLaidOut (s :: rest)) {next : Symbol} (hnext : s.next? rest = some next) :
    s.start ≤ next.start ∧ s.stop = next.start.toNat := by
  have hle : s.start ≤ next.start := h.start_le (Symbol.mem_of_next?_eq_some hnext)
  refine ⟨hle, ?_⟩
  rw [Symbol.stop, h.length_eq, hnext, Option.elim_some, UInt16.toNat_sub_of_le _ _ hle]
  exact Nat.add_sub_of_le hle

theorem length_eq_zero (h : IsLaidOut (s :: rest)) (hnext : s.next? rest = none) :
    s.length = 0 := by
  rw [h.length_eq, hnext, Option.elim_none]

/-- None of the symbols of a bank starts before the next one. -/
theorem exists_next?_of_mem (h : IsLaidOut rest) {t : Symbol} (ht : t ∈ rest)
    (hbank : t.bank = s.bank) : ∃ next, s.next? rest = some next ∧ next.start ≤ t.start := by
  have hfound : (s.next? rest).isSome = true :=
    List.find?_isSome.mpr ⟨t, ht, beq_iff_eq.mpr hbank⟩
  obtain ⟨next, hnext⟩ := Option.isSome_iff_exists.mp hfound
  refine ⟨next, hnext, ?_⟩
  obtain ⟨-, before, after, rfl, hbefore⟩ := List.find?_eq_some_iff_append.mp hnext
  rcases List.mem_append.mp ht with hin | hin
  · exact absurd hbank (by simpa using hbefore t hin)
  · exact start_le_of_mem_cons h.of_append.ordered hin

/-- The range of a symbol ends before the later ones of its bank. -/
theorem pairwise_stop_le {symbols : List Symbol} (h : IsLaidOut symbols) :
    symbols.Pairwise fun s t => t.bank = s.bank → s.stop ≤ t.start.toNat := by
  induction symbols with
  | nil => exact .nil
  | cons s rest ih =>
    refine .cons (fun t ht hbank => ?_) (ih h.of_cons)
    obtain ⟨next, hnext, hle⟩ := h.of_cons.exists_next?_of_mem ht hbank
    rw [(h.stop_eq hnext).2]
    exact hle

theorem filter_bank {symbols : List Symbol} (h : IsLaidOut symbols) (bank : Bank) :
    IsLaidOut (symbols.filter (·.bank == bank)) := by
  refine ⟨h.ordered.filter _, ?_⟩
  induction symbols with
  | nil => rfl
  | cons s rest ih =>
    by_cases hs : s.bank = bank
    · subst hs
      rw [List.filter_cons_of_pos (by simp), measured_cons, ih h.of_cons, s.next?_filter_bank,
        ← h.length_eq]
    · rw [List.filter_cons_of_neg (by simpa using hs), ih h.of_cons]

/-! ### The ranges of one bank -/

/-- No two symbols of a bank cover the same address. -/
theorem pairwise_not_covers {symbols : List Symbol} (h : IsLaidOut symbols) (bank : Bank) :
    (symbols.filter (·.bank == bank)).Pairwise
      fun s t => ∀ addr, ¬(s.covers addr = true ∧ t.covers addr = true) := by
  refine (h.filter_bank bank).pairwise_stop_le.imp_of_mem fun {s t} hs ht hstop addr hboth => ?_
  have hs : s.bank = bank := by simpa using (List.mem_filter.mp hs).2
  have ht : t.bank = bank := by simpa using (List.mem_filter.mp ht).2
  have hle := hstop (ht.trans hs.symm)
  have hbefore := (Symbol.covers_eq_true_iff.mp hboth.1).2
  have hafter := (Symbol.covers_eq_true_iff.mp hboth.2).1
  omega

/-- **The ranges of one bank leave no gap** between the start of the first symbol and the start of
the last one, and they hold nothing else. -/
theorem exists_covers_iff {symbols : List Symbol} (h : IsLaidOut symbols) {bank : Bank}
    (hbank : ∀ s ∈ symbols, s.bank = bank) (addr : UInt16) :
    (∃ s ∈ symbols, s.covers addr = true) ↔
      ∃ first last, symbols.head? = some first ∧ symbols.getLast? = some last ∧
        first.start ≤ addr ∧ addr < last.start := by
  induction symbols with
  | nil => simp
  | cons s rest ih =>
    have ih := ih h.of_cons fun t ht => hbank t (List.mem_cons_of_mem s ht)
    cases rest with
    | nil =>
      have hstop : s.stop = s.start.toNat := by
        rw [Symbol.stop, h.length_eq_zero rfl]
        rfl
      simp only [List.mem_singleton, exists_eq_left, List.head?_singleton, List.getLast?_singleton,
        Option.some.injEq, exists_and_left, exists_eq_left', Symbol.covers_eq_true_iff, hstop,
        UInt16.le_iff_toNat_le, UInt16.lt_iff_toNat_lt]
    | cons next rest =>
      have hsame : next.bank = s.bank := by rw [hbank next (by simp), hbank s (by simp)]
      obtain ⟨hle, hstop⟩ := h.stop_eq (List.find?_cons_of_pos (beq_iff_eq.mpr hsame))
      obtain ⟨last, hlast⟩ : ∃ last, (next :: rest).getLast? = some last :=
        ⟨_, List.getLast?_eq_some_getLast (List.cons_ne_nil next rest)⟩
      have hend : next.start ≤ last.start :=
        start_le_of_mem_cons h.of_cons.ordered (List.mem_of_getLast? hlast)
      have hcons : (∃ t ∈ s :: next :: rest, t.covers addr = true) ↔
          s.covers addr = true ∨ ∃ t ∈ next :: rest, t.covers addr = true := by
        simp only [List.mem_cons, exists_eq_or_imp]
      -- The symbol covers what is in front of the next one, where the later ranges begin.
      rw [hcons, ih, Symbol.covers_eq_true_iff, hstop]
      simp only [List.head?_cons, List.getLast?_cons_cons, hlast, Option.some.injEq,
        exists_and_left, exists_eq_left']
      simp only [UInt16.le_iff_toNat_le, UInt16.lt_iff_toNat_lt] at hle hend ⊢
      omega

end IsLaidOut

/-! ### Look-up by address -/

section LookUp

variable {symbols : List Symbol} (h : symbols.Pairwise fun s t => s.start ≤ t.start)

include h

theorem pairwise_start_lt (addr : UInt16) : symbols.Pairwise fun s t =>
    decide (t.start < addr) = true → decide (s.start < addr) = true := by
  refine h.imp fun hle hlt => decide_eq_true ?_
  exact UInt16.lt_of_le_of_lt hle (of_decide_eq_true hlt)

theorem pairwise_start_le (addr : UInt16) : symbols.Pairwise fun s t =>
    decide (t.start ≤ addr) = true → decide (s.start ≤ addr) = true := by
  refine h.imp fun hle hlt => decide_eq_true ?_
  exact UInt16.le_trans hle (of_decide_eq_true hlt)

/-- If a symbol starts at an address, one of them is the first that does not start before. -/
theorem head?_dropWhile_start_lt (addr : UInt16) :
    (symbols.dropWhile (·.start < addr)).head?.filter (·.start == addr) =
      symbols.find? (·.start == addr) := by
  induction symbols with
  | nil => rfl
  | cons s rest ih =>
    by_cases hbefore : s.start < addr
    · rw [List.dropWhile_cons_of_pos (by simpa using hbefore), ih h.of_cons,
        List.find?_cons_of_neg (by simpa using UInt16.ne_of_lt hbefore)]
    · rw [List.dropWhile_cons_of_neg (by simpa using hbefore), List.head?_cons]
      by_cases hhere : s.start = addr
      · rw [Option.filter_some_pos (by simpa using hhere),
          List.find?_cons_of_pos (by simpa using hhere)]
      · -- The first one starts behind the address, and so do all that follow.
        have hnone : (s :: rest).find? (·.start == addr) = none := by
          refine List.find?_eq_none.mpr fun t ht heq => ?_
          have hle := start_le_of_mem_cons h ht
          rw [beq_iff_eq.mp heq] at hle
          exact hhere (UInt16.le_antisymm hle (UInt16.not_lt.mp hbefore))
        rw [Option.filter_some_neg (by simpa using hhere), hnone]

theorem lt_start_of_mem_dropWhile (addr : UInt16) {s : Symbol}
    (hs : s ∈ symbols.dropWhile (·.start ≤ addr)) : addr < s.start := by
  have hrest := h.sublist (List.dropWhile_sublist (·.start ≤ addr))
  cases hdrop : symbols.dropWhile (·.start ≤ addr) with
  | nil =>
    rw [hdrop] at hs
    cases hs
  | cons first rest =>
    have hfirst := List.head?_dropWhile_not (·.start ≤ addr) symbols
    rw [hdrop] at hs hrest hfirst
    have hbehind : addr < first.start := UInt16.not_le.mp (of_decide_eq_false hfirst)
    exact UInt16.lt_of_lt_of_le hbehind (start_le_of_mem_cons hrest hs)

/-- A symbol that covers an address does not start behind it. -/
theorem find?_reverse_takeWhile_start_le (addr : UInt16) :
    (symbols.takeWhile (·.start ≤ addr)).reverse.find? (·.covers addr) =
      symbols.reverse.find? (·.covers addr) := by
  have hnone : (symbols.dropWhile (·.start ≤ addr)).reverse.find? (·.covers addr) = none := by
    refine List.find?_eq_none.mpr fun s hs hcovers => ?_
    have hbehind := lt_start_of_mem_dropWhile h addr (List.mem_reverse.mp hs)
    have hstart := (Symbol.covers_eq_true_iff.mp hcovers).1
    exact Nat.not_lt.mpr hstart (UInt16.lt_iff_toNat_lt.mp hbehind)
  have hsplit : symbols.takeWhile (·.start ≤ addr) ++ symbols.dropWhile (·.start ≤ addr) =
      symbols := List.takeWhile_append_dropWhile
  calc (symbols.takeWhile (·.start ≤ addr)).reverse.find? (·.covers addr)
      = (symbols.takeWhile (·.start ≤ addr) ++ symbols.dropWhile (·.start ≤ addr)).reverse.find?
          (·.covers addr) := by
        rw [List.reverse_append, List.find?_append, hnone, Option.none_or]
    _ = symbols.reverse.find? (·.covers addr) := by rw [hsplit]

end LookUp

namespace SymbolTable

variable {t : SymbolTable} (h : IsLaidOut t.symbols)

include h

/-- The label of an address is the first symbol that starts there. -/
theorem labelAt_eq (addr : UInt16) :
    t.labelAt addr = (t.symbols.find? (·.start == addr)).map Symbol.name := by
  rw [labelAt, getElem?_partitionPoint (pairwise_start_lt h.ordered addr),
    head?_dropWhile_start_lt h.ordered]

/-- The symbol that holds an address is the last one that covers it. -/
theorem containing_eq (addr : UInt16) :
    t.containing addr = t.symbols.reverse.find? (·.covers addr) := by
  rw [containing, take_partitionPoint (pairwise_start_le h.ordered addr),
    find?_reverse_takeWhile_start_le h.ordered]

theorem labelAt_eq_some_iff {addr : UInt16} {name : String} :
    t.labelAt addr = some name ↔ ∃ before s following, t.symbols = before ++ s :: following ∧
      s.start = addr ∧ s.name = name ∧ ∀ s' ∈ before, s'.start ≠ addr := by
  simp only [labelAt_eq h, Option.map_eq_some_iff, List.find?_eq_some_iff_append, beq_iff_eq,
    Bool.not_eq_true', beq_eq_false_iff_ne]
  constructor
  · rintro ⟨s, ⟨hstart, before, following, hsplit, hbefore⟩, hname⟩
    exact ⟨before, s, following, hsplit, hstart, hname, hbefore⟩
  · rintro ⟨before, s, following, hsplit, hstart, hname, hbefore⟩
    exact ⟨s, ⟨hstart, before, following, hsplit, hbefore⟩, hname⟩

theorem labelAt_eq_none_iff {addr : UInt16} :
    t.labelAt addr = none ↔ ∀ s ∈ t.symbols, s.start ≠ addr := by
  rw [labelAt_eq h, Option.map_eq_none_iff, List.find?_eq_none]
  simp only [beq_iff_eq, ne_eq]

theorem containing_eq_some_iff {addr : UInt16} {s : Symbol} :
    t.containing addr = some s ↔ ∃ before following, t.symbols = before ++ s :: following ∧
      s.covers addr = true ∧ ∀ s' ∈ following, s'.covers addr = false := by
  simp only [containing_eq h, List.find?_eq_some_iff_append, Bool.not_eq_true']
  constructor
  · rintro ⟨hcovers, following, before, hsplit, hfollowing⟩
    refine ⟨before.reverse, following.reverse, ?_, hcovers, by simpa using hfollowing⟩
    simpa using congrArg List.reverse hsplit
  · rintro ⟨before, following, hsplit, hcovers, hfollowing⟩
    refine ⟨hcovers, following.reverse, before.reverse, ?_, by simpa using hfollowing⟩
    simp [hsplit]

theorem containing_eq_none_iff {addr : UInt16} :
    t.containing addr = none ↔ ∀ s ∈ t.symbols, s.covers addr = false := by
  rw [containing_eq h, List.find?_eq_none]
  simp only [List.mem_reverse, Bool.not_eq_true]

end SymbolTable

/-! ### Subtractions -/

/-- The difference of two addresses; `none` where it is below zero. -/
def checkedSub (x y : UInt16) : Option UInt16 :=
  if y ≤ x then some (x - y) else none

/-- `Symbol.measureOnto`, with the check of its subtraction. -/
def Symbol.checkedMeasureOnto (s : Symbol) (sofar : List (Bank × UInt16) × List Symbol) :
    Option (List (Bank × UInt16) × List Symbol) := do
  let (starts, following) := sofar
  let length ← (starts.lookup s.bank).elim (some 0) (checkedSub · s.start)
  some ((s.bank, s.start) :: starts, { s with length := length } :: following)

/-- `measured`, with the checks of its subtractions. -/
def checkedMeasured (symbols : List Symbol) : Option (List Symbol) :=
  (symbols.foldrM Symbol.checkedMeasureOnto ([], [])).map Prod.snd

/-- The table with the symbols of a text added; `none` if a subtraction fails. -/
def SymbolTable.checkedExtend (t : SymbolTable) (text : List Char) : Option SymbolTable :=
  (checkedMeasured (orderedSymbols (t.symbols ++ symbolsIn text))).map SymbolTable.mk

/-- The table after a call; `none` if a subtraction fails. -/
def SymbolCall.checkedPerform (t : SymbolTable) : SymbolCall → Option SymbolTable
  | parse text => ({} : SymbolTable).checkedExtend text
  | extend text => t.checkedExtend text

theorem Symbol.checkedMeasureOnto_eq (s : Symbol) (sofar : List (Bank × UInt16) × List Symbol)
    (h : ∀ next, sofar.1.lookup s.bank = some next → s.start ≤ next) :
    s.checkedMeasureOnto sofar = some (s.measureOnto sofar) := by
  have hlength : (sofar.1.lookup s.bank).elim (some 0) (checkedSub · s.start) =
      some ((sofar.1.lookup s.bank).elim 0 (· - s.start)) := by
    cases hnext : sofar.1.lookup s.bank with
    | none => rfl
    | some next => exact if_pos (h next hnext)
  simp only [checkedMeasureOnto, hlength]
  rfl

theorem foldrM_checkedMeasureOnto {symbols : List Symbol}
    (h : symbols.Pairwise fun s t => s.start ≤ t.start) :
    symbols.foldrM Symbol.checkedMeasureOnto ([], []) =
      some (symbols.foldr Symbol.measureOnto ([], [])) := by
  induction symbols with
  | nil => rfl
  | cons s rest ih =>
    rw [List.foldrM_cons, ih h.of_cons, List.foldr_cons]
    refine s.checkedMeasureOnto_eq _ fun start hstart => ?_
    rw [foldr_measureOnto_fst, lookup_starts] at hstart
    obtain ⟨next, hnext, rfl⟩ := Option.map_eq_some_iff.mp hstart
    exact List.rel_of_pairwise_cons h (List.mem_of_find?_eq_some hnext)

/-- No subtraction fails when a table is extended, whatever its symbols are. -/
theorem SymbolTable.checkedExtend_eq (t : SymbolTable) (text : List Char) :
    t.checkedExtend text = some (t.extend text).2 := by
  rw [checkedExtend, checkedMeasured, foldrM_checkedMeasureOnto (pairwise_orderedSymbols _)]
  rfl

theorem foldlM_checkedPerform (calls : List SymbolCall) :
    calls.foldlM SymbolCall.checkedPerform {} = some (SymbolTable.after calls) := by
  have hpure : SymbolCall.checkedPerform = fun t call => pure (call.perform t) := by
    funext t call
    cases call with
    | parse text => exact SymbolTable.checkedExtend_eq {} text
    | extend text => exact t.checkedExtend_eq text
  rw [hpure, List.foldlM_pure]
  rfl

/-! ### Tables after some calls -/

/-- **A symbol table after any calls**, and what is looked up in it. The symbols are ordered by
address, and those of one address by their insertion; each ends where the next one of its bank
starts, and the last one of a bank is empty, where no subtraction is below zero. So the ranges of a
bank do not meet, and together they reach from its first to its last symbol. The label of an address
is the first symbol that starts there, and the symbol that holds it is the last one that covers it;
each is missing only if there is no such symbol. -/
theorem symbol_table_after_calls (calls : List SymbolCall) :
    let t := SymbolTable.after calls
    let ofBank (bank : Bank) := t.symbols.filter (·.bank == bank)
    t.symbols.Pairwise (fun s s' => s.start ≤ s'.start) ∧
      (∀ addr, (t.symbols.filter (·.start == addr)).map Symbol.unmeasured =
        (insertedBy calls).filter (·.start == addr)) ∧
      (∀ before s following, t.symbols = before ++ s :: following →
        (∀ next, s.next? following = some next →
          s.start.toNat + s.length.toNat = next.start.toNat) ∧
        (s.next? following = none → s.length = 0)) ∧
      calls.foldlM SymbolCall.checkedPerform {} = some t ∧
      (∀ bank, (ofBank bank).Pairwise
        fun s s' => ∀ addr, ¬(s.covers addr = true ∧ s'.covers addr = true)) ∧
      (∀ bank addr, (∃ s ∈ ofBank bank, s.covers addr = true) ↔
        ∃ first last, (ofBank bank).head? = some first ∧ (ofBank bank).getLast? = some last ∧
          first.start ≤ addr ∧ addr < last.start) ∧
      (∀ addr name, t.labelAt addr = some name ↔
        ∃ before s following, t.symbols = before ++ s :: following ∧
          s.start = addr ∧ s.name = name ∧ ∀ s' ∈ before, s'.start ≠ addr) ∧
      (∀ addr, t.labelAt addr = none ↔ ∀ s ∈ t.symbols, s.start ≠ addr) ∧
      (∀ addr s, t.containing addr = some s ↔
        ∃ before following, t.symbols = before ++ s :: following ∧
          s.covers addr = true ∧ ∀ s' ∈ following, s'.covers addr = false) ∧
      (∀ addr, t.containing addr = none ↔ ∀ s ∈ t.symbols, s.covers addr = false) := by
  intro t ofBank
  have htable : t = SymbolTable.ofSymbols (insertedBy calls) := SymbolTable.after_eq calls
  have h : IsLaidOut t.symbols := htable ▸ SymbolTable.isLaidOut_ofSymbols (insertedBy calls)
  refine ⟨h.ordered, fun addr => ?_, fun before s following hsplit => ?_,
    foldlM_checkedPerform calls, h.pairwise_not_covers, fun bank addr => ?_,
    fun addr name => SymbolTable.labelAt_eq_some_iff h,
    fun addr => SymbolTable.labelAt_eq_none_iff h,
    fun addr s => SymbolTable.containing_eq_some_iff h,
    fun addr => SymbolTable.containing_eq_none_iff h⟩
  · rw [htable, SymbolTable.filter_start_ofSymbols, map_unmeasured_insertedBy]
  · rw [hsplit] at h
    exact ⟨fun next hnext => (h.of_append.stop_eq hnext).2, h.of_append.length_eq_zero⟩
  · exact (h.filter_bank bank).exists_covers_iff
      (fun s hs => by simpa using (List.mem_filter.mp hs).2) addr

/-- A symbol that is inserted later and comes first. -/
theorem symbol_ends_where_earlier_insertion_starts :
    let calls : List SymbolCall :=
      [.parse "01:4010 Stop".toList, .extend "01:4000 Start".toList]
    let start : Symbol := ⟨"Start", .rom 1, 0x4000, 0x10⟩
    let stop : Symbol := ⟨"Stop", .rom 1, 0x4010, 0⟩
    (SymbolTable.after calls).symbols = [] ++ start :: [stop] ∧ start.next? [stop] = some stop ∧
      start.start.toNat + start.length.toNat = stop.start.toNat := by
  intro calls start stop
  have hsymbols : (SymbolTable.after calls).symbols = [] ++ start :: [stop] := by cbv
  exact ⟨hsymbols, rfl,
    ((symbol_table_after_calls calls).2.2.1 [] start [stop] hsymbols).1 stop rfl⟩

end Sm83
