import Sm83.Proofs.Symbol.Columns
import Sm83.Proofs.Symbol.Order

/-!
# Loading symbols

A table can be loaded from several files, one after the other. It is as if they were one file: a
line feed between two texts ends the last line of the first, which is read as it was without, and
what does not depend on the order of the symbols is the same for both. So a table holds the symbols
that were inserted since it was begun, and nothing is left of the calls that inserted them.

## Main definitions

* `symbolsIn` — the symbols that a text names.
* `tellingLines` — the lines of a text that say something.
* `SymbolCall`, `SymbolTable.after` — tables are begun and extended.

## Main results

* `tellingLines_append` — a line feed between two texts.
* `SymbolTable.extend_in_parts` — two texts are loaded as the one text of both.
* `SymbolTable.after_eq` — the table after some calls, by what they inserted.
-/

namespace Sm83

/-- The symbols that a text names, in the order of its lines. -/
def symbolsIn (text : List Char) : List Symbol :=
  ((lines text).map SymbolLine.read).filterMap SymbolLine.symbol?

/-! ### Lines that say something -/

theorem SymbolLine.read_append_return (line : List Char) :
    SymbolLine.read (line ++ ['\r']) = SymbolLine.read line := by
  have hreturn : ∀ c ∈ ['\r'], isBlank c = true :=
    List.forall_mem_singleton.mpr (by decide)
  rw [read, trim_append_blanks hreturn, read]

/-- A carriage return at the end of a line is one of its blanks. -/
theorem read_withoutReturn (sofar : List Char) :
    SymbolLine.read (withoutReturn sofar).reverse = SymbolLine.read sofar.reverse := by
  fun_cases withoutReturn sofar with
  | case1 cs => rw [List.reverse_cons, SymbolLine.read_append_return]
  | case2 => rfl

/-- The lines of a text that say something, each understood. -/
def tellingLines (text : List Char) : List SymbolLine :=
  ((lines text).map SymbolLine.read).filter (· != .empty)

/-- A line feed ends the last line, and it may begin one that says nothing. -/
theorem filter_read_linesFrom_lineFeed (sofar text : List Char) :
    ((linesFrom sofar (text ++ ['\n'])).map SymbolLine.read).filter (· != .empty) =
      ((linesFrom sofar text).map SymbolLine.read).filter (· != .empty) := by
  fun_induction linesFrom sofar text with
  | case1 sofar hempty =>
    rw [List.isEmpty_iff.mp hempty]
    decide
  | case2 sofar hmore =>
    simp only [List.nil_append, linesFrom, List.map_cons, read_withoutReturn]
    rfl
  | case3 sofar cs ih =>
    simp only [List.cons_append, linesFrom, List.map_cons, List.filter_cons, ih]
  | case4 sofar c cs hc ih =>
    rw [List.cons_append, linesFrom, ih]
    exact hc

/-- A line feed between two texts keeps the lines of both. -/
theorem tellingLines_append (a b : List Char) :
    tellingLines (a ++ '\n' :: b) = tellingLines a ++ tellingLines b := by
  have hfirst : tellingLines (a ++ ['\n']) = tellingLines a := filter_read_linesFrom_lineFeed [] a
  rw [← hfirst]
  simp only [tellingLines, lines_append_lineFeed a b, List.map_append, List.filter_append]

theorem symbolsIn_eq (text : List Char) :
    symbolsIn text = (tellingLines text).filterMap SymbolLine.symbol? := by
  rw [tellingLines, List.filterMap_filter]
  refine congrArg (List.filterMap · _) (funext fun line => ?_)
  cases line <;> rfl

theorem symbolsIn_append (a b : List Char) :
    symbolsIn (a ++ '\n' :: b) = symbolsIn a ++ symbolsIn b := by
  simp only [symbolsIn_eq, tellingLines_append, List.filterMap_append]

namespace SymbolTable

theorem extend_table (t : SymbolTable) (text : List Char) :
    (t.extend text).2 = ofSymbols (t.symbols ++ symbolsIn text) := rfl

theorem extend_added (t : SymbolTable) (text : List Char) :
    (t.extend text).1.added = (symbolsIn text).length := rfl

theorem extend_skipped (t : SymbolTable) (text : List Char) :
    (t.extend text).1.skipped = (tellingLines text).count .malformed := by
  rw [tellingLines, List.count_filter (by decide)]
  rfl

/-- A table depends only on the lines that say something. -/
theorem extend_congr (t : SymbolTable) {a b : List Char} (h : tellingLines a = tellingLines b) :
    t.extend a = t.extend b := by
  have hsymbols : symbolsIn a = symbolsIn b := by rw [symbolsIn_eq, symbolsIn_eq, h]
  refine Prod.ext (congrArg₂ SymbolReport.mk ?_ ?_) ?_
  · exact congrArg List.length hsymbols
  · exact (t.extend_skipped a).trans (h ▸ (t.extend_skipped b).symm)
  · rw [extend_table, extend_table, hsymbols]

/-- A table grows by what is added to it. -/
theorem length_extend (t : SymbolTable) (text : List Char) :
    (t.extend text).2.symbols.length = t.symbols.length + (t.extend text).1.added := by
  rw [extend_table, length_ofSymbols, List.length_append, extend_added]

/-- **Two texts are loaded as the one text of both**, with a line feed between them: the table and
what is counted are the same, and each time the table grows by the symbols that are counted. -/
theorem extend_in_parts (t : SymbolTable) (a b : List Char) :
    let first := t.extend a
    let second := first.2.extend b
    let whole := t.extend (a ++ '\n' :: b)
    second.2 = whole.2 ∧
      first.1.added + second.1.added = whole.1.added ∧
      first.1.skipped + second.1.skipped = whole.1.skipped ∧
      first.2.symbols.length = t.symbols.length + first.1.added ∧
      second.2.symbols.length = first.2.symbols.length + second.1.added ∧
      whole.2.symbols.length = t.symbols.length + whole.1.added := by
  intro first second whole
  refine ⟨?_, ?_, ?_, t.length_extend a, first.2.length_extend b, t.length_extend _⟩
  · calc second.2
        = ofSymbols ((ofSymbols (t.symbols ++ symbolsIn a)).symbols ++ symbolsIn b) := rfl
      _ = ofSymbols (t.symbols ++ symbolsIn a ++ symbolsIn b) := ofSymbols_append _ _
      _ = whole.2 := by rw [extend_table, symbolsIn_append, List.append_assoc]
  · simp only [first, second, whole, extend_added, symbolsIn_append, List.length_append]
  · simp only [first, second, whole, extend_skipped, tellingLines_append, List.count_append]

end SymbolTable

/-! ### Calls -/

/-- What is done with a table: it is made anew from a text, or it is extended by one. -/
inductive SymbolCall where
  | parse (text : List Char)
  | extend (text : List Char)
  deriving DecidableEq, Repr

/-- The table after a call. -/
def SymbolCall.perform (t : SymbolTable) : SymbolCall → SymbolTable
  | parse text => (SymbolTable.parse text).2
  | extend text => (t.extend text).2

/-- The symbols that are in the table after a call, in the order in which they were inserted. -/
def SymbolCall.insert (inserted : List Symbol) : SymbolCall → List Symbol
  | parse text => symbolsIn text
  | extend text => inserted ++ symbolsIn text

/-- The table after some calls, the earliest first; before these it is empty. -/
def SymbolTable.after (calls : List SymbolCall) : SymbolTable :=
  calls.foldl SymbolCall.perform {}

/-- The symbols that are in the table after some calls, in the order in which they were inserted. -/
def insertedBy (calls : List SymbolCall) : List Symbol :=
  calls.foldl SymbolCall.insert []

theorem SymbolCall.perform_ofSymbols (inserted : List Symbol) (call : SymbolCall) :
    call.perform (SymbolTable.ofSymbols inserted) =
      SymbolTable.ofSymbols (call.insert inserted) := by
  cases call with
  | parse text => rfl
  | extend text => exact SymbolTable.ofSymbols_append inserted (symbolsIn text)

theorem foldl_perform_ofSymbols (calls : List SymbolCall) (inserted : List Symbol) :
    calls.foldl SymbolCall.perform (SymbolTable.ofSymbols inserted) =
      SymbolTable.ofSymbols (calls.foldl SymbolCall.insert inserted) := by
  induction calls generalizing inserted with
  | nil => rfl
  | cons call calls ih => rw [List.foldl_cons, List.foldl_cons, call.perform_ofSymbols, ih]

/-- The table after some calls shows only what is in it since it was last made anew. -/
theorem SymbolTable.after_eq (calls : List SymbolCall) :
    SymbolTable.after calls = SymbolTable.ofSymbols (insertedBy calls) := by
  have hempty : SymbolTable.ofSymbols [] = {} := by simp [SymbolTable.ofSymbols]
  rw [SymbolTable.after, ← hempty]
  exact foldl_perform_ofSymbols calls []

/-! ### Symbols as they are read -/

theorem unmeasured_of_ofColumns? {place name : List Char} {s : Symbol}
    (h : Symbol.ofColumns? place name = some s) : s.unmeasured = s := by
  unfold Symbol.ofColumns? at h
  split at h
  · cases h
  · simp only [Option.bind_eq_bind, Option.bind_eq_some_iff] at h
    obtain ⟨bank, -, start, -, hname⟩ := h
    split at hname
    · cases hname
    · cases hname
      rfl

theorem unmeasured_of_ofLine? {line : List Char} {s : Symbol}
    (h : Symbol.ofLine? line = some s) : s.unmeasured = s := by
  unfold Symbol.ofLine? at h
  split at h
  · cases h
  · exact unmeasured_of_ofColumns? h

theorem ofLine?_of_symbol?_read {line : List Char} {s : Symbol}
    (h : (SymbolLine.read line).symbol? = some s) : Symbol.ofLine? (trim line) = some s := by
  cases hread : SymbolLine.read line with
  | named t =>
    rw [hread] at h
    cases h
    exact SymbolLine.ofLine?_of_read hread
  | empty | malformed =>
    rw [hread] at h
    cases h

/-- A symbol has no length yet when it is read. -/
theorem map_unmeasured_symbolsIn (text : List Char) :
    (symbolsIn text).map Symbol.unmeasured = symbolsIn text := by
  have hsame (s : Symbol) (hs : s ∈ symbolsIn text) : s.unmeasured = s := by
    obtain ⟨line, hline, hsymbol⟩ := List.mem_filterMap.mp hs
    obtain ⟨cs, -, rfl⟩ := List.mem_map.mp hline
    exact unmeasured_of_ofLine? (ofLine?_of_symbol?_read hsymbol)
  exact (List.map_congr_left hsame).trans (List.map_id' _)

theorem SymbolCall.map_unmeasured_insert {inserted : List Symbol}
    (h : inserted.map Symbol.unmeasured = inserted) (call : SymbolCall) :
    (call.insert inserted).map Symbol.unmeasured = call.insert inserted := by
  cases call with
  | parse text => exact map_unmeasured_symbolsIn text
  | extend text => rw [insert, List.map_append, h, map_unmeasured_symbolsIn]

theorem map_unmeasured_insertedBy (calls : List SymbolCall) :
    (insertedBy calls).map Symbol.unmeasured = insertedBy calls := by
  refine List.foldlRecOn (motive := fun inserted => inserted.map Symbol.unmeasured = inserted)
    calls SymbolCall.insert List.map_nil fun _ h call _ => ?_
  exact call.map_unmeasured_insert h

end Sm83
