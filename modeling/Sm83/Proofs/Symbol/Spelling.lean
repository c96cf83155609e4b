import Sm83.Proofs.Symbol.Ranges
import Sm83.Proofs.Text.Clipping
import Sm83.Proofs.Text.Numerals

/-!
# Symbols as they are written

There is more than one way to write a symbol: letters of either case, zeros in front of a number,
any blanks in front of the name. Between the lines of the symbols there may be lines that say
nothing, and lines may end in two ways. Whatever is chosen, the symbols are read back, provided that
their names fit a line: a name is cut at its blank ends, at a line feed and at its thirty-first
byte, and nowhere else.

## Main definitions

* `hexSpellings`, `Bank.spellings`, `Symbol.spellings` — the ways to write a number, a bank, and the
  line of a symbol.
* `silentLines` — the lines that say nothing.
* `Spells` — the texts that are made of the lines of some symbols.
* `IsPlainName` — the names that fit a line.

## Main results

* `Symbol.ofColumns?_of_mem_spellings`, `SymbolLine.read_of_mem_spellings` — a line is read back.
* `tellingLines_line` — the first line of a text.
* `symbol_file_round_trip` — a text is read back.
-/

namespace Sm83

/-! ### Ways to write -/

/-- The ways to write a number in hexadecimal: with any number of zeros in front, and each letter in
either case. -/
def hexSpellings (n : Nat) : Set (List Char) :=
  {cs | ∃ width, 0 < width ∧ n < 16 ^ width ∧ cs.map Char.toUpper = (hexNumeral width n).toList}

/-- The ways to write a bank: its number, or `BOOT` with each letter in either case. -/
def Bank.spellings : Bank → Set (List Char)
  | boot => {cs | cs.map Char.toUpper = ['B', 'O', 'O', 'T']}
  | rom n => hexSpellings n.toNat

/-- Blanks that do not end a line. -/
def IsGap (cs : List Char) : Prop :=
  ∀ c ∈ cs, isBlank c = true ∧ c ≠ '\n'

/-- The lines of a symbol: its bank, a colon, its start, at least one blank, and its name. -/
def Symbol.spellings (s : Symbol) : Set (List Char) :=
  {line | ∃ bank ∈ s.bank.spellings, ∃ start ∈ hexSpellings s.start.toNat, ∃ gap, gap ≠ [] ∧
    IsGap gap ∧ line = bank ++ ':' :: start ++ gap ++ s.name.toList}

/-- The lines that say nothing: those of blanks only, and those whose first character that is not a
blank is a semicolon. -/
def silentLines : Set (List Char) :=
  {line | IsGap line ∨ ∃ gap comment, IsGap gap ∧ '\n' ∉ comment ∧ line = gap ++ ';' :: comment}

/-- The ends of a line that is followed by a text: a line feed, with or without a carriage return
before it, or nothing at the end of the whole text. -/
def lineEnds (following : List Char) : Set (List Char) :=
  {ending | ending = ['\n'] ∨ ending = ['\r', '\n'] ∨ ending = [] ∧ following = []}

/-- A text spells some symbols if it has a line for each of them, in their order, and otherwise only
lines that say nothing. -/
inductive Spells : List Symbol → List Char → Prop
  | nil : Spells [] []
  | symbol {s : Symbol} {symbols : List Symbol} {line ending text : List Char}
      (hline : line ∈ s.spellings) (hending : ending ∈ lineEnds text)
      (htext : Spells symbols text) :
      Spells (s :: symbols) (line ++ ending ++ text)
  | silent {symbols : List Symbol} {line ending text : List Char}
      (hline : line ∈ silentLines) (hending : ending ∈ lineEnds text)
      (htext : Spells symbols text) : Spells symbols (line ++ ending ++ text)

/-- A name that fits a line of a symbol file. A semicolon may stand in it, since a comment cannot
follow a name. -/
structure IsPlainName (name : String) : Prop where
  ne_empty : name ≠ ""
  utf8ByteSize_le : name.utf8ByteSize ≤ 31
  lineFeed_notMem : '\n' ∉ name.toList
  isBlank_head {c : Char} : name.toList.head? = some c → isBlank c = false
  isBlank_last {c : Char} : name.toList.getLast? = some c → isBlank c = false

/-! ### Characters of numbers and banks -/

theorem isBlank_toUpper (c : Char) : isBlank c.toUpper = isBlank c := by
  rcases toUpper_cases c with h | ⟨k, rfl⟩
  · rw [h]
  · revert k
    decide

/-- No blank is found in a text if there is none in it in upper case. -/
theorem isBlank_of_map_toUpper {cs ds : List Char} (h : cs.map Char.toUpper = ds)
    (hds : ∀ d ∈ ds, isBlank d = false) : ∀ c ∈ cs, isBlank c = false := by
  intro c hc
  rw [← isBlank_toUpper]
  exact hds _ (h ▸ List.mem_map_of_mem hc)

theorem isBlank_of_mem_hexSpellings {n : Nat} {cs : List Char} (h : cs ∈ hexSpellings n) :
    ∀ c ∈ cs, isBlank c = false := by
  obtain ⟨width, -, -, hcs⟩ := h
  refine isBlank_of_map_toUpper hcs fun d hd => ?_
  rw [hexNumeral, String.toList_ofList] at hd
  have hdigit : ∀ k < 16, isBlank (hexDigit k) = false := by decide
  rcases mem_hexDigitsOnto hd with ⟨k, hk, rfl⟩ | hnil
  · exact hdigit k hk
  · cases hnil

theorem Bank.isBlank_of_mem_spellings {b : Bank} {cs : List Char} (h : cs ∈ b.spellings) :
    ∀ c ∈ cs, isBlank c = false := by
  cases b with
  | boot =>
    refine isBlank_of_map_toUpper h fun d hd => ?_
    fin_cases hd <;> decide
  | rom n => exact isBlank_of_mem_hexSpellings h

/-- Signs of punctuation, which have no case, are not found in a bank. -/
theorem Bank.notMem_of_mem_spellings {b : Bank} {cs : List Char} (h : cs ∈ b.spellings) {c : Char}
    (hcase : c.toUpper = c) (hdigit : ∀ d < 16, c ≠ hexDigit d) (hletter : c ∉ ['B', 'O', 'T']) :
    c ∉ cs := by
  intro hc
  have hupper : c ∈ cs.map Char.toUpper := hcase ▸ List.mem_map_of_mem hc
  cases b with
  | boot =>
    have hcs : cs.map Char.toUpper = ['B', 'O', 'O', 'T'] := h
    rw [hcs] at hupper
    exact hletter (by simpa using hupper)
  | rom n =>
    obtain ⟨width, -, -, hcs⟩ := h
    rw [hcs] at hupper
    exact notMem_hexNumeral hdigit width n.toNat hupper

theorem Bank.ne_nil_of_mem_spellings {b : Bank} {cs : List Char} (h : cs ∈ b.spellings) :
    cs ≠ [] := by
  rintro rfl
  cases b with
  | boot => cases h
  | rom n =>
    obtain ⟨width, hwidth, -, hcs⟩ := h
    have hlength := length_hexNumeral width n.toNat
    rw [← hcs] at hlength
    exact Nat.ne_of_lt hwidth hlength

/-! ### Reading a line -/

theorem readHex?_of_mem_hexSpellings {bound n : Nat} (hn : n < bound) {cs : List Char}
    (h : cs ∈ hexSpellings n) : readHex? bound cs = some n := by
  obtain ⟨width, hwidth, hlt, hcs⟩ := h
  exact readHex?_of_map_toUpper hcs hwidth hlt hn

theorem Bank.read?_of_mem_spellings {b : Bank} {cs : List Char} (h : cs ∈ b.spellings) :
    Bank.read? cs = some b := by
  cases b with
  | boot => exact if_pos h
  | rom n =>
    have hread := readHex?_of_mem_hexSpellings n.toNat_lt h
    -- `O` is not a digit, so that no number is read as the word.
    have hboot : cs.map Char.toUpper ≠ ['B', 'O', 'O', 'T'] := by
      obtain ⟨width, -, -, hcs⟩ := h
      have hnotMem : 'O' ∉ (hexNumeral width n.toNat).toList := notMem_hexNumeral (by decide) _ _
      intro hword
      rw [← hcs, hword] at hnotMem
      exact hnotMem (by decide)
    rw [read?, if_neg hboot, hread]
    simp

theorem IsPlainName.clip_eq {name : String} (h : IsPlainName name) :
    clip maxNameBytes name.toList = name.toList := by
  refine clip_eq_self ?_
  rw [← utf8ByteSize_ofList_eq, String.ofList_toList]
  exact h.utf8ByteSize_le

/-- The place and the name of a symbol are read back. -/
theorem Symbol.ofColumns?_of_mem_spellings {s : Symbol} {bank start : List Char}
    (hname : IsPlainName s.name) (hbank : bank ∈ s.bank.spellings)
    (hstart : start ∈ hexSpellings s.start.toNat) :
    Symbol.ofColumns? (bank ++ ':' :: start) s.name.toList = some s.unmeasured := by
  have hcolon : ':' ∉ bank := Bank.notMem_of_mem_spellings hbank rfl (by decide) (by decide)
  have hspan : (bank ++ ':' :: start).span (· != ':') = (bank, ':' :: start) := by
    refine span_of_forall (fun d hd => ?_) rfl
    rw [bne_iff_ne]
    rintro rfl
    exact hcolon hd
  have hread : readHex? 0x10000 start = some s.start.toNat :=
    readHex?_of_mem_hexSpellings s.start.toNat_lt hstart
  have hfull : s.name.toList.isEmpty = false := by
    simpa [List.isEmpty_eq_false_iff] using hname.ne_empty
  simp only [ofColumns?, hspan, Bank.read?_of_mem_spellings hbank, hread, hname.clip_eq, hfull]
  simp [unmeasured]

/-- The line of a symbol has the two columns, and its first character is no semicolon. -/
theorem Symbol.exists_hasColumns_of_mem_spellings {s : Symbol} {line : List Char}
    (hname : IsPlainName s.name) (hline : line ∈ s.spellings) :
    ∃ place, HasColumns line place s.name.toList [] ∧ place.head? ≠ some ';' ∧
      Symbol.ofColumns? place s.name.toList = some s.unmeasured := by
  obtain ⟨bank, hbank, start, hstart, gap, hgap, hblank, rfl⟩ := hline
  have hplace : ∀ c ∈ bank ++ ':' :: start, isBlank c = false := by
    intro c hc
    rcases List.mem_append.mp hc with hc | hc
    · exact Bank.isBlank_of_mem_spellings hbank c hc
    · rcases List.mem_cons.mp hc with rfl | hc
      · decide
      · exact isBlank_of_mem_hexSpellings hstart c hc
  have hcomment : (bank ++ ':' :: start).head? ≠ some ';' := by
    rw [List.head?_append_of_ne_nil _ (Bank.ne_nil_of_mem_spellings hbank)]
    intro hhead
    exact Bank.notMem_of_mem_spellings hbank rfl (by decide) (by decide) (List.mem_of_head? hhead)
  refine ⟨bank ++ ':' :: start, ?_, hcomment, ofColumns?_of_mem_spellings hname hbank hstart⟩
  exact {
    place_ne_nil := by simp
    isBlank_place := hplace
    name_ne_nil := by simpa using hname.ne_empty
    isBlank_head := fun _ => hname.isBlank_head
    isBlank_last := fun _ => hname.isBlank_last
    isBlank_behind := List.forall_mem_nil _
    line_eq := ⟨[], gap, List.forall_mem_nil _, fun c hc => (hblank c hc).1, hgap, by simp⟩ }

theorem SymbolLine.read_of_mem_spellings {s : Symbol} {line : List Char}
    (hname : IsPlainName s.name) (hline : line ∈ s.spellings) :
    SymbolLine.read line = .named s.unmeasured := by
  obtain ⟨place, hcolumns, hcomment, hs⟩ := s.exists_hasColumns_of_mem_spellings hname hline
  exact read_eq_named_iff.mpr ⟨place, _, [], hcolumns, hcomment, hs⟩

theorem SymbolLine.read_of_mem_silentLines {line : List Char} (hline : line ∈ silentLines) :
    SymbolLine.read line = .empty := by
  rw [read_eq_empty_iff]
  rcases hline with hblank | ⟨gap, comment, hgap, -, rfl⟩
  · exact .inl (List.dropWhile_eq_nil_iff.mpr fun c hc => (hblank c hc).1)
  · refine .inr ⟨comment, ?_⟩
    rw [trimStart_append_of_isBlank fun c hc => (hgap c hc).1]
    rfl

/-! ### Reading a text -/

theorem Symbol.lineFeed_notMem_of_mem_spellings {s : Symbol} {line : List Char}
    (hname : IsPlainName s.name) (hline : line ∈ s.spellings) : '\n' ∉ line := by
  obtain ⟨bank, hbank, start, hstart, gap, -, hgap, rfl⟩ := hline
  have hblank : isBlank '\n' ≠ false := by decide
  have hplace : '\n' ∉ bank ++ ':' :: start := by
    rw [List.mem_append, List.mem_cons]
    rintro (hmem | hcolon | hmem)
    · exact hblank (Bank.isBlank_of_mem_spellings hbank _ hmem)
    · cases hcolon
    · exact hblank (isBlank_of_mem_hexSpellings hstart _ hmem)
  have hgap : '\n' ∉ gap := fun hmem => (hgap _ hmem).2 rfl
  simp only [List.mem_append, not_or] at hplace ⊢
  exact ⟨⟨hplace, hgap⟩, hname.lineFeed_notMem⟩

theorem lineFeed_notMem_of_mem_silentLines {line : List Char} (hline : line ∈ silentLines) :
    '\n' ∉ line := by
  rcases hline with hblank | ⟨gap, comment, hgap, hcomment, rfl⟩
  · exact fun hmem => (hblank _ hmem).2 rfl
  · rw [List.mem_append, List.mem_cons]
    rintro (hmem | hsemicolon | hmem)
    · exact (hgap _ hmem).2 rfl
    · cases hsemicolon
    · exact hcomment hmem

theorem linesFrom_of_lineFeed_notMem {cs : List Char} (h : '\n' ∉ cs) (sofar : List Char) :
    linesFrom sofar cs = linesFrom (cs.reverse ++ sofar) [] := by
  induction cs generalizing sofar with
  | nil => rfl
  | cons c cs ih =>
    calc linesFrom sofar (c :: cs)
        = linesFrom (c :: sofar) cs := linesFrom.eq_3 sofar c cs (List.ne_of_not_mem_cons h).symm
      _ = linesFrom (cs.reverse ++ c :: sofar) [] := ih (List.not_mem_of_not_mem_cons h) _
      _ = linesFrom ((c :: cs).reverse ++ sofar) [] := by simp

/-- A text without a line feed is one line, if it says something. -/
theorem tellingLines_of_lineFeed_notMem {line : List Char} (h : '\n' ∉ line) :
    tellingLines line = [SymbolLine.read line].filter (· != .empty) := by
  rw [tellingLines, lines, linesFrom_of_lineFeed_notMem h, List.append_nil]
  cases line with
  | nil => decide
  | cons c cs => rw [linesFrom, if_neg (by simp), List.reverse_reverse]; rfl

/-- The first line of a text is read on its own, however it ends. -/
theorem tellingLines_line {line ending text : List Char} (hline : '\n' ∉ line)
    (hending : ending ∈ lineEnds text) :
    tellingLines (line ++ ending ++ text) =
      [SymbolLine.read line].filter (· != .empty) ++ tellingLines text := by
  rcases hending with rfl | rfl | ⟨rfl, rfl⟩
  · rw [List.append_assoc, List.singleton_append, tellingLines_append,
      tellingLines_of_lineFeed_notMem hline]
  · have hreturn : '\n' ∉ line ++ ['\r'] := by simpa using hline
    have hsplit : line ++ ['\r', '\n'] ++ text = line ++ ['\r'] ++ '\n' :: text := by simp
    rw [hsplit, tellingLines_append, tellingLines_of_lineFeed_notMem hreturn,
      SymbolLine.read_append_return]
  · rw [List.append_nil, List.append_nil, tellingLines_of_lineFeed_notMem hline]
    exact (List.append_nil _).symm

/-- The lines of a text that say something are those of its symbols. -/
theorem Spells.tellingLines_eq {symbols : List Symbol} {text : List Char}
    (hnames : ∀ s ∈ symbols, IsPlainName s.name) (htext : Spells symbols text) :
    tellingLines text = symbols.map fun s => .named s.unmeasured := by
  induction htext with
  | nil => rfl
  | @symbol s symbols line ending text hline hending htext ih =>
    obtain ⟨hname, hnames⟩ := List.forall_mem_cons.mp hnames
    have hfeed := Symbol.lineFeed_notMem_of_mem_spellings hname hline
    rw [tellingLines_line hfeed hending, SymbolLine.read_of_mem_spellings hname hline, ih hnames]
    rfl
  | @silent symbols line ending text hline hending htext ih =>
    have hfeed := lineFeed_notMem_of_mem_silentLines hline
    rw [tellingLines_line hfeed hending, SymbolLine.read_of_mem_silentLines hline, ih hnames]
    rfl

theorem Spells.symbolsIn_eq {symbols : List Symbol} {text : List Char}
    (hnames : ∀ s ∈ symbols, IsPlainName s.name) (htext : Spells symbols text) :
    symbolsIn text = symbols.map Symbol.unmeasured := by
  rw [Sm83.symbolsIn_eq, htext.tellingLines_eq hnames, List.filterMap_map]
  exact congrFun List.filterMap_eq_map symbols

/-- **A text is read back**: every line of a symbol is counted, no line is skipped, and the table
holds the symbols in the order of their addresses, those of one address as they follow each other
in the text. -/
theorem symbol_file_round_trip {symbols : List Symbol} {text : List Char}
    (hnames : ∀ s ∈ symbols, IsPlainName s.name) (htext : Spells symbols text) :
    let report := (SymbolTable.parse text).1
    let table := (SymbolTable.parse text).2
    report.added = symbols.length ∧ report.skipped = 0 ∧
      (table.symbols.map Symbol.unmeasured).Perm (symbols.map Symbol.unmeasured) ∧
      (table.symbols.Pairwise fun s t => s.start ≤ t.start) ∧
      ∀ addr, (table.symbols.filter (·.start == addr)).map Symbol.unmeasured =
        (symbols.map Symbol.unmeasured).filter (·.start == addr) := by
  intro report table
  have htable : table = SymbolTable.ofSymbols symbols := by
    calc table = SymbolTable.ofSymbols (symbolsIn text) := rfl
      _ = SymbolTable.ofSymbols (symbols.map Symbol.unmeasured) := by
        rw [htext.symbolsIn_eq hnames]
      _ = SymbolTable.ofSymbols symbols := SymbolTable.ofSymbols_map_unmeasured symbols
  refine ⟨?_, ?_, ?_, ?_, ?_⟩
  · calc report.added = (symbolsIn text).length := SymbolTable.extend_added _ text
      _ = symbols.length := by rw [htext.symbolsIn_eq hnames, List.length_map]
  · calc report.skipped = (tellingLines text).count .malformed := SymbolTable.extend_skipped _ text
      _ = 0 := by
        rw [htext.tellingLines_eq hnames, List.count_eq_zero]
        simp
  · rw [htable, SymbolTable.ofSymbols_symbols, map_unmeasured_measured]
    exact (orderedSymbols_perm symbols).map _
  · exact htable ▸ (SymbolTable.isLaidOut_ofSymbols symbols).ordered
  · exact htable ▸ SymbolTable.filter_start_ofSymbols symbols

/-- A comment, a line of blanks, both ends of a line, and a name that has a colon and a blank. -/
theorem mixed_spellings_are_read :
    let text := "\t; old: 00:0000\r\n1f:0abC \t Début: café\n \nbOoT:000000 entry".toList
    let symbols : List Symbol := [⟨"Début: café", .rom 0x1F, 0xABC, 0⟩, ⟨"entry", .boot, 0, 0⟩]
    (∀ s ∈ symbols, IsPlainName s.name) ∧ Spells symbols text ∧
      (SymbolTable.parse text).1 = ⟨2, 0⟩ ∧
      ((SymbolTable.parse text).2.symbols.map Symbol.unmeasured).Perm symbols := by
  intro text symbols
  have hfirst : IsPlainName "Début: café" :=
    ⟨by decide, by decide, by decide, by rintro c ⟨⟩; decide, by rintro c ⟨⟩; decide⟩
  have hsecond : IsPlainName "entry" :=
    ⟨by decide, by decide, by decide, by rintro c ⟨⟩; decide, by rintro c ⟨⟩; decide⟩
  have hnames : ∀ s ∈ symbols, IsPlainName s.name := by
    simp only [symbols, List.forall_mem_cons]
    exact ⟨hfirst, hsecond, List.forall_mem_nil _⟩
  have hspace : IsGap " ".toList := by simp [IsGap]; decide
  have htab : IsGap "\t".toList := by simp [IsGap]; decide
  have hboth : IsGap " \t ".toList := by simp [IsGap]; decide
  have hcomment : "\t; old: 00:0000".toList ∈ silentLines :=
    Or.inr ⟨"\t".toList, " old: 00:0000".toList, htab, by decide, by cbv⟩
  have hblank : " ".toList ∈ silentLines := Or.inl hspace
  have hcafe : "1f:0abC \t Début: café".toList ∈ symbols[0].spellings :=
    ⟨"1f".toList, ⟨2, by decide, by decide, by decide⟩, "0abC".toList,
      ⟨4, by decide, by decide, by decide⟩, " \t ".toList, by decide, hboth, by cbv⟩
  have hentry : "bOoT:000000 entry".toList ∈ symbols[1].spellings :=
    ⟨"bOoT".toList, by cbv, "000000".toList, ⟨6, by decide, by decide, by decide⟩, " ".toList,
      by decide, hspace, by cbv⟩
  have hend := Spells.symbol hentry (Or.inr (Or.inr ⟨rfl, rfl⟩)) .nil
  have hrest := Spells.symbol hcafe (Or.inl rfl) (Spells.silent hblank (Or.inl rfl) hend)
  have htext : Spells symbols text := by
    convert Spells.silent hcomment (Or.inr (Or.inl rfl)) hrest using 1 <;> decide
  obtain ⟨hadded, hskipped, hperm, -, -⟩ := symbol_file_round_trip hnames htext
  exact ⟨hnames, htext, congrArg₂ SymbolReport.mk hadded hskipped, hperm⟩

end Sm83
