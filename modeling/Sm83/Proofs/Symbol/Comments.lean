import Sm83.Proofs.Symbol.Spelling

/-!
# Comments behind lines

A semicolon makes a comment of a line only if it is the first character that is not a blank. Behind
a line that says nothing there can be a comment, since it says nothing either. Behind a name it is a
part of the name: the symbol is counted, and its bank, start and length are as they were, but it has
another name, unless there is no room for another character in the old one.

## Main definitions

* `IsLineBetween` — a line of a text, with what stands before it and behind it.
* `Symbol.unnamed`, `Symbol.renamed` — a symbol without its name, and with another one.

## Main results

* `IsLineBetween.tellingLines_eq` — what a text says, by one of its lines.
* `SymbolTable.map_unnamed_ofSymbols` — names have no influence on what else is in a table.
* `comment_is_ignored_iff` — what a comment behind a line changes.
-/

namespace Sm83

/-! ### Lines of a text -/

/-- A line of a text: it begins where the text does, or behind a line feed, and it ends as lines
can. -/
structure IsLineBetween (before line ending following : List Char) : Prop where
  begins : before = [] ∨ ∃ earlier, before = earlier ++ ['\n']
  lineFeed_notMem : '\n' ∉ line
  ends : ending ∈ lineEnds following

namespace IsLineBetween

variable {before line ending following : List Char}

/-- What a text says is said before a line of it, by the line, or behind it. -/
theorem tellingLines_eq (h : IsLineBetween before line ending following) :
    tellingLines (before ++ line ++ ending ++ following) =
      tellingLines before ++ [SymbolLine.read line].filter (· != .empty) ++
        tellingLines following := by
  have hline := tellingLines_line h.lineFeed_notMem h.ends
  rcases h.begins with rfl | ⟨earlier, rfl⟩
  · exact hline
  · have hearlier : tellingLines (earlier ++ ['\n']) = tellingLines earlier :=
      (tellingLines_append earlier []).trans (List.append_nil _)
    rw [hearlier, List.append_assoc _ _ (tellingLines following), ← hline, ← tellingLines_append]
    simp

/-- The symbol that a line names stands behind those of the lines before it. -/
theorem symbolsIn_eq_of_named (h : IsLineBetween before line ending following) {s : Symbol}
    (hs : SymbolLine.read line = .named s) :
    symbolsIn (before ++ line ++ ending ++ following) =
      symbolsIn before ++ s :: symbolsIn following := by
  rw [symbolsIn_eq, h.tellingLines_eq, hs, List.filterMap_append, List.filterMap_append,
    ← symbolsIn_eq, ← symbolsIn_eq, List.append_assoc]
  rfl

theorem extend_table_eq (h : IsLineBetween before line ending following) {s : Symbol}
    (hs : SymbolLine.read line = .named s) (t : SymbolTable) :
    (t.extend (before ++ line ++ ending ++ following)).2 =
      SymbolTable.ofSymbols (t.symbols ++ symbolsIn before ++ s :: symbolsIn following) := by
  rw [SymbolTable.extend_table, h.symbolsIn_eq_of_named hs, List.append_assoc]

/-- A line that names a symbol is counted, whatever the name. -/
theorem extend_report_eq (h : IsLineBetween before line ending following) {s : Symbol}
    (hs : SymbolLine.read line = .named s) (t : SymbolTable) :
    (t.extend (before ++ line ++ ending ++ following)).1 =
      ⟨(symbolsIn before).length + (symbolsIn following).length + 1,
        (tellingLines before).count .malformed + (tellingLines following).count .malformed⟩ := by
  refine congrArg₂ SymbolReport.mk ?_ ?_
  · exact (congrArg List.length (h.symbolsIn_eq_of_named hs)).trans List.length_append
  · refine (t.extend_skipped _).trans ?_
    rw [h.tellingLines_eq, hs, List.count_append, List.count_append]
    rfl

end IsLineBetween

/-! ### Names of symbols -/

/-- The symbol without its name. -/
def Symbol.unnamed (s : Symbol) : Symbol :=
  { s with name := "" }

/-- The symbol with another name, of which is kept what fits. -/
def Symbol.renamed (s : Symbol) (name : List Char) : Symbol :=
  { s with name := String.ofList (clip maxNameBytes name) }

theorem measured_map_unnamed (symbols : List Symbol) :
    measured (symbols.map Symbol.unnamed) = (measured symbols).map Symbol.unnamed := by
  induction symbols with
  | nil => rfl
  | cons s rest ih =>
    have hnext : s.unnamed.next? (rest.map Symbol.unnamed) =
        (s.next? rest).map Symbol.unnamed := List.find?_map
    rw [List.map_cons, measured_cons, measured_cons, ih, hnext, Option.elim_map]
    rfl

/-- Names have no influence on what else is in a table. -/
theorem SymbolTable.map_unnamed_ofSymbols (symbols : List Symbol) :
    (ofSymbols symbols).symbols.map Symbol.unnamed =
      (ofSymbols (symbols.map Symbol.unnamed)).symbols := by
  rw [ofSymbols_symbols, ofSymbols_symbols, orderedSymbols_map (f := Symbol.unnamed) fun _ => rfl,
    measured_map_unnamed]

theorem Symbol.renamed_of_ofColumns? {place name : List Char} {s : Symbol}
    (h : Symbol.ofColumns? place name = some s) : s.renamed name = s := by
  rw [renamed, ← (Symbol.name_of_ofColumns? h).2]

@[simp] theorem Symbol.unnamed_renamed (s : Symbol) (name : List Char) :
    (s.renamed name).unnamed = s.unnamed := rfl

theorem Symbol.start_renamed (s : Symbol) (name : List Char) : (s.renamed name).start = s.start :=
  rfl

/-- Another name makes no difference if the same is kept of it. -/
theorem Symbol.unmeasured_renamed_eq_iff {s : Symbol} {name name' : List Char}
    (h : s.renamed name = s) :
    (s.renamed name').unmeasured = s.unmeasured ↔
      clip maxNameBytes name' = clip maxNameBytes name := by
  have hname : s.name = String.ofList (clip maxNameBytes name) := congrArg Symbol.name h.symm
  simp [renamed, unmeasured, hname, String.ofList_inj]

/-! ### Comments -/

/-- Behind a line that says nothing, a comment says nothing. -/
theorem SymbolLine.read_append_comment_of_empty {line : List Char} {b : Char}
    (hline : SymbolLine.read line = .empty) (hb : isBlank b = true) (comment : List Char) :
    SymbolLine.read (line ++ b :: ';' :: comment) = .empty := by
  rw [read_eq_empty_iff] at hline ⊢
  right
  rw [trimStart, List.dropWhile_append, ← trimStart]
  rcases hline with hblank | ⟨earlier, hearlier⟩
  · refine ⟨comment, ?_⟩
    rw [hblank, List.isEmpty_nil, if_pos rfl, List.dropWhile_cons_of_pos hb]
    rfl
  · refine ⟨earlier ++ b :: ';' :: comment, ?_⟩
    rw [hearlier]
    rfl

/-- With another name behind the same place, another name is read. -/
theorem Symbol.ofColumns?_renamed {place name name' : List Char} {s : Symbol}
    (h : Symbol.ofColumns? place name = some s) (hname' : name' ≠ []) :
    Symbol.ofColumns? place name' = some (s.renamed name') := by
  unfold ofColumns? at h ⊢
  split at h
  · cases h
  · simp only [Option.bind_eq_bind, Option.bind_eq_some_iff] at h
    obtain ⟨bank, hbank, start, hstart, hs⟩ := h
    split at hs
    · cases hs
    · cases hs
      simp [hbank, hstart, hname', renamed]

/-- Behind a name, a comment is a part of the name. -/
theorem HasColumns.append_comment {line place name behind : List Char}
    (h : HasColumns line place name behind) (b : Char) (comment : List Char) :
    ∃ blanks, HasColumns (line ++ b :: ';' :: comment) place
      (name ++ behind ++ b :: ';' :: trimEnd comment) blanks := by
  obtain ⟨front, gap, hfront, hgap, hne, rfl⟩ := h.line_eq
  obtain ⟨blanks, hblanks, hcomment⟩ := exists_eq_trimEnd_append comment
  have hsemicolon : isBlank ';' = false := by decide
  have hend : trimEnd (';' :: comment) = ';' :: trimEnd comment :=
    trimEnd_append_cons hsemicolon [] comment
  refine ⟨blanks, {
    place_ne_nil := h.place_ne_nil
    isBlank_place := h.isBlank_place
    name_ne_nil := by simp
    isBlank_head := fun c hc => h.isBlank_head c ?_
    isBlank_last := fun c hc => isBlank_last_trimEnd (';' :: comment) c ?_
    isBlank_behind := hblanks
    line_eq := ⟨front, gap, hfront, hgap, hne, ?_⟩ }⟩
  · rwa [List.append_assoc, List.head?_append_of_ne_nil _ h.name_ne_nil] at hc
  · rw [hend]
    rwa [← List.singleton_append, ← List.append_assoc,
      List.getLast?_append_of_ne_nil _ (List.cons_ne_nil ';' _)] at hc
  · simp only [List.append_assoc, List.cons_append, ← hcomment]

theorem SymbolLine.read_append_comment {line place name behind : List Char} {s : Symbol}
    (hcolumns : HasColumns line place name behind) (hplace : place.head? ≠ some ';')
    (hs : Symbol.ofColumns? place name = some s) (b : Char) (comment : List Char) :
    SymbolLine.read (line ++ b :: ';' :: comment) =
      .named (s.renamed (name ++ behind ++ b :: ';' :: trimEnd comment)) := by
  obtain ⟨blanks, hlonger⟩ := hcolumns.append_comment b comment
  exact read_eq_named_iff.mpr
    ⟨place, _, blanks, hlonger, hplace, Symbol.ofColumns?_renamed hs hlonger.name_ne_nil⟩

/-- A comment is not seen in a name that has no room for the first blank behind it. -/
theorem clip_append_comment_eq_iff {max : Nat} {name behind : List Char} {b : Char}
    {rest : List Char} :
    clip max (name ++ behind ++ b :: rest) = clip max name ↔
      max < byteLength name + (behind.headD b).utf8Size := by
  cases behind with
  | nil => rw [List.append_nil]; exact clip_append_cons_eq_iff
  | cons d ds => rw [List.append_assoc, List.cons_append]; exact clip_append_cons_eq_iff

/-- **A comment behind a line** changes nothing if the line says nothing. If the line names a
symbol, the comment becomes a part of the name: the counts stay, and so does all that the table
holds but for this name. The name stays exactly if it has no room for the first blank behind it. -/
theorem comment_is_ignored_iff (t : SymbolTable) {before line ending following : List Char}
    (hline : IsLineBetween before line ending following) {b : Char} (hb : IsGap [b])
    {comment : List Char} (hcomment : '\n' ∉ comment) :
    let plain := t.extend (before ++ line ++ ending ++ following)
    let commented := t.extend (before ++ (line ++ b :: ';' :: comment) ++ ending ++ following)
    (SymbolLine.read line = .empty → commented = plain) ∧
      ∀ s, SymbolLine.read line = .named s → ∃ place name behind,
        HasColumns line place name behind ∧ s.renamed name = s ∧
        SymbolLine.read (line ++ b :: ';' :: comment) =
          .named (s.renamed (name ++ behind ++ b :: ';' :: trimEnd comment)) ∧
        commented.1 = plain.1 ∧
        commented.2.symbols.map Symbol.unnamed = plain.2.symbols.map Symbol.unnamed ∧
        (commented = plain ↔ 31 < byteLength name + (behind.headD b).utf8Size) := by
  intro plain commented
  obtain ⟨hblank, hfeed⟩ := List.forall_mem_singleton.mp hb
  have hcommented : IsLineBetween before (line ++ b :: ';' :: comment) ending following := by
    refine ⟨hline.begins, ?_, hline.ends⟩
    simp [hline.lineFeed_notMem, hcomment, hfeed.symm]
  refine ⟨fun hempty => ?_, fun s hs => ?_⟩
  · refine t.extend_congr ?_
    rw [hcommented.tellingLines_eq, hline.tellingLines_eq, hempty,
      SymbolLine.read_append_comment_of_empty hempty hblank]
  · obtain ⟨place, name, behind, hcolumns, hplace, hread⟩ := SymbolLine.read_eq_named_iff.mp hs
    have hsame : s.renamed name = s := Symbol.renamed_of_ofColumns? hread
    have hlonger := SymbolLine.read_append_comment hcolumns hplace hread b comment
    have hreport : commented.1 = plain.1 :=
      (hcommented.extend_report_eq hlonger t).trans (hline.extend_report_eq hs t).symm
    refine ⟨place, name, behind, hcolumns, hsame, hlonger, hreport, ?_, ?_⟩
    · rw [hcommented.extend_table_eq hlonger, hline.extend_table_eq hs,
        SymbolTable.map_unnamed_ofSymbols, SymbolTable.map_unnamed_ofSymbols]
      simp only [List.map_append, List.map_cons, Symbol.unnamed_renamed]
    · calc commented = plain ↔ commented.2 = plain.2 :=
            ⟨congrArg Prod.snd, fun htable => Prod.ext hreport htable⟩
        _ ↔ (s.renamed (name ++ behind ++ b :: ';' :: trimEnd comment)).unmeasured =
              s.unmeasured := by
            rw [hcommented.extend_table_eq hlonger, hline.extend_table_eq hs]
            exact SymbolTable.ofSymbols_append_cons_eq_iff (s.start_renamed _) _ _
        _ ↔ clip 31 (name ++ behind ++ b :: ';' :: trimEnd comment) = clip 31 name :=
            Symbol.unmeasured_renamed_eq_iff hsame
        _ ↔ 31 < byteLength name + (behind.headD b).utf8Size := clip_append_comment_eq_iff

/-- A comment behind a comment is ignored, and so is one behind a name of thirty-one bytes. -/
theorem comments_behind_comment_and_full_name :
    let header := "; by hand".toList
    let line := "00:01C5 TheNameOfThisSymbolHasThirtyOne".toList
    let following := "00:01C8 Next".toList
    let comment := " cut".toList
    let s : Symbol := ⟨"TheNameOfThisSymbolHasThirtyOne", .rom 0, 0x1C5, 0⟩
    IsLineBetween [] header ['\n'] (line ++ '\n' :: following) ∧
      IsLineBetween (header ++ ['\n']) line ['\n'] following ∧
      IsGap ['\t'] ∧ '\n' ∉ comment ∧
      SymbolLine.read header = .empty ∧ SymbolLine.read line = .named s ∧
      SymbolTable.parse ([] ++ (header ++ '\t' :: ';' :: comment) ++ ['\n'] ++
          (line ++ '\n' :: following)) =
        SymbolTable.parse ([] ++ header ++ ['\n'] ++ (line ++ '\n' :: following)) ∧
      SymbolTable.parse (header ++ ['\n'] ++ (line ++ '\t' :: ';' :: comment) ++ ['\n'] ++
          following) =
        SymbolTable.parse (header ++ ['\n'] ++ line ++ ['\n'] ++ following) := by
  have hempty : SymbolLine.read "; by hand".toList = .empty := by decide
  have hnamed : SymbolLine.read "00:01C5 TheNameOfThisSymbolHasThirtyOne".toList =
      .named ⟨"TheNameOfThisSymbolHasThirtyOne", .rom 0, 0x1C5, 0⟩ := by cbv
  intro header line following comment s
  have hfirst : IsLineBetween [] header ['\n'] (line ++ '\n' :: following) :=
    ⟨.inl rfl, by decide, .inl rfl⟩
  have hsecond : IsLineBetween (header ++ ['\n']) line ['\n'] following :=
    ⟨.inr ⟨header, rfl⟩, by decide, .inl rfl⟩
  have htab : IsGap ['\t'] := List.forall_mem_singleton.mpr ⟨by decide, by decide⟩
  have hcomment : '\n' ∉ comment := by decide
  refine ⟨hfirst, hsecond, htab, hcomment, hempty, hnamed,
    (comment_is_ignored_iff {} hfirst htab hcomment).1 hempty, ?_⟩
  obtain ⟨place, name, behind, -, hsame, -, -, -, hiff⟩ :=
    (comment_is_ignored_iff {} hsecond htab hcomment).2 s hnamed
  refine hiff.mpr ?_
  have hkept : clip 31 name = s.name.toList :=
    String.ofList_inj.mp ((congrArg Symbol.name hsame).trans String.ofList_toList.symm)
  have hfull : 31 ≤ byteLength name := by
    calc 31 = byteLength s.name.toList := by decide
      _ = byteLength (clip 31 name) := by rw [hkept]
      _ ≤ byteLength name := byteLength_le_of_isPrefix (clip_isPrefix 31 name)
  exact Nat.lt_of_le_of_lt hfull (Nat.lt_add_of_pos_right (Char.utf8Size_pos _))

/-- A comment behind a short name is read as a part of it. -/
theorem comment_becomes_part_of_name :
    let line := "00:0150 Main".toList
    let comment := " entry".toList
    let s : Symbol := ⟨"Main", .rom 0, 0x150, 0⟩
    let commented := line ++ ' ' :: ';' :: comment
    IsLineBetween [] line [] [] ∧ IsGap [' '] ∧ '\n' ∉ comment ∧
      SymbolLine.read line = .named s ∧ ';' ∉ s.name.toList ∧
      SymbolTable.parse line = (⟨1, 0⟩, ⟨[s]⟩) ∧
      SymbolTable.parse commented = (⟨1, 0⟩, ⟨[{ s with name := "Main ; entry" }]⟩) ∧
      SymbolTable.parse commented ≠ SymbolTable.parse line := by
  have hread : SymbolLine.read "00:0150 Main".toList = .named ⟨"Main", .rom 0, 0x150, 0⟩ := by cbv
  have hplain : SymbolTable.parse "00:0150 Main".toList =
      (⟨1, 0⟩, ⟨[⟨"Main", .rom 0, 0x150, 0⟩]⟩) := by cbv
  have hcommented : SymbolTable.parse ("00:0150 Main".toList ++ ' ' :: ';' :: " entry".toList) =
      (⟨1, 0⟩, ⟨[⟨"Main ; entry", .rom 0, 0x150, 0⟩]⟩) := by cbv
  intro line comment s commented
  have hspace : IsGap [' '] := List.forall_mem_singleton.mpr ⟨by decide, by decide⟩
  refine ⟨⟨.inl rfl, by decide, .inr (.inr ⟨rfl, rfl⟩)⟩, hspace, by decide, hread, by decide,
    hplain, hcommented, ?_⟩
  rw [hplain, hcommented]
  decide

end Sm83
