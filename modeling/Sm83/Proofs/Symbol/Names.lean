import Sm83.Proofs.Symbol.Loading
import Sm83.Proofs.Text.Clipping

/-!
# Names of symbols

All that stands on a line between the blanks in front of the name and those at the end is the name,
blanks included, up to its thirty-first byte. A character of which not all bytes fit is left out. So
the names in a table are never empty and never long.

## Main definitions

* `Symbol.HasShortName` — the names that a table can hold.

## Main results

* `SymbolTable.hasShortName_of_mem_after` — the names in a table, after any calls.
* `names_are_clipped` — names are cut at the last boundary of characters that fits.
-/

namespace Sm83

/-- A name that fits a table. -/
def Symbol.HasShortName (s : Symbol) : Prop :=
  s.name ≠ "" ∧ s.name.utf8ByteSize ≤ maxNameBytes

theorem Symbol.hasShortName_of_ofColumns? {place name : List Char} {s : Symbol}
    (h : Symbol.ofColumns? place name = some s) : s.HasShortName := by
  obtain ⟨hfull, hname⟩ := Symbol.name_of_ofColumns? h
  obtain ⟨c, cs, rfl⟩ := List.exists_cons_of_ne_nil hfull
  have hfirst : c.utf8Size ≤ maxNameBytes := c.utf8Size_le_four.trans (by decide)
  refine ⟨?_, ?_⟩
  · rw [hname, Ne, String.ofList_eq_empty_iff]
    exact clip_ne_nil hfirst
  · rw [hname, utf8ByteSize_ofList_eq]
    exact byteLength_clip_le _ _

theorem hasShortName_of_mem_symbolsIn {text : List Char} {s : Symbol} (h : s ∈ symbolsIn text) :
    s.HasShortName := by
  obtain ⟨line, hline, hsymbol⟩ := List.mem_filterMap.mp h
  obtain ⟨cs, -, rfl⟩ := List.mem_map.mp hline
  have hread := ofLine?_of_symbol?_read hsymbol
  unfold Symbol.ofLine? at hread
  split at hread
  · cases hread
  · exact Symbol.hasShortName_of_ofColumns? hread

theorem hasShortName_of_mem_insertedBy (calls : List SymbolCall) :
    ∀ s ∈ insertedBy calls, s.HasShortName := by
  refine List.foldlRecOn (motive := fun inserted => ∀ s ∈ inserted, s.HasShortName)
    calls SymbolCall.insert ?_ ?_
  · exact List.forall_mem_nil _
  · intro inserted h call _ s hs
    cases call with
    | parse text => exact hasShortName_of_mem_symbolsIn hs
    | extend text =>
      rcases List.mem_append.mp hs with hs | hs
      · exact h s hs
      · exact hasShortName_of_mem_symbolsIn hs

/-- The symbols of a table are those from which it was made, but for their lengths. -/
theorem SymbolTable.exists_mem_of_mem_ofSymbols {symbols : List Symbol} {s : Symbol}
    (h : s ∈ (ofSymbols symbols).symbols) : ∃ t ∈ symbols, t.unmeasured = s.unmeasured := by
  have hmem : s.unmeasured ∈ (measured (orderedSymbols symbols)).map Symbol.unmeasured :=
    List.mem_map_of_mem h
  rw [map_unmeasured_measured] at hmem
  obtain ⟨t, ht, hsame⟩ := List.mem_map.mp hmem
  exact ⟨t, (orderedSymbols_perm symbols).mem_iff.mp ht, hsame⟩

theorem SymbolTable.hasShortName_of_mem_after {calls : List SymbolCall} {s : Symbol}
    (h : s ∈ (SymbolTable.after calls).symbols) : s.HasShortName := by
  rw [SymbolTable.after_eq] at h
  obtain ⟨t, ht, hsame⟩ := SymbolTable.exists_mem_of_mem_ofSymbols h
  have hname : t.unmeasured.name = s.unmeasured.name := congrArg Symbol.name hsame
  change t.name = s.name at hname
  have hshort := hasShortName_of_mem_insertedBy calls t ht
  rwa [Symbol.HasShortName, hname] at hshort

/-- **Names are clipped.** A text is cut to a number of bytes at a boundary of its characters, which
a search downwards from this number finds before it gets below zero. What is left is the longest
start of the text that fits; it is the whole text exactly if this fits, and to cut it again changes
nothing. So every name in a table, after any calls, is neither empty nor longer than thirty-one
bytes. -/
theorem names_are_clipped (s : String) (max : Nat) (calls : List SymbolCall) :
    let cut := String.ofList (clip max s.toList)
    bytesUpTo? s max = some cut.toByteArray ∧
      (∃ rest, s = cut ++ rest) ∧ cut.rawEndPos.IsValid s ∧ cut.utf8ByteSize ≤ max ∧
      (∀ t rest, s = t ++ rest → t.utf8ByteSize ≤ max → t.utf8ByteSize ≤ cut.utf8ByteSize) ∧
      (cut = s ↔ s.utf8ByteSize ≤ max) ∧
      String.ofList (clip max cut.toList) = cut ∧
      ∀ symbol ∈ (SymbolTable.after calls).symbols,
        symbol.name ≠ "" ∧ symbol.name.utf8ByteSize ≤ 31 := by
  intro cut
  obtain ⟨rest, hrest⟩ := exists_eq_clip_append s max
  have hfit : cut.utf8ByteSize ≤ max := utf8ByteSize_clip_le s max
  refine ⟨bytesUpTo?_eq s max, ⟨rest, hrest⟩, ?_, hfit, fun t rest => utf8ByteSize_le_clip, ?_, ?_,
    fun symbol => SymbolTable.hasShortName_of_mem_after⟩
  · exact String.Pos.Raw.isValid_iff_exists_append.mpr ⟨cut, rest, hrest, rfl⟩
  · rw [← byteLength_toList, ← clip_eq_self_iff, ← String.toList_inj, String.toList_ofList]
  · rw [← byteLength_toList] at hfit
    rw [clip_eq_self hfit, String.ofList_toList]

/-- The first byte of `é` is not kept without the second one, and in the table of a text the name is
cut in the same way. -/
theorem name_is_cut_before_broken_character :
    let s := "Après"
    let cut := String.ofList (clip 4 s.toList)
    let calls : List SymbolCall := [.parse "00:01C5 TheNameOfThisSymbolHasThirtyOné".toList]
    let symbol : Symbol := ⟨"TheNameOfThisSymbolHasThirtyOn", .rom 0, 0x1C5, 0⟩
    s = "Apr" ++ "ès" ∧ "Apr".utf8ByteSize ≤ 4 ∧ "Apr".utf8ByteSize ≤ cut.utf8ByteSize ∧
      cut.utf8ByteSize ≤ 4 ∧ symbol ∈ (SymbolTable.after calls).symbols ∧ symbol.name ≠ "" ∧
      symbol.name.utf8ByteSize ≤ 31 := by
  have hsymbols :
      (SymbolTable.after [.parse "00:01C5 TheNameOfThisSymbolHasThirtyOné".toList]).symbols =
        [⟨"TheNameOfThisSymbolHasThirtyOn", .rom 0, 0x1C5, 0⟩] := by decide +kernel
  intro s cut calls symbol
  have hsplit : s = "Apr" ++ "ès" := by decide
  have hfit : "Apr".utf8ByteSize ≤ 4 := by decide
  have hmem : symbol ∈ (SymbolTable.after calls).symbols :=
    hsymbols ▸ List.mem_singleton_self symbol
  obtain ⟨-, -, -, hmax, hlongest, -, -, hnames⟩ := names_are_clipped s 4 calls
  exact ⟨hsplit, hfit, hlongest _ _ hsplit hfit, hmax, hmem, hnames symbol hmem⟩

end Sm83
