import Sm83.Proofs.Listing.Sweep
import Sm83.Proofs.Symbol.Ranges

/-!
# Listings of programs

With symbols, a program is listed symbol by symbol, in the order of the table: the name of each, and
the sweep of its range. The ranges of the symbols of one bank follow one another, and an operation
that goes past the end of a range begins within it. So for each bank the addresses go up, across
symbols too. The boot ROM comes before, unless it has symbols of its own.

## Main definitions

* `ListingLine.address?`, `addressesIn` — the addresses that lines show.

## Main results

* `IsLaidOut.stop_lt` — no range is cut short at the end of memory.
* `IsLaidOut.pairwise_addressesIn` — the addresses of a bank go up.
* `listingText_programListing` — the parts of the text.
* `program_listing_follows_symbols` — listings of programs with symbols.
-/

namespace Sm83

/-! ### Addresses of lines -/

/-- The address of the operation that a line shows. -/
def ListingLine.address? : ListingLine → Option UInt16
  | title _ | symbol _ => none
  | operation _ addr _ => some addr

/-- The addresses that lines show. -/
def addressesIn (ls : Array ListingLine) : List UInt16 :=
  ls.toList.filterMap ListingLine.address?

section Range

variable (m : Memory) (indent : Nat) (start stop : UInt16)

theorem exists_addressesIn_rangeLines_eq :
    ∃ k, (∀ i, sweepAddress m.read8 start.toNat i < stop.toNat ↔ i < k) ∧
      addressesIn (rangeLines m indent start stop) =
        (List.range k).map fun i => .ofNat (sweepAddress m.read8 start.toNat i) := by
  obtain ⟨k, hk, hlines⟩ := exists_toList_rangeLines_eq m indent start stop
  refine ⟨k, hk, ?_⟩
  rw [addressesIn, hlines, List.filterMap_map]
  exact congrFun List.filterMap_eq_map (List.range k)

/-- The lines of a range show addresses of the range. -/
theorem mem_range_of_mem_addressesIn {addr : UInt16}
    (h : addr ∈ addressesIn (rangeLines m indent start stop)) : start ≤ addr ∧ addr < stop := by
  obtain ⟨k, hk, haddresses⟩ := exists_addressesIn_rangeLines_eq m indent start stop
  rw [haddresses] at h
  obtain ⟨i, hi, rfl⟩ := List.mem_map.mp h
  have hlow := add_le_sweepAddress m.read8 start.toNat i
  have hhigh := (hk i).mpr (List.mem_range.mp hi)
  have hstop := stop.toNat_lt
  rw [UInt16.le_iff_toNat_le, UInt16.lt_iff_toNat_lt, UInt16.toNat_ofNat']
  omega

/-- The lines of a range show its addresses in their order. -/
theorem pairwise_addressesIn_rangeLines :
    (addressesIn (rangeLines m indent start stop)).Pairwise (· < ·) := by
  obtain ⟨k, hk, haddresses⟩ := exists_addressesIn_rangeLines_eq m indent start stop
  have hstop := stop.toNat_lt
  rw [haddresses, List.pairwise_map]
  refine List.pairwise_lt_range.imp_of_mem fun {i j} hi hj hij => ?_
  have hi' := (hk i).mpr (List.mem_range.mp hi)
  have hj' := (hk j).mpr (List.mem_range.mp hj)
  have hlt := strictMono_sweepAddress m.read8 start.toNat hij
  rw [UInt16.lt_iff_toNat_lt, UInt16.toNat_ofNat', UInt16.toNat_ofNat']
  omega

end Range

/-! ### Ranges of symbols -/

/-- The end of a range is an address, so it is not cut short. -/
theorem IsLaidOut.stop_lt {symbols : List Symbol} (h : IsLaidOut symbols) {s : Symbol}
    (hs : s ∈ symbols) : s.stop < 0x10000 := by
  obtain ⟨before, following, rfl⟩ := List.append_of_mem hs
  have hrest := h.of_append
  cases hnext : s.next? following with
  | some next =>
    rw [(hrest.stop_eq hnext).2]
    exact next.start.toNat_lt
  | none =>
    rw [Symbol.stop, hrest.length_eq_zero hnext]
    exact s.start.toNat_lt

theorem Symbol.toNat_lastStop {s : Symbol} (h : s.stop < 0x10000) : s.lastStop.toNat = s.stop := by
  rw [lastStop, UInt16.toNat_ofNat']
  omega

/-- The addresses listed under the symbols of one bank go up. -/
theorem IsLaidOut.pairwise_addressesIn {symbols : List Symbol} (h : IsLaidOut symbols) {bank : Bank}
    (hbank : ∀ s ∈ symbols, s.bank = bank) (m : Memory) (indent : Nat) :
    (symbols.flatMap fun s => addressesIn (rangeLines m indent s.start s.lastStop)).Pairwise
      (· < ·) := by
  refine List.pairwise_flatMap.mpr
    ⟨fun s _ => pairwise_addressesIn_rangeLines m indent s.start s.lastStop, ?_⟩
  refine h.pairwise_stop_le.imp_of_mem fun {s t} hs ht hstop addr haddr addr' haddr' => ?_
  have hle := hstop ((hbank t ht).trans (hbank s hs).symm)
  have hbefore := (mem_range_of_mem_addressesIn m indent _ _ haddr).2
  have hafter := (mem_range_of_mem_addressesIn m indent _ _ haddr').1
  rw [UInt16.lt_iff_toNat_lt, Symbol.toNat_lastStop (h.stop_lt hs)] at hbefore
  rw [UInt16.le_iff_toNat_le] at hafter
  rw [UInt16.lt_iff_toNat_lt]
  omega

/-! ### Parts of a listing -/

section Parts

variable (m : Memory) (t : SymbolTable)

theorem listingText_foldl_append {α : Type*} (part : α → Array ListingLine) (ls : Array ListingLine)
    (xs : List α) : listingText t (xs.foldl (fun ls x => ls ++ part x) ls) =
      listingText t ls ++ String.join (xs.map fun x => listingText t (part x)) := by
  induction xs generalizing ls with
  | nil => simp
  | cons x xs ih =>
    rw [List.foldl_cons, ih, listingText_append, List.map_cons, String.join_cons,
      String.append_assoc]

theorem SymbolTable.hasBoot_eq_false_iff : t.hasBoot = false ↔ ∀ s ∈ t.symbols, s.bank ≠ .boot := by
  simp [hasBoot]

theorem listingText_title (name : String) : listingText t #[.title name] = name ++ ":\n" := by
  simp [listingText, ListingLine.text, String.append_assoc]

theorem listingText_symbolLines (s : Symbol) : listingText t (symbolLines m s) =
    "  " ++ s.name ++ ":\n" ++ listingText t (rangeLines m 4 s.start s.lastStop) := by
  rw [symbolLines, listingText_append]
  simp [listingText, ListingLine.text, String.append_assoc]

theorem listingText_bootLines : listingText t (bootLines m t) =
    if m.bootMapped = true ∧ ∀ s ∈ t.symbols, s.bank ≠ .boot then
      "BootRom:\n" ++ listingText t (rangeLines m 2 0x0000 0x0100)
    else "" := by
  simp only [bootLines, Bool.and_eq_true, Bool.not_eq_true', t.hasBoot_eq_false_iff]
  split_ifs
  · rw [listingText_append, listingText_title]
    rfl
  · rfl

variable {t}

theorem listingText_cartridgeLines (h : t.isEmpty = false) :
    listingText t (cartridgeLines m t) = "RomStart:\n" ++ String.join (t.symbols.map fun s =>
      "  " ++ s.name ++ ":\n" ++ listingText t (rangeLines m 4 s.start s.lastStop)) := by
  rw [cartridgeLines, h, if_neg Bool.false_ne_true, listingText_append, listingText_title,
    listingText_foldl_append]
  simp only [listingText_symbolLines]
  rfl

/-- The text of the listing of a program with symbols. -/
theorem listingText_programListing (h : t.isEmpty = false) :
    listingText t (programListing m t) =
      (if m.bootMapped = true ∧ ∀ s ∈ t.symbols, s.bank ≠ .boot then
        "BootRom:\n" ++ listingText t (rangeLines m 2 0x0000 0x0100)
      else "") ++ "RomStart:\n" ++ String.join (t.symbols.map fun s =>
        "  " ++ s.name ++ ":\n" ++ listingText t (rangeLines m 4 s.start s.lastStop)) := by
  rw [programListing, listingText_append, listingText_bootLines, listingText_cartridgeLines m h,
    String.append_assoc]

end Parts

/-- **Listings of programs follow the symbol table.** Let a symbol table that is not empty be begun
and extended in any way. The listing of a program with it has the boot ROM first, exactly if it is
mapped and no symbol is one of the boot ROM; then, under a title, the name of each symbol in the
order of the table, and under it the operations from its start on, each where the one before it
ends, as long as they begin within its range. The range ends at an address; so nothing is cut short.
The addresses listed under the symbols of one bank go up, and none is listed twice. -/
theorem program_listing_follows_symbols (m : Memory) (calls : List SymbolCall)
    (h : (SymbolTable.after calls).isEmpty = false) :
    let t := SymbolTable.after calls
    let text := listingText t (programListing m t)
    let under (s : Symbol) := rangeLines m 4 s.start s.lastStop
    let a (s : Symbol) := sweepAddress m.read8 s.start.toNat
    let listed (bank : Bank) :=
      (t.symbols.filter (·.bank == bank)).flatMap fun s => addressesIn (under s)
    (text =
      (if m.bootMapped = true ∧ ∀ s ∈ t.symbols, s.bank ≠ .boot then
        "BootRom:\n" ++ listingText t (rangeLines m 2 0x0000 0x0100)
      else "") ++ "RomStart:\n" ++ String.join (t.symbols.map fun s =>
        "  " ++ s.name ++ ":\n" ++ listingText t (under s))) ∧
    ("BootRom:\n".toList <+: text.toList ↔
      m.bootMapped = true ∧ ∀ s ∈ t.symbols, s.bank ≠ .boot) ∧
    (∀ s ∈ t.symbols, s.start.toNat + s.length.toNat ≤ 0xFFFF ∧
      (∃ k, (∀ i, a s i < s.start.toNat + s.length.toNat ↔ i < k) ∧
        (under s).toList = (List.range k).map fun i =>
          .operation 4 (.ofNat (a s i)) (fetch (.ofNat (a s i)) m.read8).1) ∧
      ∀ addr ∈ addressesIn (under s), s.start.toNat ≤ addr.toNat ∧
        addr.toNat < s.start.toNat + s.length.toNat) ∧
    ∀ bank, (listed bank).Pairwise (· < ·) ∧ (listed bank).Nodup := by
  intro t text under a listed
  have htext : text = _ := listingText_programListing m h
  have hlaid : IsLaidOut t.symbols := by
    rw [show t = _ from SymbolTable.after_eq calls]
    exact SymbolTable.isLaidOut_ofSymbols _
  refine ⟨htext, ?_, fun s hs => ?_, fun bank => ?_⟩
  · by_cases hboot : m.bootMapped = true ∧ ∀ s ∈ t.symbols, s.bank ≠ .boot
    · rw [htext, if_pos hboot]
      refine iff_of_true ?_ hboot
      simp only [String.append_assoc, String.toList_append]
      exact List.prefix_append _ _
    · rw [htext, if_neg hboot]
      refine iff_of_false ?_ hboot
      -- the first letters differ
      rintro ⟨rest, hrest⟩
      have hfirst := congrArg List.head? hrest
      simp at hfirst
  · have hend : s.lastStop.toNat = s.start.toNat + s.length.toNat :=
      Symbol.toNat_lastStop (hlaid.stop_lt hs)
    have hlt : s.start.toNat + s.length.toNat < 0x10000 := hlaid.stop_lt hs
    refine ⟨Nat.le_of_lt_succ hlt, ?_, fun addr haddr => ?_⟩
    · rw [← hend]
      exact exists_toList_rangeLines_eq m 4 s.start s.lastStop
    · rw [← hend, ← UInt16.le_iff_toNat_le, ← UInt16.lt_iff_toNat_lt]
      exact mem_range_of_mem_addressesIn m 4 _ _ haddr
  · have hbank (s : Symbol) (hs : s ∈ t.symbols.filter (·.bank == bank)) : s.bank = bank := by
      simpa using (List.mem_filter.mp hs).2
    have hup := (hlaid.filter_bank bank).pairwise_addressesIn hbank m 4
    exact ⟨hup, hup.imp fun hlt => UInt16.ne_of_lt hlt⟩

/-- A jump that begins in front of a symbol and ends behind it is listed once. -/
theorem jump_over_symbol_is_listed_once :
    let m : Memory := { cartridge := ⟨#[0x00, 0x3E, 0x05, 0xC3, 0x00, 0x01], by decide⟩ }
    let t := SymbolTable.after [.parse "00:0000 Start".toList, .extend "00:0004 Inside".toList]
    t.isEmpty = false ∧
      listingText t (programListing m t) = "RomStart:\n" ++ "  Start:\n" ++
        listingText t (rangeLines m 4 0 4) ++ "  Inside:\n" ∧
      addressesIn (rangeLines m 4 0 4) = [0, 1, 3] ∧
      (t.symbols.flatMap fun s => addressesIn (rangeLines m 4 s.start s.lastStop)).Nodup := by
  intro m t
  have hsymbols : t.symbols = [⟨"Start", .rom 0, 0, 4⟩, ⟨"Inside", .rom 0, 4, 0⟩] := by cbv
  have hmore : t.isEmpty = false := by rw [SymbolTable.isEmpty, hsymbols]; rfl
  have haddresses : addressesIn (rangeLines m 4 0 4) = [0, 1, 3] := by cbv
  have hnothing : listingText t (rangeLines m 4 4 4) = "" := by
    rw [show rangeLines m 4 4 4 = #[] by cbv]
    rfl
  obtain ⟨htext, -, -, hlisted⟩ := program_listing_follows_symbols m _ hmore
  refine ⟨hmore, htext.trans ?_, haddresses, ?_⟩
  · have hboot : ¬ (m.bootMapped = true ∧ ∀ s ∈ t.symbols, s.bank ≠ .boot) := fun h =>
      Bool.false_ne_true h.1
    rw [if_neg hboot]
    change "" ++ "RomStart:\n" ++ String.join (t.symbols.map _) = _
    rw [hsymbols]
    change "" ++ "RomStart:\n" ++ String.join
      ["  Start:\n" ++ listingText t (rangeLines m 4 0 4),
        "  Inside:\n" ++ listingText t (rangeLines m 4 4 4)] = _
    rw [hnothing, String.join_cons, String.join_cons, String.join_nil]
    simp only [String.append_assoc, String.empty_append, String.append_empty]
  · have honce := (hlisted (.rom 0)).2
    change ((t.symbols.filter _).flatMap _).Nodup at honce
    rw [hsymbols] at honce ⊢
    exact honce

end Sm83
