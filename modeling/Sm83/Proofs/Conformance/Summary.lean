import Mathlib.Algebra.GroupWithZero.Nat
import Sm83.CommandLine.Program
import Sm83.Files.Tree

/-!
# Summaries of files of cases

Files of cases are taken one after the other. About each the first five cases that do not pass are
told, and how many pass; in the end the numbers are added up. A case counts whether or not it is
told about, so the program fails if any case of any file does not pass. A file that cannot be loaded
ends the program: what was told about the files before it stays, and there is no sum. The way to
read texts as cases is left open; the program reads them as JSON.

## Main definitions

* `CaseFile` — a file with its cases.
* `CaseFile.text`, `CaseFile.totals` — what is told about a file, and about all of them.
* `casesAt`, `CaseFile.LoadsFrom` — the cases in a file system, by a way to read texts as cases.

## Main results

* `unlines_caseFileLines` — what is told about a file, by the verdicts on its cases.
* `casesReportFrom_loaded`, `casesReportFrom_loaded_error` — the report if all files can be loaded,
  and if one cannot be.
* `CaseFile.exists_loaded` — the files before the first that cannot be loaded.
* `case_summary_is_exact` — the output and the exit code.
-/

namespace Sm83

/-! ### Verdicts and messages -/

/-- There is something to tell exactly about the cases that do not pass. -/
theorem ConformanceCase.message?_eq_none_iff {c : ConformanceCase} :
    c.message? = none ↔ c.verdict = .passed := by
  unfold message?
  cases c.verdict <;> simp

/-- The cases that do not pass, in their order. -/
def failures (cases : List ConformanceCase) : List ConformanceCase :=
  cases.filter fun c => c.verdict ≠ .passed

/-- The number of cases that pass. -/
def passes (cases : List ConformanceCase) : Nat :=
  cases.countP fun c => c.verdict = .passed

theorem filterMap_message? (cases : List ConformanceCase) :
    (cases.map ConformanceCase.message?).filterMap id =
      (failures cases).map fun c => c.message?.getD "" := by
  induction cases with
  | nil => rfl
  | cons c cases ih =>
    by_cases hpassed : c.verdict = .passed
    · have hnone : c.message? = none := ConformanceCase.message?_eq_none_iff.mpr hpassed
      simpa [failures, hpassed, hnone] using ih
    · obtain ⟨text, htext⟩ := Option.ne_none_iff_exists'.mp
        (mt ConformanceCase.message?_eq_none_iff.mp hpassed)
      simpa [failures, hpassed, htext] using ih

/-- The tally counts the cases that pass. -/
theorem Tally.ofMessages_map_message? (cases : List ConformanceCase) :
    Tally.ofMessages (cases.map ConformanceCase.message?) = ⟨passes cases, cases.length⟩ := by
  have hcount : (cases.map ConformanceCase.message?).countP Option.isNone = passes cases := by
    rw [List.countP_map]
    refine List.countP_congr fun c _ => ?_
    simp [ConformanceCase.message?_eq_none_iff]
  rw [ofMessages, hcount, List.length_map]

/-- Every case passes or is a failure. -/
theorem length_eq_passes_add (cases : List ConformanceCase) :
    cases.length = passes cases + (failures cases).length := by
  rw [List.length_eq_countP_add_countP fun c => decide (c.verdict = .passed), failures,
    ← List.countP_eq_length_filter]
  simp [passes]

/-! ### What is told -/

/-- A file with its cases. -/
structure CaseFile where
  path : String
  cases : List ConformanceCase
  deriving DecidableEq, Repr

namespace CaseFile

/-- What is told about a file: its first five failures, and how many of its cases pass. -/
def text (file : CaseFile) : String :=
  String.join (((failures file.cases).take 5).map fun c => "  " ++ c.message?.getD "" ++ "\n") ++
    (file.path ++ ": " ++ Nat.repr (passes file.cases) ++ "/" ++ Nat.repr file.cases.length ++
      " passed\n")

/-- What is told about all files: their number, and how many of all cases pass. -/
def totals (files : List CaseFile) : String :=
  Nat.repr files.length ++ " files, " ++ Nat.repr (files.map fun f => passes f.cases).sum ++ "/" ++
    Nat.repr (files.map fun f => f.cases.length).sum ++ " cases passed\n"

theorem unlines_caseFileLines (file : CaseFile) :
    unlines (caseFileLines file.path (file.cases.map ConformanceCase.message?)) = file.text := by
  rw [unlines, caseFileLines, filterMap_message?, Tally.ofMessages_map_message?, List.map_append,
    String.join_append, ← List.map_take, List.map_map, List.map_map, text]
  simp only [Tally.text, List.map_cons, List.map_nil, String.join_cons, String.join_nil,
    String.append_empty, String.append_assoc]
  rfl

/-- The tally of all files. -/
def tally (files : List CaseFile) : Tally :=
  ⟨(files.map fun f => passes f.cases).sum, (files.map fun f => f.cases.length).sum⟩

theorem totalLine_tally (files : List CaseFile) :
    totalLine files.length (tally files) ++ "\n" = totals files := by
  simp only [totalLine, Tally.text, tally, totals, String.append_assoc]
  rfl

theorem tally_cons (file : CaseFile) (files : List CaseFile) :
    tally (file :: files) = Tally.add ⟨passes file.cases, file.cases.length⟩ (tally files) := rfl

theorem failed_tally (files : List CaseFile) :
    (tally files).failed = (files.map fun f => (failures f.cases).length).sum := by
  have htotal : (tally files).total =
      (tally files).passed + (files.map fun f => (failures f.cases).length).sum := by
    induction files with
    | nil => rfl
    | cons file files ih =>
      have hfile := length_eq_passes_add file.cases
      simp only [tally_cons, Tally.add, List.map_cons, List.sum_cons]
      omega
  rw [Tally.failed, htotal, Nat.add_sub_cancel_left]

/-- No case failed if every case of every file passes. -/
theorem failed_tally_eq_zero_iff {files : List CaseFile} :
    (tally files).failed = 0 ↔ ∀ f ∈ files, ∀ c ∈ f.cases, c.verdict = .passed := by
  rw [failed_tally, List.sum_eq_zero_iff_forall_eq_nat]
  simp [failures]

end CaseFile

/-! ### Going through files -/

section Files

variable {σ : Type} [FileAccess (ReaderM σ)] {read? : CasesReader} {fs : σ}

/-- The cases that a file system has at a path, or the reason for which it has none. -/
def casesAt (read? : CasesReader) (fs : σ) (path : String) :
    Except CasesError (List ConformanceCase) :=
  (loadCases (m := ReaderM σ) path read?).run fs

/-- The file can be loaded. -/
def CaseFile.LoadsFrom (read? : CasesReader) (fs : σ) (file : CaseFile) : Prop :=
  casesAt read? fs file.path = .ok file.cases

/-- A path that does not lead to a directory stands for itself. -/
theorem expandPaths_eq_self {paths : List String}
    (h : ∀ path ∈ paths, (FileAccess.isDirectory (m := ReaderM σ) path).run fs = false) :
    (expandPaths (m := ReaderM σ) paths).run fs = .ok paths := by
  induction paths with
  | nil => rfl
  | cons path paths ih =>
    obtain ⟨hpath, hpaths⟩ := List.forall_mem_cons.mp h
    have hrest := ih hpaths
    rw [expandPaths, ReaderT.run_bind, hpath]
    change ((expandPaths (m := ReaderM σ) paths).run fs).map ([path] ++ ·) = _
    rw [hrest]
    rfl

/-- Behind the last file the sums are told. -/
theorem casesReportFrom_nil (sofar : String) (n : Nat) (t : Tally) :
    (casesReportFrom (m := ReaderM σ) read? sofar n t []).run fs =
      if t.failed = 0 then { output := encodeText (sofar ++ totalLine n t ++ "\n") }
      else .failure "" (Nat.repr t.failed ++ " case(s) failed")
        (encodeText (sofar ++ totalLine n t ++ "\n")) := by
  rw [casesReportFrom]
  split <;> rfl

/-- A file that can be loaded is told about and counted. -/
theorem casesReportFrom_cons_of_loadsFrom {file : CaseFile} (h : file.LoadsFrom read? fs)
    (sofar : String) (n : Nat) (t : Tally) (paths : List String) :
    (casesReportFrom (m := ReaderM σ) read? sofar n t (file.path :: paths)).run fs =
      (casesReportFrom (m := ReaderM σ) read? (sofar ++ file.text) (n + 1)
        (t.add ⟨passes file.cases, file.cases.length⟩) paths).run fs := by
  rw [CaseFile.LoadsFrom, casesAt] at h
  rw [casesReportFrom, ReaderT.run_bind, h, ← file.unlines_caseFileLines,
    ← Tally.ofMessages_map_message?]
  rfl

/-- A file that cannot be loaded ends the program. -/
theorem casesReportFrom_cons_of_error {path : String} {e : CasesError}
    (h : casesAt read? fs path = .error e)
    (sofar : String) (n : Nat) (t : Tally) (paths : List String) :
    (casesReportFrom (m := ReaderM σ) read? sofar n t (path :: paths)).run fs =
      .failure "" e.message (encodeText sofar) := by
  rw [casesAt] at h
  rw [casesReportFrom, ReaderT.run_bind, h]
  rfl

theorem Tally.empty_add (t : Tally) : Tally.add {} t = t := by
  simp [add]

theorem Tally.add_assoc (s t u : Tally) : (s.add t).add u = s.add (t.add u) := by
  simp [add, Nat.add_assoc]

/-- The files that can be loaded are told about and counted, one after the other. -/
theorem casesReportFrom_append {loaded : List CaseFile} (h : ∀ f ∈ loaded, f.LoadsFrom read? fs)
    (sofar : String) (n : Nat) (t : Tally) (paths : List String) :
    (casesReportFrom (m := ReaderM σ) read? sofar n t (loaded.map CaseFile.path ++ paths)).run fs =
      (casesReportFrom (m := ReaderM σ) read? (sofar ++ String.join (loaded.map CaseFile.text))
        (n + loaded.length) (t.add (CaseFile.tally loaded)) paths).run fs := by
  induction loaded generalizing sofar n t with
  | nil => simp [CaseFile.tally, Tally.add]
  | cons file loaded ih =>
    obtain ⟨hfile, hloaded⟩ := List.forall_mem_cons.mp h
    rw [List.map_cons, List.cons_append, casesReportFrom_cons_of_loadsFrom hfile, ih hloaded,
      List.map_cons, String.join_cons, String.append_assoc, CaseFile.tally_cons, Tally.add_assoc,
      List.length_cons, Nat.add_assoc, Nat.add_comm 1]

/-- If all files can be loaded, what is told about each is followed by the sums. -/
theorem casesReportFrom_loaded {loaded : List CaseFile} (h : ∀ f ∈ loaded, f.LoadsFrom read? fs) :
    (casesReportFrom (m := ReaderM σ) read? "" 0 {} (loaded.map CaseFile.path)).run fs =
      let output := encodeText (String.join (loaded.map CaseFile.text) ++ CaseFile.totals loaded)
      if (CaseFile.tally loaded).failed = 0 then { output := output }
      else .failure "" (Nat.repr (CaseFile.tally loaded).failed ++ " case(s) failed") output := by
  have hend := casesReportFrom_append h "" 0 {} []
  rwa [List.append_nil, casesReportFrom_nil, String.empty_append, Tally.empty_add, Nat.zero_add,
    String.append_assoc, CaseFile.totalLine_tally] at hend

/-- Behind the first file that cannot be loaded nothing more is told. -/
theorem casesReportFrom_loaded_error {loaded : List CaseFile} {path : String} {e : CasesError}
    (h : ∀ f ∈ loaded, f.LoadsFrom read? fs) (herror : casesAt read? fs path = .error e)
    (paths : List String) :
    (casesReportFrom (m := ReaderM σ) read? "" 0 {}
      (loaded.map CaseFile.path ++ path :: paths)).run fs =
      .failure "" e.message (encodeText (String.join (loaded.map CaseFile.text))) := by
  rw [casesReportFrom_append h, casesReportFrom_cons_of_error herror, String.empty_append]

/-- Either all files can be loaded, or there is a first one that cannot be. -/
theorem CaseFile.exists_loaded (read? : CasesReader) (fs : σ) (paths : List String) :
    (∃ loaded : List CaseFile,
        paths = loaded.map CaseFile.path ∧ ∀ f ∈ loaded, f.LoadsFrom read? fs) ∨
      ∃ (loaded : List CaseFile) (first : String) (rest : List String) (e : CasesError),
        paths = loaded.map CaseFile.path ++ first :: rest ∧ (∀ f ∈ loaded, f.LoadsFrom read? fs) ∧
          casesAt read? fs first = .error e := by
  induction paths with
  | nil => exact .inl ⟨[], rfl, List.forall_mem_nil _⟩
  | cons path paths ih =>
    cases hpath : casesAt read? fs path with
    | error e => exact .inr ⟨[], path, paths, e, rfl, List.forall_mem_nil _, hpath⟩
    | ok cases =>
      rcases ih with ⟨loaded, rfl, hloaded⟩ | ⟨loaded, first, rest, e, rfl, hloaded, hfirst⟩
      · exact .inl ⟨⟨path, cases⟩ :: loaded, rfl, List.forall_mem_cons.mpr ⟨hpath, hloaded⟩⟩
      · exact .inr ⟨⟨path, cases⟩ :: loaded, first, rest, e, rfl,
          List.forall_mem_cons.mpr ⟨hpath, hloaded⟩, hfirst⟩

/-- **The summary is exact.** If all files can be loaded, then of each the first five cases that do
not pass are told, in order, and how many pass of how many, and in the end the number of files and
the sums; the exit code is one exactly if some case of some file does not pass, and otherwise zero.
If some file cannot be loaded, what is told about the files before the first such file is all of the
output, and the exit code is one. All this holds for any way to read texts as cases. Verdicts count
clocks exactly; for a case with fewer than `2 ^ 30` machine cycles the verdict is that with clocks
in 32 bits (`ConformanceCase.checkedVerdict_eq`). -/
theorem case_summary_is_exact (read? : CasesReader) (fs : σ) {paths files : List String}
    (hfiles : (expandPaths (m := ReaderM σ) paths).run fs = .ok files) :
    let report : Report := (casesReport (m := ReaderM σ) read? paths).run fs
    (∀ loaded : List CaseFile,
      files = loaded.map CaseFile.path → (∀ f ∈ loaded, f.LoadsFrom read? fs) →
      report.output = encodeText (String.join (loaded.map CaseFile.text) ++
        CaseFile.totals loaded) ∧
      (report.code = 1 ↔ ∃ f ∈ loaded, ∃ c ∈ f.cases, c.verdict ≠ .passed) ∧
      (report.code = 0 ↔ ∀ f ∈ loaded, ∀ c ∈ f.cases, c.verdict = .passed)) ∧
    (∀ (loaded : List CaseFile) (first : String) (rest : List String) (e : CasesError),
      files = loaded.map CaseFile.path ++ first :: rest → (∀ f ∈ loaded, f.LoadsFrom read? fs) →
      casesAt read? fs first = .error e →
      report = ⟨1, encodeText (String.join (loaded.map CaseFile.text)), e.message ++ "\n"⟩) ∧
    ((∃ loaded : List CaseFile,
        files = loaded.map CaseFile.path ∧ ∀ f ∈ loaded, f.LoadsFrom read? fs) ∨
      ∃ (loaded : List CaseFile) (first : String) (rest : List String) (e : CasesError),
        files = loaded.map CaseFile.path ++ first :: rest ∧ (∀ f ∈ loaded, f.LoadsFrom read? fs) ∧
          casesAt read? fs first = .error e) := by
  intro report
  have hreport : report = (casesReportFrom (m := ReaderM σ) read? "" 0 {} files).run fs := by
    change (casesReport (m := ReaderM σ) read? paths).run fs = _
    rw [casesReport, ReaderT.run_bind, hfiles]
    rfl
  refine ⟨fun loaded hpaths hloaded => ?_, fun loaded first rest e hpaths hloaded hfirst => ?_,
    CaseFile.exists_loaded read? fs files⟩
  · rw [hreport, hpaths, casesReportFrom_loaded hloaded]
    by_cases hfailed : (CaseFile.tally loaded).failed = 0
    · have hall := CaseFile.failed_tally_eq_zero_iff.mp hfailed
      have hcode : ¬(0 : UInt8) = 1 := by decide
      rw [if_pos hfailed]
      refine ⟨rfl, iff_of_false hcode ?_, iff_of_true rfl hall⟩
      rintro ⟨f, hf, c, hc, hnot⟩
      exact hnot (hall f hf c hc)
    · have hnotAll := mt CaseFile.failed_tally_eq_zero_iff.mpr hfailed
      have hcode : ¬(1 : UInt8) = 0 := by decide
      rw [if_neg hfailed]
      refine ⟨rfl, iff_of_true rfl ?_, iff_of_false hcode hnotAll⟩
      simpa only [Classical.not_forall, exists_prop] using hnotAll
  · rw [hreport, hpaths]
    exact casesReportFrom_loaded_error hloaded hfirst rest

end Files

/-! ### Files of a tree -/

theorem casesAt_of_readBytes {t : FileTree} {path : String} {bytes : Array UInt8} {text : String}
    {cases : List ConformanceCase} (hread : t.readBytes path = .ok bytes)
    (htext : String.fromUTF8? ⟨bytes⟩ = some text) (hcases : read? text = some cases) :
    casesAt read? t path = .ok cases := by
  have hfile : (readTextFile (m := ReaderM FileTree) path).run t = .ok text := by
    change (((t.readBytes path).bind decodeText).mapError _) = _
    rw [hread, Except.bind, decodeText, htext]
    rfl
  rw [casesAt, loadCases, ReaderT.run_bind, hfile]
  simp only [bind, hcases]
  rfl

theorem casesAt_of_readBytes_error {t : FileTree} {path : String} {fault : FileFault}
    (hread : t.readBytes path = .error fault) :
    casesAt read? t path = .error (.file ⟨path, fault⟩) := by
  have hfile : (readTextFile (m := ReaderM FileTree) path).run t = .error ⟨path, fault⟩ := by
    change (((t.readBytes path).bind decodeText).mapError _) = _
    rw [hread]
    rfl
  rw [casesAt, loadCases, ReaderT.run_bind, hfile]
  rfl

/-- A file with a failure among its cases, alone, and before a file that is missing. -/
theorem summary_with_failure :
    let text := "[[\"nop\",[0,0,0,0,0,0,0,0,0,0,0],[1,0,0,0,0,0,0,0,0,0,0]]," ++
      "[\"bad\",[0,0,0,0,0,0,0,0,0,0,0,0,0,[[0,211]]],[0,0,0,0,0,0,0,0,0,0,0]]]"
    let tree : FileTree := { files := [(["a"], encodeText text)] }
    let zero : Snapshot := ⟨0, 0, 0, 0, 0, 0, 0, 0, 0, 0, 0, none, none, []⟩
    let invalid : Snapshot := { zero with ie := some 0, ei := some 0, ram := [(0, 0xD3)] }
    let cases : List ConformanceCase :=
      [⟨"nop", zero, { zero with pc := 1 }, 0⟩, ⟨"bad", invalid, zero, 0⟩]
    let file : CaseFile := ⟨"a", cases⟩
    let told := "  bad: step failed: invalid opcode 0xD3 at 0x0000\na: 1/2 passed\n"
    let report (paths : List String) : Report :=
      (casesReport (m := ReaderM FileTree) readCases? paths).run tree
    (expandPaths (m := ReaderM FileTree) ["a"]).run tree = .ok ["a"] ∧
      (expandPaths (m := ReaderM FileTree) ["a", "b"]).run tree = .ok ["a", "b"] ∧
      file.LoadsFrom readCases? tree ∧
      casesAt readCases? tree "b" = .error (.file ⟨"b", .notFound⟩) ∧
      (report ["a"]).output = encodeText (told ++ "1 files, 1/2 cases passed\n") ∧
      (report ["a"]).code = 1 ∧
      report ["a", "b"] =
        ⟨1, encodeText told, "failed to read b: No such file or directory (os error 2)\n"⟩ := by
  intro text tree zero invalid cases file told report
  -- A path of one letter is the only name in it; the search for slashes goes over that letter.
  have hnames : pathNames "a" = ["a"] ∧ pathNames "b" = ["b"] := by
    constructor
    all_goals
      rw [pathNames, String.splitOn, String.splitOnAux, String.splitOnAux]
      decide +kernel
  have hroots : FileTree.origin "a" = {} ∧ FileTree.origin "b" = {} := by decide +kernel
  have hsizes : "a".utf8ByteSize = 1 ∧ "b".utf8ByteSize = 1 := by decide
  have hopenA : tree.open? "a" = .ok (.file (encodeText text)) := by
    simp [FileTree.open?, hnames, hroots, hsizes, FileTree.walk, FileTree.node?, Place.child, tree]
  have hopenB : tree.open? "b" = .error .notFound := by
    simp [FileTree.open?, hnames, hroots, hsizes, FileTree.walk, FileTree.node?, Place.child,
      FileTree.paths, tree]
    rfl
  have hdirectoryA : tree.isDirectory "a" = false := by rw [FileTree.isDirectory, hopenA]
  have hdirectoryB : tree.isDirectory "b" = false := by rw [FileTree.isDirectory, hopenB]
  have hreadA : tree.readBytes "a" = .ok (encodeText text) := by rw [FileTree.readBytes, hopenA]
  have hreadB : tree.readBytes "b" = .error .notFound := by rw [FileTree.readBytes, hopenB]
  have hpathA : (expandPaths (m := ReaderM FileTree) ["a"]).run tree = .ok ["a"] :=
    expandPaths_eq_self (List.forall_mem_singleton.mpr hdirectoryA)
  have hpaths : (expandPaths (m := ReaderM FileTree) ["a", "b"]).run tree = .ok ["a", "b"] :=
    expandPaths_eq_self (List.forall_mem_cons.mpr
      ⟨hdirectoryA, List.forall_mem_singleton.mpr hdirectoryB⟩)
  have hfile : file.LoadsFrom readCases? tree := by
    have htext : String.fromUTF8? ⟨encodeText text⟩ = some text := by decide +kernel
    have hcases : readCases? text = some cases := by decide +kernel
    exact casesAt_of_readBytes hreadA htext hcases
  have hmissing : casesAt readCases? tree "b" = .error (.file ⟨"b", .notFound⟩) :=
    casesAt_of_readBytes_error hreadB
  have htold : file.text = told := by decide +kernel
  have htotals : CaseFile.totals [file] = "1 files, 1/2 cases passed\n" := by decide +kernel
  have hbad : (⟨"bad", invalid, zero, 0⟩ : ConformanceCase).verdict ≠ .passed := by decide +kernel
  obtain ⟨houtput, hcode, -⟩ := (case_summary_is_exact readCases? tree hpathA).1 [file] rfl
    (List.forall_mem_singleton.mpr hfile)
  have hbroken := (case_summary_is_exact readCases? tree hpaths).2.1 [file] "b" [] _ rfl
    (List.forall_mem_singleton.mpr hfile) hmissing
  rw [List.map_singleton, htold, String.join_cons, String.join_nil, String.append_empty]
    at houtput hbroken
  refine ⟨hpathA, hpaths, hfile, hmissing, htotals ▸ houtput, hcode.mpr ?_, hbroken⟩
  exact ⟨file, List.mem_singleton_self file, _, List.mem_cons_of_mem _ List.mem_cons_self, hbad⟩

end Sm83
