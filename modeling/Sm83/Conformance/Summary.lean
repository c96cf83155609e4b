import Sm83.Conformance.Case

/-!
# Summaries of conformance cases

What is told about a list of files with cases: the first failures of each file, how many of its
cases passed, and the totals.

## Main definitions

* `Tally` — the number of cases and of those that passed.
* `caseFileLines` — what is told about one file.
* `totalLine` — what is told about all of them.
-/

namespace Sm83

/-- The number of cases, and of those that passed. -/
structure Tally where
  passed : Nat := 0
  total : Nat := 0
  deriving DecidableEq, Repr

namespace Tally

/-- The tally of two lists of cases together. -/
def add (s t : Tally) : Tally :=
  ⟨s.passed + t.passed, s.total + t.total⟩

/-- The number of cases that did not pass. -/
def failed (t : Tally) : Nat :=
  t.total - t.passed

/-- The tally as text. -/
def text (t : Tally) : String :=
  Nat.repr t.passed ++ "/" ++ Nat.repr t.total

/-- The tally of cases, by what there is to tell about each. -/
def ofMessages (messages : List (Option String)) : Tally :=
  ⟨messages.countP Option.isNone, messages.length⟩

end Tally

/-- At most this many failures of a file are told. -/
def maxReported : Nat := 5

/-- The lines about a file, by what there is to tell about each of its cases. -/
def caseFileLines (path : String) (messages : List (Option String)) : List String :=
  ((messages.filterMap id).take maxReported).map ("  " ++ ·) ++
    [path ++ ": " ++ (Tally.ofMessages messages).text ++ " passed"]

/-- The line about all files. -/
def totalLine (files : Nat) (t : Tally) : String :=
  Nat.repr files ++ " files, " ++ t.text ++ " cases passed"

/-- Lines, each ended by a line feed. -/
def unlines (ls : List String) : String :=
  String.join (ls.map (· ++ "\n"))

end Sm83
