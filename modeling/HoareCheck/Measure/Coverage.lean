import HoareCheck.Measure.Bench
import HoareCheck.Measure.Json

/-!
# Coverage of a run of all workloads

The workloads are run once each while the lines that they reach are counted.
The count is written as a report, to which the number of workloads and their
failures are added, and summed up in one line.
-/

namespace HoareCheck.Measure

/-- The steps of a coverage run that others can see. -/
inductive CoverageStep
  | configured (source : String) (omitted : Json)
  | started
  | imported (name : String)
  | stopped
  | reported (path : String)

/-- What ends a coverage run early. -/
inductive CoverageFault
  | missingArgument
  | notJson
  | missingField

/-- A coverage run: its steps, the report and where it is written, and the line
that sums it up. -/
structure CoverageRun where
  steps : List CoverageStep
  written : Option (String × Json)
  summary : Except CoverageFault String

/-- The numbers of a report on all files together. -/
structure Totals where
  percent : Number.Binary64
  covered : Json
  statements : Json

/-- The text of a number. -/
def Json.shown : Json → String
  | .int value => toString value
  | .real value => value.toText
  | value => value.write

def Totals.ofReport? (report : Json) : Option Totals := do
  let totals ← report.field? "totals"
  let percent ← (← totals.field? "percent_covered").number?
  return { percent, covered := ← totals.field? "covered_lines"
           statements := ← totals.field? "num_statements" }

/-- The failures of workloads by name. -/
def failuresOf (benches : List Bench) : List (String × Failure) :=
  benches.filterMap fun bench =>
    match bench.run [] 0 with
    | .error failure => some (bench.name, failure)
    | .ok _ => none

/-- The number of workloads and their failures; a module that cannot be loaded
has none of the first and one of the second. -/
def attempt : BenchModule → Nat × List (String × Failure)
  | .error failure => (0, [("<import>", failure)])
  | .ok benches =>
    let benches := measured benches
    (benches.length, failuresOf benches)

/-- The field of a report that holds the failures. -/
def failuresName : String := "_pti_bench_errors"

/-- A report with the workloads and their failures added. -/
def annotate (report : Json) (count : Nat) (failures : List (String × Failure)) : Json :=
  let errors := Json.ofFields (failures.map fun failure => (failure.1, .text failure.2.shown))
  let notes := ((report.field? "meta").map Json.fields).getD []
  let notes := Json.setField notes failuresName errors
  let notes := Json.setField notes "_pti_n_benches" (.int count)
  .ofFields (Json.setField report.fields "meta" (.ofFields notes))

/-- The failures that were added to a report. -/
def failuresIn (report : Json) : List (String × Json) :=
  (((report.field? "meta").bind fun notes => notes.field? failuresName).map Json.fields).getD []

/-- The line that sums a coverage run up. -/
def coverageSummary (totals : Totals) (count failures : Nat) : String :=
  "coverage: " ++ totals.percent.toFixed 1 ++ "% (" ++ totals.covered.shown ++ "/" ++
    totals.statements.shown ++ " stmts, " ++ toString count ++ " benches, " ++
    toString failures ++ " errors)\n"

/-- Runs all workloads under a count of lines.  The arguments are the directory
to count in, the name of the module of workloads, where to write the report,
and the patterns of files to leave out; `report` is the count. -/
def coverageRun (arguments : List String) (report : Json) (benches : BenchModule) : CoverageRun :=
  match arguments with
  | source :: name :: path :: patterns :: _ =>
    match Json.read patterns with
    | .error _ => { steps := [], written := none, summary := .error .notJson }
    | .ok omitted =>
      let (count, failures) := attempt benches
      { steps := [.configured source omitted, .started, .imported name, .stopped,
          .reported path]
        written := some (path, annotate report count failures)
        summary := match Totals.ofReport? report with
          | some totals => .ok (coverageSummary totals count failures.length)
          | none => .error .missingField }
  | _ => { steps := [], written := none, summary := .error .missingArgument }

end HoareCheck.Measure
