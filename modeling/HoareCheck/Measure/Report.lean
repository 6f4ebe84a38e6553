import HoareCheck.Measure.Coverage
import HoareCheck.Measure.SelfCheck
import HoareCheck.Text.Blank
import HoareCheck.Text.Column
import HoareCheck.Text.Word

/-!
# The measurement report

A round of measurement runs the coverage tool, the time-share tool and the
self-check tool, looks whether the project was changed, and prints a report.
Each round adds a line to a history; the report says when the workloads stopped
getting better.
-/

namespace HoareCheck.Measure

open Number (Binary64)
open Text (leftIn rightIn)

/-- What a tool wrote and how it ended. -/
structure ToolRun where
  output : String := ""
  errors : String := ""
  code : Int := 0

/-- A tool that ran, or why it could not be started. -/
abbrev ToolOutcome := Except Failure ToolRun

/-- What a round of measurement reads. -/
structure Round where
  checkout : Checkout
  coverageText : Option String
  historyText : Option String
  workloadsText : Option String
  hasShareTool : Bool
  hasCheckTool : Bool
  coverage : ToolOutcome
  shares : ToolOutcome
  checks : ToolOutcome
  changes : ToolOutcome
  clock : List Binary64
  now : Binary64

/-- What ends a round early. -/
inductive RoundFault
  | tool (failure : Failure)
  | missingFile
  | notJson
  | missingField

/-- A finished round: what it printed, the code of a failed coverage tool, and
the line for the history. -/
structure RoundReport where
  output : String
  errors : String
  code : Option Int
  entry : Option Json

def half : Binary64 := .ofRat (1 / 2)

/-- The least percentage of own time. -/
def leastPercent : Binary64 := .ofRat 45

def isBelow (value bound : Binary64) : Bool := value.compare? bound = some .lt

/-! ## The table of files -/

/-- One row of the table. -/
structure FileRow where
  name : String
  statements : Int
  missing : Int
  percent : Binary64
  missingLines : List Json

def intField (json : Json) (name : String) : Int :=
  match json.field? name with
  | some (.int value) => value
  | _ => 0

def numberField (json : Json) (name : String) : Binary64 :=
  ((json.field? name).bind Json.number?).getD (.zero false)

def fileRow (checkout : Checkout) (file : String × Json) : FileRow :=
  let summary := (file.2.field? "summary").getD .null
  { name := checkout.relative file.1
    statements := intField summary "num_statements"
    missing := intField summary "missing_lines"
    percent := numberField summary "percent_covered"
    missingLines := ((file.2.field? "missing_lines").map Json.items).getD [] }

/-- The order of rows: the least covered first, and then the one that misses
more. -/
def rowBefore (first second : FileRow) : Bool :=
  match first.percent.compare? second.percent with
  | some .lt => true
  | some .eq => second.missing ≤ first.missing
  | _ => false

/-- The first twelve missing lines. -/
def shownMissing (missing : List Json) : String :=
  ",".intercalate ((missing.take 12).map Json.shown) ++ (if 12 < missing.length then "…" else "")

def nameWidth (rows : List FileRow) : Nat :=
  min 60 (rows.foldl (fun width row => max width row.name.length) 4)

/-- A row of the table; its parts are padded to the columns. -/
def tableRow (width : Nat) (name statements missing percent : String) : String :=
  leftIn width name ++ "  " ++ rightIn 5 statements ++ "  " ++
    rightIn 4 missing ++ "  " ++ rightIn 5 percent

def wholePercent (value : Binary64) : String := value.toFixed 0 ++ "%"

/-- The table of files and its total, in lines. -/
def coverageTable (rows : List FileRow) (totals : Totals) : List String :=
  let width := nameWidth rows
  let rule := String.ofList (List.replicate (width + 42) '-')
  let missing := match totals.statements, totals.covered with
    | .int statements, .int covered => toString (statements - covered)
    | _, _ => "0"
  [tableRow width "Name" "Stmts" "Miss" "Cover" ++ "  Missing", rule] ++
    (rows.mergeSort rowBefore).map (fun row =>
      tableRow width (Text.cutTo width row.name) (toString row.statements) (toString row.missing)
        (wholePercent row.percent) ++ "  " ++ shownMissing row.missingLines) ++
    [rule, tableRow width "TOTAL" totals.statements.shown missing (wholePercent totals.percent)]

/-- The failures of workloads that a report names, in lines. -/
def failureLines (report : Json) : List String :=
  let failures := failuresIn report
  if failures.isEmpty then []
  else
    ["", toString failures.length ++ " bench error(s):"] ++ failures.map fun failure =>
      "  " ++ failure.1 ++ ": " ++ match failure.2 with
        | .text message => message
        | value => value.shown

/-! ## Tools that write JSON -/

/-- The lines of a text. -/
def textLines (text : String) : List String :=
  match (text.splitOn "\n").reverse with
  | "" :: rest => rest.reverse
  | parts => parts.reverse

/-- The JSON on the last line of a tool's output. -/
def lastJson (outcome : ToolOutcome) : Except Failure Json := do
  let run ← outcome
  let text := String.ofList (Text.trimBlanks run.output.toList)
  match (textLines text).getLast? with
  | none => throw { kind := "IndexError", text := "list index out of range" }
  | some line =>
    match Json.read line with
    | .ok value => return value
    | .error refusal =>
      throw { kind := "JSONDecodeError", text := refusal.message line }

/-- What a tool gave, or a line about its failure. -/
def toolJson (name : String) (present : Bool) (outcome : ToolOutcome) : Json × String :=
  if present then
    match lastJson outcome with
    | .ok value => (value, "")
    | .error failure => (.null, "[" ++ name ++ " runner: " ++ failure.shown ++ "]\n")
  else
    (.null, "")

/-! ## Time shares -/

/-- The shares of workloads that did not fail. -/
def validShares (shares : List (String × Binary64)) : List (String × Binary64) :=
  shares.filter fun share => !isBelow share.2 (.zero false)

/-- How many shares are too small, if there are any at all. -/
def countBelow? (shares : List (String × Binary64)) : Option Nat :=
  let valid := validShares shares
  if valid.isEmpty then none
  else some (valid.filter fun share => isBelow share.2 leastPercent).length

def sharesOf (json : Json) : List (String × Binary64) :=
  (((json.field? "repo_time_pct").map Json.fields).getD []).map fun field =>
    (field.1, (field.2.number?).getD (.zero false))

/-- The hottest files of a workload, in words. -/
def hotText (json : Json) (name : String) : String :=
  let hot := (((json.field? "hot_ext").bind fun entries => entries.field? name).map
    Json.items).getD []
  let shown := hot.filterMap fun entry => match entry.items with
    | [percent, .text file] =>
      some (file ++ " " ++ wholePercent (percent.number?.getD (.zero false)))
    | _ => none
  if shown.isEmpty then "" else " (hot: " ++ " ".intercalate shown ++ ")"

def shareLine (json : Json) (share : String × Binary64) : String :=
  let isFailed := isBelow share.2 (.zero false)
  let low := !isFailed && isBelow share.2 leastPercent
  let percent := if isFailed then Binary64.zero false else share.2
  (if low then "  * " else "    ") ++ leftIn 32 share.1 ++ " " ++
    rightIn 5 (percent.toFixed 1) ++ "%" ++
    (if isFailed then "  <error>" else if low then hotText json share.1 else "")

def lessShare (first second : String × Binary64) : Bool :=
  match first.2.compare? second.2 with
  | some .gt => false
  | _ => true

def shareLines (json : Json) : List String :=
  let shares := sharesOf json
  if shares.isEmpty then []
  else
    ["", "repo_time (target 50%; * = below 45%):"] ++
      (shares.mergeSort lessShare).map (shareLine json)

/-! ## Changes of the project -/

/-- The changed files that are neither the workloads nor the tools'. -/
def changedFiles (round : Round) : List String :=
  match round.changes with
  | .error _ => []
  | .ok run =>
    let paths := (textLines run.output).map fun line => String.ofList (line.toList.drop 3)
    paths.filter fun path =>
      path ≠ "" && path ≠ round.checkout.workloads && !path.startsWith round.checkout.toolStart
        && !path.startsWith "."

def changeLines (round : Round) : List String :=
  let files := changedFiles round
  if files.isEmpty then []
  else
    ["", "** repo modified (" ++ toString files.length ++ " file(s)) — revert these; only " ++
      round.checkout.workloads ++ " is yours to edit:"] ++ files.map fun file => "   " ++ file

/-! ## Self-checks -/

/-- The verdict on a self-check. -/
inductive CheckStatus
  | ok
  | error
  | returnsNone
  | unstable
  | returnsInput
  | lowShare
  | settingInvariant
  | modified
  deriving DecidableEq

namespace CheckStatus

def name : CheckStatus → String
  | .ok => "ok"
  | .error => "error"
  | .returnsNone => "returns-none"
  | .unstable => "unstable"
  | .returnsInput => "returns-input"
  | .lowShare => "low-repo-time"
  | .settingInvariant => "param-invariant"
  | .modified => "repo-modified"

/-- What to do about each verdict. -/
def advice : List (CheckStatus × String) :=
  [(.returnsNone, "run() has no return — collect and return the call results"),
   (.unstable, "seed RNG in setup; avoid time/uuid/id in the return"),
   (.returnsInput, "return repo output, not the parameter value"),
   (.lowShare, "<50% of run() time is in repo code — move glue to setup"),
   (.settingInvariant, "return something derived from run()'s work, not setup"),
   (.modified, "revert edits to repo files (git checkout -- <path>)")]

end CheckStatus

def textsOf (json : Json) (name : String) : List String :=
  (((json.field? name).map Json.items).getD []).filterMap fun item => match item with
    | .text value => some value
    | _ => none

def valuesOf (json : Json) (name : String) : List Json :=
  (((json.field? name).map Json.fields).getD []).map Prod.snd

def numbersOf (json : Json) (name : String) : List Binary64 :=
  (valuesOf json name).filterMap Json.number?

def resultTypeOf (check : Json) : String :=
  match check.field? "ret_type" with
  | some (.text value) => value
  | _ => ""

/-- All texts of a list are equal. -/
def allEqual : List String → Bool
  | [] => true
  | first :: rest => rest.all (· = first)

def least? : List Binary64 → Option Binary64
  | [] => none
  | first :: rest => some (rest.foldl (fun least value => if isBelow value least then value else least)
      first)

def settingResults (check : Json) : List String :=
  (valuesOf check "fp_by_param").filterMap fun value => match value with
    | .text value => some value
    | _ => none

/-- The verdict on the record of a self-check. -/
def statusOf (modified : Bool) (check : Json) : CheckStatus :=
  let stable := textsOf check "fp_stable"
  if (resultTypeOf check).startsWith "<" then .error
  else if resultTypeOf check = "NoneType" then .returnsNone
  else if !allEqual stable then .unstable
  else if stable.any fun result => (textsOf check "param_fps").contains result then .returnsInput
  else if ((least? (numbersOf check "repo_frac")).map fun share => isBelow share half).getD false
    then .lowShare
  else if 1 < (settingResults check).length && allEqual (settingResults check)
    then .settingInvariant
  else if modified then .modified
  else .ok

def shareNote (check : Json) : String :=
  match least? (numbersOf check "repo_frac") with
  | some share => ", repo " ++ wholePercent ((Binary64.ofRat 100).mul share)
  | none => ""

def timeNote (check : Json) : String :=
  let times := ((check.field? "repo_tt_ms").map Json.fields).getD []
  let chosen := (times.find? fun time => time.1 = defaultSetting).orElse fun _ => times.head?
  match chosen.bind fun time => time.2.number? with
  | some time => " " ++ time.toFixed 1 ++ "ms"
  | none => ""

def checkLine (status : CheckStatus) (name : String) (check : Json) : String :=
  (if status = .ok then "    " else "  * ") ++ leftIn 32 name ++ " " ++ leftIn 16 status.name ++
    " (" ++ resultTypeOf check ++ shareNote check ++ ")" ++ timeNote check

/-- The self-checks of a round with their verdicts. -/
def checksOf (modified : Bool) (json : Json) : List (String × CheckStatus × Json) :=
  (((json.field? "semcheck").map Json.fields).getD []).map fun field =>
    (field.1, statusOf modified field.2, field.2)

def checkLines (checks : List (String × CheckStatus × Json)) : List String :=
  if checks.isEmpty then []
  else
    ["", "self-check (* = fix needed):"] ++
      CheckStatus.advice.map (fun entry => "  " ++ entry.1.name ++ ": " ++ entry.2) ++
      checks.map fun check => checkLine check.2.1 check.1 check.2.2

def countFlagged (checks : List (String × CheckStatus × Json)) : Nat :=
  (checks.filter fun check => check.2.1 ≠ .ok).length

/-! ## The history -/

/-- A line that starts a workload: `def bench_` and more, and then an opening
parenthesis. -/
def definesBench (line : String) : Bool :=
  let start := "def bench_".toList
  if start.isPrefixOf line.toList then
    let rest := line.toList.drop start.length
    let name := rest.takeWhile Text.isWord
    let after := Text.dropBlanks (rest.drop name.length)
    !name.isEmpty && after.head? = some '('
  else
    false

def countBenches (text : Option String) : Nat :=
  (((text.getD "").splitOn "\n").filter definesBench).length

def historyLines (text : Option String) : List String :=
  ((text.getD "").splitOn "\n").filter fun line => !(Text.dropBlanks line.toList).isEmpty

/-- The counts of too small shares in a history. -/
def earlierCounts (history : List Json) : List Int :=
  history.filterMap fun entry => match entry.field? "n_below_repo_time" with
    | some (.int count) => some count
    | _ => none

def leastOf (counts : List Int) : Int :=
  match counts with
  | [] => 0
  | first :: rest => rest.foldl min first

/-- Why to stop, given the counts of all rounds up to this one: nothing is too
small any more, or the last three rounds are no better than those before. -/
def stopReason? (counts : List Int) : Option String :=
  let last := counts.drop (counts.length - 3)
  let before := counts.take (counts.length - 3)
  if counts.getLast? = some 0 then
    some "0 below"
  else if !before.isEmpty && leastOf before ≤ leastOf last then
    some ("no improvement in 3 rounds; best " ++ toString (leastOf counts) ++ " below")
  else
    none

def stopLines (checkout : Checkout) (counts : List Int) : List String :=
  match stopReason? counts with
  | some reason => ["", ">>> STOP: repo_time converged (" ++ reason ++ "). Finalize " ++
      checkout.workloads ++ " now. <<<"]
  | none => []

/-! ## A round -/

/-- The time that the coverage tool took. -/
def Round.elapsed (round : Round) : Binary64 :=
  let tick (index : Nat) : Binary64 := (round.clock[index]?).getD (.zero false)
  ((tick 1).sub (tick 0)).roundTo 3

/-- The line that sums a round up. -/
def roundLine (number benches : Nat) (percent elapsed : Binary64)
    (shares : List (String × Binary64)) (checks : List (String × CheckStatus × Json)) : String :=
  "[round " ++ toString number ++ ": " ++ toString benches ++ " benches, " ++
    percent.toFixed 1 ++ "% covered" ++
    (if shares.isEmpty then "" else ", " ++ toString ((countBelow? shares).getD 0) ++ "/" ++
        toString (validShares shares).length ++ " below repo_time 45%") ++
    (if checks.isEmpty then "" else
      ", " ++ toString (countFlagged checks) ++ "/" ++ toString checks.length ++
        " not self-checking") ++
    ", measured in " ++ elapsed.toFixed 1 ++ "s]"

/-- The seconds since the last entry of a history. -/
def sincePrevious (now : Binary64) (history : List Json) : Binary64 :=
  match history.getLast?.bind fun entry => (entry.field? "ts").bind Json.number? with
  | some earlier => (now.sub earlier).roundTo 2
  | none => .zero false

/-- The tool's part of a round after the coverage report was read. -/
def Round.finish (round : Round) (report : Json) (totals : Totals) : RoundReport :=
  let rows := ((report.field? "files").map Json.fields).getD []
  let (shareJson, shareErrors) := toolJson "repotime" round.hasShareTool round.shares
  let (checkJson, checkErrors) := toolJson "semcheck" round.hasCheckTool round.checks
  let shares := sharesOf shareJson
  let checks := checksOf (!(changedFiles round).isEmpty) checkJson
  let lines := historyLines round.historyText
  let number := lines.length + 1
  let benches := countBenches round.workloadsText
  let history := lines.mapM fun line => (Json.read line).toOption
  let entry := history.map fun history => Json.ofFields
    [("round", .int number), ("ts", .real round.now),
     ("wall_since_prev_s", .real (sincePrevious round.now history)),
     ("coverage_pct", .real totals.percent), ("covered_lines", totals.covered),
     ("num_statements", totals.statements), ("n_bench_fns", .int benches),
     ("n_bench_errors", .int (failuresIn report).length), ("cov_measure_s", .real round.elapsed),
     ("repo_time_pct", (shareJson.field? "repo_time_pct").getD (.object [] [])),
     ("n_below_repo_time", ((countBelow? shares).map fun count => Json.int count).getD .null),
     ("semcheck", .ofFields (checks.map fun check => (check.1, .text check.2.1.name))),
     ("n_not_self_checking", .int (countFlagged checks))]
  let stop := match history, countBelow? shares with
    | some history, some count =>
      stopLines round.checkout (earlierCounts history ++ [(count : Int)])
    | _, _ => []
  let table := coverageTable (rows.map (fileRow round.checkout)) totals
  { output := Text.lines (table ++ failureLines report ++ shareLines shareJson ++
      changeLines round ++ checkLines checks ++
      ["", roundLine number benches totals.percent round.elapsed shares checks] ++ stop)
    errors := shareErrors ++ checkErrors
    code := none
    entry }

/-- Runs a round of measurement. -/
def Round.run (round : Round) : Except RoundFault RoundReport := do
  match round.coverage with
  | .error failure => throw (.tool failure)
  | .ok coverage =>
    if coverage.code ≠ 0 then
      return { output := Text.lines ["coverage measurement failed (exit " ++
                 toString coverage.code ++ ")", coverage.output]
               errors := coverage.errors
               code := some coverage.code
               entry := none }
    match round.coverageText with
    | none => throw .missingFile
    | some text =>
      match Json.read text with
      | .error _ => throw .notJson
      | .ok report =>
        match Totals.ofReport? report with
        | none => throw .missingField
        | some totals => return round.finish report totals

end HoareCheck.Measure
