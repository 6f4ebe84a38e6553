import HoareCheck.Measure.Bench
import HoareCheck.Measure.Json

/-!
# Where the time goes

A profile lists the time spent in each file.  `Profile.ownShare` is the part
that is the project's own, and `timeShares` sums up the profiles of all
workloads: the own part of each in percent, and the two files outside the
project that took most of the rest.
-/

namespace HoareCheck.Measure

open Number (Binary64)

/-- The own time of each file, in seconds, and the total. -/
structure Profile where
  rows : List (String × Binary64)
  total : Binary64

namespace Profile

/-- What is taken when no profile is left. -/
def empty : Profile := { rows := [], total := .zero false }

def sum (times : List Binary64) : Binary64 := times.foldl Binary64.add (.zero false)

/-- A time as a part of the total, or zero if there is none. -/
def share (profile : Profile) (time : Binary64) : Binary64 :=
  if profile.total.isZero then .zero false
  else (time.div? profile.total).getD (.zero false)

/-- The time spent in the project's own files. -/
def ownTime (profile : Profile) (checkout : Checkout) : Binary64 :=
  sum ((profile.rows.filter fun row => checkout.isOwnFrame row.1).map Prod.snd)

/-- Compiled code: built in, or a compiled module. -/
def isCompiled (file : String) : Bool :=
  file = "~" || file.endsWith ".so" || file.endsWith ".pyd"

/-- The time spent in compiled code outside the project. -/
def compiledTime (profile : Profile) (checkout : Checkout) : Binary64 :=
  sum ((profile.rows.filter fun row => !checkout.isOwnFrame row.1 && isCompiled row.1).map Prod.snd)

/-- A time in percent of the total, to one place. -/
def percent (profile : Profile) (time : Binary64) : Binary64 :=
  let hundredfold : Profile := { rows := [], total := profile.total }
  (hundredfold.share ((Binary64.ofRat 100).mul time)).roundTo 1

/-- The name of a file in a summary. -/
def shortName (file : String) : String :=
  if file = "~" then
    "builtins"
  else
    let name := (file.splitOn "/").getLastD ""
    if name.endsWith ".py" then String.ofList (name.toList.take (name.length - 3)) else name

/-- Adds a time to the entry of a name. -/
def addTime (entries : List (String × Binary64)) (name : String) (time : Binary64) :
    List (String × Binary64) :=
  match entries with
  | [] => [(name, time)]
  | entry :: rest =>
    if entry.1 = name then (name, entry.2.add time) :: rest else entry :: addTime rest name time

/-- The files that are neither the project's own nor the workloads, with their
times, by short name. -/
def outside (profile : Profile) (checkout : Checkout) : List (String × Binary64) :=
  profile.rows.foldl (fun entries row =>
    if checkout.isOwnFrame row.1 || checkout.below? row.1 = some [checkout.workloads]
        || row.2.isZero then entries else addTime entries (shortName row.1) row.2) []

/-- The order of hot files: more time first, and then the later name. -/
def hotter (first second : Binary64 × String) : Bool :=
  match first.1.compare? second.1 with
  | some .gt => true
  | some .eq => !(first.2 < second.2)
  | _ => false

/-- The two hottest files outside the project, in percent. -/
def hotFiles (profile : Profile) (checkout : Checkout) : List (Binary64 × String) :=
  let entries := (profile.outside checkout).map fun entry => (profile.percent entry.2, entry.1)
  (entries.mergeSort hotter).take 2

end Profile

/-- The share of one workload: its own time in percent and the hottest files
elsewhere. -/
structure TimeShare where
  name : String
  ownPercent : Binary64
  hot : List (Binary64 × String)

/-- The share of a workload that failed. -/
def TimeShare.failed (name : String) (failure : Failure) : TimeShare :=
  { name, ownPercent := .neg (.ofRat 1), hot := [(.zero false, failure.mark)] }

/-- The shares of workloads, each of which takes the next profile unless it
fails. -/
def timeSharesOf (checkout : Checkout) : List Profile → List Bench → List TimeShare
  | _, [] => []
  | profiles, bench :: rest =>
    match bench.run [] 0 with
    | .error failure => .failed bench.name failure :: timeSharesOf checkout profiles rest
    | .ok _ =>
      let profile := profiles.headD .empty
      { name := bench.name, ownPercent := profile.percent (profile.ownTime checkout)
        hot := profile.hotFiles checkout } ::
          timeSharesOf checkout (profiles.drop 1) rest

/-- The JSON that says why the module of workloads cannot be loaded. -/
def loadFailure (failure : Failure) : Json :=
  .ofFields [("_import_error", .text failure.shown)]

/-- The shares of all workloads. -/
def timeShares (checkout : Checkout) (profiles : List Profile) (benches : BenchModule) :
    Except Failure (List TimeShare) := do
  return timeSharesOf checkout profiles (measured (← benches))

/-- What the time-share tool prints. -/
def timeShareJson (shares : List TimeShare) : Json :=
  .ofFields
    [("repo_time_pct", .ofFields (shares.map fun share => (share.name, .real share.ownPercent))),
     ("hot_ext", .ofFields (shares.map fun share => (share.name,
       .array (share.hot.map fun hot => .array [.real hot.1, .text hot.2]))))]

end HoareCheck.Measure
