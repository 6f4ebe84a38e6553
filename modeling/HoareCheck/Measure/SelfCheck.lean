import HoareCheck.Measure.Profile

/-!
# Self-checks of workloads

A workload is worth measuring if its result tells whether it did its work.  The
self-check records fingerprints of results: of two runs, which agree for a
stable workload, and of one run for each setting of its parameters.  It also
records the fingerprints of the parameters themselves, and how much of the time
is the project's own.
-/

namespace HoareCheck.Measure

open Number (Binary64)

/-- What is recorded of one workload.  Lists by setting are keyed by the text of
the setting. -/
structure SelfCheck where
  name : String
  resultType : String
  stable : List String := []
  bySetting : List (String × String) := []
  parameters : List String := []
  ownShare : List (String × Binary64) := []
  compiledShare : List (String × Binary64) := []
  ownMilliseconds : List (String × Binary64) := []

/-- How self-checks are taken: once, without settings and profiles, or in
full. -/
inductive SelfCheckMode
  | full
  | once
  deriving DecidableEq

/-- The key of a run without parameters. -/
def defaultSetting : String := "<default>"

/-- The text of a parameter's value. -/
def Value.parameterText : Value → String
  | .text value => value
  | value => (String.fromUTF8? ⟨value.description.toArray⟩).getD ""

def settingKey (parameters : Parameters) : String :=
  ",".intercalate (parameters.map fun parameter => parameter.1 ++ "=" ++ parameter.2.parameterText)

namespace SelfCheck

/-- Adds the shares of a profile under a key. -/
def addProfile (check : SelfCheck) (checkout : Checkout) (key : String) (profile : Profile) :
    SelfCheck :=
  let own := profile.ownTime checkout
  { check with
    ownShare := check.ownShare ++ [(key, (profile.share own).roundTo 4)]
    compiledShare := check.compiledShare ++
      [(key, (profile.share (profile.compiledTime checkout)).roundTo 4)]
    ownMilliseconds := check.ownMilliseconds ++
      [(key, ((Binary64.ofRat 1000).mul own).roundTo 3)] }

/-- Runs a workload with each of its settings. -/
def addSettings (bench : Bench) : Nat → List Parameters → SelfCheck → Except Failure SelfCheck
  | _, [], check => .ok check
  | calls, setting :: rest, check => do
      let result ← bench.run setting calls
      addSettings bench (calls + 1) rest
        { check with
          bySetting := check.bySetting ++ [(settingKey setting, result.fingerprint)]
          parameters := check.parameters ++ setting.map fun parameter => parameter.2.fingerprint }

/-- The runs of a workload that a self-check takes. -/
def take (mode : SelfCheckMode) (bench : Bench) : Except Failure SelfCheck := do
  let first ← bench.run [] 0
  let check : SelfCheck := { name := bench.name, resultType := first.className }
  match mode with
  | .once => return { check with stable := [first.fingerprint] }
  | .full =>
    let second ← bench.run [] 1
    addSettings bench 2 bench.settings
      { check with stable := [first.fingerprint, second.fingerprint] }

/-- The keys of the runs that are profiled. -/
def profiledKeys (bench : Bench) : List String :=
  if bench.settings.isEmpty then [defaultSetting] else bench.settings.map settingKey

def addProfiles (check : SelfCheck) (checkout : Checkout) (profiles : List Profile)
    (keys : List String) : SelfCheck :=
  (keys.zipIdx).foldl (fun check key =>
    check.addProfile checkout key.1 ((profiles[key.2]?).getD .empty)) check

/-- The self-checks of workloads, which take their profiles one after the
other. -/
def takeAll (mode : SelfCheckMode) (checkout : Checkout) :
    List Profile → List Bench → List SelfCheck
  | _, [] => []
  | profiles, bench :: rest =>
    match take mode bench with
    | .error failure =>
      { name := bench.name, resultType := failure.mark } ::
        takeAll mode checkout profiles rest
    | .ok check =>
      match mode with
      | .once => check :: takeAll mode checkout profiles rest
      | .full =>
        let keys := profiledKeys bench
        check.addProfiles checkout profiles keys ::
          takeAll mode checkout (profiles.drop keys.length) rest

end SelfCheck

/-- The self-checks of all workloads. -/
def selfChecks (mode : SelfCheckMode) (checkout : Checkout) (profiles : List Profile)
    (benches : BenchModule) : Except Failure (List SelfCheck) := do
  return SelfCheck.takeAll mode checkout profiles (measured (← benches))

def realsBySetting (values : List (String × Binary64)) : Json :=
  .ofFields (values.map fun value => (value.1, .real value.2))

def SelfCheck.toJson (check : SelfCheck) : Json :=
  .ofFields
    [("ret_type", .text check.resultType), ("fp_stable", .array (check.stable.map .text)),
     ("fp_by_param", .ofFields (check.bySetting.map fun entry => (entry.1, .text entry.2))),
     ("param_fps", .array (check.parameters.map .text)),
     ("repo_frac", realsBySetting check.ownShare), ("ext_frac", realsBySetting check.compiledShare),
     ("repo_tt_ms", realsBySetting check.ownMilliseconds)]

/-- What the self-check tool prints. -/
def selfCheckJson (checks : List SelfCheck) : Json :=
  .ofFields [("semcheck", .ofFields (checks.map fun check => (check.name, check.toJson)))]

end HoareCheck.Measure
