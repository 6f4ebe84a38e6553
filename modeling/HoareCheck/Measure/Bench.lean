import HoareCheck.Measure.Checkout
import HoareCheck.Measure.Fingerprint

/-!
# Measured workloads

A workload is set up with parameters and then called, any number of times.  The
module of workloads is a list of them; those whose names start with `bench_`
and that can be called are measured, in the order of their names.
-/

namespace HoareCheck.Measure

/-- Why a workload or its module failed. -/
structure Failure where
  kind : String
  text : String

namespace Failure

/-- A workload that did not end in time. -/
def timeout : Failure := { kind := "TimeoutError", text := "" }

def shown (failure : Failure) : String := failure.kind ++ ": " ++ failure.text

/-- The kind of a failure in the place of a name. -/
def mark (failure : Failure) : String := "<" ++ failure.kind ++ ">"

end Failure

/-- The parameters of one run by name. -/
abbrev Parameters := List (String × Value)

/-- A workload: whether it can be called, the parameters it names, its set-up,
and the result of a call, given how many calls there were before. -/
structure Bench where
  name : String
  isCallable : Bool
  settings : List Parameters
  setUp : Parameters → Except Failure Unit
  call : Parameters → Nat → Except Failure Value

namespace Bench

/-- One run: the set-up and a call. -/
def run (bench : Bench) (parameters : Parameters) (earlierCalls : Nat) : Except Failure Value := do
  bench.setUp parameters
  bench.call parameters earlierCalls

end Bench

/-! ## Scripted workloads -/

/-- How a scripted workload finds its result. -/
inductive ResultRule
  | fixed
  | callCount
  | echo
  | parameter (name : String)

/-- A workload whose behaviour is written down.  A direct one gives its result
when it is set up, without a call. -/
structure Script where
  name : String
  isCallable : Bool
  isDirect : Bool
  settings : List Parameters
  result : Value
  rule : ResultRule
  setUpFailure : Option Failure
  callFailure : Option Failure

namespace Script

/-- The result of a call. -/
def resultOf (script : Script) (parameters : Parameters) (earlierCalls : Nat) : Value :=
  match script.rule with
  | .fixed => script.result
  | .callCount => .int (if script.isDirect then 0 else (earlierCalls : Int) + 1)
  | .echo => .list (script.result :: parameters.map Prod.snd)
  | .parameter name =>
    ((parameters.find? fun parameter => parameter.1 = name).map Prod.snd).getD script.result

def bench (script : Script) : Bench :=
  { name := script.name
    isCallable := script.isCallable
    settings := script.settings
    setUp := fun _ => match script.setUpFailure with
      | some failure => .error failure
      | none => .ok ()
    call := fun parameters earlierCalls => match script.callFailure with
      | some failure => .error failure
      | none => .ok (script.resultOf parameters earlierCalls) }

end Script

/-- The module of workloads: its workloads, or why it cannot be loaded. -/
abbrev BenchModule := Except Failure (List Bench)

/-- The workloads to measure, in the order of their names. -/
def measured (benches : List Bench) : List Bench :=
  (benches.filter fun bench => bench.isCallable && bench.name.startsWith "bench_").mergeSort
    fun first second => !(second.name < first.name)

end HoareCheck.Measure
