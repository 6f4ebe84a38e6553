import HoareCheck.Claim.Fault

/-!
# Type environments

What is known of the types of the names of one scope, in the order in which
they were declared.  A scope may also have been registered without any
environment; asking it for a name is a fault then.
-/

namespace HoareCheck

abbrev TypeEnv := List (String × TypeEntry)

namespace TypeEnv

def find? (env : TypeEnv) (name : String) : Option TypeEntry :=
  (List.find? (fun entry => entry.1 = name) env).map Prod.snd

/-- Sets the entry of a name; a name that is there keeps its place. -/
def insert (env : TypeEnv) (name : String) (entry : TypeEntry) : TypeEnv :=
  match env with
  | [] => [(name, entry)]
  | head :: rest =>
    if head.1 = name then (name, entry) :: rest else head :: insert rest name entry

def erase (env : TypeEnv) (name : String) : TypeEnv :=
  List.filter (fun entry => entry.1 ≠ name) env

end TypeEnv

/-- A name without the mark `#` of a copy and what follows it. -/
def plainName (name : String) : String :=
  String.ofList (name.toList.takeWhile (· ≠ '#'))

/-- A computation on the environment of a scope, which may be lacking.  Changes
made before a failure stay. -/
abbrev Typing := ExceptT Fault (StateM (Option TypeEnv))

namespace Typing

/-- The environment, which has to be there. -/
def env : Typing TypeEnv := do
  match ← get with
  | some env => return env
  | none => throw .wrongKind

/-- The entry of a name, if it has one. -/
def find? (name : String) : Typing (Option TypeEntry) := do
  return (← env).find? name

/-- The entry of a name that must have one. -/
def entry (name : String) : Typing TypeEntry := do
  match ← find? name with
  | some entry => return entry
  | none => throw .noSuchEntry

def insert (name : String) (entry : TypeEntry) : Typing Unit := do
  set (some ((← env).insert name entry))

def erase (name : String) : Typing Unit := do
  set (some ((← env).erase name))

/-- The value, or a fault if there is none. -/
def ofOption {α : Type} (fault : Fault) : Option α → Typing α
  | some value => pure value
  | none => throw fault

end Typing

end HoareCheck
