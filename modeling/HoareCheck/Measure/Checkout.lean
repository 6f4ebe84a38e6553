/-!
# The files of a checkout

Measurements are taken inside a checkout of a project.  Time spent in a file
counts as the project's own if the file lies below the root of the checkout and
belongs neither to the workloads, nor to the measuring tools, nor to what was
installed or built there.
-/

namespace HoareCheck.Measure

/-- The parts of a path from the root, without empty and dot parts; two dots
take the part before them away. -/
def resolveParts (parts : List String) : List String :=
  (parts.foldl (fun taken part => if part = "" ∨ part = "." then taken
    else if part = ".." then taken.drop 1 else part :: taken) []).reverse

/-- Where the measured project lies, and the names of the files at its root
that are not its own: the module of workloads, and the tools, whose names share
a start. -/
structure Checkout where
  root : List String
  workloads : String
  toolStart : String

namespace Checkout

/-- The parts of a path, which is taken from the root of the checkout if it is
relative. -/
def absolute (checkout : Checkout) (path : String) : List String :=
  if path.startsWith "/" then resolveParts (path.splitOn "/")
  else resolveParts (checkout.root ++ path.splitOn "/")

/-- The parts of a path below the root of the checkout. -/
def below? (checkout : Checkout) (path : String) : Option (List String) :=
  let parts := checkout.absolute path
  let rest := parts.drop checkout.root.length
  if parts.take checkout.root.length = checkout.root ∧ rest ≠ [] then some rest else none

/-- Names of directories that hold what was installed or built. -/
def foreignDirectories : List String :=
  ["venv", ".venv", "env", "site-packages", "build", "dist", "node_modules"]

def isForeign (part : String) : Bool :=
  foreignDirectories.contains part || part.endsWith ".egg-info"

/-- Parts below the root, outside the directories that are not the
project's. -/
def ownParts? (checkout : Checkout) (path : String) : Option (List String) :=
  (checkout.below? path).filter fun parts => !parts.dropLast.any isForeign

/-- A file whose time is the project's own.  Names in angle brackets and `~`
stand for no file. -/
def isOwnFrame (checkout : Checkout) (path : String) : Bool :=
  if path = "~" || path.startsWith "<" then
    false
  else
    match checkout.ownParts? path with
    | some [name] => name ≠ checkout.workloads && !name.startsWith checkout.toolStart
    | some _ => true
    | none => false

/-- A file that holds source of the project.  Files next to the module of
workloads that continue its name are not. -/
def isOwnSource (checkout : Checkout) (path : String) : Bool :=
  let stem := (checkout.workloads.splitOn ".").headD ""
  match checkout.ownParts? path with
  | some [name] => !name.startsWith stem && !name.startsWith checkout.toolStart
  | some _ => true
  | none => false

/-- Removes what two lists have in common at their start. -/
def dropCommon : List String → List String → List String × List String
  | first :: firstRest, second :: secondRest =>
    if first = second then dropCommon firstRest secondRest
    else (first :: firstRest, second :: secondRest)
  | first, second => (first, second)

/-- A path as seen from the root of the checkout. -/
def relative (checkout : Checkout) (path : String) : String :=
  let (up, down) := dropCommon checkout.root (checkout.absolute path)
  let parts := up.map (fun _ => "..") ++ down
  if parts.isEmpty then "." else "/".intercalate parts

end Checkout

/-- The packages of a list, separated by commas, that are replaced by stand-ins:
those that are not loaded already. -/
def replacedPackages (loaded : List String) (packages : String) : List String :=
  (packages.splitOn ",").filter fun name => name ≠ "" && !loaded.contains name

end HoareCheck.Measure
