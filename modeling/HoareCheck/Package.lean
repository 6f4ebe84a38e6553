/-!
# The package

What the package says about itself when it is installed.
-/

namespace HoareCheck

structure Package where
  name : String
  version : String
  author : String
  zipSafe : Bool

/-- The package of this prover. -/
def Package.own : Package :=
  { name := "myprover", version := "0.0.0", author := "Hideaki Takahashi", zipSafe := false }

end HoareCheck
