/-!
# Validation levels
-/

namespace Chainload

/-- How far the inputs of a boot chain are checked before they are acted on. -/
inductive Validation
  /-- The images come from the same build as the loader: only their magic is checked. -/
  | trusted
  /-- Every offset, size, encoding and address is checked before its first use. -/
  | strict
  deriving DecidableEq, Repr

namespace Validation

/-- Images are trusted unless a configuration asks for more. -/
instance : Inhabited Validation :=
  ⟨.trusted⟩

/-- Whether everything is checked. -/
def isStrict : Validation → Bool
  | .trusted => false
  | .strict => true

/-- The name of a level. -/
def name : Validation → String
  | .trusted => "Trusted"
  | .strict => "Strict"

end Validation

end Chainload
