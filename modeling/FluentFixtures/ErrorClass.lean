import FluentFixtures.Text.Basic

/-!
# Classes of errors

Whoever handles an error looks at its class, and at the classes that one is part
of. What a package raises is known by its class and by what it says.
-/

namespace FluentFixtures

/-- The classes of errors that are told apart. -/
inductive ErrorClass where
  /-- What the operating system refuses. -/
  | system
  | value
  /-- Text that has no bytes, or bytes that have no text. -/
  | encoding
  | type
  | yaml
  | attribute
  | lookup
  | overflow
  | recursion
  | memory
  | other
  deriving DecidableEq, Repr

namespace ErrorClass

/-- The class that a class is part of. -/
def parent? : ErrorClass → Option ErrorClass
  | encoding => some value
  | _ => none

def isA (c d : ErrorClass) : Bool := c = d || c.parent? = some d

end ErrorClass

/-- An error that a package raises. -/
structure Raised where
  errorClass : ErrorClass
  message : Text
  deriving DecidableEq, Repr

end FluentFixtures
