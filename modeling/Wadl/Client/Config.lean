import Wadl.Naming.Scope
import Wadl.Naming.Style
import Wadl.Notice
import Wadl.Resolution.Error

/-!
# Settings of the generator

`ClientConfig` is what can be chosen about a client, and a `GenerationError` says why it cannot be
generated.
-/

namespace Wadl

/-- What can be chosen about a generated client. -/
structure ClientConfig where
  includeDocs : Bool := true
  style : NamingStyle := .snake
  /-- Whether methods wait for the answer without blocking. -/
  isAsync : Bool := false
  /-- The media types that are preferred, the best first. -/
  preference : List String := ["application/json"]
  /-- Whether a type without a name stands in the class that alone uses it. -/
  inlineAnonymous : Bool := false
  escapeReserved : Bool := false
  /-- Whether code is left out of documentation. -/
  skipCode : Bool := false
  /-- Types of generated source that stand for declared types. -/
  overrides : List (String × String) := []
  clientName : String := "Client"
  deriving DecidableEq, Repr

/-! ## Errors -/

/-- What is wrong with a value. -/
inductive ValueFault where
  /-- The value is no text of its type. -/
  | invalid (value : String)
  | notAnOption (value : String)
  deriving DecidableEq, Repr

/-- The text of a fault. -/
def ValueFault.message : ValueFault → String
  | invalid value => "invalid value " ++ quoted value
  | notAnOption value => quoted value ++ " is not one of the options"

/-- The reason why a client cannot be generated. -/
inductive GenerationError where
  | clash (clash : NameClash)
  /-- A declared type, or a value of it, has nothing that stands for it in generated source. -/
  | unsupportedType (type source : String) (fault : Option ValueFault)
  | reference (error : ResolveError)
  /-- The source is not well-formed. -/
  | badSource
  /-- A resource or a resource type has no class. -/
  | noClass
  deriving DecidableEq, Repr

/-- The text of an error. -/
def GenerationError.message : GenerationError → String
  | clash c => c.message
  | unsupportedType type source fault =>
    "cannot map type " ++ quoted type ++ " of " ++ source ++ " to a Python type" ++
      (fault.map fun f => ": " ++ f.message).getD ""
  | reference e => e.message
  | badSource => "generated code does not compile"
  | noClass => "no class for a resource"

/-- Generating can fail, and gives notices also when it does. -/
abbrev Generating := ExceptT GenerationError (StateM (List Notice))

end Wadl
