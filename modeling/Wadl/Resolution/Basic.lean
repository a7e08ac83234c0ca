import Wadl.Document.References
import Wadl.Resolution.Error

/-!
# Resolved descriptions

A `Resolution` is a description with a table of what its references name. `Resolution.follow` goes
from a reference through aliases to a definition; it ends because no reference is passed twice.
-/

namespace Wadl

/-- What a reference names. -/
structure Target where
  definition : Definition
  place : Place
  deriving Repr

/-- The kind of what a reference names. -/
def Target.kind? (t : Target) : Option DefinitionKind := t.definition.kind?

/-- A definition together with its place. -/
structure Placed (α : Type) where
  value : α
  place : Place
  deriving Repr

/-- A description, what its references name, and the documents that were loaded for them. -/
structure Resolution where
  app : Application
  /-- Each URI that was followed, with what it names, in the order of following. -/
  targets : List (String × Target)
  /-- Each document with its URI, the description itself first. -/
  documents : List (String × Application)
  deriving Repr

namespace Resolution

/-- What a reference names. -/
def deref (r : Resolution) (ref : Reference) : Except ResolveError Target :=
  match r.targets.lookup ref.href with
  | some target => .ok target
  | none => .error (.unresolved ref.href ref.source .notReached)

/-- A kind of definition that references can name directly or through aliases. -/
structure Wanted (α : Type) where
  /-- What a reader calls it. -/
  name : String
  /-- The definition, if it is one of this kind. -/
  concrete? : Definition → Option α
  /-- The next reference, if the definition is an alias for one of this kind. -/
  alias? : Definition → Option Reference

/-- Representations. -/
def Wanted.representation : Wanted Representation where
  name := "Representation"
  concrete?
    | .representation (.inline rep) => some rep
    | _ => none
  alias?
    | .representation (.ref ref _) => some ref
    | _ => none

/-- Params. -/
def Wanted.param : Wanted Param where
  name := "Param"
  concrete?
    | .param (.inline p) => some p
    | _ => none
  alias?
    | .param (.ref ref _) => some ref
    | _ => none

/-- Methods, which have no aliases at the top level. -/
def Wanted.method : Wanted Method where
  name := "Method"
  concrete?
    | .method m => some m
    | _ => none
  alias? _ := none

/-- The definition at the end of a chain of aliases; `chain` holds the references that were
passed. -/
def followFrom {α : Type} (r : Resolution) (wanted : Wanted α) :
    (fuel : Nat) → (chain : List String) → Reference → Except ResolveError (Placed α)
  | 0, _, _ => .error .exhausted
  | fuel + 1, chain, ref => do
    let target ← r.deref ref
    match wanted.concrete? target.definition with
    | some value => return ⟨value, target.place⟩
    | none =>
      match wanted.alias? target.definition with
      | none => .error (.unresolved ref.href ref.source (.expected wanted.name))
      | some next =>
        if chain.contains next.href then .error (.cyclic (chain ++ [next.href]))
        else followFrom r wanted fuel (chain ++ [next.href]) next

/-- The definition that a reference names, directly or through aliases. -/
def follow {α : Type} (r : Resolution) (wanted : Wanted α) (ref : Reference) :
    Except ResolveError (Placed α) :=
  r.followFrom wanted (r.targets.length + 1) [ref.href] ref

/-- The representation that stands at a place or is named there. -/
def representation (r : Resolution) (place : Place) :
    RepresentationItem → Except ResolveError (Placed Representation)
  | .inline rep => .ok ⟨rep, place⟩
  | .ref ref _ => r.follow .representation ref

/-- The param that stands in a list or is named there. -/
def param (r : Resolution) : ParamItem → Except ResolveError Param
  | .inline p => .ok p
  | .ref ref _ => (·.value) <$> r.follow .param ref

/-- The method that stands at a place or is named there. -/
def method (r : Resolution) (place : Place) : MethodItem → Except ResolveError (Placed Method)
  | .inline m => .ok ⟨m, place⟩
  | .ref ref => r.follow .method ref

/-- The resource type that a reference names. -/
def resourceType (r : Resolution) (ref : Reference) :
    Except ResolveError (Placed ResourceType) := do
  let target ← r.deref ref
  match target.definition with
  | .resourceType t => return ⟨t, target.place⟩
  | _ => .error (.unresolved ref.href ref.source (.expected DefinitionKind.resourceType.word))

/-- The resource types of other documents, in the order of following. -/
def externalResourceTypes (r : Resolution) : List (Placed ResourceType) :=
  r.targets.filterMap fun (_, target) =>
    match target.definition with
    | .resourceType t =>
      if target.place.document = r.app.baseUri then none else some ⟨t, target.place⟩
    | _ => none

end Resolution

end Wadl
