import Wadl.Client.Config
import Wadl.Digest.Sha1
import Wadl.Resolution.Basic
import Wadl.Text.Sorting
import Wadl.Types.Literal

/-!
# Signatures of representations

Two representations have the same form if their params agree in name, type, options, links, and in
being required and repeating, whatever their order. The `signature` is a digest of the sorted list
of these parts, so that documentation and identifiers do not matter.
-/

namespace Wadl

/-- What counts of a param for the form of a representation. -/
structure FieldKey where
  name : String
  /-- The local name of the type, with the options and the targets of the links. -/
  token : String
  required : Bool
  repeating : Bool
  deriving DecidableEq, Repr

namespace FieldKey

/-- The token of a param. -/
def tokenOf (p : Param) : String :=
  localTypeName p.type ++
    (if p.options.isEmpty then ""
      else "\x7b" ++ "|".intercalate (p.options.map (·.value)) ++ "\x7d") ++
    String.join (p.links.filterMap fun l => l.resourceType.map fun r => "->" ++ r.href)

/-- The key of a param. -/
def ofParam (p : Param) : FieldKey := ⟨p.name, tokenOf p, p.required, p.repeating⟩

/-- The order of keys: by name, then by token, then by the flags. -/
def compare (a b : FieldKey) : Ordering :=
  (Ord.compare a.name b.name).then <|
    (Ord.compare a.token b.token).then <|
      (Ord.compare a.required b.required).then (Ord.compare a.repeating b.repeating)

/-- The word for a flag in the text of a key. -/
def flagText (b : Bool) : String := if b then "True" else "False"

/-- The text of a key. -/
def text (k : FieldKey) : String :=
  "(" ++ quoted k.name ++ ", " ++ quoted k.token ++ ", " ++ flagText k.required ++ ", " ++
    flagText k.repeating ++ ")"

/-- The text of some keys, sorted. -/
def listText (keys : List FieldKey) : String :=
  "[" ++ ", ".intercalate ((sorted (fun a b => (compare a b).isLE) keys).map text) ++ "]"

end FieldKey

/-- The signature of some params. -/
def signatureOf (params : List Param) : String :=
  Sha1.hexDigest (utf8Bytes (FieldKey.listText (params.map FieldKey.ofParam)))

/-- The signature of the params of a representation, which may be references. -/
def Resolution.signature (r : Resolution) (items : List ParamItem) :
    Except ResolveError String := do
  return signatureOf (← items.mapM r.param)

end Wadl
