import Wadl.Document.Model
import Wadl.Uri.Percent
import Wadl.Wire.Error
import Wadl.Wire.Value

/-!
# URLs of requests

`joinUrl` puts a path below a URL and `buildUrl` adds parameters to one. Both fill placeholders:
`fillWith` replaces each that has a text by it, and what was filled in is not looked at again.
-/

namespace Wadl

/-- Values by their names, in the order in which they were given. -/
abbrev NamedValues := List (String × Value)

/-- Why a value that is no member of an enum has no text. -/
def Value.textFault : Value → WireError
  | .bytes _ => .undecodable
  | _ => .longNumber

/-- The text of a value on the wire. -/
def wireText (v : Value) : Except WireError String :=
  match v.wireText? with
  | some s => .ok s
  | none => .error v.plain.textFault

/-! ## Placeholders -/

/-- A template in which placeholders are replaced. `acc` holds the name being read, if any, last
character first. -/
def fillFrom (text? : String → Option String) : (acc : Option (List Char)) → List Char → List Char
  | none, [] => []
  | some acc, [] => '\x7b' :: acc.reverse
  | none, c :: cs =>
    if c = '\x7b' then fillFrom text? (some []) cs else c :: fillFrom text? none cs
  | some acc, c :: cs =>
    if c = '\x7d' then
      let name := String.ofList acc.reverse
      let whole := '\x7b' :: acc.reverse ++ ['\x7d']
      (if acc.isEmpty then whole
        else match text? name with
          | some s => s.toList
          | none => whole) ++ fillFrom text? none cs
    else fillFrom text? (some (c :: acc)) cs

/-- A template in which the placeholders that have a text are replaced by it. -/
def fillWith (text? : String → Option String) (template : String) : String :=
  String.ofList (fillFrom text? none template.toList)

/-- The encoded texts of the placeholders of a template that are given a value. -/
def placeholderTexts (values : NamedValues) :
    List String → Except WireError (List (String × String))
  | [] => .ok []
  | name :: rest =>
    match values.lookup name with
    | none => placeholderTexts values rest
    | some v => do
      if v.isNone then placeholderTexts values rest
      else
        let text ← wireText v
        return (name, percentEncoded text) :: (← placeholderTexts values rest)

/-- A template in which the placeholders that are given a value are filled. -/
def fill (template : String) (values : NamedValues) : Except WireError String := do
  let texts ← placeholderTexts values (placeholdersOf template)
  return fillWith (texts.lookup ·) template

/-! ## URLs -/

/-- A text without the slashes at its end. -/
def withoutEndSlashes (s : String) : String :=
  String.ofList (Text.dropEndWhile (· == '/') s.toList)

/-- A text without the slashes at its beginning. -/
def withoutStartSlashes (s : String) : String := String.ofList (s.toList.dropWhile (· == '/'))

/-- A path, once its placeholders are filled, below a URL; an empty path leads to the URL itself. -/
def joinUrl (base : String) (path : Option String) (values : NamedValues) :
    Except WireError String := do
  let path ← fill (path.getD "") values
  if path.isEmpty then return base
  else return withoutEndSlashes base ++ "/" ++ withoutStartSlashes path

/-- One value of a matrix parameter: a truth is a name alone, if it is true. -/
def matrixItem (name : String) : Value → Except WireError String
  | .none => .ok ""
  | .bool b => .ok (if b then ";" ++ pathEncoded name else "")
  | v => do return ";" ++ pathEncoded name ++ "=" ++ percentEncoded (← wireText v)

/-- The matrix parameters of a URL. -/
def matrixText (matrix : NamedValues) : Except WireError String := do
  let texts ← matrix.mapM fun (name, value) => value.items.mapM (matrixItem name)
  return String.join texts.flatten

/-- The query parameters of a URL: one for each value that is given. -/
def queryPairs (query : NamedValues) : Except WireError (List (String × String)) := do
  let found ← query.mapM fun (name, value) =>
    (value.items.filter (!·.isNone)).mapM fun v => do return (name, ← wireText v)
  return found.flatten

/-- A URL whose placeholders are filled, with matrix and query parameters. -/
def buildUrl (url : String) (template matrix query : NamedValues) : Except WireError String := do
  let url := (← fill url template) ++ (← matrixText matrix)
  let pairs ← queryPairs query
  if pairs.isEmpty then return url
  else return url ++ (if url.contains '?' then "&" else "?") ++ formEncoded pairs

end Wadl
