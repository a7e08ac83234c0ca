import Wadl.Text.Sorting
import Wadl.Xml.Tree

/-!
# Writing XML

`Node.written` is a piece of a document as text. Namespaces get the prefixes that are customary for
them, or `ns0`, `ns1`, … by the number of namespaces met before, and are all declared on the
outermost element. `escapeText`, `escapeAttribute` and `quoteAttribute` write text and attribute
values.
-/

namespace Wadl.Xml

/-- A text with each character replaced by a text. -/
def replaceChars (f : Char → String) (s : String) : String :=
  String.ofList (s.toList.flatMap fun c => (f c).toList)

/-- Text between tags. -/
def escapeText (s : String) : String :=
  replaceChars (fun c =>
    if c = '&' then "&amp;" else if c = '<' then "&lt;" else if c = '>' then "&gt;"
    else String.singleton c) s

/-- An attribute value between double quotes. -/
def escapeAttribute (s : String) : String :=
  replaceChars (fun c =>
    if c = '&' then "&amp;" else if c = '<' then "&lt;" else if c = '>' then "&gt;"
    else if c = '"' then "&quot;" else if c = '\r' then "&#13;" else if c = '\n' then "&#10;"
    else if c = '\t' then "&#09;" else String.singleton c) s

/-- A character of an attribute value inside the given quotes. -/
def quoteChar (quote c : Char) : String :=
  if c = '&' then "&amp;" else if c = '<' then "&lt;" else if c = '>' then "&gt;"
  else if c = '\n' then "&#10;" else if c = '\r' then "&#13;" else if c = '\t' then "&#9;"
  else if c = '"' ∧ quote = '"' then "&quot;" else String.singleton c

/-- The quotes of an attribute value: single ones if it holds double ones only. -/
def attributeQuote (s : String) : Char :=
  if s.toList.contains '"' && !s.toList.contains '\'' then '\'' else '"'

/-- An attribute value with its quotes. -/
def quoteAttribute (s : String) : String :=
  let quote := attributeQuote s
  String.singleton quote ++ replaceChars (quoteChar quote) s ++ String.singleton quote

/-! ## Prefixes -/

/-- Namespaces with a customary prefix. -/
def customaryPrefixes : List (String × String) :=
  [("http://www.w3.org/XML/1998/namespace", "xml"), ("http://www.w3.org/1999/xhtml", "html"),
    ("http://www.w3.org/1999/02/22-rdf-syntax-ns#", "rdf"),
    ("http://schemas.xmlsoap.org/wsdl/", "wsdl"), ("http://www.w3.org/2001/XMLSchema", "xs"),
    ("http://www.w3.org/2001/XMLSchema-instance", "xsi"),
    ("http://purl.org/dc/elements/1.1/", "dc"), ("http://wadl.dev.java.net/2009/02", "wadl")]

/-- Namespaces to declare, with their prefixes, in the order they were met. -/
abbrev Prefixes := List (String × String)

/-- The prefixes after a name was met. -/
def Prefixes.meet (ps : Prefixes) (n : Name) : Prefixes :=
  match n.space with
  | none => ps
  | some space =>
    if (ps.lookup space).isSome then ps
    else match customaryPrefixes.lookup space with
      | some "xml" => ps
      | some mark => ps ++ [(space, mark)]
      | none => ps ++ [(space, "ns" ++ toString ps.length)]

mutual

/-- The prefixes after all names of a piece were met. -/
def Node.meetAll (ps : Prefixes) : Node → Prefixes
  | .element tag content =>
    meetAllList ((tag.attributes.map (·.1)).foldl Prefixes.meet (ps.meet tag.name)) content
  | _ => ps

/-- The prefixes after all names of some pieces were met. -/
def meetAllList (ps : Prefixes) : List Node → Prefixes
  | [] => ps
  | n :: rest => meetAllList (n.meetAll ps) rest

end

/-- A name with its prefix. -/
def Prefixes.qualify (ps : Prefixes) (n : Name) : String :=
  match n.space with
  | none => n.label
  | some space =>
    match ps.lookup space with
    | some mark => mark ++ ":" ++ n.label
    | none => "xml:" ++ n.label

/-! ## Text -/

/-- The declarations of the prefixes, sorted by prefix. -/
def Prefixes.declarations (ps : Prefixes) : String :=
  String.join ((sorted (fun a b => a.2 ≤ b.2) ps).map fun (space, mark) =>
    " xmlns:" ++ mark ++ "=\"" ++ escapeAttribute space ++ "\"")

mutual

/-- A piece as text, with `declared` after the name of an element. -/
def Node.writtenWith (ps : Prefixes) (declared : String) : Node → String
  | .element tag content =>
    let name := ps.qualify tag.name
    let attributes := String.join (tag.attributes.map fun (n, v) =>
      " " ++ ps.qualify n ++ "=\"" ++ escapeAttribute v ++ "\"")
    let body := writtenList ps content
    let start := "<" ++ name ++ declared ++ attributes
    if content.isEmpty then start ++ " />" else start ++ ">" ++ body ++ "</" ++ name ++ ">"
  | .text s => escapeText s
  | .comment s => "<!--" ++ s ++ "-->"
  | .instruction s => "<?" ++ s ++ "?>"

/-- Pieces as text. -/
def writtenList (ps : Prefixes) : List Node → String
  | [] => ""
  | n :: rest => n.writtenWith ps "" ++ writtenList ps rest

end

/-- A piece of a document as text. -/
def Node.written (n : Node) : String :=
  let ps := n.meetAll []
  n.writtenWith ps ps.declarations

end Wadl.Xml
