import Wadl.Document.Model
import Wadl.Notice
import Wadl.Text.Blank
import Wadl.Text.Case
import Wadl.Xml.Reader

/-!
# Documentation as plain text

Rich documentation becomes paragraphs of plain text: blocks and line breaks end a paragraph, lists
get marks, preformatted text is indented, and the target of a link follows its label in parentheses.
`docsText` joins several pieces of documentation and prefers those in English.
-/

namespace Wadl.DocText

/-! ## Paragraphs -/

/-- What is read since a line end: all of it, whether another line end was among it, and what
follows the last one. The texts are reversed. -/
structure Gap where
  all : List Char
  breaks : Bool
  rest : List Char

/-- The paragraphs of a text: it is cut at blanks between two line ends. `chunk` is the paragraph
just met, last character first. -/
def paragraphs (chunk : List Char) : Option Gap → List Char → List (List Char)
  | none, [] => [chunk.reverse]
  | some gap, [] =>
    if gap.breaks then [chunk.reverse, gap.rest.reverse] else [(gap.all ++ chunk).reverse]
  | none, c :: cs =>
    if c = '\n' then paragraphs chunk (some ⟨[c], false, []⟩) cs
      else paragraphs (c :: chunk) none cs
  | some gap, c :: cs =>
    if c = '\n' then paragraphs chunk (some ⟨c :: gap.all, true, []⟩) cs
    else if Text.isBlank c then paragraphs chunk (some ⟨c :: gap.all, gap.breaks, c :: gap.rest⟩) cs
    else if gap.breaks then chunk.reverse :: paragraphs (c :: gap.rest) none cs
    else paragraphs (c :: gap.all ++ chunk) none cs

/-- A text with single spaces between its words. -/
def spaced (s : String) : String := " ".intercalate (wordsOf s)

/-! ## Blocks -/

/-- A paragraph of the result. -/
structure Block where
  text : String
  /-- Whether the block is an item of a list. -/
  isItem : Bool
  deriving DecidableEq, Repr

/-- What is written so far. -/
structure Page where
  blocks : List Block := []
  /-- The text of the paragraph that is still open. -/
  current : String := ""
  /-- Whether the open paragraph is an item of a list. -/
  inItem : Bool := false
  deriving Repr

/-- Ends the open paragraph. -/
def Page.flush (p : Page) : Page :=
  let text := spaced p.current
  { p with
    blocks := if text.isEmpty then p.blocks else p.blocks ++ [⟨text, p.inItem⟩]
    current := "" }

/-- A page with more text in the open paragraph. -/
def Page.add (p : Page) (s : String) : Page := { p with current := p.current ++ s }

/-- Writes a text, which may end paragraphs. -/
def Page.write (p : Page) (s : String) : Page :=
  if s.isEmpty then p
  else
    match (paragraphs [] none s.toList).map String.ofList with
    | [] => p
    | first :: rest => rest.foldl (fun q chunk => q.flush.add chunk) (p.add first)

/-- Begins or ends an item of a list. -/
def Page.setItem (p : Page) (inItem : Bool) : Page := { p with inItem }

/-- The text of a page. -/
def Page.text (p : Page) : String :=
  let blocks := p.flush.blocks
  let seps := blocks.zip (⟨"", false⟩ :: blocks) |>.map fun (b, before) =>
    (if b.isItem && before.isItem then "\n" else "\n\n") ++ b.text
  match blocks, seps with
  | first :: _, _ :: rest => first.text ++ String.join rest
  | _, _ => ""

/-! ## Elements -/

/-- Elements that stand in paragraphs of their own. -/
def blockLabels : List String :=
  ["p", "div", "blockquote", "section", "dl", "dt", "dd", "table", "tr", "h1", "h2", "h3", "h4",
    "h5", "h6"]

/-- Elements that hold a piece of code. -/
def codeLabels : List String := ["code", "tt", "kbd", "samp"]

/-- A preformatted text; line ends around it are dropped, and one without any letters is dropped. -/
def Page.writePre (p : Page) (s : String) : Page :=
  let body := String.ofList (Text.trimList (· = '\n') s.toList)
  if (trimmed body).isEmpty then p
  else
    { p with
      blocks := p.blocks ++ [⟨"\n".intercalate ((linesOf body).map ("    " ++ ·)), false⟩] }

/-- A link: its label, and its target if that says more. -/
def Page.writeLink (p : Page) (label : String) (href : Option String) : Page :=
  let p := p.write label
  match href with
  | some target =>
    if target.isEmpty || target = label then p else p.write (" (" ++ target ++ ")")
  | none => p

mutual

/-- Writes a piece of documentation; `skipCode` leaves code out. -/
def writeNode (skipCode : Bool) (p : Page) : Xml.Node → Page
  | .text s => p.write s
  | .element tag content =>
    let label := tag.name.label
    if label = "pre" then
      if skipCode then p.flush else p.flush.writePre (Xml.allTextList content)
    else if label = "ul" then (writeItems skipCode false 0 p.flush content).flush
    else if label = "ol" then (writeItems skipCode true 0 p.flush content).flush
    else if label = "br" then p.flush
    else if blockLabels.contains label then (writeAll skipCode p.flush content).flush
    else if label = "a" then p.writeLink (trimmed (Xml.allTextList content)) (tag.get? "href")
    else if codeLabels.contains label then
      if skipCode then p else p.write ("`" ++ Xml.allTextList content ++ "`")
    else writeAll skipCode p content
  | _ => p

/-- Writes pieces of documentation. -/
def writeAll (skipCode : Bool) (p : Page) : List Xml.Node → Page
  | [] => p
  | n :: rest => writeAll skipCode (writeNode skipCode p n) rest

/-- Writes the items of a list: all elements in it and what follows them. `n` counts the items so
far; text before the first one is left out. -/
def writeItems (skipCode ordered : Bool) (n : Nat) (p : Page) : List Xml.Node → Page
  | [] => p
  | .element _ content :: rest =>
    let mark := if ordered then toString (n + 1) ++ ". " else "* "
    let inside := (p.flush.setItem true).write mark
    let after := ((writeAll skipCode inside content).flush).setItem false
    writeItems skipCode ordered (n + 1) after rest
  | .text s :: rest => writeItems skipCode ordered n (if n = 0 then p else p.write s) rest
  | _ :: rest => writeItems skipCode ordered n p rest

end

end Wadl.DocText

namespace Wadl

/-- The namespace of rich documentation. -/
def xhtmlSpace : String := "http://www.w3.org/1999/xhtml"

/-- The plain text of a piece of documentation, with notices about it. -/
def Doc.plainText (skipCode : Bool) (d : Doc) : String × List Notice :=
  let unknown := match d.xmlns with
    | some space => if space = xhtmlSpace then [] else [Notice.unknownMarkup space]
    | none => []
  let (page, literal) := match Xml.readText ("<doc>" ++ d.content ++ "</doc>") with
    | some root =>
      match root.withoutMarks with
      | .element _ content => (DocText.writeAll skipCode {} content, [])
      | _ => ({}, [])
    | none => (DocText.Page.write {} d.content, [Notice.literalDocumentation])
  let body := page.text
  let text := match d.title with
    | some title =>
      if title.isEmpty then body else if body.isEmpty then title else title ++ "\n\n" ++ body
    | none => body
  (text, unknown ++ literal)

/-- Whether documentation is in English or in no language in particular. -/
def Doc.isPreferred (d : Doc) : Bool :=
  match d.lang with
  | none => true
  | some lang => (Case.lower lang).startsWith "en"

/-- The plain text of several pieces of documentation, with notices about them. -/
def docsText (skipCode : Bool) (docs : List Doc) : String × List Notice :=
  let preferred := docs.filter (·.isPreferred)
  let read := (if preferred.isEmpty then docs else preferred).map (·.plainText skipCode)
  ("\n\n".intercalate ((read.map (·.1)).filter (!·.isEmpty)), (read.map (·.2)).flatten)

end Wadl
