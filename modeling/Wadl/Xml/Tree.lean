/-!
# XML trees

An element has a tag, that is a name with attributes, and content: elements, text, and, where they
are kept, comments and processing instructions. `Node.withoutMarks` leaves the latter out, and text
that they separated becomes one.
-/

namespace Wadl.Xml

/-- A name, with the namespace that qualifies it. -/
structure Name where
  space : Option String
  label : String
  deriving DecidableEq, Repr, Inhabited

/-- The written form of a name: its namespace in braces before the label. -/
def Name.text (n : Name) : String :=
  match n.space with
  | some s => "\x7b" ++ s ++ "\x7d" ++ n.label
  | none => n.label

/-- A name from its written form. -/
def Name.ofText (s : String) : Name :=
  match s.toList with
  | '\x7b' :: cs =>
    ⟨some (String.ofList (cs.takeWhile (· != '\x7d'))),
      String.ofList ((cs.dropWhile (· != '\x7d')).drop 1)⟩
  | _ => ⟨none, s⟩

/-- A name without a namespace. -/
def Name.plain (label : String) : Name := ⟨none, label⟩

/-- The name and the attributes of an element. -/
structure Tag where
  name : Name
  attributes : List (Name × String)
  deriving DecidableEq, Repr, Inhabited

/-- The value of an attribute. -/
def Tag.attribute? (t : Tag) (name : Name) : Option String := t.attributes.lookup name

/-- The value of an attribute without a namespace. -/
def Tag.get? (t : Tag) (label : String) : Option String := t.attribute? (.plain label)

/-- A piece of a document. -/
inductive Node where
  | element (tag : Tag) (content : List Node)
  | text (s : String)
  | comment (s : String)
  /-- A processing instruction: its target and its data. -/
  | instruction (s : String)
  deriving Repr, Inhabited

mutual

/-- Whether two pieces are the same. -/
def decEqNode : (n m : Node) → Decidable (n = m)
  | .element tag content, .element tag' content' =>
    match decEq tag tag', decEqNodes content content' with
    | isTrue htag, isTrue hcontent => isTrue (htag ▸ hcontent ▸ rfl)
    | isFalse htag, _ => isFalse fun h => htag (Node.element.inj h).1
    | _, isFalse hcontent => isFalse fun h => hcontent (Node.element.inj h).2
  | .text s, .text s' => decidable_of_iff (s = s') ⟨congrArg _, Node.text.inj⟩
  | .comment s, .comment s' => decidable_of_iff (s = s') ⟨congrArg _, Node.comment.inj⟩
  | .instruction s, .instruction s' => decidable_of_iff (s = s') ⟨congrArg _, Node.instruction.inj⟩
  | .element .., .text _ | .element .., .comment _ | .element .., .instruction _
  | .text _, .element .. | .text _, .comment _ | .text _, .instruction _
  | .comment _, .element .. | .comment _, .text _ | .comment _, .instruction _
  | .instruction _, .element .. | .instruction _, .text _ | .instruction _, .comment _ =>
    isFalse nofun

/-- Whether two lists of pieces are the same. -/
def decEqNodes : (content content' : List Node) → Decidable (content = content')
  | [], [] => isTrue rfl
  | [], _ :: _ | _ :: _, [] => isFalse nofun
  | n :: rest, n' :: rest' =>
    match decEqNode n n', decEqNodes rest rest' with
    | isTrue hn, isTrue hrest => isTrue (hn ▸ hrest ▸ rfl)
    | isFalse hn, _ => isFalse fun h => hn (List.cons.inj h).1
    | _, isFalse hrest => isFalse fun h => hrest (List.cons.inj h).2

end

instance : DecidableEq Node := decEqNode

/-- A text before a list of pieces, as one text if they begin with one. -/
def joinText (s : String) : List Node → List Node
  | .text t :: rest => .text (s ++ t) :: rest
  | rest => .text s :: rest

mutual

/-- A piece without the comments and processing instructions in it. -/
def Node.withoutMarks : Node → Node
  | .element tag content => .element tag (withoutMarksList content)
  | n => n

/-- Pieces without comments and processing instructions; the text around one becomes one text. -/
def withoutMarksList : List Node → List Node
  | [] => []
  | n :: rest =>
    match n with
    | .text s => joinText s (withoutMarksList rest)
    | .comment _ => withoutMarksList rest
    | .instruction _ => withoutMarksList rest
    | .element .. => n.withoutMarks :: withoutMarksList rest

end

/-- The tags of the elements among some pieces. -/
def childTags (content : List Node) : List Tag :=
  content.filterMap fun
    | .element tag _ => some tag
    | _ => none

mutual

/-- All text in a piece, in document order. -/
def Node.allText : Node → String
  | .element _ content => allTextList content
  | .text s => s
  | _ => ""

/-- All text in some pieces, in document order. -/
def allTextList : List Node → String
  | [] => ""
  | n :: rest => n.allText ++ allTextList rest

end

/-- The text before the first element, comment or instruction. -/
def leadingText : List Node → String
  | .text s :: rest => s ++ leadingText rest
  | _ => ""

end Wadl.Xml
