import Wadl.Xml.Writer

/-!
# Outlines

An `Outline` is an element tree to be written line by line: each element on lines of its own,
indented by its depth, and documentation on one line with its content as it is.
-/

namespace Wadl

/-- An element to be written. -/
inductive Outline where
  | element (tag : String) (attributes : List (String × String)) (children : List Outline)
  /-- An element whose content is markup already. -/
  | verbatim (tag : String) (attributes : List (String × String)) (content : String)
  deriving Repr

namespace Outline

/-- The attributes that have a value. -/
def present (attributes : List (String × Option String)) : List (String × String) :=
  attributes.filterMap fun (name, value) => value.map (name, ·)

/-- Attributes as they follow the label of a tag. -/
def attributeText (attributes : List (String × String)) : String :=
  String.join (attributes.map fun (name, value) => " " ++ name ++ "=" ++ Xml.quoteAttribute value)

/-- The indentation at a depth. -/
def indent (depth : Nat) : String := String.ofList (List.replicate (2 * depth) ' ')

mutual

/-- The lines of an element at a depth. -/
def lines (depth : Nat) : Outline → List String
  | .element tag attributes [] => [indent depth ++ "<" ++ tag ++ attributeText attributes ++ "/>"]
  | .element tag attributes (child :: children) =>
    [indent depth ++ "<" ++ tag ++ attributeText attributes ++ ">"] ++
      lines (depth + 1) child ++ linesOfList (depth + 1) children ++
      [indent depth ++ "</" ++ tag ++ ">"]
  | .verbatim tag attributes content =>
    [indent depth ++ "<" ++ tag ++ attributeText attributes ++ ">" ++ content ++ "</" ++ tag ++ ">"]

/-- The lines of some elements at a depth. -/
def linesOfList (depth : Nat) : List Outline → List String
  | [] => []
  | o :: rest => lines depth o ++ linesOfList depth rest

end

/-- A document with one root element. -/
def document (root : Outline) : String :=
  "<?xml version=\"1.0\" encoding=\"utf-8\"?>\n" ++ "\n".intercalate (root.lines 0) ++ "\n"

end Outline

end Wadl
