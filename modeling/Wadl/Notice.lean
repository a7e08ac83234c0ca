import Wadl.Text.Quoted

/-!
# Notices

What the library has to tell beside its results: a `Notice` has a level, the part of the program
that it comes from, and a text. `Notice.line` is its line in a log.
-/

namespace Wadl

/-- Something to tell beside a result. -/
inductive Notice where
  /-- An element of another namespace was skipped. -/
  | skippedExtension (tag parent : String)
  /-- An element that descriptions do not have was skipped. -/
  | ignoredElement (label parent : String)
  /-- A param has a style that is not customary where it stands. -/
  | unusualStyle (style location : String) (path : List String)
  | loadingDocument (uri : String)
  | readingFile (path : String)
  | fetching (uri : String)
  /-- Rich documentation is in a namespace that has no meaning here. -/
  | unknownMarkup (space : String)
  /-- Documentation is not well-formed and is taken literally. -/
  | literalDocumentation
  /-- A template param has no place in the path that is still open. -/
  | notPending (param source : String)
  /-- Several representations share a type. -/
  | unified (count : Nat) (type : String)
  | generated (types enums classes : Nat)
  deriving DecidableEq, Repr

namespace Notice

/-- Whether a notice is a warning, and not only for those who look for trouble. -/
def isWarning : Notice → Bool
  | unusualStyle .. => true
  | unknownMarkup _ => true
  | _ => false

/-- The part of the program that a notice comes from. -/
def origin : Notice → String
  | skippedExtension .. => "wadlgen.parser.wadl"
  | ignoredElement .. => "wadlgen.parser.wadl"
  | unusualStyle .. => "wadlgen.parser.wadl"
  | loadingDocument _ => "wadlgen.parser.resolve"
  | readingFile _ => "wadlgen.parser.loader"
  | fetching _ => "wadlgen.parser.loader"
  | unknownMarkup _ => "wadlgen.generator.docs"
  | literalDocumentation => "wadlgen.generator.docs"
  | notPending .. => "wadlgen.generator.context"
  | unified .. => "wadlgen.generator.unify"
  | generated .. => "wadlgen.generator.code"

/-- The text of a notice. -/
def message : Notice → String
  | skippedExtension tag parent => "Skipping extension element " ++ tag ++ " in <" ++ parent ++ ">"
  | ignoredElement label parent =>
    "Ignoring unrecognized element <" ++ label ++ "> in <" ++ parent ++ ">"
  | unusualStyle style location path =>
    "Param style " ++ quoted style ++ " is unusual in <" ++ location ++ "> (at " ++
      "/".intercalate path ++ ")"
  | loadingDocument uri => "Loading referenced document " ++ uri
  | readingFile path => "Reading " ++ path
  | fetching uri => "Fetching " ++ uri
  | unknownMarkup space =>
    "Unknown documentation namespace " ++ space ++ ", treating markup as text"
  | literalDocumentation => "Documentation is not well-formed XML, using it literally"
  | notPending param source =>
    "Template param " ++ quoted param ++ " of " ++ source ++ " is not a pending placeholder"
  | unified count type => "Unified " ++ toString count ++ " representations into " ++ type
  | generated types enums classes =>
    "Generated " ++ toString types ++ " types, " ++ toString enums ++ " enums, " ++
      toString classes ++ " resource classes"

/-- The line of a notice in a log. -/
def line (n : Notice) : String :=
  (if n.isWarning then "WARNING " else "DEBUG ") ++ n.origin ++ ": " ++ n.message

end Notice

end Wadl
