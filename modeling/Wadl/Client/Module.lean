import Wadl.Client.TypeTable
import Wadl.Types.Literal
import Wadl.Wire.MediaType

/-!
# What a client consists of

What the methods of a client take and give has types (`ValueShape`, `BodyType`), and what they pass
on is written as expressions (`ValueExpr`). Each has a text in the generated source.

A `ClientModule` has enums, models, a class for each resource and resource type, and a class to
begin with. Names are chosen and references are resolved in it; only the layout of the source is
left open.
-/

namespace Wadl

/-! ## Types and values -/

/-- The type of a single value. -/
inductive ValueType where
  /-- A type by its text. -/
  | written (text : String)
  | enum (name : String)
  deriving DecidableEq, Repr

/-- The text of a type. -/
def ValueType.source : ValueType → String
  | written text => text
  | enum name => name

/-- The type of a value that may be a list or missing. -/
structure ValueShape where
  base : ValueType
  isList : Bool
  isOptional : Bool
  deriving DecidableEq, Repr

/-- The text of a type. -/
def ValueShape.source (s : ValueShape) : String :=
  (if s.isList then "list[" ++ s.base.source ++ "]" else s.base.source) ++
    (if s.isOptional then " | None" else "")

/-- A value that is passed on. -/
inductive ValueExpr where
  | literal (l : Literal)
  /-- A member of an enum. -/
  | member (enum member : String)
  /-- An argument of the method. -/
  | argument (name : String)
  deriving DecidableEq, Repr

/-- The text of a value. -/
def ValueExpr.source : ValueExpr → String
  | literal l => l.source
  | member enum name => enum ++ "." ++ name
  | argument name => name

/-- A model, in the module or in a class. -/
structure ModelRef where
  owner : Option String
  name : String
  deriving DecidableEq, Repr

/-- The text of a model's name. -/
def ModelRef.source (r : ModelRef) : String :=
  match r.owner with
  | some owner => owner ++ "." ++ r.name
  | none => r.name

/-- The type of a body. -/
inductive BodyType where
  | model (ref : ModelRef)
  | raw (body : RawBody)
  deriving DecidableEq, Repr

/-- The text of a type. -/
def BodyType.source : BodyType → String
  | model ref => ref.source
  | raw body => body.sourceType

/-! ## Models -/

/-- What a field has if nothing is given. -/
inductive FieldDefault where
  /-- A value has to be given. -/
  | required
  | emptyList
  | nothing
  | value (v : ValueExpr)
  deriving DecidableEq, Repr

/-- A field of a model. -/
structure ModelField where
  name : String
  /-- The name on the wire, where it is another one. -/
  wireName : Option String
  shape : ValueShape
  default : FieldDefault
  deriving DecidableEq, Repr

/-- A method that follows the link in a field. -/
structure FollowHelper where
  name : String
  field : String
  /-- The class of what the link leads to. -/
  target : String
  isList : Bool
  required : Bool
  deriving DecidableEq, Repr

/-- The class of a representation. -/
structure ModelClass where
  name : String
  doc : Option String
  fields : List ModelField
  follows : List FollowHelper
  deriving DecidableEq, Repr

/-! ## Methods -/

/-- The URL that a path is joined to. -/
inductive UrlBase where
  /-- The URL of the resource itself. -/
  | own
  /-- The URL that the client was given, or else the base of the resources. -/
  | client (base : String)
  deriving DecidableEq, Repr

/-- An argument that fills a placeholder. -/
structure PlaceholderArg where
  placeholder : String
  name : String
  type : ValueType
  deriving DecidableEq, Repr

/-- A method that gives a resource below. -/
structure Accessor where
  name : String
  args : List PlaceholderArg
  /-- The class of the resource. -/
  target : String
  base : UrlBase
  path : String
  doc : Option String
  deriving DecidableEq, Repr

/-- The type of an argument. -/
inductive ArgType where
  | value (shape : ValueShape)
  | body (type : BodyType)
  deriving DecidableEq, Repr

/-- What an argument is if it is left out. -/
inductive ArgDefault where
  /-- The argument has to be given. -/
  | required
  | nothing
  | value (v : ValueExpr)
  deriving DecidableEq, Repr

/-- An argument of an operation. -/
structure Argument where
  name : String
  type : ArgType
  default : ArgDefault
  /-- Its documentation as plain text. -/
  doc : String
  deriving DecidableEq, Repr

/-- The body that an operation sends. -/
structure SentBody where
  /-- The argument that holds it. -/
  argument : String
  mediaType : Option String
  deriving DecidableEq, Repr

/-- A form in which a response can be. -/
structure Choice where
  /-- The media type that a response must have. -/
  mediaType : Option String
  /-- The model that the body is decoded into. -/
  model : Option ModelRef
  /-- The type of what is decoded. -/
  type : BodyType
  deriving DecidableEq, Repr

/-- What is done with a response that has one of the statuses; without any, one that has a status of
success. -/
structure Branch where
  statuses : List Int
  /-- The forms, in the order in which they are tried. -/
  choices : List Choice
  deriving DecidableEq, Repr

/-- Whether all statuses are those of errors. -/
def Branch.isError (b : Branch) : Bool := !b.statuses.isEmpty && b.statuses.all (400 ≤ ·)

/-- A method that sends a request. -/
structure Operation where
  name : String
  args : List Argument
  verb : String
  /-- What fills the placeholders that are left in the URL. -/
  template : List (String × ValueExpr)
  matrix : List (String × ValueExpr)
  query : List (String × ValueExpr)
  header : List (String × ValueExpr)
  /-- The media types that are asked for. -/
  accept : List String
  body : Option SentBody
  branches : List Branch
  doc : Option String
  deriving DecidableEq, Repr

/-! ## Classes -/

/-- The class of a resource or a resource type. -/
structure ResourceClass where
  name : String
  bases : List String
  doc : Option String
  nested : List ModelClass
  operations : List Operation
  accessors : List Accessor
  deriving DecidableEq, Repr

/-- Whether a class has nothing of its own. -/
def ResourceClass.isEmpty (c : ResourceClass) : Bool :=
  c.doc.isNone && c.nested.isEmpty && c.operations.isEmpty && c.accessors.isEmpty

/-- The class that a client begins with. -/
structure EntryClass where
  name : String
  doc : String
  accessors : List Accessor
  deriving DecidableEq, Repr

/-- A client. -/
structure ClientModule where
  doc : String
  isAsync : Bool
  enums : List EnumType
  models : List ModelClass
  classes : List ResourceClass
  entry : EntryClass
  deriving DecidableEq, Repr

end Wadl
