import Wadl.Uri.Join

/-!
# Web application descriptions

A description names resources, the methods they answer, the representations that are exchanged and
the params of each. A definition that stands elsewhere is named by a `Reference`; it is never
replaced by what it names, so types of resources may refer to each other in circles.
-/

namespace Wadl

/-- Where a param is written: in the body, the query, the path or a header. -/
inductive ParamStyle where
  | plain
  | query
  | matrix
  | header
  | template
  deriving DecidableEq, Repr

/-- The word for a style. -/
def ParamStyle.word : ParamStyle → String
  | plain => "plain"
  | query => "query"
  | matrix => "matrix"
  | header => "header"
  | template => "template"

/-- All styles. -/
def ParamStyle.all : List ParamStyle := [plain, query, matrix, header, template]

/-- The style of a word. -/
def ParamStyle.ofWord? (word : String) : Option ParamStyle := ParamStyle.all.find? (·.word = word)

/-- What a reference can name. -/
inductive DefinitionKind where
  | resourceType
  | representation
  | param
  | method
  deriving DecidableEq, Repr

/-- The word for a kind of definition. -/
def DefinitionKind.word : DefinitionKind → String
  | resourceType => "resource_type"
  | representation => "representation"
  | param => "param"
  | method => "method"

/-- All kinds of definitions. -/
def DefinitionKind.all : List DefinitionKind := [resourceType, representation, param, method]

/-- The kind of a word. -/
def DefinitionKind.ofWord? (word : String) : Option DefinitionKind :=
  DefinitionKind.all.find? (·.word = word)

/-- A URI that names a definition, of this document or of another. -/
structure Reference where
  kind : DefinitionKind
  /-- The URI, resolved against the base of the document it stands in. -/
  href : String
  /-- The path of the element it stands in, for messages only. -/
  source : String
  deriving DecidableEq, Repr

/-- Whether two references name the same definition. -/
def Reference.same (a b : Reference) : Bool := a.kind == b.kind && a.href == b.href

/-- The document that a reference names, and the identifier in it. -/
def Reference.target (r : Reference) : Except UriError (String × String) := defragmentUri r.href

/-- Documentation of an element. -/
structure Doc where
  title : Option String
  lang : Option String
  /-- The inner markup. -/
  content : String
  /-- The namespace of rich markup. -/
  xmlns : Option String
  deriving DecidableEq, Repr

/-- A value that a param may have. -/
structure ParamOption where
  value : String
  mediaType : Option String
  docs : List Doc
  deriving DecidableEq, Repr

/-- A relation of the resource that a param names. -/
structure Link where
  resourceType : Option Reference
  rel : Option String
  rev : Option String
  docs : List Doc
  deriving DecidableEq, Repr

/-- A named value of a request, a response or a representation. -/
structure Param where
  name : String
  style : ParamStyle
  id : Option String := none
  type : String := "xs:string"
  default : Option String := none
  fixed : Option String := none
  path : Option String := none
  required : Bool := false
  repeating : Bool := false
  options : List ParamOption := []
  links : List Link := []
  docs : List Doc := []
  deriving DecidableEq, Repr

/-- A param or a reference to one; a reference with an identifier is an alias. -/
inductive ParamItem where
  | inline (param : Param)
  | ref (ref : Reference) (id : Option String)
  deriving DecidableEq, Repr

/-- The form of a message body. -/
structure Representation where
  id : Option String
  mediaType : Option String
  element : Option String
  profile : Option String
  params : List ParamItem
  docs : List Doc
  deriving DecidableEq, Repr

/-- A representation or a reference to one; a reference with an identifier is an alias. -/
inductive RepresentationItem where
  | inline (representation : Representation)
  | ref (ref : Reference) (id : Option String)
  deriving DecidableEq, Repr

/-- What a method takes. -/
structure Request where
  params : List ParamItem
  representations : List RepresentationItem
  docs : List Doc
  deriving DecidableEq, Repr

/-- What a method answers with one of the statuses; without any, with every status of success. -/
structure Response where
  status : List Int
  params : List ParamItem
  representations : List RepresentationItem
  docs : List Doc
  deriving DecidableEq, Repr

/-- An operation of the protocol on a resource. -/
structure Method where
  /-- The verb. -/
  name : String
  id : Option String
  request : Option Request
  responses : List Response
  docs : List Doc
  deriving DecidableEq, Repr

/-- A method or a reference to one. -/
inductive MethodItem where
  | inline (method : Method)
  | ref (ref : Reference)
  deriving DecidableEq, Repr

/-- The form of a query that nothing else is said about. -/
def formMediaType : String := "application/x-www-form-urlencoded"

/-- A resource, with the resources below it. -/
structure Resource where
  id : Option String
  path : Option String
  types : List Reference
  queryType : String
  params : List ParamItem
  methods : List MethodItem
  resources : List Resource
  docs : List Doc
  deriving Repr

/-- A kind of resources that share methods and params. -/
structure ResourceType where
  id : String
  queryType : String
  params : List ParamItem
  methods : List MethodItem
  resources : List Resource
  docs : List Doc
  deriving Repr

/-- Resources below one base. -/
structure ResourceGroup where
  base : Option String
  resources : List Resource
  deriving Repr

/-- A description as a whole; its top-level definitions are known by their identifiers. -/
structure Application where
  baseUri : String
  docs : List Doc
  grammars : List String
  resources : List ResourceGroup
  resourceTypes : List ResourceType
  representations : List RepresentationItem
  params : List ParamItem
  methods : List Method
  deriving Repr

/-! ## Identifiers -/

/-- The identifier of a param or an alias. -/
def ParamItem.id : ParamItem → Option String
  | .inline p => p.id
  | .ref _ id => id

/-- The identifier of a representation or an alias. -/
def RepresentationItem.id : RepresentationItem → Option String
  | .inline r => r.id
  | .ref _ id => id

/-- The param itself, if it stands here. -/
def ParamItem.param? : ParamItem → Option Param
  | .inline p => some p
  | .ref .. => none

/-! ## Placeholders -/

/-- The names in braces of a template: maximal texts without a closing brace, none of them empty.
`acc` holds the name being read, if any, last character first. -/
def placeholdersFrom : Option (List Char) → List Char → List String
  | _, [] => []
  | none, c :: cs => if c = '\x7b' then placeholdersFrom (some []) cs else placeholdersFrom none cs
  | some acc, c :: cs =>
    if c = '\x7d' then
      if acc.isEmpty then placeholdersFrom none cs
      else String.ofList acc.reverse :: placeholdersFrom none cs
    else placeholdersFrom (some (c :: acc)) cs

/-- The names in braces of a template. -/
def placeholdersOf (template : String) : List String := placeholdersFrom none template.toList

/-- The placeholders of a resource's path. -/
def Resource.placeholders (r : Resource) : List String := placeholdersOf (r.path.getD "")

/-! ## All resources -/

mutual

/-- A resource and all below it, each before those below it. -/
def Resource.flatten : Resource → List Resource
  | ⟨id, path, types, queryType, params, methods, resources, docs⟩ =>
    ⟨id, path, types, queryType, params, methods, resources, docs⟩ :: flattenList resources

/-- Some resources and all below them. -/
def flattenList : List Resource → List Resource
  | [] => []
  | r :: rs => r.flatten ++ flattenList rs

end

theorem flattenList_append (xs ys : List Resource) :
    flattenList (xs ++ ys) = flattenList xs ++ flattenList ys := by
  induction xs with
  | nil => simp [flattenList]
  | cons x xs ih => simp [flattenList, ih]

/-- How many resources some resources have below them does not depend on their order. -/
theorem length_flattenList_reverse (rs : List Resource) :
    (flattenList rs.reverse).length = (flattenList rs).length := by
  induction rs with
  | nil => rfl
  | cons r rs ih =>
    simp [flattenList, flattenList_append, ih]
    omega

theorem Resource.flatten_eq (r : Resource) : r.flatten = r :: flattenList r.resources := by
  cases r
  rw [Resource.flatten]

/-- The resources of a stack and all below them: the last one is taken off, and those directly below
it are put on, the first of them last. -/
def unstack (stack : List Resource) : List Resource :=
  if h : stack = [] then []
  else
    let r := stack.getLast h
    r :: unstack (stack.dropLast ++ r.resources.reverse)
termination_by (flattenList stack).length
decreasing_by
  conv => rhs; rw [← List.dropLast_concat_getLast h]
  simp [flattenList_append, flattenList, Resource.flatten_eq, length_flattenList_reverse]

/-- All resources of all groups, each before those below it. -/
def Application.allResources (app : Application) : List Resource :=
  unstack (app.resources.reverse.flatMap (·.resources.reverse))

end Wadl
