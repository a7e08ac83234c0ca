import Wadl.Xml.Tree
import Wadl.Document.Model

/-!
# The elements of a description

`ElementKind` lists the elements that a description is made of, and `ElementKind.children` says
which may stand directly inside which. Documentation may stand inside every element and in any
namespace. `ElementKind.styles` says which styles of params are customary where.
-/

namespace Wadl

/-- The namespace of the elements of a description. -/
def wadlSpace : String := "http://wadl.dev.java.net/2009/02"

/-- Whether a name can belong to an element of a description: its namespace is the one of
descriptions, or it has none. -/
def Xml.Name.isWadl (n : Xml.Name) : Bool := n.space == none || n.space == some wadlSpace

/-- The elements of a description. -/
inductive ElementKind where
  | application
  | grammars
  | include
  | resources
  | resource
  | resourceType
  | method
  | request
  | response
  | representation
  | param
  | option
  | link
  | doc
  deriving DecidableEq, Repr

namespace ElementKind

/-- The label of an element's tag. -/
def word : ElementKind → String
  | application => "application"
  | grammars => "grammars"
  | .include => "include"
  | resources => "resources"
  | resource => "resource"
  | resourceType => "resource_type"
  | method => "method"
  | request => "request"
  | response => "response"
  | representation => "representation"
  | param => "param"
  | option => "option"
  | link => "link"
  | doc => "doc"

/-- All elements. -/
def all : List ElementKind :=
  [application, grammars, .include, resources, resource, resourceType, method, request, response,
    representation, param, option, link, doc]

/-- The element with a label. -/
def ofWord? (word : String) : Option ElementKind := all.find? (·.word = word)

/-- The elements that may stand directly inside one. -/
def children : ElementKind → List ElementKind
  | application => [doc, grammars, resources, resourceType, method, representation, param]
  | grammars => [doc, .include]
  | resources => [doc, resource]
  | resource => [doc, param, method, resource]
  | resourceType => [doc, param, method, resource]
  | method => [doc, request, response]
  | request => [doc, param, representation]
  | response => [doc, param, representation]
  | representation => [doc, param]
  | param => [doc, option, link]
  | .include => [doc]
  | option => [doc]
  | link => [doc]
  | doc => []

/-- The customary styles of the params that stand directly inside an element. -/
def styles : ElementKind → List ParamStyle
  | application => ParamStyle.all
  | resource => [.template, .matrix, .query, .header]
  | resourceType => [.query, .header]
  | request => [.template, .query, .header]
  | response => [.header]
  | representation => [.plain, .query]
  | _ => []

theorem ofWord?_word (k : ElementKind) : ofWord? k.word = some k := by
  cases k <;> rfl

end ElementKind

end Wadl
