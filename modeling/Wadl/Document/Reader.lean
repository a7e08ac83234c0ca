import Wadl.Document.Index
import Wadl.Document.Vocabulary
import Wadl.Notice
import Wadl.Number.Numeral
import Wadl.Text.Blank
import Wadl.Xml.Writer

/-!
# Reading a description

`readDescription` makes a description of an element tree, and `readDescriptionText` and
`readDescriptionBytes` of a document. Reading is structural: references are resolved against the
base and kept, nothing is loaded. Strict reading refuses elements that descriptions do not have, and
styles of params that are not customary where they stand; otherwise both are noticed.
-/

namespace Wadl

/-- Reading can fail, and gives notices also when it does. -/
abbrev Reading := ExceptT DocumentError (StateM (List Notice))

/-- Gives a notice. -/
def notice (n : Notice) : Reading Unit := modify (· ++ [n])

namespace Reader

/-- Where reading has come to. -/
structure Position where
  /-- The URI that references are resolved against. -/
  base : String
  strict : Bool
  /-- The labels of the open elements. -/
  path : List String

/-- The position inside an element. -/
def Position.enter (pos : Position) (label : String) : Position :=
  ⟨pos.base, pos.strict, pos.path ++ [label]⟩

/-- Fails because of a fault at a position. -/
def fail {α : Type} (pos : Position) (fault : Malformation) : Reading α :=
  throw (.malformed fault pos.path)

/-- An element of the tree. -/
structure Element where
  tag : Xml.Tag
  content : List Xml.Node

/-- An attribute of an element. -/
def Element.get? (e : Element) (attr : String) : Option String := e.tag.get? attr

/-! ## Children and attributes -/

/-- The children that belong to the description among the content of an element `parent`, with their
kinds. -/
def items (pos : Position) (parent : ElementKind) :
    List Xml.Node → Reading (List (ElementKind × Element))
  | [] => pure []
  | .element tag content :: rest => do
    let item := Element.mk tag content
    if tag.name.label = ElementKind.doc.word then
      return (.doc, item) :: (← items pos parent rest)
    if !tag.name.isWadl then
      notice (.skippedExtension tag.name.text parent.word)
      items pos parent rest
    else
      match ElementKind.ofWord? tag.name.label with
      | some kind =>
        if parent.children.contains kind then
          return (kind, item) :: (← items pos parent rest)
        else
          fail pos (.misplaced tag.name.label parent.word)
      | none =>
        if pos.strict then
          fail pos (.unrecognized tag.name.label)
        else
          notice (.ignoredElement tag.name.label parent.word)
          items pos parent rest
  | _ :: rest => items pos parent rest

/-- The items of one kind. -/
def ofKind (kind : ElementKind) (found : List (ElementKind × Element)) : List Element :=
  found.filterMap fun (k, e) => if k = kind then some e else none

/-- An attribute that has to be there. -/
def required (pos : Position) (e : Element) (kind : ElementKind) (attr : String) :
    Reading String :=
  match e.get? attr with
  | some value => pure value
  | none => throw (.missingAttribute kind.word attr pos.path)

/-- The truth of an attribute; without it, false. -/
def flag (pos : Position) (e : Element) (attr : String) : Reading Bool :=
  match e.get? attr with
  | none => pure false
  | some value =>
    if value = "true" ∨ value = "1" then pure true
    else if value = "false" ∨ value = "0" then pure false
    else fail pos (.invalidBoolean value attr)

/-- A reference to a definition. -/
def reference (pos : Position) (kind : DefinitionKind) (href : String) : Reading Reference :=
  match joinUri pos.base href with
  | .ok uri => pure ⟨kind, uri, "/".intercalate pos.path⟩
  | .error e => throw (.badUri e)

/-- Fails if something is found that may not be there. -/
def refuse {α : Type} (found : Option α) (error : α → DocumentError) : Reading Unit :=
  match found with
  | some a => throw (error a)
  | none => pure ()

/-- Fails if a definition of the application itself, with the position `inside` it, has no
identifier. -/
def requireId (inside : Position) (location : ElementKind) (e : Element) (kind : ElementKind) :
    Reading Unit :=
  if location = .application then
    discard (required inside e kind "id")
  else pure ()

/-- The first text that stands among some texts twice, by the place of its second occurrence. -/
def firstRepeated (seen : List String) : List String → Option String
  | [] => none
  | s :: rest => if seen.contains s then some s else firstRepeated (s :: seen) rest

/-- The first text that stands among some texts twice, by the place of its first occurrence. -/
def firstDoubled : List String → Option String
  | [] => none
  | s :: rest => if rest.contains s then some s else firstDoubled rest

/-! ## Documentation -/

mutual

/-- Markup without the namespace of descriptions in the names of its elements. -/
def plainMarkup : Xml.Node → Xml.Node
  | .element tag content =>
    .element
      (if tag.name.space = some wadlSpace then ⟨.plain tag.name.label, tag.attributes⟩ else tag)
      (plainMarkupList content)
  | n => n

/-- Pieces of markup without the namespace of descriptions. -/
def plainMarkupList : List Xml.Node → List Xml.Node
  | [] => []
  | n :: rest => plainMarkup n :: plainMarkupList rest

end

/-- The content of documentation as text. A comment or an instruction is left out with the text
after it, which belongs to it; `kept` says that the pieces follow neither. -/
def markupText (kept : Bool) : List Xml.Node → String
  | [] => ""
  | .text s :: rest => (if kept then Xml.escapeText s else "") ++ markupText kept rest
  | .element tag content :: rest =>
    (plainMarkup (.element tag content)).written ++ markupText true rest
  | _ :: rest => markupText false rest

/-- The namespace of a name, if it is not the one of descriptions. -/
def foreignSpace (n : Xml.Name) : Option String := if n.isWadl then none else n.space

/-- Documentation; its namespace is its own, or else that of the first child that has a foreign
one. -/
def readDoc (e : Element) : Doc where
  title := e.get? "title"
  lang := e.tag.attribute? ⟨some "http://www.w3.org/XML/1998/namespace", "lang"⟩
  content := markupText true e.content
  xmlns := ((e.tag :: Xml.childTags e.content).map (foreignSpace ·.name)).findSome? id

/-- The documentation among some items. -/
def readDocs (found : List (ElementKind × Element)) : List Doc := (ofKind .doc found).map readDoc

/-! ## Params -/

/-- The style of a param that stands in an element of kind `location`. -/
def readStyle (pos : Position) (e : Element) (location : ElementKind) : Reading ParamStyle :=
  match e.get? "style" with
  | none => pure (if location = .representation then .plain else .query)
  | some word =>
    match ParamStyle.ofWord? word with
    | none => fail pos (.unknownStyle word)
    | some style => do
      if !location.styles.contains style then
        if pos.strict then
          fail pos (.styleNotAllowed word location.word)
        notice (.unusualStyle word location.word pos.path)
      return style

/-- A value that a param may have. -/
def readOption (pos : Position) (e : Element) : Reading ParamOption := do
  let value ← required pos e .option "value"
  let found ← items (pos.enter (labelled "option" value)) .option e.content
  return ⟨value, e.get? "mediaType", readDocs found⟩

/-- The resource type that a link names, if it names one. -/
def readTarget (inside : Position) : Option String → Reading (Option Reference)
  | some href =>
    if href.isEmpty then pure none else some <$> reference inside .resourceType href
  | none => pure none

/-- A link. -/
def readLink (pos : Position) (e : Element) : Reading Link := do
  let inside := pos.enter "link"
  let target ← readTarget inside (e.get? "resource_type")
  let found ← items inside .link e.content
  return ⟨target, e.get? "rel", e.get? "rev", readDocs found⟩

/-- The identifier of an alias, which only top-level ones have. -/
def aliasId (e : Element) (location : ElementKind) : Option String :=
  if location = .application then e.get? "id" else none

/-- The param that an element holds, which stands in an element of kind `location`. -/
def readParamBody (inside : Position) (location : ElementKind) (e : Element) : Reading Param := do
  let name ← required inside e .param "name"
  let style ← readStyle inside e location
  let found ← items inside .param e.content
  let options ← (ofKind .option found).mapM (readOption inside)
  refuse (firstDoubled (options.map (·.value))) (.duplicateId · .optionValue inside.path)
  let isRequired ← flag inside e "required"
  let repeating ← flag inside e "repeating"
  let links ← (ofKind .link found).mapM (readLink inside)
  return {
    name
    style
    id := e.get? "id"
    type := (e.get? "type").getD "xs:string"
    default := e.get? "default"
    fixed := e.get? "fixed"
    path := e.get? "path"
    required := isRequired
    repeating
    options
    links
    docs := readDocs found }

/-- A param that stands in an element of kind `location`, or a reference to one. -/
def readParam (pos : Position) (location : ElementKind) (e : Element) : Reading ParamItem := do
  let inside := pos.enter
    (labelled "param" (firstNonEmpty [e.get? "name", e.get? "id", e.get? "href"]))
  requireId inside location e .param
  match e.get? "href" with
  | some href => return .ref (← reference inside .param href) (aliasId e location)
  | none => return .inline (← readParamBody inside location e)

/-- The params among some items of an element of kind `location`; their names differ. -/
def readParams (pos : Position) (location : ElementKind) (found : List (ElementKind × Element)) :
    Reading (List ParamItem) := do
  let params ← (ofKind .param found).mapM (readParam pos location)
  refuse (firstRepeated [] (params.filterMap (·.param?) |>.map (·.name))) fun name =>
    .duplicateId name .paramName (pos.enter (labelled "param" name)).path
  return params

/-! ## Representations -/

/-- The representation that an element holds. -/
def readRepresentationBody (inside : Position) (e : Element) : Reading Representation := do
  let found ← items inside .representation e.content
  let params ← readParams inside .representation found
  return ⟨e.get? "id", e.get? "mediaType", e.get? "element", e.get? "profile",
    params, readDocs found⟩

/-- A representation that stands in an element of kind `location`, or a reference to one. -/
def readRepresentation (pos : Position) (location : ElementKind) (e : Element) :
    Reading RepresentationItem := do
  let inside := pos.enter
    (labelled "representation" (firstNonEmpty [e.get? "id", e.get? "href", e.get? "mediaType"]))
  requireId inside location e .representation
  match e.get? "href" with
  | some href => return .ref (← reference inside .representation href) (aliasId e location)
  | none => return .inline (← readRepresentationBody inside e)

/-- The representations among some items of an element of kind `location`. -/
def readRepresentations (pos : Position) (location : ElementKind)
    (found : List (ElementKind × Element)) : Reading (List RepresentationItem) :=
  (ofKind .representation found).mapM (readRepresentation pos location)

/-! ## Methods -/

/-- What a method takes. -/
def readRequest (pos : Position) (e : Element) : Reading Request := do
  let inside := pos.enter "request"
  let found ← items inside .request e.content
  let params ← readParams inside .request found
  let representations ← readRepresentations inside .request found
  return ⟨params, representations, readDocs found⟩

/-- The statuses that a text lists. -/
def readStatus (inside : Position) (status : String) : Reading (List Int) :=
  match (wordsOf status).mapM readInteger with
  | some codes => pure codes
  | none => fail inside (.invalidStatus status)

/-- What a method answers. -/
def readResponse (pos : Position) (e : Element) : Reading Response := do
  let status := (e.get? "status").getD ""
  let inside := pos.enter (if status.isEmpty then "response" else labelled "response" status)
  let codes ← readStatus inside status
  let found ← items inside .response e.content
  let params ← readParams inside .response found
  let representations ← readRepresentations inside .response found
  return ⟨codes, params, representations, readDocs found⟩

/-- The position inside a method. -/
def insideMethod (pos : Position) (e : Element) : Position :=
  pos.enter (labelled "method" (firstNonEmpty [e.get? "id", e.get? "name", e.get? "href"]))

/-- What a method takes, if it says so; it may do so only once. -/
def readOnlyRequest (inside : Position) : List Element → Reading (Option Request)
  | [] => pure none
  | [e] => some <$> readRequest inside e
  | _ => fail inside .severalRequests

/-- The method that an element holds. -/
def readMethodBody (inside : Position) (e : Element) : Reading Method := do
  let name ← required inside e .method "name"
  let found ← items inside .method e.content
  let request ← readOnlyRequest inside (ofKind .request found)
  let responses ← (ofKind .response found).mapM (readResponse inside)
  return ⟨name, e.get? "id", request, responses, readDocs found⟩

/-- A method or a reference to one. -/
def readMethod (pos : Position) (e : Element) : Reading MethodItem :=
  let inside := insideMethod pos e
  match e.get? "href" with
  | some href => return .ref (← reference inside .method href)
  | none => return .inline (← readMethodBody inside e)

/-- A method that stands in the application itself, and so needs an identifier. -/
def readTopMethod (pos : Position) (e : Element) : Reading Method := do
  let inside := insideMethod pos e
  requireId inside .application e .method
  readMethodBody inside e

/-- The identifier of a method that has one. -/
def methodId? : MethodItem → Option String
  | .inline m => m.id.filter (!·.isEmpty)
  | .ref _ => none

/-- The methods among some items; their identifiers differ. -/
def readMethods (pos : Position) (found : List (ElementKind × Element)) :
    Reading (List MethodItem) := do
  let methods ← (ofKind .method found).mapM (readMethod pos)
  refuse (firstRepeated [] (methods.filterMap methodId?)) fun id =>
    .duplicateId id .methodId (pos.enter (labelled "method" id)).path
  return methods

/-! ## Resources -/

/-- The names of the template params among some params. -/
def templateNames (params : List ParamItem) : List String :=
  params.filterMap fun
    | .inline p => if p.style = .template then some p.name else none
    | .ref .. => none

/-- Whether some params are known only once references are followed. -/
def hasReferences (params : List ParamItem) : Bool :=
  params.any fun
    | .inline _ => false
    | .ref .. => true

/-- The params of the request of a method; nothing for a reference. -/
def requestParams : MethodItem → Option (List ParamItem)
  | .inline m => some ((m.request.map (·.params)).getD [])
  | .ref _ => none

/-- The first placeholder of a path that no template param in reach declares: `declared` are the
names that the resource and those around it declare. Nothing is known if a method or a param stands
elsewhere. -/
def undeclaredPlaceholder? (declared : List String) (path : Option String)
    (params : List ParamItem) (methods : List MethodItem) : Option String :=
  match methods.mapM requestParams with
  | none => none
  | some requests =>
    if (params :: requests).any hasReferences then none
    else
      let names := declared ++ requests.flatMap templateNames
      (placeholdersOf (path.getD "")).find? (!names.contains ·)

/-- Whether a tag is the one of a resource. -/
def isResourceTag (tag : Xml.Tag) : Bool :=
  tag.name.label = ElementKind.resource.word && tag.name.isWadl

/-- A resource; `inherited` are the names of the template params around it, and `below` reads the
resources among its content, at a position and with the names of the template params around them. -/
def readResource (pos : Position) (inherited : List String) (e : Element)
    (below : Position → List String → Reading (List Resource)) : Reading Resource := do
  let path := e.get? "path"
  let inside := pos.enter (labelled "resource" (firstNonEmpty [e.get? "id", path]))
  let found ← items inside .resource e.content
  let params ← readParams inside .resource found
  let methods ← readMethods inside found
  let declared := inherited ++ templateNames params
  let types ← (wordsOf ((e.get? "type").getD "")).mapM (reference inside .resourceType)
  let resources ← below inside declared
  refuse (undeclaredPlaceholder? declared path params methods) fun name =>
    .malformed (.undeclaredPlaceholder name) inside.path
  return ⟨e.get? "id", path, types, (e.get? "queryType").getD formMediaType, params, methods,
    resources, readDocs found⟩

mutual

/-- The resource that a piece is, if it is one. -/
def readIfResource (pos : Position) (inherited : List String) : Xml.Node → Reading (Option Resource)
  | .element tag content =>
    if isResourceTag tag then
      some <$> readResource pos inherited ⟨tag, content⟩ fun inside declared =>
        readResources inside declared content
    else pure none
  | _ => pure none

/-- The resources among some pieces. -/
def readResources (pos : Position) (inherited : List String) :
    List Xml.Node → Reading (List Resource)
  | [] => pure []
  | n :: rest => do
    let first ← readIfResource pos inherited n
    return first.toList ++ (← readResources pos inherited rest)

end

/-- A resource type. -/
def readResourceType (pos : Position) (e : Element) : Reading ResourceType := do
  let id ← required pos e .resourceType "id"
  let inside := pos.enter (labelled "resource_type" id)
  let found ← items inside .resourceType e.content
  let params ← readParams inside .resourceType found
  let methods ← readMethods inside found
  let resources ← readResources inside (templateNames params) e.content
  return ⟨id, (e.get? "queryType").getD formMediaType, params, methods, resources, readDocs found⟩

/-- A group of resources. -/
def readGroup (pos : Position) (e : Element) : Reading ResourceGroup := do
  let inside := pos.enter "resources"
  let _ ← items inside .resources e.content
  return ⟨e.get? "base", ← readResources inside [] e.content⟩

/-- The grammars that are included. -/
def readGrammars (pos : Position) (e : Element) : Reading (List String) := do
  let inside := pos.enter "grammars"
  let found ← items inside .grammars e.content
  (ofKind .include found).mapM fun child => required inside child .include "href"

/-! ## The description -/

/-- Fails if an identifier is among those of the earlier definitions of its kind. -/
def checkNew (pos : Position) (kind : ElementKind) (id : Option String)
    (earlier : List (Option String)) : Reading Unit :=
  refuse (id.filter fun i => earlier.contains (some i)) fun i =>
    .duplicateId i (.topLevel kind.word) (pos.enter (labelled kind.word i)).path

/-- A description with one more item. -/
def addItem (pos : Position) (app : Application) : ElementKind × Element → Reading Application
  | (.resourceType, e) => do
    let type ← readResourceType pos e
    checkNew pos .resourceType type.id (app.resourceTypes.map (some ·.id))
    return { app with resourceTypes := app.resourceTypes ++ [type] }
  | (.representation, e) => do
    let item ← readRepresentation pos .application e
    checkNew pos .representation item.id (app.representations.map (·.id))
    return { app with representations := app.representations ++ [item] }
  | (.param, e) => do
    let item ← readParam pos .application e
    checkNew pos .param item.id (app.params.map (·.id))
    return { app with params := app.params ++ [item] }
  | (.method, e) => do
    let m ← readTopMethod pos e
    checkNew pos .method m.id (app.methods.map (·.id))
    return { app with methods := app.methods ++ [m] }
  | (.grammars, e) => do
    return { app with grammars := app.grammars ++ (← readGrammars pos e) }
  | (.resources, e) => do
    return { app with resources := app.resources ++ [← readGroup pos e] }
  | _ => pure app

/-- The description that the root element of a tree holds. -/
def readApplication (base : String) (strict : Bool) : Xml.Node → Reading Application
  | .element tag content => do
    if tag.name.label ≠ ElementKind.application.word ∨ !tag.name.isWadl then
      throw (.malformed (.wrongRoot tag.name.label) [])
    let pos : Position := ⟨base, strict, ["application"]⟩
    let found ← items pos .application content
    let empty : Application := ⟨base, readDocs found, [], [], [], [], [], []⟩
    found.foldlM (addItem pos) empty
  | _ => throw (.malformed .notWellFormed [])

end Reader

/-- The description of an element tree; its identifiers differ. -/
def readDescription (base : String) (strict : Bool) (root : Xml.Node) : Reading Application := do
  let app ← Reader.readApplication base strict root
  let _ ← (Index.ofApplication app : Except DocumentError Index)
  return app

/-- The description in a document that is text already. -/
def readDescriptionText (base : String) (strict : Bool) (text : String) : Reading Application :=
  match Xml.readText text with
  | some root => readDescription base strict root.withoutMarks
  | none => throw (.malformed .notWellFormed [])

/-- The description in a document of bytes. -/
def readDescriptionBytes (base : String) (strict : Bool) (bytes : List UInt8)
    (codecs : Codecs := .standard) : Reading Application :=
  match Xml.readBytes bytes codecs with
  | .ok root => readDescription base strict root.withoutMarks
  | .error e => throw (DocumentError.ofRead e)

end Wadl
