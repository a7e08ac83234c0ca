import Wadl.Client.Module

/-!
# The source of a client

`ClientModule.source` lays out a client as source. Each part has a function of its own: fields of
models, accessors, the parameter list, the call and the branches of operations, and classes.
-/

namespace Wadl

/-- A text whose lines but the first are indented, unless they are empty. -/
def indented (width : Nat) (text : String) : String :=
  let spaces := String.ofList (List.replicate width ' ')
  match linesOf (text ++ "\n") with
  | [] => ""
  | first :: rest =>
    first ++ String.join (rest.map fun l => "\n" ++ if l.isEmpty then l else spaces ++ l)

/-- Lines as text, each with its end. -/
def unlines (lines : List String) : String := String.join (lines.map (· ++ "\n"))

/-- A documentation line at a depth, if there is documentation. -/
def docLines (width : Nat) (doc : Option String) : List String :=
  doc.toList.map fun d => String.ofList (List.replicate width ' ') ++ indented width d

/-- The name of the class that sends requests. -/
def transportName (isAsync : Bool) : String := if isAsync then "AsyncTransport" else "Transport"

/-! ## Models -/

/-- The arguments of a field's description, if it needs one. -/
def ModelField.description (f : ModelField) : Option String :=
  let wire := f.wireName.toList.map fun n => "alias=" ++ doubleQuoted n
  match f.default with
  | .emptyList => some (", ".intercalate ("default_factory=list" :: wire))
  | .required => if wire.isEmpty then none else some (", ".intercalate wire)
  | .nothing => if wire.isEmpty then none else some (", ".intercalate ("None" :: wire))
  | .value v => if wire.isEmpty then none else some (", ".intercalate (v.source :: wire))

/-- The text of a field. -/
def ModelField.source (f : ModelField) : String :=
  let start := f.name ++ ": " ++ f.shape.source
  match f.description with
  | some d => start ++ " = Field(" ++ d ++ ")"
  | none =>
    match f.default with
    | .nothing => start ++ " = None"
    | .value v => start ++ " = " ++ v.source
    | _ => start

/-- The lines of a helper. -/
def FollowHelper.lines (isAsync : Bool) (h : FollowHelper) : List String :=
  let signature := h.name ++ "(self, transport: " ++ transportName isAsync ++ ")"
  let one := h.target ++ "(transport, self." ++ h.field ++ ")"
  let (returns, body) :=
    if h.isList then
      ("list[" ++ h.target ++ "]",
        "return [" ++ h.target ++ "(transport, url) for url in self." ++ h.field ++ "]")
    else if h.required then (h.target, "return " ++ one)
    else
      (h.target ++ " | None", "return None if self." ++ h.field ++ " is None else " ++ one)
  ["", "    def " ++ signature ++ " -> " ++ returns ++ ":", "        " ++ body]

/-- The text of a model. -/
def ModelClass.source (isAsync : Bool) (m : ModelClass) : String :=
  let doc := docLines 4 m.doc
  trimmed (unlines (
    ["class " ++ m.name ++ "(BaseModel):"] ++
    (if doc.isEmpty then [] else doc ++ [""]) ++
    ["    model_config = ConfigDict(populate_by_name=True)", ""] ++
    m.fields.map ("    " ++ ·.source) ++
    m.follows.flatMap (FollowHelper.lines isAsync)))

/-- The lines of an enum. -/
def EnumType.lines (e : EnumType) : List String :=
  ["class " ++ e.name ++ "(str, enum.Enum):"] ++
    e.members.map fun (member, value) => "    " ++ member ++ " = " ++ doubleQuoted value

/-! ## Accessors -/

/-- A mapping from names to values, as text. -/
def mappingSource (entries : List (String × String)) : String :=
  "\x7b" ++ ", ".intercalate (entries.map fun (k, v) => doubleQuoted k ++ ": " ++ v) ++ "\x7d"

/-- The URL that a path is joined to, as text. -/
def UrlBase.source : UrlBase → String
  | own => "self._url"
  | client base => "(self._base_url or " ++ doubleQuoted base ++ ")"

/-- The lines of an accessor. -/
def Accessor.lines (a : Accessor) : List String :=
  let params := "self" :: a.args.map fun p => p.name ++ ": " ++ p.type.source
  let filling :=
    if a.args.isEmpty then ""
    else ", " ++ mappingSource (a.args.map fun p => (p.placeholder, p.name))
  let url := "join_url(" ++ a.base.source ++ ", " ++ doubleQuoted a.path ++ filling ++ ")"
  ["", "    def " ++ a.name ++ "(" ++ ", ".intercalate params ++ ") -> " ++ a.target ++ ":"] ++
    docLines 8 a.doc ++
    ["        return " ++ a.target ++ "(self._transport, " ++ url ++ ")"]

/-! ## Operations -/

/-- The text of a type. -/
def ArgType.source : ArgType → String
  | value shape => shape.source
  | body type => type.source

/-- Whether an argument has to be given. -/
def Argument.isRequired (a : Argument) : Bool := a.default == .required

/-- The text of an argument. -/
def Argument.source (a : Argument) : String :=
  let start := a.name ++ ": " ++ a.type.source
  match a.default with
  | .required => start
  | .nothing => start ++ " = None"
  | .value v => start ++ " = " ++ v.source

/-- A part of a parameter list. -/
inductive SignaturePart where
  | self
  | argument (a : Argument)
  /-- The mark after which arguments are passed by name. -/
  | star
  deriving DecidableEq, Repr

/-- The text of a part. -/
def SignaturePart.source : SignaturePart → String
  | self => "self"
  | argument a => a.source
  | star => "*"

/-- Arguments with a star after the first optional one, unless it is the last. -/
def starred : List Argument → List SignaturePart
  | [] => []
  | a :: rest =>
    .argument a ::
      if a.isRequired then starred rest
      else if rest.isEmpty then []
      else .star :: rest.map .argument

/-- The parameter list of an operation. -/
def Operation.signature (op : Operation) : List SignaturePart := .self :: starred op.args

/-- Values as a mapping. -/
def valuesSource (values : List (String × ValueExpr)) : String :=
  mappingSource (values.map fun (k, v) => (k, v.source))

/-- The media type of the body, if it is not empty. -/
def Operation.contentType (op : Operation) : Option String :=
  (op.body.bind (·.mediaType)).filter (!·.isEmpty)

/-- The arguments that the URL is built of. -/
def Operation.urlArgs (op : Operation) : List String :=
  let entry (keyword : String) (values : List (String × ValueExpr)) : List String :=
    if values.isEmpty then [] else [keyword ++ "=" ++ valuesSource values]
  "self._url" ::
    (entry "template" op.template ++ entry "matrix" op.matrix ++ entry "query" op.query)

/-- The arguments that the headers are built of. -/
def Operation.headerArgs (op : Operation) : List String :=
  (if op.header.isEmpty then [] else [valuesSource op.header]) ++
  (if op.accept.isEmpty then []
    else ["accept=[" ++ ", ".intercalate (op.accept.map doubleQuoted) ++ "]"]) ++
  op.contentType.toList.map fun m => "content_type=" ++ doubleQuoted m

/-- The lines that send the request. -/
def Operation.callLines (isAsync : Bool) (op : Operation) : List String :=
  ["_response = " ++ (if isAsync then "await " else "") ++ "self._transport.request(",
    "    " ++ doubleQuoted op.verb ++ ",",
    "    build_url(" ++ ", ".intercalate op.urlArgs ++ "),"] ++
  (if op.headerArgs.isEmpty then []
    else ["    headers=build_headers(" ++ ", ".intercalate op.headerArgs ++ "),"]) ++
  (op.body.toList.map fun b =>
    let media := (op.contentType.map doubleQuoted).getD "None"
    "    body=encode_body(" ++ b.argument ++ ", " ++ media ++ "),") ++
  [")"]

/-- What is done with a form of a response. -/
def Choice.statement (isError : Bool) (c : Choice) : String :=
  let decoded := match c.model with
    | some ref => "decode_body(_response, " ++ ref.source ++ ")"
    | none => "decode_body(_response)"
  if isError then "raise ResponseError(_response, " ++ decoded ++ ")" else "return " ++ decoded

/-- The lines that try some forms of a response. -/
def choiceLines (isError : Bool) : List Choice → List String
  | [] => ["    raise UnexpectedContentType(_response)"]
  | c :: rest =>
    match c.mediaType with
    | none => ["    " ++ c.statement isError]
    | some m =>
      ["    if media_type_matches(_response, " ++ doubleQuoted m ++ "):",
        "        " ++ c.statement isError] ++ choiceLines isError rest

/-- Statuses as text. -/
def statusesSource : List Int → String
  | [s] => "(" ++ toString s ++ ",)"
  | ss => "(" ++ ", ".intercalate (ss.map toString) ++ ")"

/-- The lines of a branch. -/
def Branch.lines (b : Branch) : List String :=
  (if b.statuses.isEmpty then "if 200 <= _response.status < 300:"
    else "if _response.status in " ++ statusesSource b.statuses ++ ":") ::
  if b.choices.isEmpty then
    [if b.isError then "    raise ResponseError(_response)" else "    return None"]
  else choiceLines b.isError b.choices

/-- The types that a branch can return; nothing for no value. -/
def Branch.returns (b : Branch) : List (Option BodyType) :=
  if b.isError then []
  else if b.choices.isEmpty then [none]
  else b.choices.map (some ·.type)

/-- The alternatives of what an operation returns, each once, no value last. -/
def Operation.returns (op : Operation) : List (Option BodyType) :=
  let all := op.branches.flatMap Branch.returns
  let values := (all.filter Option.isSome).eraseDups
  if all.contains none || values.isEmpty then values ++ [none] else values

/-- The text of what an operation returns. -/
def Operation.returnSource (op : Operation) : String :=
  " | ".intercalate (op.returns.map fun t => (t.map (·.source)).getD "None")

/-- The lines of an operation. -/
def Operation.lines (isAsync : Bool) (op : Operation) : List String :=
  let body := op.callLines isAsync ++ op.branches.flatMap Branch.lines ++
    ["raise UnexpectedStatus(_response)"]
  ["", "    " ++ (if isAsync then "async " else "") ++ "def " ++ op.name ++ "(" ++
      ", ".intercalate (op.signature.map (·.source)) ++ ") -> " ++ op.returnSource ++ ":"] ++
    docLines 8 op.doc ++ body.map ("        " ++ ·)

/-! ## Classes -/

/-- The first line of a class. -/
def ResourceClass.header (c : ResourceClass) : String :=
  if c.bases.isEmpty then "class " ++ c.name ++ ":"
  else "class " ++ c.name ++ "(" ++ ", ".intercalate c.bases ++ "):"

/-- The lines of a class. -/
def ResourceClass.lines (isAsync : Bool) (c : ResourceClass) : List String :=
  [c.header] ++ docLines 4 c.doc ++
  (if c.bases.isEmpty then
    ["", "    def __init__(self, transport: " ++ transportName isAsync ++ ", url: str):",
      "        self._transport = transport", "        self._url = url"]
  else []) ++
  (c.nested.flatMap fun m => ["", "    " ++ indented 4 (m.source isAsync)]) ++
  c.operations.flatMap (Operation.lines isAsync) ++ c.accessors.flatMap Accessor.lines ++
  if !c.bases.isEmpty && c.isEmpty then ["    pass"] else []

/-- The lines of the class that a client begins with. -/
def EntryClass.lines (isAsync : Bool) (c : EntryClass) : List String :=
  ["class " ++ c.name ++ ":"] ++ docLines 4 (some c.doc) ++
  ["", "    def __init__(self, transport: " ++ transportName isAsync ++
      ", base_url: str | None = None):",
    "        self._transport = transport", "        self._base_url = base_url"] ++
  c.accessors.flatMap Accessor.lines

/-- The lines that import what a client needs. -/
def importLines : List String :=
  ["", "from __future__ import annotations", "", "import datetime", "import enum",
    "from typing import Any", "", "from pydantic import BaseModel, ConfigDict, Field", "",
    "from wadlgen.runtime import (", "    AsyncTransport,", "    ResponseError,", "    Transport,",
    "    UnexpectedContentType,", "    UnexpectedStatus,", "    build_headers,", "    build_url,",
    "    decode_body,", "    encode_body,", "    join_url,", "    media_type_matches,", ")"]

/-- The source of a client. -/
def ClientModule.source (m : ClientModule) : String :=
  unlines (
    m.doc :: importLines ++
    (m.enums.flatMap fun e => ["", ""] ++ e.lines) ++
    (m.models.flatMap fun c => ["", "", c.source m.isAsync]) ++
    (m.classes.flatMap fun c => ["", ""] ++ c.lines m.isAsync) ++
    ["", ""] ++ m.entry.lines m.isAsync)

end Wadl
