import Wadl.Client.Printer

/-!
# The texts of a client

A client is laid out from texts: what its transport is called, the signatures and bodies of its
helpers and operations. `ClientModule.text` gives them, and `ClientModule.text_source` says that the
source is laid out from nothing else.
-/

namespace Wadl

/-! ## Texts -/

/-- The texts of a helper. -/
structure HelperText where
  name : String
  /-- The class of what the helper is given to send requests with. -/
  transport : String
  returns : String
  body : String
  deriving DecidableEq, Repr

/-- The texts of a model; its fields do not depend on how requests are sent. -/
structure ModelText where
  name : String
  doc : Option String
  fields : List ModelField
  follows : List HelperText
  deriving DecidableEq, Repr

/-- The texts of an operation. -/
structure OperationText where
  /-- What stands before the definition. -/
  lead : String
  signature : String
  returns : String
  doc : Option String
  /-- The lines of the body. -/
  body : List String
  deriving DecidableEq, Repr

/-- The texts of a class. -/
structure ClassText where
  name : String
  bases : List String
  doc : Option String
  nested : List ModelText
  operations : List OperationText
  accessors : List Accessor
  deriving DecidableEq, Repr

/-- The texts of a client. -/
structure ClientText where
  doc : String
  /-- The class that sends requests. -/
  transport : String
  enums : List EnumType
  models : List ModelText
  classes : List ClassText
  entry : EntryClass
  deriving DecidableEq, Repr

/-- What a helper returns, and its body. -/
def FollowHelper.returning (h : FollowHelper) : String × String :=
  let one := h.target ++ "(transport, self." ++ h.field ++ ")"
  if h.isList then
    ("list[" ++ h.target ++ "]",
      "return [" ++ h.target ++ "(transport, url) for url in self." ++ h.field ++ "]")
  else if h.required then (h.target, "return " ++ one)
  else (h.target ++ " | None", "return None if self." ++ h.field ++ " is None else " ++ one)

def FollowHelper.text (isAsync : Bool) (h : FollowHelper) : HelperText :=
  ⟨h.name, transportName isAsync, h.returning.1, h.returning.2⟩

def ModelClass.text (isAsync : Bool) (m : ModelClass) : ModelText :=
  ⟨m.name, m.doc, m.fields, m.follows.map (·.text isAsync)⟩

def Operation.text (isAsync : Bool) (op : Operation) : OperationText where
  lead := if isAsync then "async " else ""
  signature := op.name ++ "(" ++ ", ".intercalate (op.signature.map (·.source)) ++ ")"
  returns := op.returnSource
  doc := op.doc
  body := op.callLines isAsync ++ op.branches.flatMap Branch.lines ++
    ["raise UnexpectedStatus(_response)"]

def ResourceClass.text (isAsync : Bool) (c : ResourceClass) : ClassText :=
  ⟨c.name, c.bases, c.doc, c.nested.map (·.text isAsync),
    c.operations.map (·.text isAsync), c.accessors⟩

def ClientModule.text (m : ClientModule) : ClientText where
  doc := m.doc
  transport := transportName m.isAsync
  enums := m.enums
  models := m.models.map (·.text m.isAsync)
  classes := m.classes.map (·.text m.isAsync)
  entry := m.entry

/-! ## Layout -/

def HelperText.lines (h : HelperText) : List String :=
  ["", "    def " ++ (h.name ++ "(self, transport: " ++ h.transport ++ ")") ++
    " -> " ++ h.returns ++ ":", "        " ++ h.body]

def ModelText.source (m : ModelText) : String :=
  let doc := docLines 4 m.doc
  trimmed (unlines (
    ["class " ++ m.name ++ "(BaseModel):"] ++
    (if doc.isEmpty then [] else doc ++ [""]) ++
    ["    model_config = ConfigDict(populate_by_name=True)", ""] ++
    m.fields.map ("    " ++ ·.source) ++
    m.follows.flatMap HelperText.lines))

/-- The definition of an operation, with its documentation and its body. -/
def OperationText.lines (op : OperationText) : List String :=
  ["", "    " ++ op.lead ++ "def " ++ op.signature ++ " -> " ++ op.returns ++ ":"] ++
    docLines 8 op.doc ++ op.body.map ("        " ++ ·)

/-- Whether a class has nothing of its own. -/
def ClassText.isEmpty (c : ClassText) : Bool :=
  c.doc.isNone && c.nested.isEmpty && c.operations.isEmpty && c.accessors.isEmpty

/-- A class, with a constructor if it has no bases to inherit it from. -/
def ClassText.lines (transport : String) (c : ClassText) : List String :=
  [if c.bases.isEmpty then "class " ++ c.name ++ ":"
    else "class " ++ c.name ++ "(" ++ ", ".intercalate c.bases ++ "):"] ++ docLines 4 c.doc ++
  (if c.bases.isEmpty then
    ["", "    def __init__(self, transport: " ++ transport ++ ", url: str):",
      "        self._transport = transport", "        self._url = url"]
  else []) ++
  (c.nested.flatMap fun m => ["", "    " ++ indented 4 m.source]) ++
  c.operations.flatMap OperationText.lines ++ c.accessors.flatMap Accessor.lines ++
  if !c.bases.isEmpty && c.isEmpty then ["    pass"] else []

/-- The lines of the class that a client begins with. -/
def ClientText.entryLines (c : ClientText) : List String :=
  ["class " ++ c.entry.name ++ ":"] ++ docLines 4 (some c.entry.doc) ++
  ["", "    def __init__(self, transport: " ++ c.transport ++ ", base_url: str | None = None):",
    "        self._transport = transport", "        self._base_url = base_url"] ++
  c.entry.accessors.flatMap Accessor.lines

/-- The source that is laid out from some texts. -/
def ClientText.source (c : ClientText) : String :=
  unlines (
    c.doc :: importLines ++
    (c.enums.flatMap fun e => ["", ""] ++ e.lines) ++
    (c.models.flatMap fun m => ["", "", m.source]) ++
    (c.classes.flatMap fun cls => ["", ""] ++ cls.lines c.transport) ++
    ["", ""] ++ c.entryLines)

theorem FollowHelper.text_lines (isAsync : Bool) (h : FollowHelper) :
    (h.text isAsync).lines = h.lines isAsync := by
  rw [FollowHelper.lines, HelperText.lines, FollowHelper.text]
  cases hlist : h.isList <;> cases hrequired : h.required <;>
    simp [FollowHelper.returning, hlist, hrequired]

theorem ModelClass.text_source (isAsync : Bool) (m : ModelClass) :
    (m.text isAsync).source = m.source isAsync := by
  simp only [ModelText.source, ModelClass.source, ModelClass.text, List.flatMap_map,
    FollowHelper.text_lines]
  rfl

theorem Operation.text_lines (isAsync : Bool) (op : Operation) :
    (op.text isAsync).lines = op.lines isAsync := by
  have harrow : (") -> " : String) = ")" ++ " -> " := rfl
  simp only [OperationText.lines, Operation.lines, Operation.text, harrow, String.append_assoc]

theorem ResourceClass.text_lines (isAsync : Bool) (c : ResourceClass) :
    (c.text isAsync).lines (transportName isAsync) = c.lines isAsync := by
  have hempty : (c.text isAsync).isEmpty = c.isEmpty := by
    simp only [ClassText.isEmpty, ResourceClass.isEmpty, ResourceClass.text, List.isEmpty_map]
  rw [ClassText.lines, ResourceClass.lines, hempty]
  simp only [ResourceClass.text, ResourceClass.header, List.flatMap_map, ModelClass.text_source,
    Operation.text_lines]
  rfl

/-- The source of a client is laid out from its texts. -/
theorem ClientModule.text_source (m : ClientModule) : m.text.source = m.source := by
  simp only [ClientText.source, ClientModule.source, ClientModule.text,
    ClientText.entryLines, EntryClass.lines,
    List.flatMap_map, ModelClass.text_source, ResourceClass.text_lines]

end Wadl
