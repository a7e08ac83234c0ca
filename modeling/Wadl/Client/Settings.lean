import Wadl.Client.Config
import Wadl.Wire.Record
import Wadl.Yaml.Value

/-!
# Settings in YAML

`ClientConfig.read` gives the settings that a YAML text and overrides make. All settings are checked
in the order in which they are declared, a name that is no setting is a fault, and what is not set
has its default.
-/

namespace Wadl

/-- Why there are no settings. -/
inductive SettingsError where
  /-- The text cannot be read as YAML. -/
  | unreadable (cause : Yaml.ReadError)
  /-- The document is no mapping. -/
  | noMapping
  /-- A name of a setting is not text. -/
  | unnamed
  /-- Settings are wrong; each with the place where it stands. -/
  | invalid (faults : Faults)
  deriving DecidableEq, Repr

namespace Setting

/-- What a check says of a value: the value that it is, or what is wrong in it, with places below
it. -/
abbrev Check (α : Type) := Yaml.Value → Except Faults α

/-- A check for values that are no collections. -/
def plain {α : Type} (accept : Value → Except FieldFault α) (otherwise : FieldFault) : Check α
  | .scalar v => (accept v).mapError fun fault => [([], fault)]
  | _ => .error [([], otherwise)]

/-- A truth. -/
def flag : Check Bool := plain FieldType.asTruth .noTruth

/-- A text. -/
def text : Check String := plain FieldType.asText .noText

/-- One of some words, each with what it stands for. -/
def choice {α : Type} (words : List (String × α)) : Check α
  | .scalar (.text s) =>
    match words.lookup s with
    | some a => .ok a
    | none => .error [([], .notAChoice)]
  | _ => .error [([], .notAChoice)]

/-- The faults of a place. -/
def under (place : String) (faults : Faults) : Faults :=
  faults.map fun (places, fault) => (place :: places, fault)

/-- The texts that some values are, or what is wrong with those that are none. -/
def textItems : Nat → List Yaml.Value → Faults × List String
  | _, [] => ([], [])
  | n, v :: rest =>
    let (faults, texts) := textItems (n + 1) rest
    match text v with
    | .ok s => (faults, s :: texts)
    | .error found => (under (toString n) found ++ faults, texts)

/-- A list of texts. -/
def texts : Check (List String)
  | .list items =>
    let (faults, found) := textItems 0 items
    if faults.isEmpty then .ok found else .error faults
  | _ => .error [([], .noList)]

/-- How a key is named in a place. -/
def keyPlace : Yaml.Value → String
  | .scalar .none => "None"
  | .scalar (.bool b) => if b then "1" else "0"
  | .scalar (.text s) => s
  | .scalar v => v.shown
  | _ => ""

/-- The pairs of texts that some entries are, or what is wrong with those that are none. -/
def textEntries : List (Yaml.Value × Yaml.Value) → Faults × List (String × String)
  | [] => ([], [])
  | (key, v) :: rest =>
    let (faults, entries) := textEntries rest
    match text key, text v with
    | .ok k, .ok s => (faults, (k, s) :: entries)
    | foundKey, found =>
      let wrong {α : Type} (r : Except Faults α) : Faults := match r with
        | .ok _ => []
        | .error fs => fs
      (under (keyPlace key) (under "[key]" (wrong foundKey) ++ wrong found) ++ faults, entries)

/-- A mapping of texts to texts. -/
def textMap : Check (List (String × String))
  | .map entries =>
    let (faults, found) := textEntries entries
    if faults.isEmpty then .ok found else .error faults
  | _ => .error [([], .noMapping)]

end Setting

namespace ClientConfig

/-- What is given by a name, as a check has it, or a default; what is wrong is collected. -/
def setting {α : Type} (given : List (String × Yaml.Value)) (name : String) (default : α)
    (check : Setting.Check α) : StateM Faults α := do
  match given.lookup name with
  | none => return default
  | some v =>
    match check v with
    | .ok a => return a
    | .error faults =>
      modify (· ++ Setting.under name faults)
      return default

/-- The names of the settings. -/
def settingNames : List String :=
  ["include_doc_comments", "naming_style", "http_mode", "media_type_preference",
    "inline_anonymous_types", "escape_reserved_words", "strip_code_examples", "type_overrides",
    "client_name"]

/-- The settings that entries make, or defaults for those that are wrong; what is wrong is
collected. -/
def collect (given : List (String × Yaml.Value)) : StateM Faults ClientConfig := do
  let d : ClientConfig := {}
  let includeDocs ← setting given "include_doc_comments" d.includeDocs Setting.flag
  let style ← setting given "naming_style" d.style
    (Setting.choice [("snake", .snake), ("camel", .camel)])
  let isAsync ← setting given "http_mode" d.isAsync
    (Setting.choice [("sync", false), ("async", true)])
  let preference ← setting given "media_type_preference" d.preference Setting.texts
  let inlineAnonymous ← setting given "inline_anonymous_types" d.inlineAnonymous Setting.flag
  let escapeReserved ← setting given "escape_reserved_words" d.escapeReserved Setting.flag
  let skipCode ← setting given "strip_code_examples" d.skipCode Setting.flag
  let overrides ← setting given "type_overrides" d.overrides Setting.textMap
  let clientName ← setting given "client_name" d.clientName Setting.text
  let others := given.filter fun (name, _) => !settingNames.contains name
  modify (· ++ others.map fun (name, _) => ([name], .notAField))
  return { includeDocs, style, isAsync, preference, inlineAnonymous, escapeReserved, skipCode,
           overrides, clientName }

/-- The settings that entries make. -/
def ofEntries (given : List (String × Yaml.Value)) : Except SettingsError ClientConfig :=
  let (config, faults) := (collect given).run []
  if faults.isEmpty then .ok config else .error (.invalid faults)

/-- Whether a document holds nothing: nothing at all, an empty text or collection, zero or the truth
`false`. -/
def isBlank : Yaml.Value → Bool
  | .list items => items.isEmpty
  | .map entries => entries.isEmpty
  | .scalar v =>
    match v with
    | .none => true
    | .bool b => !b
    | .int i => i = 0
    | .float x => x.toInt? == some 0
    | .text s => s = ""
    | .bytes bs => bs.isEmpty
    | _ => false

/-- The entries of a document. -/
def documentEntries (v : Yaml.Value) : Except SettingsError (List (Yaml.Value × Yaml.Value)) :=
  if isBlank v then .ok []
  else match v with
    | .map entries => .ok entries
    | _ => .error .noMapping

/-- The name of an entry. -/
def entryName (entry : Yaml.Value × Yaml.Value) : Except SettingsError (String × Yaml.Value) :=
  match entry.1 with
  | .scalar (.text s) => .ok (s, entry.2)
  | _ => .error .unnamed

/-- Entries in which a name has a value; it keeps its position if it has one. -/
def override (entries : List (String × Yaml.Value)) (o : String × Yaml.Value) :
    List (String × Yaml.Value) :=
  if entries.any (·.1 == o.1) then entries.map fun e => if e.1 == o.1 then o else e
  else entries ++ [o]

/-- Whether a value is nothing. -/
def isNothing : Yaml.Value → Bool
  | .scalar v => v.isNone
  | _ => false

/-- The settings that a YAML text and overrides make; an override that is nothing changes
nothing. -/
def read (yaml : String) (overrides : List (String × Yaml.Value)) :
    Except SettingsError ClientConfig := do
  let document ← (Yaml.read yaml).mapError .unreadable
  let entries ← (← documentEntries document).mapM entryName
  ofEntries ((overrides.filter fun (_, v) => !isNothing v).foldl override entries)

end ClientConfig

end Wadl
