import Wadl.Client.Generate
import Wadl.Client.Settings
import Wadl.Command.Usage
import Wadl.Document.Render
import Wadl.Document.ToJson
import Wadl.Json.Writer
import Wadl.Loading.Loader

/-!
# Running the program

`run` does what a command line asks for, in a `Workplace`: a world that documents are loaded from,
in which files can also be written. An `Outcome` holds what was printed and how the program ended.
Errors of documents, of references and of generation end it with a message; a few causes end it
without one, by a `Crash`.
-/

namespace Wadl.Command

/-- Where the program runs. -/
structure Workplace (m : Type → Type) [Monad m] extends World m where
  /-- Whether there is a directory at a path; none if nothing is there. -/
  directoryAt? : String → m (Option Bool)
  /-- The path from the root for one that is there. -/
  locate : String → m String
  /-- Writes a file, in directories that are made if they lack. -/
  store : String → String → m (Except FileFault Unit)

/-- What ends the program without a message of its own. -/
inductive Crash where
  | file (fault : FileFault)
  /-- A reference is no URI, or no name of a file. -/
  | badUri
  | badAddress
  /-- A document names a charset; it is unknown, or has characters of several bytes. -/
  | badCharset (known : Bool)
  | settings (error : SettingsError)
  | noClass
  | exhausted
  deriving DecidableEq, Repr

/-- How the program ended, and what it printed. -/
structure Outcome where
  output : String := ""
  /-- What was printed beside the output: notices and errors. -/
  log : String := ""
  status : Nat := 0
  crash : Option Crash := none
  deriving DecidableEq, Repr

/-- How the program ends before its time. -/
inductive Stop where
  | exit (status : Nat)
  | crash (cause : Crash)
  deriving DecidableEq, Repr

/-- What was printed so far. -/
structure Printed where
  output : String := ""
  log : String := ""

/-- Running prints, and can stop. -/
abbrev Running (m : Type → Type) := ExceptT Stop (StateT Printed m)

/-! ## Errors -/

/-- What the program makes of an error: a message, or a crash. -/
abbrev Verdict := String ⊕ Crash

/-- What becomes of an error of a document. -/
def documentVerdict (e : DocumentError) : Verdict :=
  match e with
  | .badUri _ => .inr .badUri
  | .unknownCharset => .inr (.badCharset false)
  | .multibyteCharset => .inr (.badCharset true)
  | _ => .inl e.message

/-- What becomes of an error of a reference. -/
def resolveVerdict (e : ResolveError) : Verdict :=
  match e with
  | .document d => documentVerdict d
  | .badUri => .inr .badUri
  | .unloadable .unknownCharset => .inr (.badCharset false)
  | .unloadable .multibyteCharset => .inr (.badCharset true)
  | .unloadable .badAddress => .inr .badAddress
  | .unloadable _ => .inr .badUri
  | .exhausted => .inr .exhausted
  | _ => .inl e.message

/-- What becomes of an error of generation. -/
def generationVerdict (e : GenerationError) : Verdict :=
  match e with
  | .reference r => resolveVerdict r
  | .noClass => .inr .noClass
  | _ => .inl e.message

/-- What becomes of an error of the settings. -/
def settingsVerdict (e : SettingsError) : Verdict :=
  match e with
  | .unreadable .malformed | .unreadable .impossible | .noMapping | .invalid _ =>
    .inl "invalid configuration"
  | _ => .inr (.settings e)

section
variable {m : Type → Type} [Monad m]

/-- Prints. -/
def say (text : String) : Running m Unit := modify fun p => { p with output := p.output ++ text }

/-- Prints beside the output. -/
def tell (text : String) : Running m Unit := modify fun p => { p with log := p.log ++ text }

/-- Prints the notices that are asked for. -/
def tellNotices (verbose : Bool) (notices : List Notice) : Running m Unit :=
  tell (String.join ((notices.filter fun n => verbose || n.isWarning).map fun n => n.line ++ "\n"))

/-- Stops for an error. -/
def stopFor {α : Type} : Verdict → Running m α
  | .inl message => do
    tell ("Error: " ++ message ++ "\n")
    throw (.exit 1)
  | .inr cause => throw (.crash cause)

/-- The value of a result; an error stops. -/
def orStop {ε α : Type} (verdict : ε → Verdict) : Except ε α → Running m α
  | .ok a => return a
  | .error e => stopFor (verdict e)

/-- Stops for an error in the use of a command. -/
def misused {α : Type} (c : CommandSpec) (e : UsageError) : Running m α := do
  tell (c.complaint e)
  throw (.exit 2)

/-! ## Command lines -/

/-- The options and the other words of a command line; help is given if it is asked for. -/
def readLine (c : CommandSpec) (words : List String) : Running m (Occurrences × List String) := do
  match readArguments c.options c.interspersed words with
  | .error e => misused c e
  | .ok (found, others) =>
    if found.isOn helpOption.key then
      say c.helpText
      throw (.exit 0)
    return (found, others)

/-- Refuses an option with a value that it cannot have. -/
def checkOption (w : Workplace m) (c : CommandSpec) (found : Occurrences) (key : String) :
    Running m Unit := do
  match c.options.find? (·.key = key), found.value? key with
  | some o, some v =>
    match o.kind with
    | .choice words =>
      if words.contains v then return () else misused c (.notAChoice o.hint v words)
    | .existingPath =>
      if (← w.directoryAt? v).isNone then misused c (.notThere o.hint "Path" v)
    | _ => return ()
  | _, _ => return ()

/-- The path of the document among the words of a command line. -/
def documentPath (w : Workplace m) (c : CommandSpec) (words : List String) : Running m String := do
  match words with
  | [] => misused c (.missingArgument c.arguments)
  | path :: _ =>
    let hint := "'" ++ c.arguments ++ "'"
    match ← w.directoryAt? path with
    | none => misused c (.notThere hint "File" path)
    | some true => misused c (.isDirectory hint "File" path)
    | some false => return path

/-- The options of a command line, all of which have values that they can have, and the path of the
document. -/
def readCommand (w : Workplace m) (c : CommandSpec) (words : List String) :
    Running m (Occurrences × String) := do
  let (found, others) ← readLine c words
  (found.map (·.1)).eraseDups.forM (checkOption w c found)
  let path ← documentPath w c others
  match c.options.find? fun o => o.required && (found.lookup o.key).isNone with
  | some o => misused c (.missingOption o.hint)
  | none => pure ()
  match others.drop 1 with
  | [] => return (found, path)
  | extra => misused c (.extraArguments extra)

/-! ## Commands -/

/-- The description in a file. -/
def readDocument (w : Workplace m) (verbose strict : Bool) (path : String) :
    Running m Application := do
  match ← w.bytesAt (pathText path) with
  | .error fault => throw (.crash (.file fault))
  | .ok bytes =>
    let base := "file://" ++ pathEncoded (← w.locate path)
    let (result, notices) := (readDescriptionBytes base strict bytes).run.run []
    tellNotices verbose notices
    orStop documentVerdict result

/-- The most references that are followed. -/
def stepLimit : Nat := 1000000

/-- The description in a file, and what its references name. -/
def resolveDocument (w : Workplace m) (verbose strict : Bool) (path : String) :
    Running m Resolution := do
  let app ← readDocument w verbose strict path
  let search := resolveWith (some (Loader.loading w.toWorld)) strict stepLimit app
  let ((result, notices), _) ← ((search.run.run []).run (.start none) : m _)
  tellNotices verbose notices
  orStop resolveVerdict result

/-- Prints a description in one form. -/
def parse (w : Workplace m) (verbose : Bool) (words : List String) : Running m Unit := do
  let (found, path) ← readCommand w parseCommand words
  let strict := found.isOn strictOption.key
  let app ←
    if found.isOn "--resolve" then do pure (← resolveDocument w verbose strict path).app
    else readDocument w verbose strict path
  if found.value? "--format" = some "json" then say (Json.write .indented app.toJson ++ "\n")
  else
    match render app with
    | .ok text => say text
    | .error _ => throw (.crash .badUri)

/-- The settings that options make, in place of those of a file. -/
def overrides (found : Occurrences) : List (String × Yaml.Value) :=
  let word (key : String) : Yaml.Value :=
    .scalar (((found.value? key).map .text).getD .none)
  let types := found.values "--media-type"
  [("naming_style", word "--naming-style"), ("http_mode", word "--http-mode"),
    ("media_type_preference",
      if types.isEmpty then .scalar .none else .list (types.map fun t => .scalar (.text t))),
    ("include_doc_comments",
      .scalar (if found.isOn "--no-docs" then .bool false else .none))]

/-- The settings of a command line. -/
def settings (w : Workplace m) (found : Occurrences) : Running m ClientConfig := do
  match found.value? "--config" with
  | none => orStop settingsVerdict (ClientConfig.read "" (overrides found))
  | some path =>
    match ← w.bytesAt (pathText path) with
    | .error fault => throw (.crash (.file fault))
    | .ok bytes =>
      match Charset.utf8.decode? bytes with
      | none => stopFor (.inl "invalid configuration")
      | some text => orStop settingsVerdict (ClientConfig.read text (overrides found))

/-- How many definitions a description has. -/
def summary (app : Application) : String :=
  toString app.allResources.length ++ " resources, " ++ toString app.resourceTypes.length ++
    " resource types, " ++ toString app.representations.length ++ " representations"

/-- Writes a client for a description. -/
def generateTo (w : Workplace m) (verbose : Bool) (words : List String) : Running m Unit := do
  let (found, path) ← readCommand w generateCommand words
  let config ← settings w found
  say ("Parsing " ++ pathText path ++ "...\n")
  let r ← resolveDocument w verbose (found.isOn strictOption.key) path
  say ("Found " ++ summary r.app ++ ".\n")
  let (result, notices) := (generateClient r config).run.run []
  tellNotices verbose notices
  let source ← orStop generationVerdict result
  let target := pathText ((found.value? "-o").getD "")
  match ← w.store target source with
  | .error fault => throw (.crash (.file fault))
  | .ok () => say ("Client saved to " ++ target ++ "\n")

/-- Does what a command line asks for. -/
def obey (w : Workplace m) (words : List String) : Running m Unit := do
  if words.isEmpty then
    tell program.helpText
    throw (.exit 2)
  let (found, others) ← readLine program words
  let verbose := found.isOn "-v"
  match others with
  | [] => misused program .missingCommand
  | "parse" :: rest => parse w verbose rest
  | "generate" :: rest => generateTo w verbose rest
  | name :: _ => misused program (.noSuchCommand name)

/-- Does what a command line asks for, and tells how that ended. -/
def run (w : Workplace m) (words : List String) : m Outcome := do
  let (result, p) ← (obey w words).run.run {}
  return match result with
    | .ok () => { output := p.output, log := p.log }
    | .error (.exit status) => { output := p.output, log := p.log, status }
    | .error (.crash cause) =>
      { output := p.output, log := p.log, status := 1, crash := some cause }

end

end Wadl.Command
