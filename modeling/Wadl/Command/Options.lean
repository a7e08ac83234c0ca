import Wadl.Text.Blank
import Wadl.Text.Quoted

/-!
# Options of commands

A command has options, which are switches or take a value, and arguments. `readArguments` splits the
words of a command line into the options that occur and the other words, and refuses words that look
like an option and are none. What is wrong with a command line is a `UsageError`.
-/

namespace Wadl.Command

/-- What an option takes. -/
inductive OptionKind where
  /-- Nothing: the option is there or not. -/
  | switch
  /-- A word of a list. -/
  | choice (words : List String)
  /-- The path of something that is there already. -/
  | existingPath
  | path
  | text
  deriving DecidableEq, Repr

/-- An option of a command. -/
structure OptionSpec where
  /-- The names, with their dashes. -/
  names : List String
  /-- The names that undo the option. -/
  undoNames : List String := []
  kind : OptionKind := .switch
  required : Bool := false
  /-- What the option is for. -/
  help : String
  deriving DecidableEq, Repr

namespace OptionSpec

/-- The name under which an option is looked up. -/
def key (o : OptionSpec) : String := o.names.headD ""

/-- Whether a value follows the option. -/
def takesValue (o : OptionSpec) : Bool := o.kind != .switch

/-- How messages name an option. -/
def hint (o : OptionSpec) : String :=
  " / ".intercalate (o.names.map fun name => "'" ++ name ++ "'")

/-- How the value of an option is called. -/
def valueName (o : OptionSpec) : Option String :=
  match o.kind with
  | .switch => none
  | .choice words => some ("[" ++ "|".intercalate words ++ "]")
  | .existingPath | .path => some "PATH"
  | .text => some "TEXT"

/-- The names of an option with that of its value. -/
def usage (o : OptionSpec) : String :=
  ", ".intercalate o.names ++
    (if o.undoNames.isEmpty then "" else " / " ++ ", ".intercalate o.undoNames) ++
    (o.valueName.map fun name => " " ++ name).getD ""

end OptionSpec

/-- A command of the program. -/
structure CommandSpec where
  /-- The names by which the command is called. -/
  path : String
  /-- What stands after the options. -/
  arguments : String
  about : String
  options : List OptionSpec
  /-- Whether options can stand after other words. -/
  interspersed : Bool := true
  /-- The commands below this one, and what they do. -/
  commands : List (String × String) := []
  deriving DecidableEq, Repr

/-- What is wrong with a command line. -/
inductive UsageError where
  | missingArgument (name : String)
  | missingOption (hint : String)
  | missingCommand
  | noSuchOption (name : String)
  | noSuchCommand (name : String)
  | noValue (name : String)
  | unwantedValue (name : String)
  | notAChoice (hint word : String) (words : List String)
  | notThere (hint what path : String)
  | isDirectory (hint what path : String)
  | extraArguments (words : List String)
  deriving DecidableEq, Repr

/-- The text of an error. -/
def UsageError.message : UsageError → String
  | missingArgument name => "Missing argument '" ++ name ++ "'."
  | missingOption hint => "Missing option " ++ hint ++ "."
  | missingCommand => "Missing command."
  | noSuchOption name => "No such option " ++ quoted name ++ "."
  | noSuchCommand name => "No such command " ++ quoted name ++ "."
  | noValue name => "Option " ++ quoted name ++ " requires an argument."
  | unwantedValue name => "Option " ++ quoted name ++ " does not take a value."
  | notAChoice hint word words =>
    "Invalid value for " ++ hint ++ ": " ++ quoted word ++ " is not one of " ++
      ", ".intercalate (words.map quoted) ++ "."
  | notThere hint what path =>
    "Invalid value for " ++ hint ++ ": " ++ what ++ " " ++ quoted path ++ " does not exist."
  | isDirectory hint what path =>
    "Invalid value for " ++ hint ++ ": " ++ what ++ " " ++ quoted path ++ " is a directory."
  | extraArguments words =>
    "Got unexpected extra argument" ++ (if words.length = 1 then "" else "s") ++ " (" ++
      " ".intercalate words ++ ")"

/-- Whether an error is told with the usage of its command. -/
def UsageError.showsUsage : UsageError → Bool
  | noValue _ | unwantedValue _ => false
  | _ => true

/-! ## Reading -/

/-- An option that occurs in a command line. -/
inductive Occurrence where
  | on
  | off
  | value (text : String)
  deriving DecidableEq, Repr

/-- The options of a command line by their keys, in order. -/
abbrev Occurrences := List (String × Occurrence)

/-- The option with a name, and whether the name undoes it. -/
def findOption? (options : List OptionSpec) (name : String) : Option (OptionSpec × Bool) :=
  ((options.find? (·.names.contains name)).map (·, false)).or
    ((options.find? (·.undoNames.contains name)).map (·, true))

/-- A switch that occurs. -/
def switched (o : OptionSpec) (undoes : Bool) : String × Occurrence :=
  (o.key, if undoes then .off else .on)

/-- The value of an option in the word after it; whether that word was taken is told. -/
def nextValue (o : OptionSpec) (name : String) (next : Option String) :
    Except UsageError (Occurrences × Bool) :=
  match next with
  | some value => .ok ([(o.key, .value value)], true)
  | none => .error (.noValue name)

/-- The options that letters after one dash are; the rest of the word is the value of one that takes
one. -/
def readLetters (options : List OptionSpec) (next : Option String) :
    List Char → Except UsageError (Occurrences × Bool)
  | [] => .ok ([], false)
  | c :: rest =>
    let name := String.ofList ['-', c]
    match findOption? options name with
    | none => .error (.noSuchOption name)
    | some (o, undoes) =>
      if o.takesValue then
        if rest.isEmpty then nextValue o name next
        else .ok ([(o.key, .value (String.ofList rest))], false)
      else do
        let (found, taken) ← readLetters options next rest
        return (switched o undoes :: found, taken)

/-- Whether a name is one dash and one letter. -/
def isLetterName (name : String) : Bool := name.length = 2 && !name.startsWith "--"

/-- The options that a word with a dash before it is. -/
def readOption (options : List OptionSpec) (word : String) (next : Option String) :
    Except UsageError (Occurrences × Bool) :=
  let hasValue := word.contains '='
  let (name, value) := cutAt '=' word
  match if isLetterName name then none else findOption? options name with
  | some (o, undoes) =>
    if o.takesValue then
      if hasValue then .ok ([(o.key, .value value)], false) else nextValue o name next
    else if hasValue then .error (.unwantedValue name)
    else .ok ([switched o undoes], false)
  | none =>
    if word.startsWith "--" then .error (.noSuchOption name)
    else readLetters options next (word.toList.drop 1)

/-- The options of some words and the other words. -/
def readArguments (options : List OptionSpec) (interspersed : Bool) :
    List String → Except UsageError (Occurrences × List String)
  | [] => .ok ([], [])
  | [word] =>
    if word.startsWith "-" && word.length > 1 then
      if word = "--" then .ok ([], [])
      else do
        let (found, _) ← readOption options word none
        return (found, [])
    else .ok ([], [word])
  | word :: next :: rest =>
    if word.startsWith "-" && word.length > 1 then
      if word = "--" then .ok ([], next :: rest)
      else do
        let (found, taken) ← readOption options word (some next)
        let (more, others) ←
          if taken then readArguments options interspersed rest
          else readArguments options interspersed (next :: rest)
        return (found ++ more, others)
    else if interspersed then do
      let (found, others) ← readArguments options interspersed (next :: rest)
      return (found, word :: others)
    else .ok ([], word :: next :: rest)

/-! ## Values -/

namespace Occurrences

/-- Whether a switch is on; its last occurrence decides. -/
def isOn (found : Occurrences) (key : String) : Bool :=
  (found.reverse.lookup key) == some .on

/-- The last value of an option. -/
def value? (found : Occurrences) (key : String) : Option String :=
  match found.reverse.lookup key with
  | some (.value v) => some v
  | _ => none

/-- All values of an option. -/
def values (found : Occurrences) (key : String) : List String :=
  found.filterMap fun (k, o) =>
    match o with
    | .value v => if k = key then some v else none
    | _ => none

end Occurrences

end Wadl.Command
