import Wadl.Command.Options

/-!
# The commands and their help

`program` is the program itself, with the commands `parseCommand` and `generateCommand`. `helpText`
describes a command, with its options in a column beside what they are for.
-/

namespace Wadl.Command

/-- The option that asks for help. -/
def helpOption : OptionSpec := { names := ["--help"], help := "Show this message and exit." }

/-- The option that refuses what descriptions do not have. -/
def strictOption : OptionSpec :=
  { names := ["--strict"], help := "Reject unrecognized elements and unusual param styles." }

/-- The command that reads a description and prints it. -/
def parseCommand : CommandSpec where
  path := "main parse"
  arguments := "DOC_PATH"
  about := "Parse a WADL document and print it normalized."
  options :=
    [strictOption,
      { names := ["--resolve"], undoNames := ["--no-resolve"]
        help := "Also resolve cross references." },
      { names := ["--format"], kind := .choice ["xml", "json"], help := "Output format." },
      helpOption]

/-- The command that generates a client. -/
def generateCommand : CommandSpec where
  path := "main generate"
  arguments := "DOC_PATH"
  about := "Generate a typed Python client from a WADL document."
  options :=
    [{ names := ["-o", "--output"], kind := .path, required := true
       help := "Output path for the client module.  [required]" },
      { names := ["--config"], kind := .existingPath, help := "YAML generation config." },
      { names := ["--naming-style"], kind := .choice ["snake", "camel"]
        help := "Identifier style." },
      { names := ["--http-mode"], kind := .choice ["sync", "async"]
        help := "Blocking or async methods." },
      { names := ["--media-type"], kind := .text
        help := "Preferred media type (repeatable, in order)." },
      { names := ["--no-docs"], help := "Leave documentation out of the generated code." },
      strictOption, helpOption]

/-- The program. -/
def program : CommandSpec where
  path := "main"
  arguments := "COMMAND [ARGS]..."
  about := "wadlgen: parse WADL documents and generate typed Python clients."
  options :=
    [{ names := ["-v", "--verbose"], help := "Enable debug logging." }, helpOption]
  interspersed := false
  commands := [("generate", generateCommand.about), ("parse", parseCommand.about)]

/-! ## Help -/

/-- The most characters of a line. -/
def lineWidth : Nat := 78

/-- Words in lines of at most `width` characters; `line` is the present one. -/
def wrapWords (width : Nat) (line : String) : List String → List String
  | [] => if line.isEmpty then [] else [line]
  | word :: rest =>
    if line.isEmpty then wrapWords width word rest
    else if line.length + 1 + word.length ≤ width then
      wrapWords width (line ++ " " ++ word) rest
    else line :: wrapWords width word rest

/-- Spaces. -/
def spaces (n : Nat) : String := String.ofList (List.replicate n ' ')

/-- Rows of two columns, each with a line end. -/
def columns (rows : List (String × String)) : String :=
  let first := (rows.map (·.1.length)).foldl max 0 + 2
  let row (left right : String) : String :=
    let lines := wrapWords (lineWidth - first - 2) "" (piecesAt ' ' right)
    let start := "  " ++ left ++ spaces (first - left.length)
    start ++ ("\n" ++ spaces (first + 2)).intercalate lines ++ "\n"
  String.join (rows.map fun (left, right) => row left right)

/-- How a command is called. -/
def CommandSpec.usage (c : CommandSpec) : String :=
  "Usage: " ++ c.path ++ " [OPTIONS] " ++ c.arguments ++ "\n"

/-- The description of a command. -/
def CommandSpec.helpText (c : CommandSpec) : String :=
  c.usage ++ "\n  " ++ c.about ++ "\n\nOptions:\n" ++
    columns (c.options.map fun o => (o.usage, o.help)) ++
    (if c.commands.isEmpty then "" else "\nCommands:\n" ++ columns c.commands)

/-- What is told of an error in the use of a command. -/
def CommandSpec.complaint (c : CommandSpec) (e : UsageError) : String :=
  (if e.showsUsage then
    c.usage ++ "Try '" ++ c.path ++ " --help' for help.\n\n"
  else "") ++ "Error: " ++ e.message ++ "\n"

end Wadl.Command
