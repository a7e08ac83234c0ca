import Wadl.Text.Blank

/-!
# Documentation in generated source

Documentation stands between three double quotes. Inside, backslashes and runs of three quotes are
escaped, and so is a quote at the end; text of several lines ends with a line end.
-/

namespace Wadl.Docstring

/-- Characters with every backslash doubled. -/
def doubleBackslashes (cs : List Char) : List Char :=
  cs.flatMap fun c => if c = '\\' then ['\\', '\\'] else [c]

/-- Characters with each run of three quotes escaped. -/
def escapeTriples : List Char → List Char
  | '"' :: '"' :: '"' :: cs => '\\' :: '"' :: '\\' :: '"' :: '\\' :: '"' :: escapeTriples cs
  | c :: cs => c :: escapeTriples cs
  | [] => []

/-- Characters with a quote at the end escaped. -/
def escapeLast : List Char → List Char
  | [] => []
  | ['"'] => ['\\', '"']
  | c :: cs => c :: escapeLast cs

/-- The characters between the quotes, for a text without blanks around it. -/
def body (cs : List Char) : List Char := escapeLast (escapeTriples (doubleBackslashes cs))

end Wadl.Docstring

namespace Wadl

/-- The documentation of a text in generated source, if the text is not blank. -/
def docstring (text : String) : Option String :=
  let cs := Text.trimList Text.isBlank text.toList
  if cs.isEmpty then none
  else
    let inner := Docstring.body cs
    let last := if inner.contains '\n' then "\n" else ""
    some ("\"\"\"" ++ String.ofList inner ++ last ++ "\"\"\"")

end Wadl
