import Wadl.Client.Builder
import Wadl.Client.Printer
import Wadl.Source.Statement

/-!
# Generating a client

`generate` unifies the types of a resolved description, builds the client and prints its source,
which has to pass a check. The check is a parameter; `generateClient` takes the grammar for it.
-/

namespace Wadl

/-- How many parts a client has. -/
def ClientModule.notice (m : ClientModule) : Notice :=
  .generated m.models.length m.enums.length m.classes.length

/-- The source of a client with the types of a table, if it passes a check. -/
def generateWith (isValid : String → Bool) (r : Resolution) (table : TypeTable)
    (config : ClientConfig) : Generating String := do
  let m ← buildModule r table config
  if isValid m.source then
    modify (· ++ [m.notice])
    return m.source
  else throw .badSource

/-- The source of a client with types of its own, if it passes a check. -/
def generate (isValid : String → Bool) (r : Resolution) (config : ClientConfig) :
    Generating String := do
  generateWith isValid r (← unify r config) config

/-- The source of a client. -/
def generateClient (r : Resolution) (config : ClientConfig) : Generating String :=
  generate Source.isWellFormed r config

end Wadl
