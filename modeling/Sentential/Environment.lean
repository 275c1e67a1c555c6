import Sentential.Table

/-!
# The environment

The environment gives values to names.  Where a name occurs more than once, its first value counts.
-/

namespace Sentential

/-- The environment: names of variables with their values. -/
abbrev Environment := List (Text × Text)

/-- The value of a variable. -/
def Environment.get? (env : Environment) (name : Text) : Option Text :=
  entryAt? name env

end Sentential
