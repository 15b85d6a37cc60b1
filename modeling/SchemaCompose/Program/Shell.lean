import SchemaCompose.Program.Arguments
import SchemaCompose.Yaml.Value

/-!
# The shell of the program

The program reads its configuration as YAML and its arguments as options, and prints on
an output that takes every text.
-/

namespace SchemaCompose.Program

/-- What the program runs in. -/
def shell : Shell Yaml.Value where
  reader := Yaml.reader
  order := order
  prints _ := true

end SchemaCompose.Program
