import Formula.Library.Casts
import Formula.Library.Operators
import Formula.Library.Types
/-!
The standard library as a whole.
-/

namespace Formula

namespace Library

/-- Says what a registration is for if it fails. -/
def within (task : String) (r : Registration Unit) : Registration Unit :=
  tryCatch r fun e => throw (.generic (task ++ ": " ++ e.message))

/-- Registers the standard library. Its overloads come behind those already registered. -/
def install : Registration Unit := do
  within "registering standard types" installTypes
  within "registering standard casts" installCasts
  within "registering arithmetic operators" (installOverloads arithmeticOperators)
  within "registering comparison and logic operators" (installOverloads logicOperators)
  within "registering elementary functions" (installOverloads namedFunctions)

end Library

/-- The environment that holds the standard library and nothing else. -/
def Environment.standard (config : Config) : Environment :=
  (Library.install.run { config }).2

end Formula
