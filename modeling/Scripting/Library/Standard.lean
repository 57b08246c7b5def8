import Scripting.Library.Arrays
import Scripting.Library.Numbers
import Scripting.Library.Terminal
import Scripting.Library.Texts

/-!
# The standard library

The modules that every script can import by name.
-/

namespace Scripting.Library

/-- The modules of the standard library. -/
def modules : List Module :=
  [Terminal.module, Conversion.module, Arithmetic.module, Texts.module, Arrays.module]

/-- The registry that offers the standard library. -/
def standard : Registry :=
  modules.foldl Registry.register {}

end Scripting.Library
