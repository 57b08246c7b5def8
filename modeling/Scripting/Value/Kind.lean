import Scripting.Token.Basic

/-!
# Types of values

Every value has one of six types, which parameters may ask for by name.
-/

namespace Scripting

/-- The type of a value. -/
inductive ValueType where
  | string
  | number
  | boolean
  | array
  | map
  | function
  deriving DecidableEq, Inhabited

namespace ValueType

/-- The name of a type. -/
def text : ValueType → String
  | string => "String"
  | number => "Number"
  | boolean => "Boolean"
  | array => "Array"
  | map => "Map"
  | function => "Function"

/-- The type that a name stands for. -/
def ofName? : String → Option ValueType
  | "String" => some string
  | "Number" => some number
  | "Boolean" => some boolean
  | "Array" => some array
  | "Map" => some map
  | "Function" => some function
  | _ => none

@[simp] theorem ofName?_text (type : ValueType) : ofName? type.text = some type := by
  cases type <;> rfl

/-- The type of the value that a literal of the given kind denotes. -/
def ofLiteral? : TokenKind → Option ValueType
  | .string => some string
  | .number => some number
  | .boolean => some boolean
  | _ => none

end ValueType

end Scripting
