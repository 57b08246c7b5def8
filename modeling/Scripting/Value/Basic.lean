import Scripting.Error
import Scripting.Number.Text

/-!
# Values

The values that variables hold: texts, numbers, truth values, arrays, maps and references to
functions. A map keeps its fields in the order of their names.
-/

namespace Scripting

/-- A reference to something that can be called: a declared function, or a function that a module
exports. -/
structure FunctionRef where
  module : Option String
  name : String
  deriving DecidableEq, Inhabited

/-- A value. -/
inductive Value where
  | string (text : String)
  | number (x : Float)
  | boolean (b : Bool)
  | array (items : List Value)
  | map (fields : List (String × Value))
  | function (ref : FunctionRef)
  deriving Inhabited

/-- The fields of a map, in the order of their names. -/
abbrev Fields := List (String × Value)

namespace Fields

/-- The value of a field. -/
def get? (fields : Fields) (name : String) : Option Value :=
  fields.lookup name

/-- The fields with one of them set. -/
def insert (name : String) (value : Value) : Fields → Fields
  | [] => [(name, value)]
  | (other, old) :: rest =>
    if name < other then (name, value) :: (other, old) :: rest
    else if name = other then (name, value) :: rest
    else (other, old) :: insert name value rest

/-- The fields with the given names and values, the later of two equal names winning. -/
def ofList (fields : List (String × Value)) : Fields :=
  fields.foldl (fun built (name, value) => insert name value built) []

end Fields

namespace Value

/-- The type of a value. -/
def type : Value → ValueType
  | string _ => .string
  | number _ => .number
  | boolean _ => .boolean
  | array _ => .array
  | map _ => .map
  | function _ => .function

/-- The text that a value is, if it is one. -/
def string? : Value → Option String
  | string text => some text
  | _ => none

/-- The number that a value is, if it is one. -/
def number? : Value → Option Float
  | number x => some x
  | _ => none

/-- The value that a literal denotes. -/
def ofLiteral (token : Token) : Except Error Value :=
  let refusal := Error.locate (.expectedValue token.lexeme) token.span
  match token.kind with
  | .string => .ok (.string token.lexeme)
  | .number =>
    match Number.ofText? token.lexeme with
    | some x => .ok (.number x)
    | none => .error refusal
  | .boolean => .ok (.boolean (token.lexeme == "true"))
  | _ => .error refusal

/-- A token that denotes no value is refused where it stands. -/
theorem eq_locate_of_ofLiteral {token : Token} {e : Error} (h : ofLiteral token = .error e) :
    e = .locate (.expectedValue token.lexeme) token.span := by
  unfold ofLiteral at h
  split at h
  · cases h
  · split at h
    · cases h
    · exact (Except.error.inj h).symm
  · cases h
  · exact (Except.error.inj h).symm

mutual

/-- Whether two values are equal. Numbers compare as numbers: zero equals negative zero, and what is
not a number equals nothing. -/
def beq : Value → Value → Bool
  | string a, string b => a == b
  | number a, number b => a == b
  | boolean a, boolean b => a == b
  | array a, array b => beqItems a b
  | map a, map b => beqFields a b
  | function a, function b => a == b
  | _, _ => false

/-- Whether two lists of items are equal. -/
def beqItems : List Value → List Value → Bool
  | [], [] => true
  | a :: as, b :: bs => a.beq b && beqItems as bs
  | _, _ => false

/-- Whether two lists of fields are equal. -/
def beqFields : List (String × Value) → List (String × Value) → Bool
  | [], [] => true
  | (m, a) :: as, (n, b) :: bs => m == n && a.beq b && beqFields as bs
  | _, _ => false

end

instance : BEq Value := ⟨beq⟩

mutual

/-- The text of a value, where the texts inside an array or a map stand between quotes. -/
def render (inside : Bool) : Value → String
  | string text => if inside then "\"" ++ text ++ "\"" else text
  | number x => Number.text x
  | boolean b => if b then "true" else "false"
  | array items => "[" ++ String.intercalate ", " (itemTexts items) ++ "]"
  | map fields =>
    if fields.isEmpty then "%()"
    else "%(\n" ++ String.intercalate ",\n" (fieldTexts fields) ++ "\n)"
  | function { module := some module, name } => "<fn " ++ module ++ "." ++ name ++ ">"
  | function { module := none, name } => "<fn " ++ name ++ ">"

/-- The texts of an array's items. -/
def itemTexts : List Value → List String
  | [] => []
  | item :: items => item.render true :: itemTexts items

/-- The texts of a map's fields, each on a line of its own. -/
def fieldTexts : List (String × Value) → List String
  | [] => []
  | (name, value) :: fields => ("  " ++ name ++ ": " ++ value.render true) :: fieldTexts fields

end

/-- The text of a value. -/
def text (value : Value) : String := value.render false

end Value

end Scripting
