import WorkerBridge.Text
import Mathlib.Data.Rat.Defs

inductive Json
  | null
  | bool (b : Bool)
  | num (q : ℚ)
  | str (s : Text)
  | arr (items : List Json)
  | obj (fields : List (Text × Json))
  deriving Inhabited

namespace Json

def truthy : Json → Bool
  | null => false
  | bool b => b
  | num q => decide (q ≠ 0)
  | str s => !s.isEmpty
  | arr items => !items.isEmpty
  | obj fields => !fields.isEmpty

def pyStr (repr : Json → Text) : Json → Text
  | str s => s
  | value => repr value

/-- `a or b`, where `a` may be missing. -/
def orElse : Option Json → Json → Json
  | some a, b => if a.truthy then a else b
  | none, b => b

/-- `value[key]` for a string key; `none` is the `KeyError` or `TypeError`. -/
def item (key : Text) : Json → Option Json
  | obj fields => fields.lookup key
  | _ => none

def first : Json → Option Json
  | arr (x :: _) => some x
  | str (c :: _) => some (str [c])
  | _ => none

/-- `type(value).__name__`, with a number that has no fraction as an `int`. -/
def typeName : Json → Text
  | .null => "NoneType".toList
  | .bool _ => "bool".toList
  | .num q => if q.den = 1 then "int".toList else "float".toList
  | .str _ => "str".toList
  | .arr _ => "list".toList
  | .obj _ => "dict".toList

end Json
