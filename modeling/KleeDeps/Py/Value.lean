import KleeDeps.Py.Dict
import KleeDeps.Py.Text

/-!
# Decoded JSON and TOML values

What `json.load` and `tomllib.load` hand to a program that does not trust the
shape of its input: a tree over the handful of built-in types, asked for with
`isinstance`. Floats are kept by their literal, since no program here computes
with them.
-/

namespace Py

/-- A decoded value. Objects keep their items in file order, keys distinct. -/
inductive Value where
  | null
  | bool (b : Bool)
  | int (n : Int)
  | float (literal : Text)
  | str (s : Text)
  | list (xs : List Value)
  | dict (items : List (Text × Value))

namespace Value

/-- `value.get(key)` on the items of an object; an absent key reads `None`. -/
def field (items : List (Text × Value)) (key : Text) : Value :=
  (Dict.lookup key items).getD .null

/-- The value as an `int`, where `isinstance(value, int)`; truth values are. -/
def asInt? : Value → Option Int
  | .int n => some n
  | .bool b => some (if b then 1 else 0)
  | _ => none

/-- The value as a `str`, where `isinstance(value, str)`. -/
def asStr? : Value → Option Text
  | .str s => some s
  | _ => none

/-- The items, where `isinstance(value, dict)`. -/
def asDict? : Value → Option (List (Text × Value))
  | .dict items => some items
  | _ => none

/-- The elements, where `isinstance(value, list)`. -/
def asList? : Value → Option (List Value)
  | .list xs => some xs
  | _ => none

end Value

end Py
