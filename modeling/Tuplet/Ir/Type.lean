/-!
# Types of the intermediate language

Values are 32-bit integers, 32-bit floats, pointers to stack slots and
aggregates of values. A function that returns nothing has type `void`, which no
value has.
-/

namespace Tuplet.Ir

/-- A type of the intermediate language. -/
inductive ValueType where
  | int32
  | float32
  | pointer
  | void
  | struct (fields : List ValueType)
  deriving Repr

namespace ValueType

mutual

/-- Whether two types are the same. -/
def same : ValueType → ValueType → Bool
  | int32, int32 => true
  | float32, float32 => true
  | pointer, pointer => true
  | void, void => true
  | struct fields, struct others => sameAll fields others
  | _, _ => false

/-- Whether two lists of types are the same. -/
def sameAll : List ValueType → List ValueType → Bool
  | [], [] => true
  | type :: types, other :: others => same type other && sameAll types others
  | _, _ => false

end

mutual

theorem same_iff : ∀ type other : ValueType, same type other = true ↔ type = other
  | int32, other => by cases other <;> simp [same]
  | float32, other => by cases other <;> simp [same]
  | pointer, other => by cases other <;> simp [same]
  | void, other => by cases other <;> simp [same]
  | struct fields, other => by
      cases other with
      | struct others => simp [same, sameAll_iff fields others]
      | _ => simp [same]

theorem sameAll_iff : ∀ types others : List ValueType,
    sameAll types others = true ↔ types = others
  | [], others => by cases others <;> simp [sameAll]
  | type :: types, others => by
      cases others with
      | nil => simp [sameAll]
      | cons other others => simp [sameAll, same_iff type other, sameAll_iff types others]

end

instance : DecidableEq ValueType := fun type other =>
  decidable_of_iff (same type other = true) (same_iff type other)

mutual

/-- A type as it is written in a listing. -/
def render : ValueType → String
  | int32 => "i32"
  | float32 => "float"
  | pointer => "ptr"
  | void => "void"
  | struct fields => "\x7b " ++ String.intercalate ", " (renderAll fields) ++ " \x7d"

/-- Types as they are written in a listing, one by one. -/
def renderAll : List ValueType → List String
  | [] => []
  | type :: types => render type :: renderAll types

end

/-- The type of what a function returns: nothing, or one aggregate of all its values. -/
def ofReturns : List ValueType → ValueType
  | [] => void
  | types => struct types

end ValueType

end Tuplet.Ir
