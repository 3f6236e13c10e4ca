import Tuplet.Decimal.Single
import Tuplet.Diagnostic
import Tuplet.Ir.Module

/-!
# Runtime values and errors

The values that running a module works on, and everything that can go wrong.
Running never looks at types: it finds out about a wrong value when it needs
another one.
-/

namespace Tuplet.Run

/-- A value at run time. -/
inductive Value where
  | int (value : Int32)
  | float (value : Single)
  | aggregate (values : List Value)
  | void
  deriving Repr

namespace Value

mutual

/-- A value as text. -/
def render : Value → String
  | int value => toString value.toInt
  | float value => value.render
  | aggregate values => "\x7b " ++ String.intercalate ", " (renderAll values) ++ " \x7d"
  | void => "void"

/-- Values as text, one by one. -/
def renderAll : List Value → List String
  | [] => []
  | value :: values => render value :: renderAll values

end

/-- What a function that returns some values returns: one aggregate, or nothing. -/
def ofReturns : List Value → Value
  | [] => void
  | values => aggregate values

end Value

/-- What can go wrong at run time. -/
inductive RunError where
  | unknownFunction (name : String)
  | noBody (name : String)
  | argumentCount (name : String) (expected given : Nat)
  | stackOverflow (name : String)
  | noReturn (name : String)
  | parameterOutOfRange (index : Nat)
  | noValue (id : Nat)
  | notASlot
  | unknownSlot (id : Nat)
  | uninitialised (id : Nat)
  | notAnInt (value : Value)
  | noField (index : Nat) (value : Value)
  | divisionByZero
  | divisionOverflow
  | remainderByZero
  deriving Repr

namespace RunError

/-- The category of an error at run time. -/
def category : RunError → Category
  | unknownFunction _ => .unresolvedName
  | argumentCount _ _ _ => .arity
  | noReturn _ => .verification
  | noBody _ | parameterOutOfRange _ | noValue _ | notASlot | unknownSlot _ => .backend
  | notAnInt _ | noField _ _ => .type
  | stackOverflow _ | uninitialised _ | divisionByZero | divisionOverflow | remainderByZero =>
      .trap

/-- What a reader is told about an error at run time. -/
def message : RunError → String
  | unknownFunction name => "unknown function '" ++ name ++ "'"
  | noBody name => "function '" ++ name ++ "' has no body"
  | argumentCount name expected given =>
      "'" ++ name ++ "' takes " ++ toString expected ++ " arguments, got " ++ toString given
  | stackOverflow name => "stack overflow calling '" ++ name ++ "'"
  | noReturn name => "'" ++ name ++ "' ended without a return"
  | parameterOutOfRange index => "parameter " ++ toString index ++ " out of range"
  | noValue id => "%" ++ toString id ++ " has no value"
  | notASlot => "not a stack slot"
  | unknownSlot id => "%" ++ toString id ++ " is not a stack slot"
  | uninitialised id => "load from uninitialised slot %" ++ toString id
  | notAnInt value => "expected an int, found " ++ value.render
  | noField index value =>
      "cannot extract " ++ toString index ++ " from " ++ value.render
  | divisionByZero => "division by zero"
  | divisionOverflow => "signed division overflow"
  | remainderByZero => "remainder by zero"

instance : Fault RunError := ⟨category, message⟩

end RunError

namespace Value

/-- The integer that a value has to be. -/
def toInt : Value → Except RunError Int32
  | int value => .ok value
  | value => .error (.notAnInt value)

/-- The field of a value that has to be an aggregate. -/
def field (value : Value) (index : Nat) : Except RunError Value :=
  match value with
  | aggregate values =>
      match values[index]? with
      | some part => .ok part
      | none => .error (.noField index value)
  | _ => .error (.noField index value)

end Value

end Tuplet.Run

namespace Tuplet.Ir.Arithmetic

open Run

/--
Arithmetic wraps around at 32 bits. Division is signed and goes towards zero;
the remainder takes both operands as unsigned.
-/
def eval (op : Arithmetic) (left right : Int32) : Except RunError Int32 :=
  match op with
  | add => .ok (left + right)
  | sub => .ok (left - right)
  | mul => .ok (left * right)
  | sdiv =>
      if right = 0 then .error .divisionByZero
      else if left = Int32.minValue ∧ right = -1 then .error .divisionOverflow
      else .ok (left / right)
  | urem =>
      if right = 0 then .error .remainderByZero
      else .ok (left.toUInt32 % right.toUInt32).toInt32

end Tuplet.Ir.Arithmetic
