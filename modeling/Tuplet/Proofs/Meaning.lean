import Tuplet.Run.Value
import Tuplet.Syntax.Node

/-!
# The meaning of programs

A program means what a reference evaluator on its syntax trees computes. Calling
a function binds its parameters to the arguments and runs its statements in
order over an environment, in which a name that has been declared need not have
a value yet. There are neither instructions nor slots, and no stack but that of
the evaluator itself, which is told how many more calls may be open at a time.

The evaluator has a result for every syntax tree. What has no meaning is said to
have none, and lowering does not accept it.
-/

namespace Tuplet

open Run (RunError Value)

/-- Why a program has no value. -/
inductive Problem where
  /-- Something goes wrong that can also go wrong when a module is run. -/
  | run (error : RunError)
  /-- A name is read before it has a value. -/
  | uninitialised (name : String)
  /-- A syntax tree has no meaning. -/
  | meaningless

/-- What names stand for, if anything yet, latest first. -/
abbrev Environment := List (String × Option Value)

/-- What calls evaluate to. -/
abbrev Answers := String → List Value → Except Problem Value

/-- Operators compute with integers and wrap around at 32 bits. -/
def Operator.compute (op : Operator) (left right : Int32) : Except Problem Int32 :=
  match op with
  | add => .ok (.ofInt (left.toInt + right.toInt))
  | sub => .ok (.ofInt (left.toInt - right.toInt))
  | mul => .ok (.ofInt (left.toInt * right.toInt))
  | div =>
      if right.toInt = 0 then .error (.run .divisionByZero)
      else if left.toInt.tdiv right.toInt = 0x80000000 then .error (.run .divisionOverflow)
      else .ok (.ofInt (left.toInt.tdiv right.toInt))
  | mod =>
      if right.toInt = 0 then .error (.run .remainderByZero)
      else .ok (.ofInt ((left.toInt % 0x100000000) % (right.toInt % 0x100000000)))
  | exp | root => .error .meaningless

namespace Node

/-- What came of something that can go wrong when a module is run. -/
def running {α : Type} (result : Except RunError α) : Except Problem α := result.mapError .run

mutual

/-- The value of a node in an environment. -/
def eval (call : Answers) (environment : Environment) : Node → Except Problem Value
  | .literal value => .ok (.int value)
  | .var use =>
      match environment.lookup use.name with
      | some (some value) => .ok value
      | some none => .error (.uninitialised use.name)
      | none => .error .meaningless
  | .binary op left right => do
      let left ← eval call environment left
      let right ← eval call environment right
      let value ← op.compute (← running left.toInt) (← running right.toInt)
      pure (.int value)
  | .call name args => do
      let args ← evalAll call environment args
      let result ← call name args
      running (result.field 0)
  | .group inner => eval call environment inner
  | _ => .error .meaningless

/-- The values of nodes in an environment, from left to right. -/
def evalAll (call : Answers) (environment : Environment) :
    List Node → Except Problem (List Value)
  | [] => .ok []
  | node :: rest => do
      let value ← eval call environment node
      let values ← evalAll call environment rest
      pure (value :: values)

end

/-- What a statement leads to. -/
inductive Flow where
  | next (environment : Environment)
  | done (value : Value)

/-- The environment in which the name of a target is declared. -/
def declareTarget (environment : Environment) : Target → Environment
  | .var _ => environment
  | .decl declared => (declared.name, none) :: environment

/-- The name that a target stands for. -/
def targetName : Target → String
  | .var use => use.name
  | .decl declared => declared.name

/-- Runs a statement in an environment. -/
def step (call : Answers) (environment : Environment) : Node → Except Problem Flow
  | .decl declared => .ok (.next ((declared.name, none) :: environment))
  | .assign target node => do
      let declared := declareTarget environment target
      let value ← eval call declared node
      pure (.next ((targetName target, some value) :: declared))
  | .call name args => do
      let args ← evalAll call environment args
      let _ ← call name args
      pure (.next environment)
  | .ret nodes => do
      let values ← evalAll call environment nodes
      pure (.done (.ofReturns values))
  | _ => .error .meaningless

/-- Runs statements in order until one returns. -/
def run (call : Answers) (environment : Environment) : List Node → Except Problem Value
  | [] => .ok .void
  | node :: rest => do
      match ← step call environment node with
      | .next environment => run call environment rest
      | .done value => pure value

/-- The function that a node defines, if it is one of a name. -/
def definition? (name : String) : Node → Option (Signature × List Node)
  | .function header body => if header.name = name then some (header, body) else none
  | _ => none

/-- A node declares or defines a function of a name. -/
def Introduces (name : String) : Node → Prop
  | .signature header | .function header _ => header.name = name
  | _ => False

instance (name : String) (node : Node) : Decidable (node.Introduces name) := by
  unfold Introduces
  split <;> infer_instance

end Node

/-- The items of a program in order. -/
abbrev Program := List Node

namespace Program

/-- The definition of a function. -/
def definition? (program : Program) (name : String) : Option (Signature × List Node) :=
  program.findSome? (·.definition? name)

/-- Calls a function of a program when `room` more calls may be open at a time. -/
def callWithin (program : Program) (room : Nat) (name : String) (args : List Value) :
    Except Problem Value :=
  match program.definition? name with
  | none =>
      if ∃ node ∈ program, node.Introduces name then .error (.run (.noBody name))
      else .error (.run (.unknownFunction name))
  | some (header, body) =>
      if header.params.length ≠ args.length then
        .error (.run (.argumentCount name header.params.length args.length))
      else
        match room with
        | 0 => .error (.run (.stackOverflow name))
        | room + 1 =>
            Node.run (program.callWithin room)
              ((header.params.map (·.name)).zip (args.map some)).reverse body

/-- Calls a function of a program; at most 512 calls may be open at a time. -/
def call (program : Program) (name : String) (args : List Value) : Except Problem Value :=
  program.callWithin 512 name args

end Program

/-- What a problem of a program is when a module is run. -/
inductive Problem.Matches : Problem → RunError → Prop
  | run (error : RunError) : Matches (.run error) error
  /-- What is read before it has a value is a name for a program and a slot for a module. -/
  | uninitialised (name : String) (slot : Nat) :
      Matches (.uninitialised name) (.uninitialised slot)

/-- A program and a module come to the same. -/
inductive Agrees : Except Problem Value → Except RunError Value → Prop
  | ok (value : Value) : Agrees (.ok value) (.ok value)
  | error {problem : Problem} {error : RunError} (matching : problem.Matches error) :
      Agrees (.error problem) (.error error)

end Tuplet
