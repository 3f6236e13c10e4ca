/-!
# Scopes

A scope is a stack of frames that say what names stand for. A name is looked up
in the innermost frame that has it. Binding a name goes to the innermost frame
and replaces what the name stood for there; it opens a frame if there is none.
-/

namespace Tuplet

/-- A stack of bindings of names to locations. -/
structure Scope (α : Type) where
  /-- The frames, innermost first; in each of them the latest binding first. -/
  frames : List (List (String × α))
  deriving DecidableEq, Repr

/-- A misuse of a scope. -/
inductive ScopeError where
  | noFrame
  deriving DecidableEq, Repr

/-- What a reader is told about a misuse of a scope. -/
def ScopeError.message : ScopeError → String
  | noFrame => "pop on an empty scope stack"

namespace Scope

variable {α : Type}

/-- A scope without frames. -/
def empty : Scope α := ⟨[]⟩

/-- Opens a frame. -/
def push (scope : Scope α) : Scope α := ⟨[] :: scope.frames⟩

/-- Closes the innermost frame and forgets what was bound there. -/
def pop (scope : Scope α) : Except ScopeError (Scope α) :=
  match scope.frames with
  | [] => .error .noFrame
  | _ :: frames => .ok ⟨frames⟩

/-- Binds a name in the innermost frame. -/
def bind (scope : Scope α) (name : String) (location : α) : Scope α :=
  match scope.frames with
  | [] => ⟨[[(name, location)]]⟩
  | frame :: frames => ⟨((name, location) :: frame) :: frames⟩

/-- What a name stands for. -/
def lookup (scope : Scope α) (name : String) : Option α :=
  scope.frames.findSome? (·.lookup name)

/-- How many frames are open. -/
def depth (scope : Scope α) : Nat := scope.frames.length

@[simp]
theorem pop_push (scope : Scope α) : scope.push.pop = .ok scope := rfl

end Scope

end Tuplet
