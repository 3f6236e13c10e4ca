import Tuplet.Operator

/-!
# Syntax trees

One type of node serves for expressions, statements and top-level items alike.
The grammar never puts a node where it does not belong, but trees made by hand
may, and lowering has an answer for each of them. Types are kept by name: what a
name means is decided when a tree is lowered.
-/

namespace Tuplet

/-- The use of a name that holds a value. -/
structure Variable where
  name : String
  /-- A type written at the use, which the grammar never does. -/
  type : Option String
  deriving DecidableEq, Repr

/-- The introduction of a name that will hold a value. -/
structure Declaration where
  name : String
  type : String
  deriving DecidableEq, Repr

/-- A parameter of a function. -/
structure Parameter where
  type : String
  name : String
  deriving DecidableEq, Repr

/-- What callers know of a function. -/
structure Signature where
  name : String
  returns : List String
  params : List Parameter
  deriving DecidableEq, Repr

/-- What an assignment writes to. -/
inductive Target where
  | var (use : Variable)
  | decl (declaration : Declaration)
  deriving DecidableEq, Repr

/-- A node of a syntax tree. -/
inductive Node where
  | literal (value : Int32)
  | var (use : Variable)
  | binary (op : Operator) (left right : Node)
  | call (name : String) (args : List Node)
  | assign (target : Target) (value : Node)
  | decl (declaration : Declaration)
  | signature (signature : Signature)
  | function (signature : Signature) (body : List Node)
  | ret (values : List Node)
  | group (inner : Node)
  deriving Repr

/-- The shape of a node, without its parts. -/
inductive Form where
  | literal | var | binary | call | assign | decl | signature | function | ret | group
  deriving DecidableEq, Repr

namespace Form

/-- How an error message speaks of a form. -/
def describe : Form → String
  | literal => "literal"
  | var => "variable"
  | binary => "binary expression"
  | call => "call"
  | assign => "assignment"
  | decl => "declaration"
  | signature => "signature"
  | function => "function"
  | ret => "return statement"
  | group => "parenthesised expression"

end Form

namespace Node

/-- The form of a node. -/
def form : Node → Form
  | literal _ => .literal
  | var _ => .var
  | binary _ _ _ => .binary
  | call _ _ => .call
  | assign _ _ => .assign
  | decl _ => .decl
  | signature _ => .signature
  | function _ _ => .function
  | ret _ => .ret
  | group _ => .group

end Node

namespace Signature

/-- Whether a function has nothing to return. -/
def isVoid (signature : Signature) : Bool := signature.returns.isEmpty

/-- Whether a parameter has the given name. -/
def hasParam (signature : Signature) (name : String) : Bool :=
  signature.params.any (·.name == name)

/-- The first of some names that is one of the names seen, or repeats one before it. -/
def firstRepeated (seen : List String) : List String → Option String
  | [] => none
  | name :: rest => if seen.contains name then some name else firstRepeated (name :: seen) rest

/-- The first parameter name that repeats an earlier one. -/
def repeatedParam? (signature : Signature) : Option String :=
  firstRepeated [] (signature.params.map (·.name))

end Signature

end Tuplet
