import Tuplet.Syntax.Node

/-!
# Outlines

The outline of a syntax tree has one line for each node. The children of a node
follow it in order, indented by two more spaces than the node itself.
-/

namespace Tuplet

/-- A parameter as it is written. -/
def Parameter.render (param : Parameter) : String := param.type ++ " " ++ param.name

namespace Signature

/-- The return types as they are written: `void` for none, a bare type for one, else a list. -/
def renderReturns : List String → String
  | [] => "void"
  | [type] => type
  | types => "(" ++ String.intercalate ", " types ++ ")"

/-- A signature as it is written. -/
def render (signature : Signature) : String :=
  renderReturns signature.returns ++ " " ++ signature.name ++ "(" ++
    String.intercalate ", " (signature.params.map Parameter.render) ++ ")"

end Signature

namespace Node

/-- One line of an outline. -/
def outlineLine (depth : Nat) (text : String) : String :=
  String.ofList (List.replicate (2 * depth) ' ') ++ text ++ "\n"

/-- The line of a variable. -/
def outlineVariable (depth : Nat) (use : Variable) : String :=
  match use.type with
  | some type => outlineLine depth ("Variable " ++ use.name ++ ": " ++ type)
  | none => outlineLine depth ("Variable " ++ use.name)

/-- The line of a declaration. -/
def outlineDeclaration (depth : Nat) (declaration : Declaration) : String :=
  outlineLine depth ("Declaration " ++ declaration.type ++ " " ++ declaration.name)

/-- The line of what an assignment writes to. -/
def outlineTarget (depth : Nat) : Target → String
  | .var use => outlineVariable depth use
  | .decl declaration => outlineDeclaration depth declaration

mutual

/-- The outline of a node at a depth. -/
def outlineAt (depth : Nat) : Node → String
  | .literal value => outlineLine depth ("Literal " ++ toString value.toInt)
  | .var use => outlineVariable depth use
  | .binary op left right =>
      outlineLine depth ("Binary " ++ op.symbol) ++ outlineAt (depth + 1) left ++
        outlineAt (depth + 1) right
  | .call name args => outlineLine depth ("Call " ++ name) ++ outlineAllAt (depth + 1) args
  | .assign target value =>
      outlineLine depth "Assign" ++ outlineTarget (depth + 1) target ++ outlineAt (depth + 1) value
  | .decl declaration => outlineDeclaration depth declaration
  | .signature header => outlineLine depth ("Signature " ++ header.render)
  | .function header body =>
      outlineLine depth ("Function " ++ header.render) ++ outlineAllAt (depth + 1) body
  | .ret values => outlineLine depth "Return" ++ outlineAllAt (depth + 1) values
  | .group inner => outlineLine depth "Group" ++ outlineAt (depth + 1) inner

/-- The outlines of some nodes at a depth, one after the other. -/
def outlineAllAt (depth : Nat) : List Node → String
  | [] => ""
  | node :: rest => outlineAt depth node ++ outlineAllAt depth rest

end

/-- The outline of a tree. -/
def outline (node : Node) : String := node.outlineAt 0

end Node

end Tuplet
