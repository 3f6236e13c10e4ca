import Tuplet.Lower.Statement

/-!
# Lowering items

An item declares a function or gives one its body. A function may be declared
any number of times and defined once; only the number of parameters has to agree
before the body is looked at. Each item is lowered whatever became of the ones
before it.
-/

namespace Tuplet

namespace Lowering

/-- The types of parameters, by their names. -/
def resolveParams : List Parameter → Lowering (List Ir.Param)
  | [] => pure []
  | param :: rest => do
      let type ← resolve param.type
      let params ← resolveParams rest
      pure (⟨type, param.name⟩ :: params)

/-- Declares a function. -/
def signature (header : Signature) : Lowering Nat := do
  match header.repeatedParam? with
  | some param => fail (.repeatedParameter param header.name)
  | none =>
      let params ← resolveParams header.params
      let returns ← resolveAll header.returns
      build (Ir.Build.declare header.name params returns)

/-- The function that a body is meant for; it is declared if it has not been. -/
def definedFunction (header : Signature) : Lowering Nat := do
  let builder := (← get).builder
  match builder.module.index? header.name with
  | none => inside (.declaring header.name) (signature header)
  | some index =>
      if builder.hasBody index then fail (.alreadyHasBody header.name)
      else if builder.paramCount index = header.params.length then pure index
      else fail (.mismatchedDeclaration header.name)

/-- Lets a function without results end without a return. -/
def endBody (header : Signature) : Lowering Unit := do
  if header.isVoid && !(← get).builder.isTerminated then build (Ir.Build.ret [])

/-- Checks a finished function. -/
def check (function : Nat) : Lowering Unit := do
  match (← get).builder.verify function with
  | .ok () => pure ()
  | .error (.inl error) => fail (.build error)
  | .error (.inr error) => fail (.verify error)

/-- Lowers a function. -/
def function (header : Signature) (body : List Node) : Lowering Nat := do
  let index ← definedFunction header
  inBody index do
    parameters index 0 header.params
    statements body
  endBody header
  check index
  pure index

/-- Lowers a node that has to be a top-level item. -/
def item : Node → Lowering Nat
  | .function header body => inside (.function header.name) (function header body)
  | .signature header => do
      match (← get).builder.module.index? header.name with
      | some index => pure index
      | none => signature header
  | node => fail (.notAFunction node.form)

/-- Lowers items in order, whether or not the ones before have failed. -/
def items (state : LoweringState) :
    List Node → List (Except LoweringError Nat) × LoweringState
  | [] => ([], state)
  | node :: rest =>
      match item node state with
      | .ok index state =>
          let (results, final) := items state rest
          (.ok index :: results, final)
      | .error error state =>
          let (results, final) := items state rest
          (.error error :: results, final)

end Lowering

end Tuplet
