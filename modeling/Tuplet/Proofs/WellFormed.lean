import Tuplet.Ir.Type
import Tuplet.Syntax.Node

/-!
# Well-formed items

What it means for an item to be well-formed, said on syntax trees alone. Whether
an item is well-formed depends on a table of the functions that the items before
it have declared. Whether a statement is depends on the names in
scope as well, and it may add one.

Tables grow whether or not items are well-formed: a body that turned out to be
wrong still is the body of its function.
-/

namespace Tuplet

open Ir (ValueType)

/-- The type of values that a type name stands for, if values can be declared with it. -/
def scalar? (name : String) : Option ValueType :=
  if name = "int" then some .int32
  else if name = "float" then some .float32
  else none

/-- What callers of a function have to know of it. -/
structure Profile where
  params : List ValueType
  returns : List ValueType
  deriving DecidableEq

/-- What is known of a function that has been declared. -/
structure Known extends Profile where
  name : String
  /-- Whether the function has been given a body. -/
  bodied : Bool
  deriving DecidableEq

namespace Signature

/-- The parameters of a function can be told apart, and all types are known. -/
def WellFormed (header : Signature) : Prop :=
  (header.params.map (·.name)).Nodup ∧
    (∀ param ∈ header.params, (scalar? param.type).isSome = true) ∧
      ∀ type ∈ header.returns, (scalar? type).isSome = true

instance (header : Signature) : Decidable header.WellFormed := by
  unfold WellFormed
  infer_instance

/-- What a signature says about a function that has no body yet. -/
def known (header : Signature) : Known where
  params := header.params.filterMap (scalar? ·.type)
  returns := header.returns.filterMap scalar?
  name := header.name
  bodied := false

end Signature

/-- The functions that have been declared, in the order of their declarations. -/
abbrev FunctionTable := List Known

namespace FunctionTable

/-- What is known of the function of a name. -/
def known? (table : FunctionTable) (name : String) : Option Known := table.find? (·.name == name)

/-- What callers know of the function of a name. -/
def profile? (table : FunctionTable) (name : String) : Option Profile :=
  (table.known? name).map (·.toProfile)

/-- A body may be given to the function of a header. -/
def Opens (table : FunctionTable) (header : Signature) : Prop :=
  match table.known? header.name with
  | some known => known.bodied = false ∧ known.params.length = header.params.length
  | none => header.WellFormed

instance (table : FunctionTable) (header : Signature) : Decidable (table.Opens header) := by
  unfold Opens
  split <;> infer_instance

/-- The table in which a function has been declared, unless it cannot be. -/
def declare (table : FunctionTable) (header : Signature) : FunctionTable :=
  if (table.known? header.name).isNone ∧ header.WellFormed then table ++ [header.known]
  else table

/-- The table in which the function of a name has been given a body. -/
def giveBody (table : FunctionTable) (name : String) : FunctionTable :=
  table.map fun known => if known.name = name then { known with bodied := true } else known

/-- The table that an item leaves. -/
def after (table : FunctionTable) : Node → FunctionTable
  | .signature header => table.declare header
  | .function header _ =>
      if table.Opens header then (table.declare header).giveBody header.name else table
  | _ => table

end FunctionTable

/-- The names that can be used in a body and the types of their values, latest first. -/
abbrev Names := List (String × ValueType)

namespace Node

mutual

/-- A node has a value of a type. -/
inductive HasType (table : FunctionTable) (names : Names) : Node → ValueType → Prop
  | literal (value : Int32) : HasType table names (.literal value) .int32
  | var {use : Variable} {type : ValueType} (declared : names.lookup use.name = some type) :
      HasType table names (.var use) type
  | binary {op : Operator} {left right : Node} (computable : op ≠ .exp ∧ op ≠ .root)
      (leftInt : HasType table names left .int32)
      (rightInt : HasType table names right .int32) :
      HasType table names (.binary op left right) .int32
  | call {name : String} {args : List Node} {known : Known} {type : ValueType}
      {others : List ValueType} (declared : table.known? name = some known)
      (arguments : HaveTypes table names args known.params)
      (returns : known.returns = type :: others) :
      HasType table names (.call name args) type
  | group {inner : Node} {type : ValueType} (typed : HasType table names inner type) :
      HasType table names (.group inner) type

/-- Nodes have values of some types. -/
inductive HaveTypes (table : FunctionTable) (names : Names) : List Node → List ValueType → Prop
  | nil : HaveTypes table names [] []
  | cons {node : Node} {nodes : List Node} {type : ValueType} {types : List ValueType}
      (first : HasType table names node type) (rest : HaveTypes table names nodes types) :
      HaveTypes table names (node :: nodes) (type :: types)

end

section Inversion

variable {table : FunctionTable} {names : Names} {type : ValueType}

theorem hasType_literal_iff {value : Int32} :
    HasType table names (.literal value) type ↔ type = .int32 := by
  constructor
  · rintro ⟨⟩
    rfl
  · rintro rfl
    exact .literal value

theorem hasType_var_iff {use : Variable} :
    HasType table names (.var use) type ↔ names.lookup use.name = some type := by
  constructor
  · intro typed
    cases typed with
    | var declared => exact declared
  · exact .var

theorem hasType_binary_iff {op : Operator} {left right : Node} :
    HasType table names (.binary op left right) type ↔
      type = .int32 ∧ (op ≠ .exp ∧ op ≠ .root) ∧ HasType table names left .int32 ∧
        HasType table names right .int32 := by
  constructor
  · intro typed
    cases typed with
    | binary computable leftInt rightInt => exact ⟨rfl, computable, leftInt, rightInt⟩
  · rintro ⟨rfl, computable, leftInt, rightInt⟩
    exact .binary computable leftInt rightInt

theorem hasType_call_iff {name : String} {args : List Node} :
    HasType table names (.call name args) type ↔
      ∃ known, table.known? name = some known ∧ HaveTypes table names args known.params ∧
        ∃ others, known.returns = type :: others := by
  constructor
  · intro typed
    cases typed with
    | call declared arguments returns => exact ⟨_, declared, arguments, _, returns⟩
  · rintro ⟨known, declared, arguments, others, returns⟩
    exact .call declared arguments returns

theorem hasType_group_iff {inner : Node} :
    HasType table names (.group inner) type ↔ HasType table names inner type := by
  constructor
  · intro typed
    cases typed with
    | group typed => exact typed
  · exact .group

theorem haveTypes_cons_iff {node : Node} {nodes : List Node} {types : List ValueType} :
    HaveTypes table names (node :: nodes) types ↔
      ∃ first rest, types = first :: rest ∧ HasType table names node first ∧
        HaveTypes table names nodes rest := by
  constructor
  · intro typed
    cases typed with
    | cons first rest => exact ⟨_, _, rfl, first, rest⟩
  · rintro ⟨_, _, rfl, first, rest⟩
    exact .cons first rest

end Inversion

/-- A declaration adds a name of a known type that is not in scope yet. -/
inductive Declares (names : Names) (declared : Declaration) : Names → Prop
  | fresh {type : ValueType} (unused : names.lookup declared.name = none)
      (known : scalar? declared.type = some type) :
      Declares names declared ((declared.name, type) :: names)

/-- An assignment is to a name of a type, which it may declare. -/
inductive Assigns (names : Names) : Target → ValueType → Names → Prop
  | var {use : Variable} {type : ValueType} (declared : names.lookup use.name = some type) :
      Assigns names (.var use) type names
  | decl {declared : Declaration} {type : ValueType}
      (declares : Declares names declared ((declared.name, type) :: names)) :
      Assigns names (.decl declared) type ((declared.name, type) :: names)

/-- A node is a statement of a function that returns some types, and leaves some names. -/
inductive Statement (table : FunctionTable) (returns : List ValueType) (names : Names) :
    Node → Names → Prop
  | decl {declared : Declaration} {after : Names} (declares : Declares names declared after) :
      Statement table returns names (.decl declared) after
  | assign {target : Target} {value : Node} {type : ValueType} {after : Names}
      (assigns : Assigns names target type after) (typed : HasType table after value type) :
      Statement table returns names (.assign target value) after
  | call {name : String} {args : List Node} {known : Known}
      (declared : table.known? name = some known)
      (arguments : HaveTypes table names args known.params) :
      Statement table returns names (.call name args) names
  | ret {values : List Node} (typed : HaveTypes table names values returns) :
      Statement table returns names (.ret values) names

section StatementInversion

variable {table : FunctionTable} {names : Names} {returns : List ValueType}

theorem statement_call_iff {name : String} {args : List Node} {known : Known}
    (declared : table.known? name = some known) :
    Statement table returns names (.call name args) names ↔
      HaveTypes table names args known.params := by
  constructor
  · intro statement
    cases statement with
    | call declaredAgain arguments =>
        obtain rfl := Option.some.inj (declaredAgain.symm.trans declared)
        exact arguments
  · exact .call declared

theorem statement_ret_iff {values : List Node} :
    Statement table returns names (.ret values) names ↔
      HaveTypes table names values returns := by
  constructor
  · intro statement
    cases statement with
    | ret typed => exact typed
  · exact .ret

end StatementInversion

/-- Nodes are statements of a function that returns some types. -/
inductive Statements (table : FunctionTable) (returns : List ValueType) :
    Names → List Node → Prop
  | nil {names : Names} : Statements table returns names []
  | cons {names after : Names} {node : Node} {rest : List Node}
      (first : Statement table returns names node after)
      (others : Statements table returns after rest) :
      Statements table returns names (node :: rest)

/-- A node ends the function it is in. -/
def IsReturn : Node → Prop
  | .ret _ => True
  | _ => False

/-- A node declares a name and does nothing else. -/
def IsDeclaration : Node → Prop
  | .decl _ => True
  | _ => False

/-- A body fits its header and what is known of its function. -/
structure IsBody (table : FunctionTable) (header : Signature) (known : Known) (body : List Node) :
    Prop where
  /-- The parameters can be told apart. -/
  params : (header.params.map (·.name)).Nodup
  /-- The types of the parameters are the ones that callers know. -/
  paramTypes : header.params.map (scalar? ·.type) = known.params.map some
  /-- The parameters are in scope in the statements. -/
  statements : Statements table known.returns
    ((header.params.map (·.name)).zip known.params).reverse body
  /-- Nothing happens behind a return. -/
  ended : body.Pairwise fun earlier later => IsReturn earlier → IsDeclaration later
  /-- There is a return, unless there is nothing to return. -/
  returns : (∃ node ∈ body, IsReturn node) ∨ header.returns = [] ∧ known.returns = []

/-- A node is an item that may follow the items that have left a table. -/
def WellFormed (table : FunctionTable) : Node → Prop
  | .signature header => (table.known? header.name).isSome = true ∨ header.WellFormed
  | .function header body => table.Opens header ∧
      ∃ known, (table.declare header).known? header.name = some known ∧
        IsBody (table.declare header) header known body
  | _ => False

end Node

end Tuplet
