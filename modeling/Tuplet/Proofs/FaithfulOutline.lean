import Tuplet.Proofs.SourceTrees
import Tuplet.Proofs.TellingApart
import Tuplet.Syntax.Outline
import Tuplet.Syntax.Program
import Tuplet.Token.Scan

/-!
# An outline determines its tree

Every line of an outline says what its node is, and all that is in the node itself. How many
children the node has is not said, but they are the lines behind it that are indented further.
So trees with the same outline are the same, if the names in them look like names. In trees that
are read from sources they do.
-/

namespace Tuplet

open Text (EndsWord IsWord TellsApart)

/-- Whether a text is a name and not the word for no type. -/
def isLegibleType (text : String) : Bool := isValidName text && text ≠ "void"

def Parameter.isLegible (param : Parameter) : Bool :=
  isLegibleType param.type && isValidName param.name

def Signature.isLegible (signature : Signature) : Bool :=
  signature.returns.all isLegibleType && isValidName signature.name &&
    signature.params.all Parameter.isLegible

def Declaration.isLegible (declaration : Declaration) : Bool :=
  isLegibleType declaration.type && isValidName declaration.name

def Variable.isLegible (use : Variable) : Bool :=
  isValidName use.name && use.type.all isLegibleType

def Target.isLegible : Target → Bool
  | .var use => use.isLegible
  | .decl declaration => declaration.isLegible

namespace Node

mutual

/-- Whether all names in a tree are names and all types are names of types. Which nodes stand where
does not matter. -/
def isLegible : Node → Bool
  | .literal _ => true
  | .var use => use.isLegible
  | .binary _ left right => left.isLegible && right.isLegible
  | .call name args => isValidName name && areLegible args
  | .assign target value => target.isLegible && value.isLegible
  | .decl declaration => declaration.isLegible
  | .signature header => header.isLegible
  | .function header body => header.isLegible && areLegible body
  | .ret values => areLegible values
  | .group inner => inner.isLegible

def areLegible : List Node → Bool
  | [] => true
  | node :: rest => node.isLegible && areLegible rest

end

end Node

theorem isWord_of_isLegibleType {text : String} (legible : isLegibleType text = true) :
    IsWord text :=
  Text.isWord_of_isValidName (Bool.and_eq_true_iff.mp legible).1

theorem tellsApart_typed {lead type name type' name' : String}
    (legible : isLegibleType type = true ∧ isValidName name = true)
    (legibleToo : isLegibleType type' = true ∧ isValidName name' = true) :
    TellsApart EndsWord (lead ++ type ++ " " ++ name) (lead ++ type' ++ " " ++ name')
      (type = type' ∧ name = name') := by
  have types := (isWord_of_isLegibleType legible.1).tellsApart
    (isWord_of_isLegibleType legibleToo.1)
  apply (types.lead lead).separated " " (by simp [Text.delimiters])
  intro _
  exact (Text.isWord_of_isValidName legible.2).tellsApart (Text.isWord_of_isValidName legibleToo.2)

theorem Parameter.tellsApart {one other : Parameter} (legible : one.isLegible = true)
    (legibleToo : other.isLegible = true) :
    TellsApart EndsWord one.render other.render (one = other) := by
  rcases one with ⟨type, name⟩
  rcases other with ⟨type', name'⟩
  rw [isLegible, Bool.and_eq_true] at legible legibleToo
  have told : TellsApart EndsWord ("" ++ type ++ " " ++ name) ("" ++ type' ++ " " ++ name')
      (type = type' ∧ name = name') := tellsApart_typed legible legibleToo
  rw [String.empty_append, String.empty_append] at told
  refine told.imp ?_
  rintro ⟨rfl, rfl⟩
  rfl

/-- No name starts with a character that names do not start with. -/
theorem starts_of_isValidName {name : String} (valid : isValidName name = true) {char : Char}
    (noStart : isNameStart char = false) : ∃ first ≠ char, name.toList.head? = some first := by
  rcases Text.exists_of_isValidName valid with ⟨first, rest, letters, starts, _⟩
  refine ⟨first, ?_, by rw [letters]; rfl⟩
  rintro rfl
  rw [noStart] at starts
  cases starts

theorem starts_of_isLegibleType {type : String} (legible : isLegibleType type = true) {char : Char}
    (noStart : isNameStart char = false) : ∃ first ≠ char, type.toList.head? = some first :=
  starts_of_isValidName (Bool.and_eq_true_iff.mp legible).1 noStart

theorem Parameter.starts {param : Parameter} (legible : param.isLegible = true) :
    ∃ first ≠ ')', param.render.toList.head? = some first := by
  rw [isLegible, Bool.and_eq_true] at legible
  have starts := starts_of_isLegibleType legible.1 (show isNameStart ')' = false by decide)
  exact Text.starts_append (Text.starts_append starts _) _

namespace Signature

variable {types others : List String} {type : String}

theorem tellsApart_types (legible : ∀ type ∈ types, isLegibleType type = true)
    (legibleToo : ∀ type ∈ others, isLegibleType type = true) :
    TellsApart EndsWord (", ".intercalate types ++ ")") (", ".intercalate others ++ ")")
      (types = others) := by
  have noStart : isNameStart ')' = false := by decide
  have told : TellsApart EndsWord (", ".intercalate (types.map id) ++ ")")
      (", ".intercalate (others.map id) ++ ")") (types = others) := by
    apply Text.tellsApart_list rfl (by decide) (by decide)
    · intro type isType other isOther
      exact (isWord_of_isLegibleType (legible type isType)).tellsApart
        (isWord_of_isLegibleType (legibleToo other isOther))
    · intro type isType
      exact starts_of_isLegibleType (legible type isType) noStart
    · intro type isType
      exact starts_of_isLegibleType (legibleToo type isType) noStart
  rwa [List.map_id, List.map_id] at told

/-- No types and one type are written as a word, and several as a list. -/
theorem renderReturns_cases (legible : ∀ type ∈ types, isLegibleType type = true) :
    (types.length ≤ 1 ∧ isValidName (renderReturns types) = true) ∨
      renderReturns types = "(" ++ (", ".intercalate types ++ ")") := by
  match types with
  | [] => exact .inl ⟨by decide, by decide⟩
  | [type] =>
      have isType := legible type List.mem_cons_self
      exact .inl ⟨Nat.le_refl 1, (Bool.and_eq_true_iff.mp isType).1⟩
  | _ :: _ :: _ => exact .inr (String.append_assoc ..)

theorem renderReturns_inj_of_short (short : types.length ≤ 1) (shortToo : others.length ≤ 1)
    (legible : ∀ type ∈ types, isLegibleType type = true)
    (legibleToo : ∀ type ∈ others, isLegibleType type = true)
    (same : renderReturns types = renderReturns others) : types = others := by
  have notVoid : isLegibleType "void" = false := by decide
  match types, others with
  | [], [] => rfl
  | [], [other] =>
      cases same
      simp [notVoid] at legibleToo
  | [type], [] =>
      cases same
      simp [notVoid] at legible
  | [type], [other] => exact congrArg (fun type => [type]) same
  | _ :: _ :: _, _ => simp at short
  | _, _ :: _ :: _ => simp at shortToo

theorem tellsApart_renderReturns (legible : ∀ type ∈ types, isLegibleType type = true)
    (legibleToo : ∀ type ∈ others, isLegibleType type = true) :
    TellsApart EndsWord (renderReturns types) (renderReturns others) (types = others) := by
  have noStart : isNameStart '(' = false := by decide
  rcases renderReturns_cases legible with ⟨short, isName⟩ | listed
  · rcases renderReturns_cases legibleToo with ⟨shortToo, isNameToo⟩ | listedToo
    · apply (Text.isWord_of_isValidName isName).tellsApart
        (Text.isWord_of_isValidName isNameToo) |>.imp
      exact renderReturns_inj_of_short short shortToo legible legibleToo
    · rw [listedToo]
      exact (Text.tellsApart_of_head_ne (by simp) (starts_of_isValidName isName noStart)).symm
  · rcases renderReturns_cases legibleToo with ⟨_, isNameToo⟩ | listedToo
    · rw [listed]
      exact Text.tellsApart_of_head_ne (by simp) (starts_of_isValidName isNameToo noStart)
    · rw [listed, listedToo]
      exact (tellsApart_types legible legibleToo).lead "("

theorem tellsApart_params {params others : List Parameter}
    (legible : ∀ param ∈ params, param.isLegible = true)
    (legibleToo : ∀ param ∈ others, param.isLegible = true) :
    TellsApart EndsWord (", ".intercalate (params.map Parameter.render) ++ ")")
      (", ".intercalate (others.map Parameter.render) ++ ")") (params = others) := by
  apply Text.tellsApart_list rfl (by decide) (by decide)
  · intro param isParam other isOther
    exact Parameter.tellsApart (legible param isParam) (legibleToo other isOther)
  · intro param isParam
    exact Parameter.starts (legible param isParam)
  · intro param isParam
    exact Parameter.starts (legibleToo param isParam)

theorem tellsApart {one other : Signature} (legible : one.isLegible = true)
    (legibleToo : other.isLegible = true) :
    TellsApart EndsWord one.render other.render (one = other) := by
  rcases one with ⟨name, returns, params⟩
  rcases other with ⟨name', returns', params'⟩
  simp only [isLegible, Bool.and_eq_true, List.all_eq_true] at legible legibleToo
  have told := (tellsApart_renderReturns legible.1.1 legibleToo.1.1).separated " "
    (by simp [Text.delimiters]) fun _ =>
      (Text.isWord_of_isValidName legible.1.2).tellsApart
        (Text.isWord_of_isValidName legibleToo.1.2)
  have told := told.separated "(" (by simp [Text.delimiters]) fun _ =>
    tellsApart_params legible.2 legibleToo.2
  simp only [render, String.append_assoc] at told ⊢
  refine told.imp ?_
  rintro ⟨⟨rfl, rfl⟩, rfl⟩
  rfl

end Signature

/-- The letter that the lines of a form start with. -/
def Form.initial : Form → Char
  | literal => 'L'
  | var => 'V'
  | binary => 'B'
  | call => 'C'
  | assign => 'A'
  | decl => 'D'
  | signature => 'S'
  | function => 'F'
  | ret => 'R'
  | group => 'G'

theorem Form.eq_of_initial_eq {form other : Form} (same : form.initial = other.initial) :
    form = other := by
  cases form <;> cases other <;> simp_all [initial]

theorem Form.initial_ne_blank (form : Form) : form.initial ≠ ' ' := by
  cases form <;> decide

namespace Node

theorem exists_outlineAt (depth : Nat) (node : Node) :
    ∃ tail, (node.outlineAt depth).toList =
      List.replicate (2 * depth) ' ' ++ node.form.initial :: tail := by
  have starts : List.replicate (2 * depth) ' ' ++ [node.form.initial] <+:
      (node.outlineAt depth).toList := by
    cases node with
    | var use =>
        rcases use with ⟨name, _ | type⟩ <;>
          simp [outlineAt, outlineVariable, outlineLine, form, Form.initial]
    | _ => simp [outlineAt, outlineDeclaration, outlineLine, form, Form.initial]
  rcases starts with ⟨tail, text⟩
  exact ⟨tail, by rw [← text, List.append_assoc, List.singleton_append]⟩

theorem tellsApart_of_form_ne {Ends : List Char → Prop} {same : Prop} {node other : Node}
    (depth : Nat) (differ : node.form ≠ other.form) :
    TellsApart Ends (node.outlineAt depth) (other.outlineAt depth) same := by
  rcases exists_outlineAt depth node with ⟨tail, text⟩
  rcases exists_outlineAt depth other with ⟨tail', text'⟩
  intro rest left _ _ agree
  simp only [text, text', List.append_assoc, List.append_cancel_left_eq, List.cons_append,
    List.cons.injEq] at agree
  exact absurd (Form.eq_of_initial_eq agree.1) differ

/-- Behind some nodes at a depth, there is nothing or a line that is indented less. -/
def Shallow (depth : Nat) (rest : List Char) : Prop :=
  rest = [] ∨ ∃ less < depth, ∃ first tail, first ≠ ' ' ∧
    rest = List.replicate (2 * less) ' ' ++ first :: tail

theorem Shallow.mono {depth further : Nat} {rest : List Char} (shallow : Shallow depth rest)
    (deeper : depth ≤ further) : Shallow further rest := by
  refine shallow.imp_right ?_
  rintro ⟨less, lower, indented⟩
  exact ⟨less, by omega, indented⟩

theorem shallow_outlineAt (depth : Nat) (node : Node) (rest : List Char) :
    Shallow (depth + 1) ((node.outlineAt depth).toList ++ rest) := by
  rcases exists_outlineAt depth node with ⟨tail, text⟩
  refine .inr ⟨depth, Nat.lt_succ_self depth, node.form.initial, tail ++ rest,
    node.form.initial_ne_blank, ?_⟩
  rw [text, List.append_assoc, List.cons_append]

theorem eq_of_indented {blanks more : Nat} {first other : Char} {tail others : List Char}
    (visible : first ≠ ' ') (visibleToo : other ≠ ' ')
    (same : List.replicate blanks ' ' ++ first :: tail =
      List.replicate more ' ' ++ other :: others) : blanks = more := by
  induction blanks generalizing more with
  | zero =>
      cases more with
      | zero => rfl
      | succ more => exact absurd (List.cons.inj same).1 visible
  | succ blanks ih =>
      cases more with
      | zero => exact absurd (List.cons.inj same).1.symm visibleToo
      | succ more => exact congrArg (· + 1) (ih (List.cons.inj same).2)

/-- A line at a depth is not indented less. -/
theorem not_shallow_outlineAt (depth : Nat) (node : Node) (rest : List Char) :
    ¬ Shallow depth ((node.outlineAt depth).toList ++ rest) := by
  rcases exists_outlineAt depth node with ⟨tail, text⟩
  rw [text, List.append_assoc, List.cons_append]
  rintro (empty | ⟨less, lower, first, others, visible, same⟩)
  · simp at empty
  · have blanks := eq_of_indented node.form.initial_ne_blank visible same
    omega

theorem shallow_outlineAllAt {depth : Nat} {rest : List Char} (shallow : Shallow depth rest)
    (nodes : List Node) : Shallow (depth + 1) ((outlineAllAt depth nodes).toList ++ rest) := by
  cases nodes with
  | nil => exact shallow.mono (Nat.le_succ depth)
  | cons node nodes =>
      rw [outlineAllAt, String.toList_append, List.append_assoc]
      exact shallow_outlineAt depth node _

section Lines

variable {Ends : List Char → Prop} {same : Prop} {text other : String}

theorem tellsApart_line (depth : Nat) (told : TellsApart EndsWord text other same) :
    TellsApart Ends (outlineLine depth text) (outlineLine depth other) same :=
  (told.lead _).closed "\n" (by simp [Text.delimiters])

/-- A line does not end where another one goes on with a type. -/
theorem tellsApart_line_typed (depth : Nat) {more : Prop} (type : String)
    (told : TellsApart EndsWord text other more) :
    TellsApart Ends (outlineLine depth text) (outlineLine depth (other ++ ": " ++ type)) same := by
  have ended : TellsApart Ends "\n" (": " ++ (type ++ "\n")) same :=
    Text.tellsApart_of_head_ne rfl ⟨':', by decide, by simp⟩
  have behind := (told.lead (String.ofList (List.replicate (2 * depth) ' '))).append
    (by simp [Text.delimiters]) (by simp [Text.delimiters]) fun _ => ended
  simp only [outlineLine, String.append_assoc] at behind ⊢
  exact behind.imp And.right

theorem tellsApart_variable (depth : Nat) {use another : Variable} (legible : use.isLegible = true)
    (legibleToo : another.isLegible = true) :
    TellsApart Ends (outlineVariable depth use) (outlineVariable depth another)
      (use = another) := by
  rcases use with ⟨name, type⟩
  rcases another with ⟨name', type'⟩
  rw [Variable.isLegible, Bool.and_eq_true] at legible legibleToo
  have names : TellsApart EndsWord ("Variable " ++ name) ("Variable " ++ name') (name = name') :=
    ((Text.isWord_of_isValidName legible.1).tellsApart
      (Text.isWord_of_isValidName legibleToo.1)).lead _
  cases type with
  | none =>
      cases type' with
      | none =>
          refine (tellsApart_line depth names).imp ?_
          rintro rfl
          rfl
      | some type' => exact tellsApart_line_typed depth type' names
  | some type =>
      cases type' with
      | none => exact (tellsApart_line_typed depth type names.symm).symm
      | some type' =>
          have types := (isWord_of_isLegibleType legible.2).tellsApart
            (isWord_of_isLegibleType legibleToo.2)
          have told := names.separated ": " (by simp [Text.delimiters]) fun _ => types
          refine (tellsApart_line depth told).imp ?_
          rintro ⟨rfl, rfl⟩
          rfl

theorem tellsApart_declaration (depth : Nat) {declaration another : Declaration}
    (legible : declaration.isLegible = true) (legibleToo : another.isLegible = true) :
    TellsApart Ends (outlineDeclaration depth declaration) (outlineDeclaration depth another)
      (declaration = another) := by
  rcases declaration with ⟨name, type⟩
  rcases another with ⟨name', type'⟩
  rw [Declaration.isLegible, Bool.and_eq_true] at legible legibleToo
  refine (tellsApart_line depth (tellsApart_typed legible legibleToo)).imp ?_
  rintro ⟨rfl, rfl⟩
  rfl

theorem tellsApart_target (depth : Nat) {target another : Target}
    (legible : target.isLegible = true) (legibleToo : another.isLegible = true) :
    TellsApart Ends (outlineTarget depth target) (outlineTarget depth another)
      (target = another) := by
  have forms (use : Variable) (declaration : Declaration) :
      TellsApart Ends (outlineVariable depth use) (outlineDeclaration depth declaration)
        (target = another) := by
    have told : TellsApart Ends ((Node.var use).outlineAt depth)
        ((Node.decl declaration).outlineAt depth) (target = another) :=
      tellsApart_of_form_ne depth (by simp [form])
    simpa only [outlineAt] using told
  cases target with
  | var use =>
      cases another with
      | var use' => exact (tellsApart_variable depth legible legibleToo).imp (congrArg _)
      | decl declaration' => exact forms use declaration'
  | decl declaration =>
      cases another with
      | var use' => exact (forms use' declaration).symm
      | decl declaration' =>
          exact (tellsApart_declaration depth legible legibleToo).imp (congrArg _)

theorem tellsApart_symbol (op another : Operator) :
    TellsApart EndsWord op.symbol another.symbol (op = another) := by
  have words (op : Operator) : IsWord op.symbol := by cases op <;> decide
  refine ((words op).tellsApart (words another)).imp ?_
  cases op <;> cases another <;> decide

end Lines

section Children

variable {Behind : List Char → Prop} {same more : Prop} {text other next another : String}

/-- A line is followed by whatever its children are. -/
theorem tellsApart_children (depth : Nat) (told : TellsApart EndsWord text other same)
    (children : same → TellsApart Behind next another more) :
    TellsApart Behind (outlineLine depth text ++ next) (outlineLine depth other ++ another)
      (same ∧ more) := by
  have line : TellsApart (fun _ => True) (outlineLine depth text) (outlineLine depth other) same :=
    tellsApart_line depth told
  exact line.append (fun _ _ => trivial) (fun _ _ => trivial) children

end Children

theorem shallow_of_line {depth : Nat} (rest : List Char) (shallow : Shallow (depth + 1) rest) :
    Shallow (depth + 2) rest :=
  shallow.mono (Nat.le_succ (depth + 1))

theorem tellsApart_nil_cons {same : Prop} (depth : Nat) (node : Node) (nodes : List Node) :
    TellsApart (Shallow depth) (outlineAllAt depth []) (outlineAllAt depth (node :: nodes))
      same := by
  intro rest left shallow _ agree
  simp only [outlineAllAt, String.toList_empty, List.nil_append, String.toList_append,
    List.append_assoc] at agree
  rw [agree] at shallow
  exact absurd shallow (not_shallow_outlineAt depth node _)

mutual

/-- Nodes at a depth can be told apart, if what is behind them is not indented further. -/
theorem tellsApart_outlineAt : ∀ (depth : Nat) (node other : Node), node.isLegible = true →
    other.isLegible = true →
    TellsApart (Shallow (depth + 1)) (node.outlineAt depth) (other.outlineAt depth) (node = other)
  | depth, .literal value, other, _, _ => by
      cases other with
      | literal another =>
          have told := (Text.tellsApart_int value.toInt another.toInt).lead "Literal "
          refine (tellsApart_line depth told).imp ?_
          intro same
          rw [Int32.toInt_inj.mp same]
      | _ => exact tellsApart_of_form_ne depth (by simp [form])
  | depth, .var use, other, legible, legibleToo => by
      cases other with
      | var another => exact (tellsApart_variable depth legible legibleToo).imp (congrArg _)
      | _ => exact tellsApart_of_form_ne depth (by simp [form])
  | depth, .binary op left right, other, legible, legibleToo => by
      cases other with
      | binary op' left' right' =>
          rw [isLegible, Bool.and_eq_true] at legible legibleToo
          have first := tellsApart_children depth ((tellsApart_symbol op op').lead "Binary ")
            fun _ => tellsApart_outlineAt (depth + 1) left left' legible.1 legibleToo.1
          have second := tellsApart_outlineAt (depth + 1) right right' legible.2 legibleToo.2
          have told := first.append (fun rest _ => shallow_outlineAt _ right rest)
            (fun rest _ => shallow_outlineAt _ right' rest) fun _ => second.narrow shallow_of_line
          refine told.imp ?_
          rintro ⟨⟨rfl, rfl⟩, rfl⟩
          rfl
      | _ => exact tellsApart_of_form_ne depth (by simp [form])
  | depth, .call name args, other, legible, legibleToo => by
      cases other with
      | call name' args' =>
          rw [isLegible, Bool.and_eq_true] at legible legibleToo
          have names := (Text.isWord_of_isValidName legible.1).tellsApart
            (Text.isWord_of_isValidName legibleToo.1)
          have told := tellsApart_children depth (names.lead "Call ")
            fun _ => tellsApart_outlineAllAt (depth + 1) args args' legible.2 legibleToo.2
          refine told.imp ?_
          rintro ⟨rfl, rfl⟩
          rfl
      | _ => exact tellsApart_of_form_ne depth (by simp [form])
  | depth, .assign target value, other, legible, legibleToo => by
      cases other with
      | assign target' value' =>
          rw [isLegible, Bool.and_eq_true] at legible legibleToo
          have first : TellsApart (fun _ => True) _ _ (True ∧ target = target') :=
            tellsApart_children depth (Text.tellsApart_self "Assign")
              fun _ => tellsApart_target (depth + 1) legible.1 legibleToo.1
          have second := tellsApart_outlineAt (depth + 1) value value' legible.2 legibleToo.2
          have told := first.append (fun _ _ => trivial) (fun _ _ => trivial)
            fun _ => second.narrow shallow_of_line
          refine told.imp ?_
          rintro ⟨⟨_, rfl⟩, rfl⟩
          rfl
      | _ => exact tellsApart_of_form_ne depth (by simp [form])
  | depth, .decl declaration, other, legible, legibleToo => by
      cases other with
      | decl another => exact (tellsApart_declaration depth legible legibleToo).imp (congrArg _)
      | _ => exact tellsApart_of_form_ne depth (by simp [form])
  | depth, .signature header, other, legible, legibleToo => by
      cases other with
      | signature another =>
          have told := (Signature.tellsApart legible legibleToo).lead "Signature "
          exact (tellsApart_line depth told).imp (congrArg _)
      | _ => exact tellsApart_of_form_ne depth (by simp [form])
  | depth, .function header body, other, legible, legibleToo => by
      cases other with
      | function header' body' =>
          rw [isLegible, Bool.and_eq_true] at legible legibleToo
          have told := tellsApart_children depth
            ((Signature.tellsApart legible.1 legibleToo.1).lead "Function ")
            fun _ => tellsApart_outlineAllAt (depth + 1) body body' legible.2 legibleToo.2
          refine told.imp ?_
          rintro ⟨rfl, rfl⟩
          rfl
      | _ => exact tellsApart_of_form_ne depth (by simp [form])
  | depth, .ret values, other, legible, legibleToo => by
      cases other with
      | ret values' =>
          have told := tellsApart_children depth (Text.tellsApart_self "Return")
            fun _ => tellsApart_outlineAllAt (depth + 1) values values' legible legibleToo
          exact told.imp fun same => congrArg _ same.2
      | _ => exact tellsApart_of_form_ne depth (by simp [form])
  | depth, .group inner, other, legible, legibleToo => by
      cases other with
      | group inner' =>
          have told := tellsApart_children depth (Text.tellsApart_self "Group")
            fun _ => tellsApart_outlineAt (depth + 1) inner inner' legible legibleToo
          exact (told.imp fun same => congrArg _ same.2).narrow shallow_of_line
      | _ => exact tellsApart_of_form_ne depth (by simp [form])

theorem tellsApart_outlineAllAt : ∀ (depth : Nat) (nodes others : List Node),
    areLegible nodes = true → areLegible others = true →
    TellsApart (Shallow depth) (outlineAllAt depth nodes) (outlineAllAt depth others)
      (nodes = others)
  | depth, [], [], _, _ => (Text.tellsApart_self _).imp fun _ => rfl
  | depth, [], other :: others, _, _ => tellsApart_nil_cons depth other others
  | depth, node :: nodes, [], _, _ => (tellsApart_nil_cons depth node nodes).symm
  | depth, node :: nodes, other :: others, legible, legibleToo => by
      rw [areLegible, Bool.and_eq_true] at legible legibleToo
      have first := tellsApart_outlineAt depth node other legible.1 legibleToo.1
      have told := first.append (fun rest shallow => shallow_outlineAllAt shallow nodes)
        (fun rest shallow => shallow_outlineAllAt shallow others)
        fun _ => tellsApart_outlineAllAt depth nodes others legible.2 legibleToo.2
      refine told.imp ?_
      rintro ⟨rfl, rfl⟩
      rfl

end

theorem areLegible_eq_all (nodes : List Node) : areLegible nodes = nodes.all isLegible := by
  induction nodes with
  | nil => rfl
  | cons node nodes ih => rw [areLegible, ih, List.all_cons]

theorem outlineAllAt_zero (nodes : List Node) :
    outlineAllAt 0 nodes = String.join (nodes.map outline) := by
  induction nodes with
  | nil => rfl
  | cons node nodes ih => rw [outlineAllAt, ih, List.map_cons, String.join_cons, outline]

/-- Items of any shape whose names are names are determined by their outlines, written one after
the other. -/
theorem eq_of_outlines_eq {items others : List Node} (legible : items.all isLegible = true)
    (legibleToo : others.all isLegible = true)
    (same : String.join (items.map outline) = String.join (others.map outline)) :
    items = others := by
  rw [← areLegible_eq_all] at legible legibleToo
  rw [← outlineAllAt_zero, ← outlineAllAt_zero] at same
  exact (tellsApart_outlineAllAt 0 items others legible legibleToo [] [] (.inl rfl) (.inl rfl)
    (by rw [same])).1

end Node

theorem isLegibleType_of_isPlainType {type : String} (plain : isPlainType type = true) :
    isLegibleType type = true := by
  rw [isPlainType, Bool.or_eq_true, List.contains_iff_mem] at plain
  rcases plain with builtin | plain
  · have legible : ∀ type ∈ ["int", "float", "string"], isLegibleType type = true := by decide
    exact legible type builtin
  · have valid := isValidName_of_isPlainName plain
    have noVoid : type ≠ "void" := by
      rintro rfl
      exact absurd plain (by decide)
    rw [isLegibleType, valid, Bool.true_and, decide_eq_true noVoid]

theorem Declaration.isLegible_of_isWritable {declaration : Declaration}
    (writable : declaration.isWritable = true) : declaration.isLegible = true := by
  rw [isWritable, Bool.and_eq_true] at writable
  rw [isLegible, isLegibleType_of_isPlainType writable.1, isValidName_of_isPlainName writable.2]
  rfl

theorem Variable.isLegible_of_isWritable {use : Variable} (writable : use.isWritable = true) :
    use.isLegible = true := by
  rw [isWritable, Bool.and_eq_true, Option.isNone_iff_eq_none] at writable
  rw [isLegible, isValidName_of_isPlainName writable.1, writable.2]
  rfl

theorem Signature.isLegible_of_isWritable {signature : Signature}
    (writable : signature.isWritable = true) : signature.isLegible = true := by
  simp only [isWritable, isLegible, Parameter.isWritable, Parameter.isLegible, Bool.and_eq_true,
    List.all_eq_true] at writable ⊢
  rcases writable with ⟨⟨returns, named⟩, params⟩
  refine ⟨⟨?_, isValidName_of_isPlainName named⟩, ?_⟩
  · exact fun type isType => isLegibleType_of_isPlainType (returns type isType)
  · exact fun param isParam => (params param isParam).imp isLegibleType_of_isPlainType
      isValidName_of_isPlainName

namespace Node

theorem areLegible_iff {nodes : List Node} :
    areLegible nodes = true ↔ ∀ node ∈ nodes, node.isLegible = true := by
  rw [areLegible_eq_all, List.all_eq_true]

theorem SourceValue.isLegible {node : Node} (isValue : node.SourceValue) :
    node.isLegible = true := by
  induction isValue with
  | literal unsigned bounded => rfl
  | var writable => exact Variable.isLegible_of_isWritable writable
  | binary isLeft isRight left right => rw [Node.isLegible, left, right]; rfl
  | call plain areArgs args =>
      rw [Node.isLegible, isValidName_of_isPlainName plain, areLegible_iff.mpr args]
      rfl
  | group isInner inner => exact inner

theorem areLegible_of_sourceValue {nodes : List Node}
    (areValues : ∀ node ∈ nodes, node.SourceValue) : areLegible nodes = true :=
  areLegible_iff.mpr fun node isNode => (areValues node isNode).isLegible

theorem SourceStatement.isLegible {node : Node} (isStatement : node.SourceStatement) :
    node.isLegible = true := by
  cases isStatement with
  | decl writable => exact Declaration.isLegible_of_isWritable writable
  | @assign target value writable isValue =>
      have legible : target.isLegible = true := by
        cases target with
        | var use => exact Variable.isLegible_of_isWritable writable
        | decl declaration => exact Declaration.isLegible_of_isWritable writable
      rw [Node.isLegible, legible, isValue.isLegible]
      rfl
  | call plain areArgs =>
      rw [Node.isLegible, isValidName_of_isPlainName plain, areLegible_of_sourceValue areArgs]
      rfl
  | ret areValues => exact areLegible_of_sourceValue areValues

theorem SourceItem.isLegible {node : Node} (isItem : node.SourceItem) :
    node.isLegible = true := by
  cases isItem with
  | signature writable => exact Signature.isLegible_of_isWritable writable
  | function writable areStatements =>
      have body := areLegible_iff.mpr fun node isNode => (areStatements node isNode).isLegible
      rw [Node.isLegible, Signature.isLegible_of_isWritable writable, body]
      rfl

end Node

namespace Grammar

/-- Whatever is read from a source is legible. -/
theorem isLegible_program (source : String) :
    (program (tokenize source)).items.all Node.isLegible = true := by
  rw [List.all_eq_true]
  exact fun node isRead => (sourceItem_of_mem_program isRead).isLegible

/-- A function with a call in an expression. -/
def spacious : String := "int f(int a) \x7b return 2 * (a - f(a)), a; \x7d"

/-- The same function in another layout. -/
def dense : String := "int f(int a)\x7breturn 2*(a-f(a)),a;\x7d"

theorem eq_of_outlines_eq_layouts :
    (program (tokenize spacious)).items.all Node.isLegible = true ∧
      (program (tokenize dense)).items.all Node.isLegible = true ∧
      String.join ((program (tokenize spacious)).items.map Node.outline) =
        String.join ((program (tokenize dense)).items.map Node.outline) ∧
      (program (tokenize spacious)).items = (program (tokenize dense)).items := by
  have legible := isLegible_program spacious
  have legibleToo := isLegible_program dense
  have same : String.join ((program (tokenize spacious)).items.map Node.outline) =
      String.join ((program (tokenize dense)).items.map Node.outline) := by decide +kernel
  exact ⟨legible, legibleToo, same, Node.eq_of_outlines_eq legible legibleToo same⟩

end Grammar

end Tuplet
