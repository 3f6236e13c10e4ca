import Tuplet.Ir.Listing
import Tuplet.Proofs.DefinitionOrder
import Tuplet.Proofs.LegibleModules
import Tuplet.Proofs.TellingApart

/-!
# A listing determines its module

A listing shows the headers of functions, and of each instruction what it does and what it is
called. The ids of instructions without a result are not shown. They are known all the same: the
ids of a function are the first numbers, slots show theirs, and all other instructions are in the
order of their ids.

So two modules that were compiled from sources and have the same listing are the same.
-/

namespace Tuplet

open Text (EndsWord IsWord TellsApart)

namespace Ir

namespace ValueType

/-- The types without fields. -/
def fieldless : List ValueType := [.int32, .float32, .pointer, .void]

theorem struct_or_fieldless (type : ValueType) :
    (∃ fields, type = .struct fields) ∨ type ∈ fieldless := by
  cases type <;> simp [fieldless]

theorem renderAll_eq_map (types : List ValueType) : renderAll types = types.map render := by
  induction types with
  | nil => rfl
  | cons type types ih => rw [renderAll, ih, List.map_cons]

theorem render_struct (fields : List ValueType) :
    (struct fields).render = "\x7b " ++ (", ".intercalate (fields.map render) ++ " \x7d") := by
  rw [render, renderAll_eq_map, String.append_assoc]

/-- Types start with one of these characters. -/
def initials : List Char := ['i', 'f', 'p', 'v', '\x7b']

theorem starts_fieldless {type : ValueType} (isFieldless : type ∈ fieldless) :
    ∃ first ∈ initials, first ≠ '\x7b' ∧ type.render.toList.head? = some first := by
  cases type with
  | int32 => exact ⟨'i', by decide⟩
  | float32 => exact ⟨'f', by decide⟩
  | pointer => exact ⟨'p', by decide⟩
  | void => exact ⟨'v', by decide⟩
  | struct fields => simp [fieldless] at isFieldless

theorem starts (type : ValueType) {char : Char} (noInitial : char ∉ initials) :
    ∃ first ≠ char, type.render.toList.head? = some first := by
  have isInitial : ∃ first ∈ initials, type.render.toList.head? = some first := by
    rcases struct_or_fieldless type with ⟨fields, rfl⟩ | isFieldless
    · exact ⟨'\x7b', by decide, by simp [render_struct]⟩
    · rcases starts_fieldless isFieldless with ⟨first, isInitial, _, starts⟩
      exact ⟨first, isInitial, starts⟩
  rcases isInitial with ⟨first, isInitial, starts⟩
  refine ⟨first, ?_, starts⟩
  rintro rfl
  exact noInitial isInitial

theorem tellsApart_fieldless {type other : ValueType} (isFieldless : type ∈ fieldless) :
    TellsApart EndsWord type.render other.render (type = other) := by
  have words : ∀ type ∈ fieldless, IsWord type.render := by decide
  have differ : ∀ type ∈ fieldless, ∀ other ∈ fieldless,
      type.render = other.render → type = other := by decide
  rcases struct_or_fieldless other with ⟨fields, rfl⟩ | isFieldlessToo
  · rcases starts_fieldless isFieldless with ⟨first, _, different, starts⟩
    exact (Text.tellsApart_of_head_ne (by simp [render_struct]) ⟨first, different, starts⟩).symm
  · exact ((words type isFieldless).tellsApart (words other isFieldlessToo)).imp
      (differ type isFieldless other isFieldlessToo)

mutual

/-- Types are told apart by induction on one of them, since aggregates are lists of types. -/
theorem tellsApart : ∀ type other : ValueType,
    TellsApart EndsWord type.render other.render (type = other)
  | .struct fields, other => by
      rcases struct_or_fieldless other with ⟨others, rfl⟩ | isFieldless
      · rw [render_struct, render_struct]
        apply (TellsApart.lead _ _).imp (congrArg struct)
        apply Text.tellsApart_list rfl (by decide) (by decide)
        · exact fun field isField other _ => tellsApart_of_mem fields field isField other
        · exact fun field _ => field.starts (by decide)
        · exact fun field _ => field.starts (by decide)
      · exact (tellsApart_fieldless isFieldless).symm.imp Eq.symm
  | .int32, _ => tellsApart_fieldless (by decide)
  | .float32, _ => tellsApart_fieldless (by decide)
  | .pointer, _ => tellsApart_fieldless (by decide)
  | .void, _ => tellsApart_fieldless (by decide)

theorem tellsApart_of_mem : ∀ types : List ValueType, ∀ type ∈ types, ∀ other : ValueType,
    TellsApart EndsWord type.render other.render (type = other)
  | type :: _, _, .head _, other => tellsApart type other
  | _ :: types, type, .tail _ present, other => tellsApart_of_mem types type present other

end

end ValueType

namespace Module

/-- The text of a type that may be unknown. -/
theorem tellsApart_type? (type? other? : Option ValueType) :
    TellsApart EndsWord ((type?.map ValueType.render).getD "?")
      ((other?.map ValueType.render).getD "?") True := by
  have unknown (type : ValueType) : TellsApart EndsWord "?" type.render True :=
    Text.tellsApart_of_head_ne rfl (type.starts (by decide))
  cases type? with
  | none =>
      cases other? with
      | none => exact Text.tellsApart_self "?"
      | some other => exact unknown other
  | some type =>
      cases other? with
      | none => exact (unknown type).symm
      | some other => exact (type.tellsApart other).imp fun _ => trivial

/-- Two functions have the same parameters, which have valid names that differ. -/
structure SharesParams (function another : Function) : Prop where
  same : another.params = function.params
  valid : ∀ param ∈ function.params, isValidName param.name = true
  distinct : (function.params.map (·.name)).Nodup

variable {module other : Module} {function another : Function}

theorem exists_renderBare_param {index : Nat}
    (within : (Operand.param index).Within function.params.length) :
    ∃ param, function.params[index]? = some param ∧
      renderBare function (.param index) = "%" ++ param.name := by
  rw [Operand.within_param] at within
  have found := List.getElem?_eq_getElem within
  exact ⟨_, found, by simp only [renderBare, found]⟩

theorem eq_of_name_eq {params : List Param} (distinct : (params.map (·.name)).Nodup)
    {index index' : Nat} {param param' : Param} (found : params[index]? = some param)
    (found' : params[index']? = some param') (sameName : param.name = param'.name) :
    index = index' := by
  have inRange : index < (params.map (·.name)).length := by
    rw [List.length_map]
    exact (List.getElem?_eq_some_iff.mp found).1
  apply (List.getElem?_inj inRange distinct).mp
  rw [List.getElem?_map, List.getElem?_map, found, found', Option.map_some, Option.map_some,
    sameName]

/-- Constants, parameters and instructions are written differently, since no name starts like a
number. -/
theorem tellsApart_bare (shares : SharesParams function another) {operand operand' : Operand}
    (within : operand.Within function.params.length)
    (withinToo : operand'.Within another.params.length) :
    TellsApart EndsWord (renderBare function operand) (renderBare another operand')
      (operand = operand') := by
  have sign (text : String) : ("%" ++ text).toList.head? = some '%' := by simp
  have constant {same : Prop} (value : Int32) (text : String) :
      TellsApart EndsWord ("%" ++ text) (toString value.toInt) same :=
    Text.tellsApart_of_head_ne (sign text) (Text.starts_intToString _ (by decide) (by decide))
  cases operand with
  | const value =>
      cases operand' with
      | const value' =>
          refine (Text.tellsApart_int value.toInt value'.toInt).imp ?_
          intro same
          rw [Int32.toInt_inj.mp same]
      | param index' =>
          rcases exists_renderBare_param withinToo with ⟨param', _, text'⟩
          rw [text']
          exact (constant value _).symm
      | instr id' => exact (constant value _).symm
  | param index =>
      rcases exists_renderBare_param within with ⟨param, found, text⟩
      rw [text]
      have valid := shares.valid param (List.mem_of_getElem? found)
      cases operand' with
      | const value' => exact constant value' _
      | param index' =>
          rcases exists_renderBare_param withinToo with ⟨param', found', text'⟩
          rw [shares.same] at found'
          have valid' := shares.valid param' (List.mem_of_getElem? found')
          rw [text']
          refine (TellsApart.lead "%" ((Text.isWord_of_isValidName valid).tellsApart
            (Text.isWord_of_isValidName valid'))).imp ?_
          intro sameName
          rw [eq_of_name_eq shares.distinct found found' sameName]
      | instr id' => exact (Text.tellsApart_name_nat valid id').lead "%"
  | instr id =>
      cases operand' with
      | const value' => exact constant value' _
      | param index' =>
          rcases exists_renderBare_param withinToo with ⟨param', found', text'⟩
          rw [shares.same] at found'
          have valid' := shares.valid param' (List.mem_of_getElem? found')
          rw [text']
          exact ((Text.tellsApart_name_nat valid' id).lead "%").symm
      | instr id' => exact ((Text.tellsApart_nat id id').lead "%").imp (congrArg _)

theorem tellsApart_operand (module other : Module) (shares : SharesParams function another)
    {operand operand' : Operand}
    (within : operand.Within function.params.length)
    (withinToo : operand'.Within another.params.length) :
    TellsApart EndsWord (module.renderOperand function operand)
      (other.renderOperand another operand') (operand = operand') := by
  have told := (tellsApart_type? (module.typeOf? function operand)
    (other.typeOf? another operand')).separated " " (by simp [Text.delimiters])
    fun _ => tellsApart_bare shares within withinToo
  exact told.imp And.right

theorem starts_operand (module : Module) (function : Function) (operand : Operand) {char : Char}
    (noInitial : char ∉ '?' :: ValueType.initials) :
    ∃ first ≠ char, (module.renderOperand function operand).toList.head? = some first := by
  rw [List.mem_cons, not_or] at noInitial
  have starts : ∃ first ≠ char, (((module.typeOf? function operand).map ValueType.render).getD
      "?").toList.head? = some first := by
    cases module.typeOf? function operand with
    | none => exact ⟨'?', Ne.symm noInitial.1, rfl⟩
    | some type => exact type.starts noInitial.2
  exact Text.starts_append (Text.starts_append starts _) _

theorem tellsApart_operands (module other : Module) (shares : SharesParams function another)
    {close : String} {closer : Char} (starts : close.toList.head? = some closer)
    (closes : closer ∈ Text.delimiters) (noComma : closer ≠ ',') {operands operands' : List Operand}
    (within : ∀ operand ∈ operands, operand.Within function.params.length)
    (withinToo : ∀ operand ∈ operands', operand.Within another.params.length)
    {Ends : List Char → Prop} :
    TellsApart Ends (module.renderOperands function operands ++ close)
      (other.renderOperands another operands' ++ close) (operands = operands') := by
  have noInitial : ∀ char ∈ Text.delimiters, char ∉ '?' :: ValueType.initials := by
    simp [Text.delimiters, ValueType.initials]
  apply Text.tellsApart_list starts closes noComma
  · intro operand present operand' presentToo
    exact tellsApart_operand module other shares (within operand present)
      (withinToo operand' presentToo)
  · exact fun operand _ => starts_operand module function operand (noInitial closer closes)
  · exact fun operand _ => starts_operand other another operand (noInitial closer closes)

/-- The word that the text of an action starts with. -/
def keyword : Action → String
  | .alloca _ => "alloca"
  | .load _ _ => "load"
  | .store _ _ => "store"
  | .arith op _ _ => op.mnemonic
  | .call _ _ => "call"
  | .extract _ _ => "extractvalue"
  | .ret _ => "ret"

theorem isWord_keyword (action : Action) : IsWord (keyword action) := by
  cases action with
  | arith op left right =>
      simp only [keyword]
      cases op <;> decide
  | _ =>
      simp only [keyword]
      decide

theorem keyword_prefix (module : Module) (function : Function) (action : Action) :
    (keyword action).toList ++ [' '] <+: (module.renderAction function action).toList := by
  unfold renderAction
  cases action with
  | ret values => cases values <;> simp [keyword]
  | _ => simp [keyword]

/-- The kinds of actions, by the words that they start with. All arithmetic is one kind. -/
def kind (word : String) : Nat :=
  ["alloca", "load", "store", "call", "extractvalue", "ret"].idxOf word

theorem kind_mnemonic (op : Arithmetic) : kind op.mnemonic = 6 := by cases op <;> rfl

theorem tellsApart_of_kind_ne {action action' : Action} {Ends : List Char → Prop} {same : Prop}
    (differ : kind (keyword action) ≠ kind (keyword action')) :
    TellsApart Ends (module.renderAction function action) (other.renderAction another action')
      same := by
  rcases keyword_prefix module function action with ⟨body, text⟩
  rcases keyword_prefix other another action' with ⟨body', text'⟩
  intro rest left _ _ agree
  simp only [← text, ← text', List.append_assoc] at agree
  have words := (isWord_keyword action).tellsApart (isWord_keyword action') _ _
    (by simp [Text.delimiters]) (by simp [Text.delimiters]) agree
  exact absurd (congrArg kind words.1) differ

/-- An action ends with its line, or where the line goes on with a name. -/
def EndsAction (rest : List Char) : Prop :=
  (∃ tail, rest = '\n' :: tail) ∨ ∃ tail, rest = ' ' :: ';' :: tail

theorem EndsAction.endsWord {rest : List Char} (ends : EndsAction rest) : EndsWord rest := by
  rcases ends with ⟨tail, rfl⟩ | ⟨tail, rfl⟩
  · simp [Text.delimiters]
  · simp [Text.delimiters]

/-- Where there is nothing to return, no brace follows, even if a type of values is `void`. -/
theorem tellsApart_ret_nil {value : Operand} {values : List Operand} {same : Prop} :
    TellsApart EndsAction (module.renderAction function (.ret []))
      (other.renderAction another (.ret (value :: values))) same := by
  have types := (ValueType.void.tellsApart another.returns).lead "ret "
  have goesOn : TellsApart EndsAction ""
      (" \x7b " ++ (other.renderOperands another (value :: values) ++ " \x7d")) same := by
    rintro rest left (⟨tail, rfl⟩ | ⟨tail, rfl⟩) _ agree
    · simp at agree
    · simp at agree
  have told := types.append (fun rest ends => by simpa using EndsAction.endsWord ends)
    (fun rest _ => by simp [Text.delimiters]) fun _ => goesOn
  have text : module.renderAction function (.ret []) = "ret " ++ ValueType.void.render ++ "" := rfl
  have text' : other.renderAction another (.ret (value :: values)) =
      "ret " ++ another.returns.render ++
        (" \x7b " ++ (other.renderOperands another (value :: values) ++ " \x7d")) := by
    unfold renderAction
    simp only [String.append_assoc]
  rw [text, text']
  exact told.imp And.right

theorem tellsApart_ret (shares : SharesParams function another) {values values' : List Operand}
    (within : ∀ value ∈ values, value.Within function.params.length)
    (withinToo : ∀ value ∈ values', value.Within another.params.length) :
    TellsApart EndsAction (module.renderAction function (.ret values))
      (other.renderAction another (.ret values')) (values = values') := by
  cases values with
  | nil =>
      cases values' with
      | nil => exact (Text.tellsApart_self _).imp fun _ => rfl
      | cons value' values' => exact tellsApart_ret_nil
  | cons value values =>
      cases values' with
      | nil => exact tellsApart_ret_nil.symm
      | cons value' values' =>
          have types := (function.returns.tellsApart another.returns).lead "ret "
          have operands : TellsApart EndsAction _ _ _ := tellsApart_operands module other shares
            (show " \x7d".toList.head? = some ' ' from rfl) (by decide) (by decide) within withinToo
          have told := types.separated " \x7b " (by simp [Text.delimiters]) fun _ => operands
          unfold renderAction
          simp only [String.append_assoc] at told ⊢
          exact told.imp And.right

theorem tellsApart_mnemonic (op op' : Arithmetic) :
    TellsApart EndsWord op.mnemonic op'.mnemonic (op = op') := by
  have words (op : Arithmetic) : IsWord op.mnemonic := by cases op <;> decide
  refine ((words op).tellsApart (words op')).imp ?_
  cases op <;> cases op' <;> decide

theorem tellsApart_call (shares : SharesParams function another) {callee callee' : String}
    {args args' : List Operand} (legible : (Action.call callee args).Legible function.params.length)
    (legibleToo : (Action.call callee' args').Legible another.params.length) :
    TellsApart EndsAction (module.renderAction function (.call callee args))
      (other.renderAction another (.call callee' args')) (callee = callee' ∧ args = args') := by
  have types := ((module.callType callee).tellsApart (other.callType callee')).lead "call "
  have callees := (Text.isWord_of_isValidName (legible.callee callee args rfl)).tellsApart
    (Text.isWord_of_isValidName (legibleToo.callee callee' args' rfl))
  have operands : TellsApart EndsAction _ _ _ := tellsApart_operands module other shares
    (show ")".toList.head? = some ')' from rfl) (by decide) (by decide) legible.within
    legibleToo.within
  have told := types.separated " @" (by simp [Text.delimiters]) fun _ => callees
  have told := told.separated "(" (by simp [Text.delimiters]) fun _ => operands
  unfold renderAction
  simp only [String.append_assoc] at told ⊢
  exact told.imp fun same => ⟨same.1.2, same.2⟩

/-- Actions of the same kind are told apart part by part. -/
theorem tellsApart_action (shares : SharesParams function another) {action action' : Action}
    (legible : action.Legible function.params.length)
    (legibleToo : action'.Legible another.params.length) :
    TellsApart EndsAction (module.renderAction function action)
      (other.renderAction another action') (action = action') := by
  have comma (rest : List Char) : EndsWord (", ".toList ++ rest) := by simp [Text.delimiters]
  have blank (rest : List Char) : EndsWord (" ".toList ++ rest) := by simp [Text.delimiters]
  have within := legible.within
  have withinToo := legibleToo.within
  cases action with
  | alloca type =>
      cases action' with
      | alloca type' =>
          exact (((type.tellsApart type').lead "alloca ").imp (congrArg _)).narrow
            fun _ => EndsAction.endsWord
      | _ => exact tellsApart_of_kind_ne (by simp only [keyword, kind_mnemonic]; decide)
  | load type pointer =>
      cases action' with
      | load type' pointer' =>
          simp only [Action.operands, List.forall_mem_singleton] at within withinToo
          have pointers := tellsApart_operand module other shares within withinToo
          have told := ((type.tellsApart type').lead "load ").separated ", " comma fun _ => pointers
          refine (told.imp ?_).narrow fun _ => EndsAction.endsWord
          rintro ⟨rfl, rfl⟩
          rfl
      | _ => exact tellsApart_of_kind_ne (by simp only [keyword, kind_mnemonic]; decide)
  | store value pointer =>
      cases action' with
      | store value' pointer' =>
          simp only [Action.operands, List.forall_mem_cons] at within withinToo
          have values := tellsApart_operand module other shares within.1 withinToo.1
          have pointers := tellsApart_operand module other shares within.2.1 withinToo.2.1
          have told := (values.lead "store ").separated ", " comma fun _ => pointers
          refine (told.imp ?_).narrow fun _ => EndsAction.endsWord
          rintro ⟨rfl, rfl⟩
          rfl
      | _ => exact tellsApart_of_kind_ne (by simp only [keyword, kind_mnemonic]; decide)
  | arith op left right =>
      cases action' with
      | arith op' left' right' =>
          simp only [Action.operands, List.forall_mem_cons] at within withinToo
          have lefts := tellsApart_operand module other shares within.1 withinToo.1
          have rights := tellsApart_operand module other shares within.2.1 withinToo.2.1
          have told := ((tellsApart_mnemonic op op').separated " " blank fun _ => lefts).separated
            ", " comma fun _ => rights
          refine (told.imp ?_).narrow fun _ => EndsAction.endsWord
          rintro ⟨⟨rfl, rfl⟩, rfl⟩
          rfl
      | _ => exact tellsApart_of_kind_ne (by simp only [keyword, kind_mnemonic]; decide)
  | call callee args =>
      cases action' with
      | call callee' args' =>
          refine (tellsApart_call shares legible legibleToo).imp ?_
          rintro ⟨rfl, rfl⟩
          rfl
      | _ => exact tellsApart_of_kind_ne (by simp only [keyword, kind_mnemonic]; decide)
  | extract aggregate index =>
      cases action' with
      | extract aggregate' index' =>
          simp only [Action.operands, List.forall_mem_singleton] at within withinToo
          have aggregates := tellsApart_operand module other shares within withinToo
          have told := (aggregates.lead "extractvalue ").separated ", " comma fun _ =>
            Text.tellsApart_nat index index'
          refine (told.imp ?_).narrow fun _ => EndsAction.endsWord
          rintro ⟨rfl, rfl⟩
          rfl
      | _ => exact tellsApart_of_kind_ne (by simp only [keyword, kind_mnemonic]; decide)
  | ret values =>
      cases action' with
      | ret values' => exact (tellsApart_ret shares within withinToo).imp (congrArg _)
      | _ => exact tellsApart_of_kind_ne (by simp only [keyword, kind_mnemonic]; decide)

theorem starts_action (module : Module) (function : Function) (action : Action) :
    ∃ first ≠ '%', (module.renderAction function action).toList.head? = some first := by
  have starts : ∃ first ≠ '%', (keyword action).toList.head? = some first := by
    cases action with
    | arith op left right => cases op <;> simp [keyword, Arithmetic.mnemonic]
    | _ => simp [keyword]
  rcases starts with ⟨first, different, starts⟩
  rcases keyword_prefix module function action with ⟨body, text⟩
  refine ⟨first, different, ?_⟩
  rw [← text, List.append_assoc, List.head?_append, starts]
  rfl

/-- What a line says behind an action. -/
def renderName (instruction : Instruction) : String :=
  (if instruction.name.isEmpty then "" else " ; " ++ instruction.name) ++ "\n"

theorem endsAction_renderName (instruction : Instruction) (rest : List Char) :
    EndsAction ((renderName instruction).toList ++ rest) := by
  unfold renderName
  split
  · exact .inl ⟨rest, by simp⟩
  · exact .inr ⟨' ' :: (instruction.name ++ "\n").toList ++ rest, by simp⟩

theorem tellsApart_renderName {count count' : Nat} {instruction instruction' : Instruction}
    (legible : instruction.Legible count) (legibleToo : instruction'.Legible count')
    {Ends : List Char → Prop} :
    TellsApart Ends (renderName instruction) (renderName instruction')
      (instruction.name = instruction'.name) := by
  have word {count : Nat} {instruction : Instruction} (legible : instruction.Legible count) :
      IsWord instruction.name := by
    rcases legible.named with unnamed | valid
    · rw [unnamed]
      decide
    · exact Text.isWord_of_isValidName valid
  have goesOn (name : String) :
      ∃ first ≠ '\n', (" ; " ++ name ++ "\n").toList.head? = some first := ⟨' ', by simp⟩
  unfold renderName
  split
  · rename_i unnamed
    split
    · rename_i unnamedToo
      rw [String.isEmpty_iff.mp unnamed, String.isEmpty_iff.mp unnamedToo]
      exact (Text.tellsApart_self _).imp fun _ => rfl
    · exact Text.tellsApart_of_head_ne rfl (goesOn _)
  · split
    · exact (Text.tellsApart_of_head_ne rfl (goesOn _)).symm
    · exact (((word legible).tellsApart (word legibleToo)).lead " ; ").closed "\n"
        (by simp [Text.delimiters])

/-- The line of an instruction. -/
def line (module : Module) (function : Function) (instruction : Instruction) : String :=
  "  " ++ module.renderInstruction function instruction ++ "\n"

theorem line_eq (module : Module) (function : Function) (instruction : Instruction) :
    module.line function instruction =
      "  " ++
        ((if module.showsId instruction.action then "%" ++ toString instruction.id ++ " = "
          else "") ++
          (module.renderAction function instruction.action ++ renderName instruction)) := by
  simp only [line, renderInstruction, renderName, String.append_assoc]

/-- Instructions whose lines are the same: an id may differ if it is not shown. -/
structure Alike (module : Module) (instruction instruction' : Instruction) : Prop where
  name : instruction.name = instruction'.name
  action : instruction.action = instruction'.action
  id : module.showsId instruction.action = true → instruction.id = instruction'.id

theorem Alike.eq {instruction instruction' : Instruction}
    (alike : module.Alike instruction instruction') (sameId : instruction.id = instruction'.id) :
    instruction = instruction' := by
  rcases instruction with ⟨id, name, action⟩
  rcases instruction' with ⟨id', name', action'⟩
  rw [Instruction.mk.injEq]
  exact ⟨sameId, alike.name, alike.action⟩

theorem tellsApart_line (module other : Module) (shares : SharesParams function another)
    {instruction instruction' : Instruction}
    (legible : instruction.Legible function.params.length)
    (legibleToo : instruction'.Legible another.params.length) {Ends : List Char → Prop} :
    TellsApart Ends (module.line function instruction) (other.line another instruction')
      (module.Alike instruction instruction') := by
  have behind : TellsApart Ends
      (module.renderAction function instruction.action ++ renderName instruction)
      (other.renderAction another instruction'.action ++ renderName instruction') _ :=
    (tellsApart_action shares legible.toLegible legibleToo.toLegible).append
      (fun rest _ => endsAction_renderName instruction rest)
      (fun rest _ => endsAction_renderName instruction' rest)
      fun _ => tellsApart_renderName legible legibleToo
  have sign (id : Nat) (text : String) :
      ("%" ++ toString id ++ " = " ++ text).toList.head? = some '%' := by simp
  rw [line_eq, line_eq]
  apply TellsApart.lead
  split
  · split
    · have ids := (Text.tellsApart_nat instruction.id instruction'.id).lead "%"
      refine (ids.separated " = " (by simp [Text.delimiters]) fun _ => behind).imp ?_
      rintro ⟨sameId, sameAction, sameName⟩
      exact ⟨sameName, sameAction, fun _ => sameId⟩
    · rw [String.empty_append]
      exact Text.tellsApart_of_head_ne (sign _ _) (Text.starts_append (starts_action _ _ _) _)
  · rename_i hidden
    rw [String.empty_append]
    split
    · exact (Text.tellsApart_of_head_ne (sign _ _)
        (Text.starts_append (starts_action _ _ _) _)).symm
    · rw [String.empty_append]
      refine behind.imp ?_
      rintro ⟨sameAction, sameName⟩
      exact ⟨sameName, sameAction, fun shown => absurd shown hidden⟩

end Module

end Ir

namespace Draft

variable {module : Ir.Module} {draft draft' : Draft}

theorem slotInstruction_inj {slot slot' : String × Ir.Slot}
    (alike : module.Alike (slotInstruction slot) (slotInstruction slot')) : slot = slot' := by
  rcases slot with ⟨name, id, type⟩
  rcases slot' with ⟨name', id', type'⟩
  have sameName : name = name' := alike.name
  have sameId : id = id' := alike.id rfl
  have sameType : type = type' := Ir.Action.alloca.inj alike.action
  rw [sameName, sameId, sameType]

/-- Slots stand before all other instructions, and nothing else makes them. -/
theorem slots_eq_of_alike {slots slots' : List (String × Ir.Slot)}
    {code code' : List Ir.Instruction}
    (noSlots : ∀ instruction ∈ code, ∀ type, instruction.action ≠ .alloca type)
    (noSlotsToo : ∀ instruction ∈ code', ∀ type, instruction.action ≠ .alloca type)
    (alike : List.Forall₂ module.Alike (slots.map slotInstruction ++ code)
      (slots'.map slotInstruction ++ code')) :
    slots = slots' ∧ List.Forall₂ module.Alike code code' := by
  induction slots generalizing slots' with
  | nil =>
      cases slots' with
      | nil => exact ⟨rfl, alike⟩
      | cons slot' slots' =>
          rw [List.map_nil, List.nil_append] at alike
          rcases List.forall₂_cons_right_iff.mp alike with ⟨instruction, behind, first, _, rfl⟩
          exact absurd first.action (noSlots instruction List.mem_cons_self slot'.2.type)
  | cons slot slots ih =>
      cases slots' with
      | nil =>
          rw [List.map_nil, List.nil_append] at alike
          rcases List.forall₂_cons_left_iff.mp alike with ⟨instruction, behind, first, _, rfl⟩
          exact absurd first.action.symm (noSlotsToo instruction List.mem_cons_self slot.2.type)
      | cons slot' slots' =>
          rcases List.forall₂_cons.mp alike with ⟨first, behind⟩
          rcases ih behind with ⟨rfl, codes⟩
          exact ⟨by rw [slotInstruction_inj first], codes⟩

theorem code_eq_of_alike {code code' : List Ir.Instruction}
    (alike : List.Forall₂ module.Alike code code')
    (ids : code.map (·.id) = code'.map (·.id)) : code = code' := by
  induction alike with
  | nil => rfl
  | cons first behind ih =>
      rcases List.cons.inj ids with ⟨sameId, sameIds⟩
      rw [ih sameIds, first.eq sameId]

/-- The ids that are not shown are those that slots leave over, in order. -/
theorem eq_of_alike (arranged : draft.Arranged 0) (arrangedToo : draft'.Arranged 0)
    (alike : List.Forall₂ module.Alike draft.instructions draft'.instructions) :
    draft = draft' := by
  rcases slots_eq_of_alike arranged.noSlots arrangedToo.noSlots alike with ⟨sameSlots, codes⟩
  have sameNext : draft.next = draft'.next := by
    rw [next, next, sameSlots, codes.length_eq]
  have sameIds : (draft.code.map (·.id)).Perm (draft'.code.map (·.id)) := by
    have ids := arranged.ids
    rw [sameNext] at ids
    have perm := ids.trans arrangedToo.ids.symm
    rw [instructions, instructions, List.map_append, List.map_append, sameSlots] at perm
    exact (List.perm_append_left_iff _).mp perm
  have sameCode : draft.code = draft'.code := by
    apply code_eq_of_alike codes
    apply List.Perm.eq_of_pairwise _ arranged.code arrangedToo.code sameIds
    omega
  cases draft
  cases draft'
  rw [mk.injEq]
  exact ⟨sameSlots, sameCode⟩

end Draft

namespace Ir

namespace Module

variable {module other : Module} {function another : Function}

theorem tellsApart_param {param param' : Param} (valid : isValidName param.name = true)
    (validToo : isValidName param'.name = true) :
    TellsApart EndsWord (param.type.render ++ " %" ++ param.name)
      (param'.type.render ++ " %" ++ param'.name) (param = param') := by
  have names := (Text.isWord_of_isValidName valid).tellsApart (Text.isWord_of_isValidName validToo)
  have told := (param.type.tellsApart param'.type).separated " %" (by simp [Text.delimiters])
    fun _ => names
  refine told.imp ?_
  rintro ⟨sameType, sameName⟩
  rcases param with ⟨type, name⟩
  rcases param' with ⟨type', name'⟩
  rw [Param.mk.injEq]
  exact ⟨sameType, sameName⟩

theorem tellsApart_params {params params' : List Param}
    (valid : ∀ param ∈ params, isValidName param.name = true)
    (validToo : ∀ param ∈ params', isValidName param.name = true) {Ends : List Char → Prop} :
    TellsApart Ends (renderParams params ++ ")") (renderParams params' ++ ")")
      (params = params') := by
  have starts (param : Param) :
      ∃ first ≠ ')', (param.type.render ++ " %" ++ param.name).toList.head? = some first :=
    Text.starts_append (Text.starts_append (param.type.starts (by decide)) _) _
  apply Text.tellsApart_list rfl (by decide) (by decide)
  · exact fun param present param' presentToo =>
      tellsApart_param (valid param present) (validToo param' presentToo)
  · exact fun param _ => starts param
  · exact fun param _ => starts param

/-- What a header says of a function. -/
def signature (function : Function) : String :=
  function.returns.render ++ " @" ++ function.name ++ "(" ++ (renderParams function.params ++ ")")

theorem tellsApart_signature (legible : function.Legible) (legibleToo : another.Legible) :
    TellsApart (fun _ => True) (signature function) (signature another)
      ((function.returns = another.returns ∧ function.name = another.name) ∧
        function.params = another.params) := by
  have names := (Text.isWord_of_isValidName legible.named).tellsApart
    (Text.isWord_of_isValidName legibleToo.named)
  exact ((function.returns.tellsApart another.returns).separated " @" (by simp [Text.delimiters])
    fun _ => names).separated "(" (by simp [Text.delimiters])
    fun _ => tellsApart_params legible.params legibleToo.params

theorem renderFunction_declared (isDeclared : function.blocks = []) :
    module.renderFunction function = "\n" ++ ("declare " ++ (signature function ++ "\n")) := by
  have declares : function.isDeclaration = true := by rw [Function.isDeclaration, isDeclared]; rfl
  simp only [renderFunction, renderHeader, signature, declares, if_true, String.append_assoc]

theorem renderFunction_defined {code : List Instruction}
    (isDefined : function.blocks = [⟨"entry", code⟩]) :
    module.renderFunction function = "\n" ++ ("define " ++ (signature function ++
      (" \x7b\nentry:\n" ++ (String.join (code.map (module.line function)) ++ "\x7d\n")))) := by
  have defines : function.isDeclaration = false := by rw [Function.isDeclaration, isDefined]; rfl
  have opening : " \x7b\nentry:\n" = " \x7b\n" ++ ("entry" ++ ":\n") := rfl
  simp only [renderFunction, renderHeader, signature, defines, isDefined, renderBlock, opening,
    Bool.false_eq_true, if_false, List.map_cons, List.map_nil, String.join_cons, String.join_nil,
    String.append_assoc, String.empty_append]
  rfl

theorem tellsApart_declare_define (first second : String) {Ends : List Char → Prop} {same : Prop} :
    TellsApart Ends ("declare " ++ first) ("define " ++ second) same := by
  intro rest left _ _ agree
  simp at agree

theorem tellsApart_lines (module other : Module) (shares : SharesParams function another)
    {draft draft' : Draft} (legible : draft.Legible function.params.length)
    (legibleToo : draft'.Legible another.params.length) :
    TellsApart (fun rest => rest.head? ≠ some ' ')
      (String.join (draft.instructions.map (module.line function)))
      (String.join (draft'.instructions.map (other.line another))) (draft = draft') := by
  have starts (module : Module) (function : Function) (instruction : Instruction) :
      (module.line function instruction).toList.head? = some ' ' := by
    rw [line_eq, String.toList_append]
    rfl
  have told := Text.tellsApart_join
    (fun instruction present instruction' presentToo => tellsApart_line module other shares
      (legible.legible instruction present) (legibleToo.legible instruction' presentToo))
    (fun instruction _ => starts module function instruction)
    fun instruction _ => starts other another instruction
  exact told.imp (Draft.eq_of_alike legible.arranged legibleToo.arranged)

theorem function_eq (sameHeader : (function.returns = another.returns ∧
      function.name = another.name) ∧ function.params = another.params)
    (sameBody : function.blocks = another.blocks ∧ function.nextId = another.nextId) :
    function = another := by
  rcases function with ⟨name, params, returns, blocks, nextId⟩
  rcases another with ⟨name', params', returns', blocks', nextId'⟩
  rw [Function.mk.injEq]
  exact ⟨sameHeader.1.2, sameHeader.2, sameHeader.1.1, sameBody⟩

/-- Headers are compared first, since what they say of parameters is needed to read the body. -/
theorem tellsApart_function (module other : Module) (legible : function.Legible)
    (legibleToo : another.Legible) :
    TellsApart (fun _ => True) (module.renderFunction function) (other.renderFunction another)
      (function = another) := by
  have headers := tellsApart_signature legible legibleToo
  rcases legible.body with isDeclared | ⟨draft, draftLegible, fills⟩
  · rw [renderFunction_declared isDeclared.1]
    rcases legibleToo.body with isDeclaredToo | ⟨draft', _, fillsToo⟩
    · rw [renderFunction_declared isDeclaredToo.1]
      refine TellsApart.lead "\n" (TellsApart.lead "declare " ?_)
      refine (headers.closed "\n" fun _ => trivial).imp fun sameHeader => ?_
      apply function_eq sameHeader
      rw [isDeclared.1, isDeclared.2, isDeclaredToo.1, isDeclaredToo.2]
      exact ⟨rfl, rfl⟩
    · rw [renderFunction_defined (congrArg (·.blocks) fillsToo).symm]
      exact (tellsApart_declare_define _ _).lead "\n"
  · have isDefined := (congrArg (·.blocks) fills).symm
    rw [renderFunction_defined isDefined]
    rcases legibleToo.body with isDeclaredToo | ⟨draft', draftLegibleToo, fillsToo⟩
    · rw [renderFunction_declared isDeclaredToo.1]
      exact (tellsApart_declare_define _ _).symm.lead "\n"
    · rw [renderFunction_defined (congrArg (·.blocks) fillsToo).symm]
      refine TellsApart.lead "\n" (TellsApart.lead "define " ?_)
      have bodies (sameParams : function.params = another.params) :=
        tellsApart_lines module other ⟨sameParams.symm, legible.params, legible.distinct⟩
          draftLegible draftLegibleToo
      refine (headers.append (fun _ _ => trivial) (fun _ _ => trivial) fun sameHeader =>
        ((bodies sameHeader.2).closed "\x7d\n" (by simp)).lead " \x7b\nentry:\n").imp ?_
      rintro ⟨sameHeader, rfl⟩
      apply function_eq sameHeader
      rw [← fills, ← fillsToo]
      exact ⟨rfl, rfl⟩

theorem eq_of_render_eq (sameName : module.name = other.name)
    (legible : ∀ function ∈ module.functions, function.Legible)
    (legibleToo : ∀ function ∈ other.functions, function.Legible)
    (same : module.render = other.render) : module = other := by
  have starts (module : Module) (function : Function) :
      (module.renderFunction function).toList.head? = some '\n' := by
    rw [renderFunction, String.append_assoc, String.toList_append]
    rfl
  have told := Text.tellsApart_join
    (fun function present another presentToo => tellsApart_function module other
      (legible function present) (legibleToo another presentToo))
    (fun function _ => starts module function) fun function _ => starts other function
  have agree := congrArg String.toList same
  simp only [render, sameName, String.toList_append, List.append_cancel_left_eq] at agree
  have functions := (told [] [] (by simp) (by simp) (congrArg (· ++ []) agree)).1
  rcases module with ⟨name, functions⟩
  rcases other with ⟨name', functions'⟩
  rw [mk.injEq]
  exact ⟨sameName, List.forall₂_eq_eq_eq ▸ functions⟩

end Module

end Ir

/--
Two modules of one name that were compiled from sources are the same if their listings are,
whether or not the sources could be compiled.
-/
theorem module_eq_of_render_eq (moduleName first second : String)
    (same : (compile moduleName first).module.render = (compile moduleName second).module.render) :
    (compile moduleName first).module = (compile moduleName second).module := by
  have named (source : String) : (compile moduleName source).module.name = moduleName := by
    rw [compile_module, Lowering.moduleName_items (Lowering.describes_new moduleName)]
    rfl
  apply Ir.Module.eq_of_render_eq _ (legible_compile moduleName first)
    (legible_compile moduleName second) same
  rw [named, named]

/-- A function with a store, a call and a return, none of which shows its id. -/
def unbroken : String := "void f(int n) \x7b f(n); return; \x7d"

/-- The same function in another layout, before something that cannot be read. -/
def broken : String := "void f(int n)\x7bf(n);return;\x7d 1"

theorem module_eq_of_render_eq_broken :
    (compile "m" unbroken).isOk = true ∧ (compile "m" broken).isOk = false ∧
      (compile "m" unbroken).module.render = (compile "m" broken).module.render ∧
      (compile "m" unbroken).module = (compile "m" broken).module := by
  have same : (compile "m" unbroken).module.render = (compile "m" broken).module.render := by
    decide +kernel
  exact ⟨by decide +kernel, by decide +kernel, same,
    module_eq_of_render_eq "m" unbroken broken same⟩

end Tuplet
