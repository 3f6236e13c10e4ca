import Tuplet.Proofs.AcceptedGrammar
import Tuplet.Proofs.Writing

/-!
# Reading back what was written

A program that can be written down is read back from its text. For each part of a program
its words stand alone, and all tokens that are spelled with them have a derivation whose
tree is that part. Both are carried together from the parts to the whole, and then the
grammar accepts the tokens of the text.
-/

namespace Tuplet

open Tuplet.Derivation Lexical

/-- Words that stand alone, where all tokens that are spelled with them have a property. -/
structure Writes (words : List String) (reads : List Token → Prop) : Prop where
  alone : ∀ word ∈ words, ∃ kind, StandsAlone word kind
  reads : ∀ tokens, Spelled tokens words → reads tokens

namespace Writes

variable {words front back : List String} {reads reads' frontReads backReads : List Token → Prop}

theorem mono (writes : Writes words reads) (weaker : ∀ tokens, reads tokens → reads' tokens) :
    Writes words reads' := by
  refine ⟨writes.alone, ?_⟩
  intro tokens spelled
  exact weaker tokens (writes.reads tokens spelled)

theorem nil : Writes [] (· = []) := by
  refine ⟨List.forall_mem_nil _, ?_⟩
  intro tokens spelled
  exact List.forall₂_nil_right_iff.mp spelled

theorem append (before : Writes front frontReads) (behind : Writes back backReads) :
    Writes (front ++ back) fun tokens =>
      ∃ left right, tokens = left ++ right ∧ frontReads left ∧ backReads right := by
  constructor
  · exact List.forall_mem_append.mpr ⟨before.alone, behind.alone⟩
  · intro tokens spelled
    have left := List.forall₂_take_append tokens front back spelled
    have right := List.forall₂_drop_append tokens front back spelled
    refine ⟨_, _, ?_, before.reads _ left, behind.reads _ right⟩
    exact (List.take_append_drop front.length tokens).symm

theorem word {text : String} {kind : TokenKind} (alone : StandsAlone text kind) :
    Writes [text] fun tokens => ∃ token, tokens = [token] ∧ token.kind = kind ∧
      token.text = text := by
  refine ⟨List.forall_mem_singleton.mpr ⟨kind, alone⟩, ?_⟩
  intro tokens spelled
  rcases List.forall₂_cons_right_iff.mp spelled with ⟨token, _, ⟨sameText, itsAlone⟩, none, rfl⟩
  rw [List.forall₂_nil_right_iff.mp none]
  exact ⟨token, rfl, itsAlone.unique alone, sameText⟩

theorem mark (text : String) (kind : TokenKind) (listed : (text, kind) ∈ fixedTexts) :
    Writes [text] fun tokens => ∃ mark : Mark kind, tokens = [mark.val] := by
  apply (word (standsAlone_fixed listed)).mono
  rintro _ ⟨token, rfl, isKind, _⟩
  exact ⟨⟨token, isKind⟩, rfl⟩

theorem parenthesised (writes : Writes words reads) :
    Writes ("(" :: (words ++ [")"])) fun tokens =>
      ∃ (opening : Mark .parenOpen) (inner : List Token) (closing : Mark .parenClose),
        tokens = opening.val :: (inner ++ [closing.val]) ∧ reads inner := by
  have opening := mark "(" .parenOpen (by decide)
  have closing := mark ")" .parenClose (by decide)
  apply (opening.append (writes.append closing)).mono
  rintro _ ⟨_, _, rfl, ⟨opening, rfl⟩, inner, _, rfl, isInner, closing, rfl⟩
  exact ⟨opening, inner, closing, rfl, isInner⟩

theorem ended (writes : Writes words reads) :
    Writes (words ++ [";"]) fun tokens =>
      ∃ (inner : List Token) (semicolon : Mark .semicolon),
        tokens = inner ++ [semicolon.val] ∧ reads inner := by
  apply (writes.append (mark ";" .semicolon (by decide))).mono
  rintro _ ⟨inner, _, rfl, isInner, semicolon, rfl⟩
  exact ⟨inner, semicolon, rfl, isInner⟩

theorem plainName {text : String} (plain : isPlainName text = true) :
    Writes [text] fun tokens => ∃ name : ValidName, tokens = [name.val] ∧ name.val.text = text := by
  apply (word (standsAlone_plainName plain)).mono
  rintro _ ⟨token, rfl, isName, rfl⟩
  exact ⟨⟨token, isName, (Bool.and_eq_true_iff.mp plain).1⟩, rfl, rfl⟩

theorem plainType {text : String} (plain : isPlainType text = true) :
    Writes [text] fun tokens =>
      ∃ type : TypeName, tokens = [type.val] ∧ type.val.typeName = text := by
  have primitive : ∀ type : Primitive, type ≠ .void → (type.name, .primitive type) ∈ fixedTexts →
      Writes [type.name] fun tokens =>
        ∃ named : TypeName, tokens = [named.val] ∧ named.val.typeName = type.name := by
    intro type notVoid listed
    apply (mark type.name (.primitive type) listed).mono
    rintro _ ⟨⟨token, isType⟩, rfl⟩
    have named : token.IsType := by
      cases type with
      | int => exact .inl isType
      | float => exact .inr (.inl isType)
      | string => exact .inr (.inr (.inl isType))
      | void => exact absurd rfl notVoid
    exact ⟨⟨token, named⟩, rfl, by simp [Token.typeName, isType]⟩
  simp only [isPlainType, Bool.or_eq_true, List.contains_eq_mem, decide_eq_true_eq, List.mem_cons,
    List.not_mem_nil, or_false] at plain
  rcases plain with (rfl | rfl | rfl) | plain
  · exact primitive .int (by decide) (by decide)
  · exact primitive .float (by decide) (by decide)
  · exact primitive .string (by decide) (by decide)
  · apply (plainName plain).mono
    rintro _ ⟨⟨token, isValid⟩, rfl, rfl⟩
    exact ⟨⟨token, isValid.isType⟩, rfl, by simp [Token.typeName, isValid.1]⟩

section Lists

variable {α : Type} {wordsOf : α → List String} {one : α → List Token → Prop}

/-- What is written with commas between is read part by part. -/
theorem listed {many : List α → List Token → Prop}
    (last : ∀ part tokens, one part tokens → many [part] tokens)
    (more : ∀ part others front back (comma : Mark .comma), one part front → many others back →
      many (part :: others) (front ++ comma.val :: back))
    {part : α} {others : List α}
    (each : ∀ single ∈ part :: others, Writes (wordsOf single) (one single)) :
    Writes ([","].intercalate ((part :: others).map wordsOf)) (many (part :: others)) := by
  induction others generalizing part with
  | nil =>
      rw [List.map_singleton, List.intercalate_singleton]
      exact (each part (List.mem_singleton_self part)).mono (last part)
  | cons next rest ih =>
      rcases List.forall_mem_cons.mp each with ⟨first, others⟩
      rw [List.map_cons, List.map_cons, List.intercalate_cons_cons, List.append_assoc,
        ← List.map_cons]
      apply (first.append ((mark "," .comma (by decide)).append (ih others))).mono
      rintro _ ⟨front, _, rfl, isPart, _, back, rfl, ⟨comma, rfl⟩, areOthers⟩
      exact more part (next :: rest) front back comma isPart areOthers

/-- What is written one after the other is read one after the other. -/
theorem sequence {δ : Type} {tokensOf : δ → List Token} {tree : δ → α} {parts : List α}
    (each : ∀ part ∈ parts, Writes (wordsOf part) fun tokens =>
      ∃ derivation, tokensOf derivation = tokens ∧ tree derivation = part) :
    Writes (parts.flatMap wordsOf) fun tokens =>
      ∃ derivations : List δ, derivations.flatMap tokensOf = tokens ∧
        derivations.map tree = parts := by
  induction parts with
  | nil =>
      apply nil.mono
      rintro _ rfl
      exact ⟨[], rfl, rfl⟩
  | cons part rest ih =>
      rcases List.forall_mem_cons.mp each with ⟨first, others⟩
      rw [List.flatMap_cons]
      apply (first.append (ih others)).mono
      rintro _ ⟨_, _, rfl, ⟨derivation, rfl, rfl⟩, derivations, rfl, rfl⟩
      exact ⟨derivation :: derivations, rfl, rfl⟩

end Lists

end Writes

namespace Node

variable {first : Node} {links : List (Operator × Node)}

theorem form_leftFold (link : Operator × Node) :
    (first.leftFold (link :: links)).form = .binary := by
  induction links generalizing first link with
  | nil => rfl
  | cons next rest ih => exact ih next

/-- A chain with an operator in it is a binary expression. -/
theorem form_ofLeastRise (link : Operator × Node) :
    (first.ofLeastRise (link :: links)).form = .binary := by
  rw [ofLeastRise]
  split
  case h_1 => exact form_leftFold link
  case h_2 => rfl

theorem ofLeastRise_nil : first.ofLeastRise [] = first := ofLeastRise_of_none rfl

theorem ofLeastRise_singleton {op : Operator} {right : Node} :
    first.ofLeastRise [(op, right)] = .binary op first right := ofLeastRise_of_none rfl

/-- Tokens that derive a value. -/
def DerivedBy (value : Node) (tokens : List Token) : Prop :=
  ∃ expression : Expression, expression.tokens = tokens ∧ expression.tree = value

def AllDerivedBy (values : List Node) (tokens : List Token) : Prop :=
  ∃ derivation : Values, derivation.tokens = tokens ∧ derivation.trees = values

theorem derivedBy_operand (operand : Operand) : operand.tree.DerivedBy operand.tokens := by
  refine ⟨.chain operand .nil, ?_, ?_⟩
  · simp [Expression.tokens, Links.tokens]
  · simp [Expression.tree, Links.links, ofLeastRise_nil]

/-- What derives no binary expression is an operand. -/
theorem DerivedBy.exists_operand {value : Node} {tokens : List Token}
    (derived : value.DerivedBy tokens) (notBinary : value.form ≠ .binary) :
    ∃ operand : Operand, operand.tokens = tokens ∧ operand.tree = value := by
  rcases derived with ⟨⟨operand, links⟩, rfl, rfl⟩
  cases links with
  | nil =>
      refine ⟨operand, ?_, ?_⟩
      · simp [Expression.tokens, Links.tokens]
      · simp [Expression.tree, Links.links, ofLeastRise_nil]
  | cons op sign next others =>
      exact absurd (form_ofLeastRise _) notBinary

theorem writes_maybeValues {values : List Node}
    (each : ∀ value ∈ values, Writes value.words value.DerivedBy) :
    Writes ([","].intercalate (wordsOfEach values)) fun tokens =>
      values = [] ∧ tokens = [] ∨ AllDerivedBy values tokens := by
  rw [wordsOfEach_eq]
  cases values with
  | nil =>
      apply Writes.nil.mono
      rintro _ rfl
      exact .inl ⟨rfl, rfl⟩
  | cons value others =>
      have written : Writes ([","].intercalate ((value :: others).map words))
          (AllDerivedBy (value :: others)) := by
        apply Writes.listed _ _ each
        · rintro _ _ ⟨expression, rfl, rfl⟩
          exact ⟨.last expression, rfl, rfl⟩
        · rintro _ _ _ _ comma ⟨expression, rfl, rfl⟩ ⟨values, rfl, rfl⟩
          exact ⟨.more expression comma values, rfl, rfl⟩
      apply written.mono
      intro tokens derived
      exact .inr derived

theorem writes_literal {value : Int32} (unsigned : 0 ≤ value.toInt) :
    Writes (literal value).words (literal value).DerivedBy := by
  rcases standsAlone_literal unsigned with ⟨alone, fits⟩
  apply (Writes.word alone).mono
  rintro _ ⟨token, rfl, isLiteral, sameText⟩
  rw [← sameText] at fits
  exact derivedBy_operand (.literal ⟨token, value, isLiteral, fits⟩)

theorem writes_var {use : Variable} (writable : use.isWritable = true) :
    Writes (var use).words (var use).DerivedBy := by
  rcases Variable.exists_of_isWritable writable with ⟨name, plain, rfl⟩
  apply (Writes.plainName plain).mono
  rintro _ ⟨⟨token, isValid⟩, rfl, rfl⟩
  exact derivedBy_operand (.var ⟨token, isValid.isName⟩)

theorem writes_group {inner : Node} (writes : Writes inner.words inner.DerivedBy) :
    Writes (group inner).words (group inner).DerivedBy := by
  rw [words]
  apply writes.parenthesised.mono
  rintro _ ⟨opening, _, closing, rfl, expression, rfl, rfl⟩
  exact derivedBy_operand (.group opening expression closing)

theorem writes_call {name : String} {args : List Node} (plain : isPlainName name = true)
    (each : ∀ arg ∈ args, Writes arg.words arg.DerivedBy) :
    Writes (call name args).words (call name args).DerivedBy := by
  rw [words]
  apply ((Writes.plainName plain).append (writes_maybeValues each).parenthesised).mono
  rintro _ ⟨_, _, rfl, ⟨⟨token, isValid⟩, rfl, rfl⟩, opening, _, closing, rfl,
    ⟨rfl, rfl⟩ | ⟨values, rfl, rfl⟩⟩
  · exact derivedBy_operand (.emptyCall ⟨token, isValid.isName⟩ opening closing)
  · exact derivedBy_operand (.call ⟨token, isValid.isName⟩ opening values closing)

theorem writes_binary {op : Operator} {left right : Node} (leftSingle : left.form ≠ .binary)
    (rightSingle : right.form ≠ .binary) (leftWrites : Writes left.words left.DerivedBy)
    (rightWrites : Writes right.words right.DerivedBy) :
    Writes (binary op left right).words (binary op left right).DerivedBy := by
  have sign := Writes.mark op.symbol (.operator op) (by cases op <;> decide)
  rw [words]
  apply (leftWrites.append (sign.append rightWrites)).mono
  rintro _ ⟨_, _, rfl, leftDerived, _, _, rfl, ⟨sign, rfl⟩, rightDerived⟩
  rcases leftDerived.exists_operand leftSingle with ⟨leftOperand, rfl, rfl⟩
  rcases rightDerived.exists_operand rightSingle with ⟨rightOperand, rfl, rfl⟩
  refine ⟨.chain leftOperand (.cons op sign rightOperand .nil), ?_, ?_⟩
  · simp [Expression.tokens, Links.tokens]
  · simp [Expression.tree, Links.links, ofLeastRise_singleton]

/-- A value is read as what was written. -/
theorem writes_value (value : Node) (isValue : value.isValue = true) :
    Writes value.words value.DerivedBy := by
  match value with
  | .literal value => exact writes_literal (of_decide_eq_true isValue)
  | .var use => exact writes_var isValue
  | .binary op left right =>
      simp only [Node.isValue, Bool.and_eq_true, decide_eq_true_eq] at isValue
      rcases isValue with ⟨⟨⟨leftSingle, rightSingle⟩, leftValue⟩, rightValue⟩
      exact writes_binary leftSingle rightSingle (writes_value left leftValue)
        (writes_value right rightValue)
  | .call name args =>
      simp only [Node.isValue, Bool.and_eq_true, areValues_iff] at isValue
      apply writes_call isValue.1
      intro arg occurs
      exact writes_value arg (isValue.2 arg occurs)
  | .group inner =>
      simp only [Node.isValue] at isValue
      exact writes_group (writes_value inner isValue)
termination_by sizeOf value

theorem writes_eachValue {values : List Node} (areValues : areValues values = true) :
    ∀ value ∈ values, Writes value.words value.DerivedBy := by
  intro value occurs
  exact writes_value value (areValues_iff.mp areValues value occurs)

/-- Tokens that derive a statement. -/
def StatedBy (statement : Node) (tokens : List Token) : Prop :=
  ∃ derivation : Derivation.Statement, derivation.tokens = tokens ∧ derivation.tree = statement

theorem writes_callStatement {name : String} {args : List Node} (plain : isPlainName name = true)
    (areValues : areValues args = true) :
    Writes ((call name args).words ++ [";"]) (call name args).StatedBy := by
  have written := (writes_maybeValues (writes_eachValue areValues)).parenthesised
  rw [words]
  apply ((Writes.plainName plain).append written).ended.mono
  rintro _ ⟨_, semicolon, rfl, _, _, rfl, ⟨name, rfl, rfl⟩, opening, _, closing, rfl,
    ⟨rfl, rfl⟩ | ⟨values, rfl, rfl⟩⟩
  · exact ⟨.emptyCall name opening closing semicolon, rfl, rfl⟩
  · refine ⟨.call name opening values closing semicolon, ?_, rfl⟩
    simp [Derivation.Statement.tokens]

theorem writes_ret {values : List Node} (areValues : areValues values = true) :
    Writes ((ret values).words ++ [";"]) (ret values).StatedBy := by
  have word := Writes.mark "return" .returnWord (by decide)
  rw [words]
  apply (word.append (writes_maybeValues (writes_eachValue areValues))).ended.mono
  rintro _ ⟨_, semicolon, rfl, _, _, rfl, ⟨word, rfl⟩, ⟨rfl, rfl⟩ | ⟨values, rfl, rfl⟩⟩
  · exact ⟨.emptyReturn word semicolon, rfl, rfl⟩
  · exact ⟨.ret word values semicolon, rfl, rfl⟩

theorem writes_declaration {declaration : Declaration} (writable : declaration.isWritable = true) :
    Writes declaration.words fun tokens => ∃ (type : TypeName) (name : Name),
      tokens = [type.val, name.val] ∧ ⟨name.val.text, type.val.typeName⟩ = declaration := by
  rcases declaration with ⟨name, type⟩
  rcases Bool.and_eq_true_iff.mp writable with ⟨plainType, plainName⟩
  apply ((Writes.plainType plainType).append (Writes.plainName plainName)).mono
  rintro _ ⟨_, _, rfl, ⟨type, rfl, rfl⟩, ⟨token, isValid⟩, rfl, rfl⟩
  exact ⟨type, ⟨token, isValid.isName⟩, rfl, rfl⟩

theorem writes_assign {target : Target} {value : Node} (writable : target.isWritable = true)
    (isValue : value.isValue = true) :
    Writes ((assign target value).words ++ [";"]) (assign target value).StatedBy := by
  have assigned := (Writes.mark "=" .assign (by decide)).append (writes_value value isValue)
  rw [words]
  cases target with
  | var use =>
      rcases Variable.exists_of_isWritable writable with ⟨name, plain, rfl⟩
      apply ((Writes.plainName plain).append assigned).ended.mono
      rintro _ ⟨_, semicolon, rfl, _, _, rfl, ⟨name, rfl, rfl⟩, _, _, rfl, ⟨sign, rfl⟩,
        expression, rfl, rfl⟩
      exact ⟨.assign name sign expression semicolon, rfl, rfl⟩
  | decl declaration =>
      apply ((writes_declaration writable).append assigned).ended.mono
      rintro _ ⟨_, semicolon, rfl, _, _, rfl, ⟨type, name, rfl, rfl⟩, _, _, rfl, ⟨sign, rfl⟩,
        expression, rfl, rfl⟩
      exact ⟨.initialise type name sign expression semicolon, rfl, rfl⟩

/-- A statement is read as what was written. -/
theorem writes_statement (statement : Node) (isStatement : statement.isStatement = true) :
    Writes (statement.words ++ [";"]) statement.StatedBy := by
  cases statement with
  | decl declaration =>
      apply (writes_declaration isStatement).ended.mono
      rintro _ ⟨_, semicolon, rfl, type, name, rfl, rfl⟩
      exact ⟨.decl type name semicolon, rfl, rfl⟩
  | assign target value =>
      rcases Bool.and_eq_true_iff.mp isStatement with ⟨writable, isValue⟩
      exact writes_assign writable isValue
  | call name args =>
      rcases Bool.and_eq_true_iff.mp isStatement with ⟨plain, values⟩
      exact writes_callStatement plain values
  | ret values => exact writes_ret isStatement
  | _ => cases isStatement

end Node

namespace Signature

/-- Tokens that derive a list of types. -/
def TypesDerivedBy (types : List String) (tokens : List Token) : Prop :=
  ∃ derivation : Types, derivation.tokens = tokens ∧ derivation.names = types

def ParamsDerivedBy (params : List Parameter) (tokens : List Token) : Prop :=
  ∃ derivation : Parameters, derivation.tokens = tokens ∧ derivation.params = params

theorem writes_types {type : String} {others : List String}
    (plain : ∀ one ∈ type :: others, isPlainType one = true) :
    Writes ([","].intercalate ((type :: others).map ([·]))) (TypesDerivedBy (type :: others)) := by
  have each : ∀ one ∈ type :: others, Writes [one] fun tokens =>
      ∃ type : TypeName, tokens = [type.val] ∧ type.val.typeName = one := by
    intro one occurs
    exact .plainType (plain one occurs)
  apply Writes.listed _ _ each
  · rintro _ _ ⟨type, rfl, rfl⟩
    exact ⟨.last type, rfl, rfl⟩
  · rintro _ _ _ _ comma ⟨type, rfl, rfl⟩ ⟨types, rfl, rfl⟩
    exact ⟨.more type comma types, rfl, rfl⟩

theorem writes_params {param : Parameter} {others : List Parameter}
    (writable : ∀ one ∈ param :: others, one.isWritable = true) :
    Writes ([","].intercalate ((param :: others).map Parameter.words))
      (ParamsDerivedBy (param :: others)) := by
  have each : ∀ one ∈ param :: others, Writes one.words fun tokens =>
      ∃ (type : TypeName) (name : ValidName),
        tokens = [type.val, name.val] ∧ ⟨type.val.typeName, name.val.text⟩ = one := by
    rintro ⟨type, name⟩ occurs
    rcases Bool.and_eq_true_iff.mp (writable _ occurs) with ⟨plainType, plainName⟩
    apply ((Writes.plainType plainType).append (Writes.plainName plainName)).mono
    rintro _ ⟨_, _, rfl, ⟨type, rfl, rfl⟩, name, rfl, rfl⟩
    exact ⟨type, name, rfl, rfl⟩
  apply Writes.listed _ _ each
  · rintro _ _ ⟨type, name, rfl, rfl⟩
    exact ⟨.last type name, rfl, rfl⟩
  · rintro _ _ _ _ comma ⟨type, name, rfl, rfl⟩ ⟨params, rfl, rfl⟩
    exact ⟨.more type name comma params, rfl, rfl⟩

theorem writes_returns {types : List String} (plain : ∀ type ∈ types, isPlainType type = true) :
    Writes (returnWords types) fun tokens =>
      ∃ returns : Returns, returns.tokens = tokens ∧ returns.names = types := by
  match types with
  | [] =>
      apply (Writes.mark "void" (.primitive .void) (by decide)).mono
      rintro _ ⟨word, rfl⟩
      exact ⟨.void word, rfl, rfl⟩
  | [type] =>
      apply (Writes.plainType (plain type (List.mem_singleton_self type))).mono
      rintro _ ⟨type, rfl, rfl⟩
      exact ⟨.bare type, rfl, rfl⟩
  | type :: next :: others =>
      apply (writes_types plain).parenthesised.mono
      rintro _ ⟨opening, _, closing, rfl, types, rfl, sameNames⟩
      exact ⟨.listed opening types closing, rfl, sameNames⟩

/-- The parameters between the parentheses, if there are any. -/
theorem writes_maybeParams {params : List Parameter}
    (writable : ∀ param ∈ params, param.isWritable = true) :
    Writes ([","].intercalate (params.map Parameter.words)) fun tokens =>
      ∃ derivation : Option Parameters, derivation.elim [] Parameters.tokens = tokens ∧
        derivation.elim [] Parameters.params = params := by
  cases params with
  | nil =>
      apply Writes.nil.mono
      rintro _ rfl
      exact ⟨none, rfl, rfl⟩
  | cons param others =>
      apply (writes_params writable).mono
      rintro _ ⟨params, rfl, sameParams⟩
      exact ⟨some params, rfl, sameParams⟩

/-- A signature is read as what was written. -/
theorem writes_signature {signature : Signature} (writable : signature.isWritable = true) :
    Writes signature.words fun tokens =>
      ∃ derivation : Derivation.Signature, derivation.tokens = tokens ∧
        derivation.header = signature := by
  rcases signature with ⟨name, returns, params⟩
  simp only [isWritable, Bool.and_eq_true, List.all_eq_true] at writable
  rcases writable with ⟨⟨plainReturns, plainName⟩, writableParams⟩
  have written := (writes_maybeParams writableParams).parenthesised
  apply ((writes_returns plainReturns).append ((Writes.plainName plainName).append written)).mono
  rintro _ ⟨_, _, rfl, ⟨returns, rfl, rfl⟩, _, _, rfl, ⟨name, rfl, rfl⟩, opening, _, closing, rfl,
    params, rfl, rfl⟩
  exact ⟨⟨returns, name, opening, params, closing⟩, rfl, rfl⟩

end Signature

namespace Node

/-- An item is read as what was written. -/
theorem writes_item (item : Node) (isItem : item.isItem = true) :
    Writes item.words fun tokens =>
      ∃ derivation : Item, derivation.tokens = tokens ∧ derivation.tree = item := by
  cases item with
  | signature header =>
      rw [words]
      apply (Signature.writes_signature isItem).ended.mono
      rintro _ ⟨_, semicolon, rfl, signature, rfl, rfl⟩
      exact ⟨.declaration signature (some semicolon), rfl, rfl⟩
  | function header body =>
      rcases Bool.and_eq_true_iff.mp isItem with ⟨writable, areStatements⟩
      have opening := Writes.mark "\x7b" .braceOpen (by decide)
      have closing := Writes.mark "\x7d" .braceClose (by decide)
      have statements : Writes (body.flatMap fun statement => statement.words ++ [";"]) _ :=
        Writes.sequence fun statement occurs =>
          writes_statement statement (List.all_eq_true.mp areStatements statement occurs)
      rw [words, wordsOfEach_eq, List.flatMap_map]
      apply ((Signature.writes_signature writable).append
        (opening.append (statements.append closing))).mono
      rintro _ ⟨_, _, rfl, ⟨signature, rfl, rfl⟩, _, _, rfl, ⟨opening, rfl⟩, _, _, rfl,
        ⟨body, rfl, rfl⟩, closing, rfl⟩
      exact ⟨.definition signature opening body closing, rfl, rfl⟩
  | _ => cases isItem

end Node

namespace Grammar

/--
A program that can be written down is read back from its text, with no error and with
nothing to tell.
-/
theorem program_tokenize_written (items : List Node) (writable : items.all Node.isItem = true) :
    (program (tokenize (written items))).items = items ∧
      (program (tokenize (written items))).error? = none ∧
      ∀ stop, (program (tokenize (written items))).diagnostics stop = [] := by
  have writes : Writes (items.flatMap Node.words) _ :=
    Writes.sequence fun item occurs =>
      Node.writes_item item (List.all_eq_true.mp writable item occurs)
  rcases writes.reads _ (spelled_tokenize writes.alone) with ⟨derivation, spelled, sameTrees⟩
  have read := program_tokens derivation
  rw [Program.tokens, spelled, Program.trees, sameTrees] at read
  rw [written, read]
  exact ⟨rfl, rfl, fun _ => rfl⟩

/-- Each form that an item, a statement or a value can have. -/
def everyForm : List Node :=
  [.signature ⟨"split", ["int", "money"], [⟨"int", "int_"⟩]⟩,
    .signature ⟨"log", [], []⟩,
    .function ⟨"main", ["int"], [⟨"int", "a"⟩, ⟨"float", "b"⟩]⟩
      [.decl ⟨"x", "string"⟩,
        .assign (.decl ⟨"y", "int"⟩) (.binary .root (.call "split" [.literal 2147483647])
          (.group (.binary .div (.var ⟨"a", none⟩) (.literal 0)))),
        .assign (.var ⟨"x", none⟩) (.group (.group (.var ⟨"y", none⟩))),
        .call "log" [],
        .ret [.var ⟨"x", none⟩, .call "split" [.var ⟨"a", none⟩, .literal 7]]]]

theorem program_tokenize_written_everyForm :
    everyForm.all Node.isItem = true ∧
      written everyForm = "( int , money ) split ( int int_ ) ; void log ( ) ; " ++
        "int main ( int a , float b ) \x7b string x ; " ++
        "int y = split ( 2147483647 ) ¬/ ( a / 0 ) ; x = ( ( y ) ) ; log ( ) ; " ++
        "return x , split ( a , 7 ) ; \x7d" ∧
      (program (tokenize (written everyForm))).items = everyForm := by
  have writable : everyForm.all Node.isItem = true := by decide +kernel
  exact ⟨writable, by decide +kernel, (program_tokenize_written everyForm writable).1⟩

end Grammar

end Tuplet
