import Tuplet.Proofs.Derivation
import Tuplet.Syntax.Reading

/-!
# One derivation for each token sequence

Two derivations from the same nonterminal whose tokens agree, up to what stands behind
them, are the same one and have the same tokens behind them. So derivations can be
compared part by part, from the left. The parts that may stop early need to know that
what stands behind cannot belong to them: behind a variable no parenthesis opens,
behind an expression there is no operator, and behind a signature without a body
there is neither a brace nor a semicolon.
-/

namespace Tuplet

namespace Derivation

variable {rest left : List Token}

@[simp]
theorem cons_val_eq_cons_val {isAllowed : Token → Prop}
    {one other : { token : Token // isAllowed token }} :
    one.val :: rest = other.val :: left ↔ one = other ∧ rest = left := by
  rw [List.cons.injEq, Subtype.ext_iff]

theorem Mark.ne {kind other : TokenKind} (one : Mark kind) (another : Mark other)
    (differ : kind ≠ other) : one.val ≠ another.val := by
  intro same
  exact differ (one.2.symm.trans ((congrArg Token.kind same).trans another.2))

/-- The tokens do not go on with an expression that has ended before them. -/
structure EndsExpression (rest : List Token) : Prop where
  noCall : headKind rest ≠ .parenOpen
  noOperator : (headKind rest).operator? = none

/-- The tokens do not go on with a list of expressions that has ended before them. -/
structure EndsValues (rest : List Token) : Prop extends EndsExpression rest where
  noComma : headKind rest ≠ .comma

theorem Mark.endsExpression_comma (comma : Mark .comma) : EndsExpression (comma.val :: rest) := by
  constructor <;> simp [headKind, comma.2, TokenKind.operator?]

theorem Mark.endsValues_parenClose (closing : Mark .parenClose) :
    EndsValues (closing.val :: rest) := by
  refine ⟨⟨?_, ?_⟩, ?_⟩ <;> simp [headKind, closing.2, TokenKind.operator?]

theorem Mark.endsValues_semicolon (semicolon : Mark .semicolon) :
    EndsValues (semicolon.val :: rest) := by
  refine ⟨⟨?_, ?_⟩, ?_⟩ <;> simp [headKind, semicolon.2, TokenKind.operator?]

/-- The kind of the token that an operand starts with. -/
def Operand.start : Operand → TokenKind
  | .literal _ => .intLiteral
  | .group _ _ _ => .parenOpen
  | .var _ | .emptyCall _ _ _ | .call _ _ _ _ => .name

theorem Operand.headKind_tokens (operand : Operand) :
    headKind (operand.tokens ++ rest) = operand.start := by
  cases operand with
  | literal literal => exact literal.isLiteral
  | group opening inner closing => exact opening.2
  | var name => exact name.2.1
  | emptyCall name opening closing => exact name.2.1
  | call name opening args closing => exact name.2.1

theorem Values.exists_headKind_tokens (values : Values) :
    ∃ operand : Operand, headKind (values.tokens ++ rest) = operand.start := by
  rcases values with ⟨⟨first, links⟩⟩ | ⟨⟨first, links⟩, comma, others⟩ <;>
  · simp only [Values.tokens, Expression.tokens, List.append_assoc]
    exact ⟨first, first.headKind_tokens⟩

/-- A list of expressions does not start with a token that ends one. -/
theorem Values.ne_cons {kind : TokenKind} (closing : Mark kind) (values : Values)
    (ends : kind = .parenClose ∨ kind = .semicolon) :
    values.tokens ++ rest ≠ closing.val :: left := by
  intro same
  rcases values.exists_headKind_tokens with ⟨operand, start⟩
  rw [same, headKind, closing.2] at start
  rcases ends with rfl | rfl <;> cases operand <;> simp [Operand.start] at start

theorem Links.noCall (links : Links) (ends : EndsExpression rest) :
    headKind (links.tokens ++ rest) ≠ .parenOpen := by
  cases links with
  | nil => exact ends.noCall
  | cons op sign operand others => simp [Links.tokens, headKind, sign.2]

theorem Literal.unique {one other : Literal} (same : one.token = other.token) : one = other := by
  rcases one with ⟨token, value, isLiteral, fits⟩
  rcases other with ⟨_, value', isLiteral', fits'⟩
  obtain rfl := same
  obtain rfl : value = value' := Option.some.inj (fits.symm.trans fits')
  rfl

mutual

theorem Operand.unique (one other : Operand) {rest left : List Token}
    (same : one.tokens ++ rest = other.tokens ++ left) (ends : headKind rest ≠ .parenOpen)
    (alsoEnds : headKind left ≠ .parenOpen) : one = other ∧ rest = left := by
  have starts : one.start = other.start := by
    rw [← one.headKind_tokens, same, other.headKind_tokens]
  -- of those that start with a name, a variable stands out by what follows it, and an
  -- empty call by the parenthesis at once
  cases one with
  | literal literal =>
      cases other with
      | literal other =>
          simp only [Operand.tokens, List.cons_append, List.nil_append, List.cons.injEq] at same
          rcases same with ⟨sameToken, rfl⟩
          rw [Literal.unique sameToken]
          exact ⟨rfl, rfl⟩
      | _ => simp [Operand.start] at starts
  | group opening inner closing =>
      cases other with
      | group opening' inner' closing' =>
          simp only [Operand.tokens, List.cons_append, List.append_assoc, List.nil_append,
            cons_val_eq_cons_val] at same
          rcases same with ⟨rfl, behind⟩
          rcases inner.unique inner' behind closing.endsValues_parenClose.toEndsExpression
            closing'.endsValues_parenClose.toEndsExpression with ⟨rfl, closes⟩
          rcases cons_val_eq_cons_val.mp closes with ⟨rfl, rfl⟩
          exact ⟨rfl, rfl⟩
      | _ => simp [Operand.start] at starts
  | var name =>
      cases other with
      | var name' =>
          simp only [Operand.tokens, List.cons_append, List.nil_append,
            cons_val_eq_cons_val] at same
          rcases same with ⟨rfl, rfl⟩
          exact ⟨rfl, rfl⟩
      | emptyCall name' opening' closing' =>
          simp only [Operand.tokens, List.cons_append, List.nil_append,
            cons_val_eq_cons_val] at same
          rcases same with ⟨rfl, rfl⟩
          exact absurd opening'.2 ends
      | call name' opening' args' closing' =>
          simp only [Operand.tokens, List.cons_append, List.nil_append,
            cons_val_eq_cons_val] at same
          rcases same with ⟨rfl, rfl⟩
          exact absurd opening'.2 ends
      | _ => simp [Operand.start] at starts
  | emptyCall name opening closing =>
      cases other with
      | var name' =>
          simp only [Operand.tokens, List.cons_append, List.nil_append,
            cons_val_eq_cons_val] at same
          rcases same with ⟨rfl, rfl⟩
          exact absurd opening.2 alsoEnds
      | emptyCall name' opening' closing' =>
          simp only [Operand.tokens, List.cons_append, List.nil_append,
            cons_val_eq_cons_val] at same
          rcases same with ⟨rfl, rfl, rfl, rfl⟩
          exact ⟨rfl, rfl⟩
      | call name' opening' args' closing' =>
          simp only [Operand.tokens, List.cons_append, List.append_assoc, List.nil_append,
            cons_val_eq_cons_val] at same
          exact absurd same.2.2.symm (args'.ne_cons closing (.inl rfl))
      | _ => simp [Operand.start] at starts
  | call name opening args closing =>
      cases other with
      | var name' =>
          simp only [Operand.tokens, List.cons_append, List.nil_append,
            cons_val_eq_cons_val] at same
          rcases same with ⟨rfl, rfl⟩
          exact absurd opening.2 alsoEnds
      | emptyCall name' opening' closing' =>
          simp only [Operand.tokens, List.cons_append, List.append_assoc, List.nil_append,
            cons_val_eq_cons_val] at same
          exact absurd same.2.2 (args.ne_cons closing' (.inl rfl))
      | call name' opening' args' closing' =>
          simp only [Operand.tokens, List.cons_append, List.append_assoc, List.nil_append,
            cons_val_eq_cons_val] at same
          rcases same with ⟨rfl, rfl, behind⟩
          rcases args.unique args' behind closing.endsValues_parenClose
            closing'.endsValues_parenClose with ⟨rfl, closes⟩
          rcases cons_val_eq_cons_val.mp closes with ⟨rfl, rfl⟩
          exact ⟨rfl, rfl⟩
      | _ => simp [Operand.start] at starts
termination_by structural one

theorem Expression.unique (one other : Expression) {rest left : List Token}
    (same : one.tokens ++ rest = other.tokens ++ left) (ends : EndsExpression rest)
    (alsoEnds : EndsExpression left) : one = other ∧ rest = left := by
  rcases one with ⟨first, links⟩
  rcases other with ⟨first', links'⟩
  simp only [Expression.tokens, List.append_assoc] at same
  rcases first.unique first' same (links.noCall ends) (links'.noCall alsoEnds) with ⟨rfl, behind⟩
  rcases links.unique links' behind ends alsoEnds with ⟨rfl, rfl⟩
  exact ⟨rfl, rfl⟩
termination_by structural one

theorem Links.unique (one other : Links) {rest left : List Token}
    (same : one.tokens ++ rest = other.tokens ++ left) (ends : EndsExpression rest)
    (alsoEnds : EndsExpression left) : one = other ∧ rest = left := by
  cases one with
  | nil =>
      cases other with
      | nil => exact ⟨rfl, same⟩
      | cons op' sign' operand' others' =>
          simp only [Links.tokens, List.nil_append, List.cons_append] at same
          have noOperator := ends.noOperator
          simp [same, headKind, sign'.2, TokenKind.operator?] at noOperator
  | cons op sign operand others =>
      cases other with
      | nil =>
          simp only [Links.tokens, List.nil_append, List.cons_append] at same
          have noOperator := alsoEnds.noOperator
          simp [← same, headKind, sign.2, TokenKind.operator?] at noOperator
      | cons op' sign' operand' others' =>
          simp only [Links.tokens, List.cons_append, List.append_assoc, List.cons.injEq] at same
          rcases same with ⟨sameSign, behind⟩
          obtain rfl : op = op' := by
            have kinds := congrArg Token.kind sameSign
            simpa [sign.2, sign'.2] using kinds
          obtain rfl := Subtype.ext sameSign
          rcases operand.unique operand' behind (others.noCall ends) (others'.noCall alsoEnds)
            with ⟨rfl, later⟩
          rcases others.unique others' later ends alsoEnds with ⟨rfl, rfl⟩
          exact ⟨rfl, rfl⟩
termination_by structural one

theorem Values.unique (one other : Values) {rest left : List Token}
    (same : one.tokens ++ rest = other.tokens ++ left) (ends : EndsValues rest)
    (alsoEnds : EndsValues left) : one = other ∧ rest = left := by
  cases one with
  | last value =>
      cases other with
      | last value' =>
          rcases value.unique value' same ends.toEndsExpression alsoEnds.toEndsExpression
            with ⟨rfl, rfl⟩
          exact ⟨rfl, rfl⟩
      | more value' comma' others' =>
          simp only [Values.tokens, List.cons_append, List.append_assoc] at same
          rcases value.unique value' same ends.toEndsExpression comma'.endsExpression_comma
            with ⟨rfl, rfl⟩
          exact absurd comma'.2 ends.noComma
  | more value comma others =>
      cases other with
      | last value' =>
          simp only [Values.tokens, List.cons_append, List.append_assoc] at same
          rcases value.unique value' same comma.endsExpression_comma alsoEnds.toEndsExpression
            with ⟨rfl, rfl⟩
          exact absurd comma.2 alsoEnds.noComma
      | more value' comma' others' =>
          simp only [Values.tokens, List.cons_append, List.append_assoc] at same
          rcases value.unique value' same comma.endsExpression_comma comma'.endsExpression_comma
            with ⟨rfl, behind⟩
          rcases cons_val_eq_cons_val.mp behind with ⟨rfl, later⟩
          rcases others.unique others' later ends alsoEnds with ⟨rfl, rfl⟩
          exact ⟨rfl, rfl⟩
termination_by structural one

end

/-- What tells the forms of statements apart: a return, or the second token. -/
def Statement.form : Statement → Option TokenKind
  | .emptyReturn _ _ | .ret _ _ _ => none
  | .emptyCall _ _ _ _ | .call _ _ _ _ _ => some .parenOpen
  | .decl _ _ _ | .initialise _ _ _ _ _ => some .name
  | .assign _ _ _ _ => some .assign

theorem Statement.form_eq (statement : Statement) :
    statement.form =
      if headKind (statement.tokens ++ rest) = .returnWord then none
      else some (headKind (statement.tokens ++ rest).tail) := by
  cases statement with
  | emptyReturn word semicolon => simp [form, tokens, headKind, word.2]
  | ret word values semicolon => simp [form, tokens, headKind, word.2]
  | emptyCall name opening closing semicolon =>
      simp [form, tokens, headKind, name.2.1, opening.2]
  | call name opening args closing semicolon =>
      simp [form, tokens, headKind, name.2.1, opening.2]
  | decl type name semicolon =>
      simp [form, tokens, headKind, name.2.1, type.2.kind_ne]
  | initialise type name sign value semicolon =>
      simp [form, tokens, headKind, name.2.1, type.2.kind_ne]
  | assign name sign value semicolon =>
      simp [form, tokens, headKind, name.2.1, sign.2]

theorem Statement.unique (one other : Statement)
    (same : one.tokens ++ rest = other.tokens ++ left) : one = other ∧ rest = left := by
  have forms : one.form = other.form := by
    rw [one.form_eq, same, ← other.form_eq]
  -- within a form, what is left to tell apart are lists that may be empty, and initial values
  cases one with
  | emptyReturn word semicolon =>
      cases other with
      | emptyReturn word' semicolon' =>
          simp only [tokens, List.cons_append, List.nil_append, cons_val_eq_cons_val] at same
          rcases same with ⟨rfl, rfl, rfl⟩
          exact ⟨rfl, rfl⟩
      | ret word' values' semicolon' =>
          simp only [tokens, List.cons_append, List.append_assoc, List.nil_append,
            cons_val_eq_cons_val] at same
          exact absurd same.2.symm (values'.ne_cons semicolon (.inr rfl))
      | _ => simp [form] at forms
  | ret word values semicolon =>
      cases other with
      | emptyReturn word' semicolon' =>
          simp only [tokens, List.cons_append, List.append_assoc, List.nil_append,
            cons_val_eq_cons_val] at same
          exact absurd same.2 (values.ne_cons semicolon' (.inr rfl))
      | ret word' values' semicolon' =>
          simp only [tokens, List.cons_append, List.append_assoc, List.nil_append,
            cons_val_eq_cons_val] at same
          rcases same with ⟨rfl, behind⟩
          rcases values.unique values' behind semicolon.endsValues_semicolon
            semicolon'.endsValues_semicolon with ⟨rfl, later⟩
          rcases cons_val_eq_cons_val.mp later with ⟨rfl, rfl⟩
          exact ⟨rfl, rfl⟩
      | _ => simp [form] at forms
  | emptyCall name opening closing semicolon =>
      cases other with
      | emptyCall name' opening' closing' semicolon' =>
          simp only [tokens, List.cons_append, List.nil_append, cons_val_eq_cons_val] at same
          rcases same with ⟨rfl, rfl, rfl, rfl, rfl⟩
          exact ⟨rfl, rfl⟩
      | call name' opening' args' closing' semicolon' =>
          simp only [tokens, List.cons_append, List.append_assoc, List.nil_append,
            cons_val_eq_cons_val] at same
          exact absurd same.2.2.symm (args'.ne_cons closing (.inl rfl))
      | _ => simp [form] at forms
  | call name opening args closing semicolon =>
      cases other with
      | emptyCall name' opening' closing' semicolon' =>
          simp only [tokens, List.cons_append, List.append_assoc, List.nil_append,
            cons_val_eq_cons_val] at same
          exact absurd same.2.2 (args.ne_cons closing' (.inl rfl))
      | call name' opening' args' closing' semicolon' =>
          simp only [tokens, List.cons_append, List.append_assoc, List.nil_append,
            cons_val_eq_cons_val] at same
          rcases same with ⟨rfl, rfl, behind⟩
          rcases args.unique args' behind closing.endsValues_parenClose
            closing'.endsValues_parenClose with ⟨rfl, later⟩
          simp only [cons_val_eq_cons_val] at later
          rcases later with ⟨rfl, rfl, rfl⟩
          exact ⟨rfl, rfl⟩
      | _ => simp [form] at forms
  | decl type name semicolon =>
      cases other with
      | decl type' name' semicolon' =>
          simp only [tokens, List.cons_append, List.nil_append, cons_val_eq_cons_val] at same
          rcases same with ⟨rfl, rfl, rfl, rfl⟩
          exact ⟨rfl, rfl⟩
      | initialise type' name' sign' value' semicolon' =>
          simp only [tokens, List.cons_append, List.nil_append, List.cons.injEq] at same
          exact absurd same.2.2.1 (semicolon.ne sign' (by simp))
      | _ => simp [form] at forms
  | initialise type name sign value semicolon =>
      cases other with
      | decl type' name' semicolon' =>
          simp only [tokens, List.cons_append, List.nil_append, List.cons.injEq] at same
          exact absurd same.2.2.1 (sign.ne semicolon' (by simp))
      | initialise type' name' sign' value' semicolon' =>
          simp only [tokens, List.cons_append, List.append_assoc, List.nil_append,
            cons_val_eq_cons_val] at same
          rcases same with ⟨rfl, rfl, rfl, behind⟩
          rcases value.unique value' behind semicolon.endsValues_semicolon.toEndsExpression
            semicolon'.endsValues_semicolon.toEndsExpression with ⟨rfl, later⟩
          rcases cons_val_eq_cons_val.mp later with ⟨rfl, rfl⟩
          exact ⟨rfl, rfl⟩
      | _ => simp [form] at forms
  | assign name sign value semicolon =>
      cases other with
      | assign name' sign' value' semicolon' =>
          simp only [tokens, List.cons_append, List.append_assoc, List.nil_append,
            cons_val_eq_cons_val] at same
          rcases same with ⟨rfl, rfl, behind⟩
          rcases value.unique value' behind semicolon.endsValues_semicolon.toEndsExpression
            semicolon'.endsValues_semicolon.toEndsExpression with ⟨rfl, later⟩
          rcases cons_val_eq_cons_val.mp later with ⟨rfl, rfl⟩
          exact ⟨rfl, rfl⟩
      | _ => simp [form] at forms

theorem Types.unique (one other : Types) (same : one.tokens ++ rest = other.tokens ++ left)
    (ends : headKind rest ≠ .comma) (alsoEnds : headKind left ≠ .comma) :
    one = other ∧ rest = left := by
  induction one generalizing other with
  | last type =>
      cases other with
      | last type' =>
          simp only [tokens, List.cons_append, List.nil_append, cons_val_eq_cons_val] at same
          rcases same with ⟨rfl, rfl⟩
          exact ⟨rfl, rfl⟩
      | more type' comma' others' =>
          simp only [tokens, List.cons_append, List.nil_append, cons_val_eq_cons_val] at same
          rcases same with ⟨rfl, rfl⟩
          exact absurd comma'.2 ends
  | more type comma others ih =>
      cases other with
      | last type' =>
          simp only [tokens, List.cons_append, List.nil_append, cons_val_eq_cons_val] at same
          rcases same with ⟨rfl, rfl⟩
          exact absurd comma.2 alsoEnds
      | more type' comma' others' =>
          simp only [tokens, List.cons_append, cons_val_eq_cons_val] at same
          rcases same with ⟨rfl, rfl, behind⟩
          rcases ih others' behind with ⟨rfl, rfl⟩
          exact ⟨rfl, rfl⟩

theorem Parameters.unique (one other : Parameters)
    (same : one.tokens ++ rest = other.tokens ++ left) (ends : headKind rest ≠ .comma)
    (alsoEnds : headKind left ≠ .comma) : one = other ∧ rest = left := by
  induction one generalizing other with
  | last type name =>
      cases other with
      | last type' name' =>
          simp only [tokens, List.cons_append, List.nil_append, cons_val_eq_cons_val] at same
          rcases same with ⟨rfl, rfl, rfl⟩
          exact ⟨rfl, rfl⟩
      | more type' name' comma' others' =>
          simp only [tokens, List.cons_append, List.nil_append, cons_val_eq_cons_val] at same
          rcases same with ⟨rfl, rfl, rfl⟩
          exact absurd comma'.2 ends
  | more type name comma others ih =>
      cases other with
      | last type' name' =>
          simp only [tokens, List.cons_append, List.nil_append, cons_val_eq_cons_val] at same
          rcases same with ⟨rfl, rfl, rfl⟩
          exact absurd comma.2 alsoEnds
      | more type' name' comma' others' =>
          simp only [tokens, List.cons_append, cons_val_eq_cons_val] at same
          rcases same with ⟨rfl, rfl, rfl, behind⟩
          rcases ih others' behind with ⟨rfl, rfl⟩
          exact ⟨rfl, rfl⟩

theorem Mark.noComma (closing : Mark .parenClose) : headKind (closing.val :: rest) ≠ .comma := by
  simp [headKind, closing.2]

theorem Mark.ne_type {kind : TokenKind} (mark : Mark kind) (type : TypeName)
    (notType : kind ∉ [.primitive .int, .primitive .float, .primitive .string, .name]) :
    mark.val ≠ type.val := by
  intro same
  exact type.2.kind_ne notType (same ▸ mark.2)

theorem Returns.unique (one other : Returns) (same : one.tokens ++ rest = other.tokens ++ left) :
    one = other ∧ rest = left := by
  cases one with
  | void word =>
      cases other with
      | void word' =>
          simp only [tokens, List.cons_append, List.nil_append, cons_val_eq_cons_val] at same
          rcases same with ⟨rfl, rfl⟩
          exact ⟨rfl, rfl⟩
      | bare type' => exact absurd (List.cons.inj same).1 (word.ne_type type' (by simp))
      | listed opening' types' closing' =>
          exact absurd (List.cons.inj same).1 (word.ne opening' (by simp))
  | bare type =>
      cases other with
      | void word' => exact absurd (List.cons.inj same).1.symm (word'.ne_type type (by simp))
      | bare type' =>
          simp only [tokens, List.cons_append, List.nil_append, cons_val_eq_cons_val] at same
          rcases same with ⟨rfl, rfl⟩
          exact ⟨rfl, rfl⟩
      | listed opening' types' closing' =>
          exact absurd (List.cons.inj same).1.symm (opening'.ne_type type (by simp))
  | listed opening types closing =>
      cases other with
      | void word' => exact absurd (List.cons.inj same).1 (opening.ne word' (by simp))
      | bare type' => exact absurd (List.cons.inj same).1 (opening.ne_type type' (by simp))
      | listed opening' types' closing' =>
          simp only [tokens, List.cons_append, List.append_assoc, List.nil_append,
            cons_val_eq_cons_val] at same
          rcases same with ⟨rfl, behind⟩
          rcases types.unique types' behind closing.noComma closing'.noComma with ⟨rfl, later⟩
          rcases cons_val_eq_cons_val.mp later with ⟨rfl, rfl⟩
          exact ⟨rfl, rfl⟩

/-- A list of parameters starts with a type. -/
theorem Parameters.ne_cons (params : Parameters) (closing : Mark .parenClose) :
    params.tokens ++ rest ≠ closing.val :: left := by
  intro same
  cases params with
  | last type name => exact closing.ne_type type (by simp) (List.cons.inj same).1.symm
  | more type name comma others =>
      exact closing.ne_type type (by simp) (List.cons.inj same).1.symm

theorem Signature.unique (one other : Signature)
    (same : one.tokens ++ rest = other.tokens ++ left) : one = other ∧ rest = left := by
  rcases one with ⟨returns, name, opening, params, closing⟩
  rcases other with ⟨returns', name', opening', params', closing'⟩
  simp only [tokens, List.append_assoc, List.cons_append, List.nil_append] at same
  rcases returns.unique returns' same with ⟨rfl, behind⟩
  simp only [cons_val_eq_cons_val] at behind
  rcases behind with ⟨rfl, rfl, behind⟩
  cases params with
  | none =>
      cases params' with
      | none =>
          rcases cons_val_eq_cons_val.mp behind with ⟨rfl, rfl⟩
          exact ⟨rfl, rfl⟩
      | some params' => exact absurd behind.symm (params'.ne_cons closing)
  | some params =>
      cases params' with
      | none => exact absurd behind (params.ne_cons closing')
      | some params' =>
          rcases params.unique params' behind closing.noComma closing'.noComma with ⟨rfl, later⟩
          rcases cons_val_eq_cons_val.mp later with ⟨rfl, rfl⟩
          exact ⟨rfl, rfl⟩

/-- No statement starts with what ends a body. -/
theorem Statement.headKind_tokens_ne (statement : Statement) {kind : TokenKind}
    (ends : kind = .braceClose ∨ kind = .endOfInput) :
    headKind (statement.tokens ++ rest) ≠ kind := by
  rcases ends with rfl | rfl <;> cases statement with
  | emptyReturn word _ => simp [tokens, headKind, word.2]
  | ret word _ _ => simp [tokens, headKind, word.2]
  | emptyCall name _ _ _ => simp [tokens, headKind, name.2.1]
  | call name _ _ _ _ => simp [tokens, headKind, name.2.1]
  | decl type _ _ => exact type.2.kind_ne (by simp)
  | initialise type _ _ _ _ => exact type.2.kind_ne (by simp)
  | assign name _ _ _ => simp [tokens, headKind, name.2.1]

theorem Statement.ne_cons (statement : Statement) (closing : Mark .braceClose) :
    statement.tokens ++ rest ≠ closing.val :: left := by
  intro same
  exact statement.headKind_tokens_ne (.inl rfl) ((congrArg headKind same).trans closing.2)

/-- The statements of a body and the brace that closes them. -/
theorem body_unique (one other : List Statement) (closing closing' : Mark .braceClose)
    (same : one.flatMap Statement.tokens ++ closing.val :: rest =
      other.flatMap Statement.tokens ++ closing'.val :: left) :
    one = other ∧ closing = closing' ∧ rest = left := by
  induction one generalizing other with
  | nil =>
      cases other with
      | nil => exact ⟨rfl, cons_val_eq_cons_val.mp same⟩
      | cons statement' others' =>
          simp only [List.flatMap_nil, List.flatMap_cons, List.nil_append, List.append_assoc]
            at same
          exact absurd same.symm (statement'.ne_cons closing)
  | cons statement others ih =>
      cases other with
      | nil =>
          simp only [List.flatMap_nil, List.flatMap_cons, List.nil_append, List.append_assoc]
            at same
          exact absurd same (statement.ne_cons closing')
      | cons statement' others' =>
          simp only [List.flatMap_cons, List.append_assoc] at same
          rcases statement.unique statement' same with ⟨rfl, behind⟩
          rcases ih others' behind with ⟨rfl, rest⟩
          exact ⟨rfl, rest⟩

/-- The tokens do not go on with an item that has ended before them. -/
structure EndsItem (rest : List Token) : Prop where
  noBody : headKind rest ≠ .braceOpen
  noSemicolon : headKind rest ≠ .semicolon

theorem Item.unique (one other : Item) (same : one.tokens ++ rest = other.tokens ++ left)
    (ends : EndsItem rest) (alsoEnds : EndsItem left) : one = other ∧ rest = left := by
  cases one with
  | definition signature opening body closing =>
      cases other with
      | definition signature' opening' body' closing' =>
          simp only [tokens, List.append_assoc, List.cons_append, List.nil_append] at same
          rcases signature.unique signature' same with ⟨rfl, behind⟩
          rcases cons_val_eq_cons_val.mp behind with ⟨rfl, later⟩
          rcases body_unique body body' closing closing' later with ⟨rfl, rfl, rfl⟩
          exact ⟨rfl, rfl⟩
      | declaration signature' semicolon' =>
          simp only [tokens, List.append_assoc, List.cons_append, List.nil_append] at same
          rcases signature.unique signature' same with ⟨rfl, behind⟩
          cases semicolon' with
          | none =>
              obtain rfl : _ = left := behind
              exact absurd opening.2 alsoEnds.noBody
          | some semicolon' =>
              exact absurd (List.cons.inj behind).1 (opening.ne semicolon' (by simp))
  | declaration signature semicolon =>
      cases other with
      | definition signature' opening' body' closing' =>
          simp only [tokens, List.append_assoc, List.cons_append, List.nil_append] at same
          rcases signature.unique signature' same with ⟨rfl, behind⟩
          cases semicolon with
          | none =>
              obtain rfl : rest = _ := behind
              exact absurd opening'.2 ends.noBody
          | some semicolon =>
              exact absurd (List.cons.inj behind).1 (semicolon.ne opening' (by simp))
      | declaration signature' semicolon' =>
          simp only [tokens, List.append_assoc] at same
          rcases signature.unique signature' same with ⟨rfl, behind⟩
          rcases semicolon with _ | semicolon <;> rcases semicolon' with _ | semicolon'
          · exact ⟨rfl, behind⟩
          · obtain rfl : rest = _ := behind
            exact absurd semicolon'.2 ends.noSemicolon
          · obtain rfl : _ = left := behind
            exact absurd semicolon.2 alsoEnds.noSemicolon
          · rcases cons_val_eq_cons_val.mp behind with ⟨rfl, rfl⟩
            exact ⟨rfl, rfl⟩

/-- Every item starts with what a function returns. -/
theorem Item.headKind_tokens_ne (item : Item) {kind : TokenKind}
    (notReturns : kind = .braceOpen ∨ kind = .semicolon ∨ kind = .endOfInput) :
    headKind (item.tokens ++ rest) ≠ kind := by
  have start : ∀ (signature : Signature) (behind : List Token),
      headKind (signature.tokens ++ behind) ≠ kind := by
    intro signature behind
    rcases signature with ⟨returns, name, opening, params, closing⟩
    rcases notReturns with rfl | rfl | rfl <;> cases returns with
    | void word => simp [Signature.tokens, Returns.tokens, headKind, word.2]
    | bare type => exact type.2.kind_ne (by simp)
    | listed opening types closing =>
        simp [Signature.tokens, Returns.tokens, headKind, opening.2]
  cases item with
  | definition signature opening body closing =>
      simp only [tokens, List.append_assoc]
      exact start signature _
  | declaration signature semicolon =>
      simp only [tokens, List.append_assoc]
      exact start signature _

theorem Item.tokens_append_ne_nil (item : Item) : item.tokens ++ rest ≠ [] := by
  intro same
  exact item.headKind_tokens_ne (.inr (.inr rfl)) (congrArg headKind same)

theorem Program.endsItem (program : Program) : EndsItem program.tokens := by
  cases program with
  | nil => constructor <;> simp [tokens, headKind]
  | cons item others =>
      simp only [tokens, List.flatMap_cons]
      exact ⟨item.headKind_tokens_ne (by simp), item.headKind_tokens_ne (by simp)⟩

/-- A token sequence is derived in at most one way. -/
theorem Program.unique (one other : Program) (same : one.tokens = other.tokens) :
    one = other := by
  induction one generalizing other with
  | nil =>
      cases other with
      | nil => rfl
      | cons item' others' => exact absurd same.symm item'.tokens_append_ne_nil
  | cons item others ih =>
      cases other with
      | nil => exact absurd same item.tokens_append_ne_nil
      | cons item' others' =>
          simp only [tokens, List.flatMap_cons] at same
          rcases item.unique item' same (Program.endsItem others) (Program.endsItem others')
            with ⟨rfl, behind⟩
          rw [ih others' behind]

end Derivation

end Tuplet
