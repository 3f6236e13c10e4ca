import Tuplet.Proofs.AcceptedGrammar
import Tuplet.Proofs.Lookahead

/-!
# Programs are refused at the first token that cannot go on

A rule that fails has read some tokens and stops at the one that it cannot use. What it
has read is the start of something that is derived: every rule that stops can be gone on
with, by putting a derivation of what it was about to read, and of what it would have
read behind that, where it stopped. Together with the fact that a rule looks no further
than the token it stops at, this places errors exactly. The tokens before the one that a
program is refused at are the start of a program that is accepted, and with that token
they are not.
-/

namespace Tuplet

namespace Reading

variable {bound : Nat} {α β : Type} {reading : Reading bound α} {rest : List Token}

theorem andMaybe_leaves
    {next : (value : α) → (rest : List Token) → rest.length < bound →
      Reading (rest.length + 1) β}
    (leaves : (reading.andMaybe next).rest = rest) :
    reading.rest = rest ∨ ∃ value middle shorter, reading.Reads value middle ∧
      (next value middle shorter).rest = rest := by
  cases reading with
  | failed error left log => exact .inl leaves
  | done value middle shorter log =>
      have reads : (done value middle shorter log).Reads value middle := reads_done.mpr ⟨rfl, rfl⟩
      rw [(andMaybe_of_reads reads next).1] at leaves
      exact .inr ⟨value, middle, shorter, reads, leaves⟩

theorem andThen_leaves
    {next : (value : α) → (rest : List Token) → rest.length < bound → Reading rest.length β}
    (leaves : (reading.andThen next).rest = rest) :
    reading.rest = rest ∨ ∃ value middle shorter, reading.Reads value middle ∧
      (next value middle shorter).rest = rest := by
  rw [andThen_eq_andMaybe] at leaves
  simpa using andMaybe_leaves leaves

end Reading

namespace Derivation

instance {kind : TokenKind} : Inhabited (Mark kind) := ⟨⟨⟨kind, "", .start⟩, rfl⟩⟩

instance : Inhabited ValidName := ⟨⟨⟨.name, "x", .start⟩, rfl, by decide⟩⟩

instance : Inhabited Name := ⟨⟨_, (default : ValidName).2.isName⟩⟩

instance : Inhabited TypeName := ⟨⟨_, (default : ValidName).2.isType⟩⟩

instance : Inhabited Operand := ⟨.var default⟩

instance : Inhabited Links := ⟨.nil⟩

instance : Inhabited Expression := ⟨.chain default default⟩

instance : Inhabited Values := ⟨.last default⟩

instance : Inhabited Statement := ⟨.emptyReturn default default⟩

instance : Inhabited Types := ⟨.last default⟩

instance : Inhabited Returns := ⟨.bare default⟩

instance : Inhabited Parameters := ⟨.last default default⟩

instance : Inhabited Signature := ⟨⟨default, default, default, none, default⟩⟩

/--
Some tokens are left of a sequence, and what stands before them is the start of something
that is derived.
-/
def Completable {δ : Type} (spell : δ → List Token) (tokens rest : List Token) : Prop :=
  ∃ before derivation, tokens = before ++ rest ∧ before <+: spell derivation

namespace Completable

variable {δ δ' : Type} {spell : δ → List Token} {spell' : δ' → List Token}
  {tokens rest : List Token}

/-- A rule that stops at once has read the start of anything. -/
theorem start [Inhabited δ] (stops : tokens = rest) : Completable spell tokens rest :=
  ⟨[], default, stops, List.nil_prefix⟩

theorem behind (before : List Token) (derivation : δ) (starts : before <+: spell derivation) :
    Completable spell (before ++ rest) rest :=
  ⟨before, derivation, rfl, starts⟩

theorem of_derived (derivation : δ) (derived : tokens = spell derivation ++ rest) :
    Completable spell tokens rest :=
  ⟨spell derivation, derivation, derived, List.prefix_rfl⟩

/-- A derivation that was begun may stand inside another one, behind tokens that were read. -/
theorem within (completable : Completable spell tokens rest) (front : List Token)
    (build : δ → δ')
    (starts : ∀ derivation, front ++ spell derivation <+: spell' (build derivation)) :
    Completable spell' (front ++ tokens) rest := by
  rcases completable with ⟨before, derivation, rfl, begun⟩
  refine ⟨front ++ before, build derivation, by simp, ?_⟩
  exact ((List.prefix_append_right_inj front).mpr begun).trans (starts derivation)

end Completable

/-- The tokens of a list and the one that closes it. -/
def closed {δ : Type} (kind : TokenKind) (spell : δ → List Token) (list : δ × Mark kind) :
    List Token :=
  spell list.1 ++ [list.2.val]

/-- The tokens of a list that may be missing. -/
def possibly {δ : Type} (spell : δ → List Token) (list : Option δ) : List Token :=
  list.elim [] spell

end Derivation

namespace Grammar

open Tuplet.Derivation Reading

variable {tokens rest : List Token} {bound : Nat}

theorem expect_leaves {kind : TokenKind} {error : TokenKind → GrammarError}
    (leaves : (expect kind error tokens).rest = rest) :
    tokens = rest ∨ ∃ mark : Mark kind, tokens = mark.val :: rest := by
  cases tokens with
  | nil => exact .inl leaves
  | cons token tokens =>
      by_cases same : token.kind = kind
      · exact .inr ⟨⟨token, same⟩, by simpa [expect, same] using leaves⟩
      · exact .inl (by simpa [expect, same] using leaves)

theorem behindValue_leaves {closing : TokenKind} {error : GrammarError}
    {list : (tokens : List Token) → Reading tokens.length (List Node)} {first : Node}
    (leaves : (behindValue closing error list first tokens).rest = rest) :
    tokens = rest ∨ (∃ closer : Mark closing, tokens = closer.val :: rest) ∨
      ∃ (comma : Mark .comma) (behind : List Token),
        tokens = comma.val :: behind ∧ (list behind).rest = rest := by
  cases tokens with
  | nil => exact .inl leaves
  | cons token behind =>
      by_cases closes : token.kind = closing
      · exact .inr (.inl ⟨⟨token, closes⟩, by simpa [behindValue, closes] using leaves⟩)
      by_cases isComma : token.kind = .comma
      · have notClosing : TokenKind.comma ≠ closing := isComma ▸ closes
        simp only [behindValue, isComma, notClosing, if_true, if_false, rest_behind, rest_map]
          at leaves
        exact .inr (.inr ⟨⟨token, isComma⟩, behind, rfl, leaves⟩)
      · exact .inl (by simpa [behindValue, closes, isComma] using leaves)

/-- Operands could have gone on if there are fewer tokens than some number. -/
def OperandsCompletable (bound : Nat) : Prop :=
  ∀ tokens rest : List Token, tokens.length < bound → (operand tokens).rest = rest →
    Completable Operand.tokens tokens rest

namespace OperandsCompletable

theorem chain (operands : OperandsCompletable bound) (within : tokens.length < bound)
    (leaves : (chain tokens).rest = rest) : Completable Links.tokens tokens rest := by
  induction length : tokens.length using Nat.strongRecOn generalizing tokens with
  | _ _ ih =>
      cases isOperator : (headKind tokens).operator? with
      | none =>
          have reads := (reads_chain_nil isOperator).mpr ⟨rfl, rfl⟩
          exact .start ((reads_iff.mp reads).1.symm.trans leaves)
      | some op =>
          have starts : headKind tokens = .operator op := by
            cases kind : headKind tokens <;> simp_all [TokenKind.operator?]
          rcases exists_of_headKind starts (by simp) with ⟨text, position, behind, rfl⟩
          simp only [List.length_cons] at within length
          let sign : Mark (.operator op) := ⟨⟨.operator op, text, position⟩, rfl⟩
          rw [Grammar.chain, rest_orNothing, rest_behind] at leaves
          rcases andMaybe_leaves leaves with leaves | ⟨right, middle, shorter, reads, leaves⟩
          · rw [rest_inside] at leaves
            exact (operands behind rest (by omega) leaves).within [sign.val]
              (.cons op sign · .nil) (by simp [Links.tokens])
          · rw [rest_map] at leaves
            have completable := ih middle.length (by omega) (by omega) leaves rfl
            rcases operandsDerived _ behind right middle (Nat.le_refl _)
              (reads_inside.mp reads) with ⟨operand, rfl, rfl⟩
            exact completable.within (sign.val :: operand.tokens) (.cons op sign operand)
              (by simp [Links.tokens])

theorem expression (operands : OperandsCompletable bound) (within : tokens.length < bound)
    (leaves : (expression tokens).rest = rest) : Completable Expression.tokens tokens rest := by
  rw [Grammar.expression] at leaves
  rcases andMaybe_leaves leaves with leaves | ⟨first, middle, shorter, reads, leaves⟩
  · exact (operands tokens rest within leaves).within [] (.chain · .nil)
      (by simp [Expression.tokens])
  · rw [rest_map] at leaves
    have completable := operands.chain (by omega) leaves
    rcases operandsDerived _ tokens first middle (Nat.le_refl _) reads with ⟨operand, rfl, rfl⟩
    exact completable.within operand.tokens (.chain operand) (by simp [Expression.tokens])

theorem values (operands : OperandsCompletable bound) {closing : TokenKind}
    {error : GrammarError} {construct : Construct}
    {list : (tokens : List Token) → Reading tokens.length (List Node)}
    (list_eq : ∀ tokens, list tokens = ((Grammar.expression tokens).inside construct).andThen
      fun first rest _ => behindValue closing error list first rest)
    (within : tokens.length < bound) (leaves : (list tokens).rest = rest) :
    Completable (closed closing Values.tokens) tokens rest := by
  induction length : tokens.length using Nat.strongRecOn generalizing tokens with
  | _ _ ih =>
      rw [list_eq] at leaves
      rcases andThen_leaves leaves with leaves | ⟨first, middle, shorter, reads, leaves⟩
      · rw [rest_inside] at leaves
        exact (operands.expression within leaves).within [] (.last ·, default)
          (by simp [closed, Values.tokens])
      · rcases (operandsDerived _).expression (Nat.le_refl _) (reads_inside.mp reads) with
          ⟨value, rfl, rfl⟩
        rcases behindValue_leaves leaves with
          rfl | ⟨closer, rfl⟩ | ⟨comma, behind, rfl, othersLeave⟩
        · exact .behind value.tokens (.last value, default) (by simp [closed, Values.tokens])
        · rw [List.append_cons]
          exact .behind (value.tokens ++ [closer.val]) (.last value, closer)
            (by simp [closed, Values.tokens])
        · simp only [List.length_append, List.length_cons] at within shorter length
          have completable := ih behind.length (by omega) (by omega) othersLeave rfl
          rw [List.append_cons]
          exact completable.within (value.tokens ++ [comma.val])
            (fun others => (.more value comma others.1, others.2)) (by simp [closed, Values.tokens])

theorem arguments (operands : OperandsCompletable bound) (within : tokens.length < bound)
    (leaves : (arguments tokens).rest = rest) :
    Completable (closed .parenClose (possibly Values.tokens)) tokens rest := by
  rw [arguments.eq_def] at leaves
  split at leaves
  · rename_i text position behind
    obtain rfl : behind = rest := leaves
    exact .of_derived (none, ⟨⟨.parenClose, text, position⟩, rfl⟩) rfl
  · exact (operands.values argumentList_eq within leaves).within []
      (fun args => (some args.1, args.2)) (by simp [closed, possibly])

theorem group (operands : OperandsCompletable bound) (within : tokens.length < bound)
    (opening : Mark .parenOpen)
    (leaves : (((Grammar.expression tokens).inside .group).andThen fun inner rest _ =>
      (expect .parenClose .expectedGroupEnd rest).map fun _ => Node.group inner).rest = rest) :
    Completable Operand.tokens (opening.val :: tokens) rest := by
  rcases andThen_leaves leaves with leaves | ⟨_, _, _, readsInner, leaves⟩
  · rw [rest_inside] at leaves
    exact (operands.expression within leaves).within [opening.val] (.group opening · default)
      (by simp [Operand.tokens])
  · rcases (operandsDerived _).expression (Nat.le_refl _) (reads_inside.mp readsInner) with
      ⟨inner, rfl, rfl⟩
    rw [rest_map] at leaves
    rcases expect_leaves leaves with rfl | ⟨closing, rfl⟩
    · exact .behind (opening.val :: inner.tokens) (.group opening inner default)
        (by simp [Operand.tokens])
    · rw [List.append_cons]
      exact .behind (opening.val :: (inner.tokens ++ [closing.val]))
        (.group opening inner closing) List.prefix_rfl

end OperandsCompletable

theorem operandsCompletable (bound : Nat) : OperandsCompletable bound := by
  induction bound with
  | zero =>
      intro tokens rest within
      exact absurd within (Nat.not_lt_zero _)
  | succ bound ih =>
      intro tokens rest within leaves
      cases tokens with
      | nil => exact .start (by simpa [operand] using leaves)
      | cons token tokens =>
          simp only [List.length_cons, Nat.add_lt_add_iff_right] at within
          rw [operand.eq_def] at leaves
          simp only at leaves
          split at leaves
          · rename_i isLiteral
            split at leaves
            · rename_i value fits
              obtain rfl : tokens = rest := leaves
              exact .behind [token] (.literal ⟨token, value, isLiteral, fits⟩) List.prefix_rfl
            · exact .start leaves
          · rename_i opens
            rw [rest_behind] at leaves
            exact ih.group within ⟨token, opens⟩ leaves
          · rename_i isName
            split at leaves
            · exact .start leaves
            · rename_i notReference
              let name : Name := ⟨token, isName, by simpa using notReference⟩
              split at leaves
              · rename_i _ text position behind
                let opening : Mark .parenOpen := ⟨⟨.parenOpen, text, position⟩, rfl⟩
                simp only [List.length_cons] at within
                simp only [rest_behind, rest_map] at leaves
                exact (ih.arguments (by omega) leaves).within [name.val, opening.val]
                  (fun args => args.1.elim (.emptyCall name opening args.2)
                    (.call name opening · args.2))
                  (by rintro ⟨_ | args, closing⟩ <;> simp [closed, possibly, Operand.tokens])
              · obtain rfl : tokens = rest := leaves
                exact .behind [token] (.var name) List.prefix_rfl
          all_goals exact .start leaves

theorem completable_expression (leaves : (expression tokens).rest = rest) :
    Completable Expression.tokens tokens rest :=
  (operandsCompletable _).expression (Nat.lt_succ_self _) leaves

theorem completable_arguments (leaves : (arguments tokens).rest = rest) :
    Completable (closed .parenClose (possibly Values.tokens)) tokens rest :=
  (operandsCompletable _).arguments (Nat.lt_succ_self _) leaves

theorem completable_returned (leaves : (returned tokens).rest = rest) :
    Completable (closed .semicolon (possibly Values.tokens)) tokens rest := by
  rw [returned.eq_def] at leaves
  split at leaves
  · rename_i text position behind
    obtain rfl : behind = rest := leaves
    exact .of_derived (none, ⟨⟨.semicolon, text, position⟩, rfl⟩) rfl
  · have completable :=
      (operandsCompletable _).values returnedValues_eq (Nat.lt_succ_self _) leaves
    exact completable.within [] (fun values => (some values.1, values.2))
      (by simp [closed, possibly])

theorem completable_declared {declaration : Declaration}
    (leaves : (declared declaration tokens).rest = rest) (type : TypeName) (name : Name) :
    Completable Statement.tokens (type.val :: name.val :: tokens) rest := by
  have named : Completable Statement.tokens (type.val :: name.val :: rest) rest :=
    .behind [type.val, name.val] (.decl type name default) (by simp [Statement.tokens])
  rw [declared.eq_def] at leaves
  split at leaves
  · rename_i text position behind
    let sign : Mark .assign := ⟨⟨.assign, text, position⟩, rfl⟩
    simp only [rest_orNothing, rest_behind, assignedValue, rest_map, rest_inside] at leaves
    exact (completable_expression leaves).within [type.val, name.val, sign.val]
      (.initialise type name sign · default) (by simp [Statement.tokens])
  · obtain rfl := leaves
    exact named
  · obtain rfl := leaves
    exact named

theorem completable_startedBy {first : Token} (isType : first.IsType)
    (leaves : (startedBy first tokens).rest = rest) :
    Completable Statement.tokens (first :: tokens) rest := by
  let type : TypeName := ⟨first, isType⟩
  have started : Completable Statement.tokens (first :: rest) rest :=
    .behind [first] (.decl type default default) (by simp [Statement.tokens, type])
  cases tokens with
  | nil =>
      obtain rfl : [] = rest := leaves
      exact started
  | cons second tokens =>
      rw [startedBy.eq_def] at leaves
      simp only at leaves
      split at leaves
      · rename_i opens
        split at leaves
        · rename_i isName
          let name : ValidName := ⟨first, isType.isValidName isName⟩
          let opening : Mark .parenOpen := ⟨second, opens⟩
          simp only [rest_orNothing, rest_behind, rest_map] at leaves
          exact (completable_arguments leaves).within [name.val, opening.val]
            (fun args => args.1.elim (.emptyCall name opening args.2 default)
              (.call name opening · args.2 default))
            (by rintro ⟨_ | args, closing⟩ <;> simp [closed, possibly, Statement.tokens])
        · obtain rfl := leaves
          exact started
      · rename_i isName
        split at leaves
        · obtain rfl := leaves
          exact started
        · rename_i notReference
          rw [rest_orNothing] at leaves
          exact completable_declared leaves type ⟨second, isName, by simpa using notReference⟩
      · rename_i assigns
        split at leaves
        · rename_i isName
          let name : ValidName := ⟨first, isType.isValidName isName⟩
          let sign : Mark .assign := ⟨second, assigns⟩
          simp only [rest_orNothing, rest_behind, assignedValue, rest_map, rest_inside] at leaves
          exact (completable_expression leaves).within [name.val, sign.val]
            (.assign name sign · default) (by simp [Statement.tokens])
        · obtain rfl := leaves
          exact started
      all_goals
        obtain rfl := leaves
        exact started

theorem completable_statement (leaves : (statement tokens).rest = rest) :
    Completable Statement.tokens tokens rest := by
  cases tokens with
  | nil => exact .start leaves
  | cons first tokens =>
      rw [statement.eq_def] at leaves
      simp only at leaves
      split at leaves
      · rename_i returns
        let word : Mark .returnWord := ⟨first, returns⟩
        simp only [rest_behind, rest_map] at leaves
        exact (completable_returned leaves).within [word.val]
          (fun values => values.1.elim (.emptyReturn word values.2) (.ret word · values.2))
          (by rintro ⟨_ | values, semicolon⟩ <;> simp [closed, possibly, Statement.tokens])
      · split at leaves
        · exact .start leaves
        · split at leaves
          · rename_i isType
            have isType := Token.isTypeName_iff.mp isType
            rcases andThen_leaves leaves with leaves | ⟨node, middle, _, reads, leaves⟩
            · exact completable_startedBy isType leaves
            · rw [rest_map] at leaves
              rcases expect_leaves leaves with rfl | ⟨semicolon, rfl⟩
              · exact completable_startedBy isType (reads_iff.mp reads).1
              · have readsAll := readsStatement_of_startedBy isType reads semicolon.2
                rcases reads_statement_iff.mp (reads_statement.mpr readsAll) with
                  ⟨derivation, derived, _⟩
                exact .of_derived derivation derived
          · exact .start leaves

theorem completable_returnList {isFirst : Bool}
    (leaves : (returnList isFirst tokens).rest = rest) :
    Completable (closed .parenClose Types.tokens) tokens rest := by
  fun_induction returnList isFirst tokens with
  | case1 => exact .start leaves
  | case2 => exact .start leaves
  | case3 isFirst token type isType text position behind ih =>
      let comma : Mark .comma := ⟨⟨.comma, text, position⟩, rfl⟩
      let type : TypeName := ⟨token, (listedType_eq_ok_iff.mp isType).1⟩
      simp only [rest_behind, rest_map] at leaves
      exact (ih leaves).within [type.val, comma.val]
        (fun others => (.more type comma others.1, others.2)) (by simp [closed, Types.tokens])
  | case4 isFirst token type isType text position behind =>
      obtain rfl : behind = rest := leaves
      let closing : Mark .parenClose := ⟨⟨.parenClose, text, position⟩, rfl⟩
      let type : TypeName := ⟨token, (listedType_eq_ok_iff.mp isType).1⟩
      exact .behind [type.val, closing.val] (.last type, closing) List.prefix_rfl
  | case5 isFirst token type isType behind =>
      obtain rfl : behind = rest := leaves
      let type : TypeName := ⟨token, (listedType_eq_ok_iff.mp isType).1⟩
      exact .behind [type.val] (.last type, default) (by simp [closed, Types.tokens])

theorem completable_returnTypes (leaves : (returnTypes tokens).rest = rest) :
    Completable Returns.tokens tokens rest := by
  rw [returnTypes.eq_def] at leaves
  split at leaves
  · exact .start leaves
  · rename_i text position behind
    let opening : Mark .parenOpen := ⟨⟨.parenOpen, text, position⟩, rfl⟩
    rw [rest_behind] at leaves
    exact (completable_returnList leaves).within [opening.val]
      (fun types => .listed opening types.1 types.2) (by simp [closed, Returns.tokens])
  · rename_i token behind _
    split at leaves
    · exact .start leaves
    · rename_i bare
      obtain rfl : behind = rest := leaves
      rcases bareReturns_eq_ok_iff.mp bare with ⟨isVoid, _⟩ | ⟨isType, _⟩
      · exact .behind [token] (.void ⟨token, isVoid⟩) List.prefix_rfl
      · exact .behind [token] (.bare ⟨token, isType⟩) List.prefix_rfl

theorem functionName_leaves (leaves : (functionName tokens).rest = rest) :
    tokens = rest ∨ ∃ name : ValidName, tokens = name.val :: rest := by
  cases tokens with
  | nil => exact .inl leaves
  | cons token tokens =>
      by_cases isValid : token.kind = .name ∧ isValidName token.text = true
      · obtain rfl : tokens = rest := by simpa [functionName, isValid] using leaves
        exact .inr ⟨⟨token, isValid⟩, rfl⟩
      · by_cases isName : token.kind = .name
        · have notValid : isValidName token.text = false := by simpa [isName] using isValid
          exact .inl (by simpa [functionName, isName, notValid] using leaves)
        · exact .inl (by simpa [functionName, isName] using leaves)

theorem completable_parameterList (leaves : (parameterList tokens).rest = rest) :
    Completable (closed .parenClose Parameters.tokens) tokens rest := by
  fun_induction parameterList tokens with
  | case1 => exact .start leaves
  | case2 type isType =>
      obtain rfl := leaves
      let type : TypeName := ⟨type, Token.isTypeName_iff.mp isType⟩
      exact .behind [type.val] (.last type default, default) (by simp [closed, Parameters.tokens])
  | case3 type isType name isName =>
      rename_i text position behind ih
      let type : TypeName := ⟨type, Token.isTypeName_iff.mp isType⟩
      let name : ValidName := ⟨name, isName⟩
      let comma : Mark .comma := ⟨⟨.comma, text, position⟩, rfl⟩
      simp only [rest_behind, rest_map] at leaves
      exact (ih leaves).within [type.val, name.val, comma.val]
        (fun others => (.more type name comma others.1, others.2))
        (by simp [closed, Parameters.tokens])
  | case4 type isType name isName =>
      rename_i text position behind
      obtain rfl : behind = rest := leaves
      let type : TypeName := ⟨type, Token.isTypeName_iff.mp isType⟩
      let name : ValidName := ⟨name, isName⟩
      let closing : Mark .parenClose := ⟨⟨.parenClose, text, position⟩, rfl⟩
      exact .behind [type.val, name.val, closing.val] (.last type name, closing) List.prefix_rfl
  | case5 type isType name isName behind =>
      obtain rfl := leaves
      let type : TypeName := ⟨type, Token.isTypeName_iff.mp isType⟩
      let name : ValidName := ⟨name, isName⟩
      exact .behind [type.val, name.val] (.last type name, default)
        (by simp [closed, Parameters.tokens])
  | case6 type isType name behind =>
      obtain rfl := leaves
      let type : TypeName := ⟨type, Token.isTypeName_iff.mp isType⟩
      exact .behind [type.val] (.last type default, default) (by simp [closed, Parameters.tokens])
  | case7 => exact .start leaves

theorem completable_parameters (leaves : (parameters tokens).rest = rest) :
    Completable (closed .parenClose (possibly Parameters.tokens)) tokens rest := by
  rw [parameters.eq_def] at leaves
  split at leaves
  · rename_i text position behind
    obtain rfl : behind = rest := leaves
    exact .of_derived (none, ⟨⟨.parenClose, text, position⟩, rfl⟩) rfl
  · exact (completable_parameterList leaves).within [] (fun params => (some params.1, params.2))
      (by simp [closed, possibly])

theorem completable_signature (leaves : (signature tokens).rest = rest) :
    Completable Signature.tokens tokens rest := by
  rw [signature] at leaves
  rcases andThen_leaves leaves with leaves | ⟨_, _, _, readsReturns, leaves⟩
  · exact (completable_returnTypes leaves).within [] (⟨·, default, default, none, default⟩)
      (by simp [Signature.tokens])
  rcases reads_returnTypes.mp readsReturns with ⟨returns, rfl, rfl⟩
  have named : ∀ name : ValidName,
      Completable Signature.tokens (returns.tokens ++ name.val :: rest) rest := by
    intro name
    rw [List.append_cons]
    exact .behind _ ⟨returns, name, default, none, default⟩ (by simp [Signature.tokens])
  rcases andThen_leaves leaves with leaves | ⟨_, _, _, readsName, leavesRest⟩
  · rcases functionName_leaves leaves with rfl | ⟨name, rfl⟩
    · exact .behind _ ⟨returns, default, default, none, default⟩ (by simp [Signature.tokens])
    · exact named name
  rcases reads_functionName.mp readsName with ⟨name, rfl, rfl⟩
  rcases andThen_leaves leavesRest with leaves | ⟨_, _, _, readsOpening, leavesParams⟩
  · rcases expect_leaves leaves with rfl | ⟨opening, rfl⟩
    · exact named name
    · rw [List.append_cons, List.append_cons]
      exact .behind _ ⟨returns, name, opening, none, default⟩ (by simp [Signature.tokens])
  · rcases reads_expect.mp readsOpening with ⟨opening, rfl, opens⟩
    rw [rest_map] at leavesParams
    rw [List.append_cons, List.append_cons]
    exact (completable_parameters leavesParams).within _
      (fun params => ⟨returns, name, ⟨opening, opens⟩, params.1, params.2⟩)
      (by simp [closed, possibly, Signature.tokens])

theorem completable_body (leaves : (body tokens).rest = rest) :
    Completable (closed .braceClose (List.flatMap Statement.tokens)) tokens rest := by
  fun_induction body tokens with
  | case1 => exact .start leaves
  | case2 token behind closes =>
      obtain rfl : behind = rest := leaves
      exact .behind [token] ([], ⟨token, closes⟩) List.prefix_rfl
  | case3 => exact .start leaves
  | case4 token behind notClosed notEnd ih =>
      rcases andThen_leaves leaves with leaves | ⟨node, middle, shorter, reads, leaves⟩
      · rw [rest_inside] at leaves
        exact (completable_statement leaves).within [] (fun statement => ([statement], default))
          (by simp [closed])
      · rw [rest_map] at leaves
        have completable := ih middle shorter leaves
        rcases reads_statement_iff.mp (reads_inside.mp reads) with ⟨statement, spelled, _⟩
        rw [spelled]
        exact completable.within statement.tokens (fun others => (statement :: others.1, others.2))
          (by simp [closed])

theorem completable_definition {header : Tuplet.Signature}
    (leaves : (definition header tokens).rest = rest) (signature : Derivation.Signature) :
    Completable Item.tokens (signature.tokens ++ tokens) rest := by
  rw [definition.eq_def] at leaves
  split at leaves
  · rename_i text position behind
    let opening : Mark .braceOpen := ⟨⟨.braceOpen, text, position⟩, rfl⟩
    simp only [rest_orNothing, rest_behind, rest_map] at leaves
    rw [List.append_cons]
    exact (completable_body leaves).within (signature.tokens ++ [opening.val])
      (fun body => .definition signature opening body.1 body.2) (by simp [closed, Item.tokens])
  · rename_i text position behind
    obtain rfl : behind = rest := leaves
    let semicolon : Mark .semicolon := ⟨⟨.semicolon, text, position⟩, rfl⟩
    exact .of_derived (.declaration signature (some semicolon)) (by simp [Item.tokens, semicolon])
  · obtain rfl : tokens = rest := leaves
    exact .of_derived (.declaration signature none) (by simp [Item.tokens])

theorem completable_function (leaves : (function tokens).rest = rest) :
    Completable Item.tokens tokens rest := by
  rw [function] at leaves
  rcases andMaybe_leaves leaves with leaves | ⟨_, _, _, readsSignature, leavesRest⟩
  · rw [rest_inside] at leaves
    exact (completable_signature leaves).within [] (.declaration · none) (by simp [Item.tokens])
  · rcases reads_signature.mp (reads_inside.mp readsSignature) with ⟨signature, rfl, _⟩
    exact completable_definition leavesRest signature

/-- What was read of a program is the start of a program that is derived. -/
theorem completable_program (tokens : List Token) :
    Completable Program.tokens tokens (program tokens).rest := by
  fun_induction program tokens with
  | case1 tokens ended => exact .start rfl
  | case2 tokens notEnded error rest log failed =>
      have leaves : (function tokens).rest = rest := by
        have stopped := congrArg Reading.rest failed
        rwa [rest_inside] at stopped
      exact (completable_function leaves).within [] ([·]) (by simp [Program.tokens])
  | case3 tokens notEnded node rest shorter log reads reading ih =>
      rcases exists_item_of_reads (reads_inside.mp ⟨shorter, log, reads⟩) with ⟨item, rfl, _⟩
      exact ih.within item.tokens (item :: ·) (by simp [Program.tokens])

/--
A program is refused at the first token that cannot go on. Everything a reader is told is
placed at that token, or behind the last one where the end cannot stand. The tokens
before it are the start of a sequence that is accepted and read to its end. No accepted
sequence has that token behind them, or ends there if that is where the refused one ends.
-/
theorem refused_at_first_offence {tokens : List Token} {error : GrammarError}
    (refused : (program tokens).error? = some error) :
    ∃ position, (program tokens).rest = tokens.drop position ∧ position ≤ tokens.length ∧
      (program tokens).diagnostics (Token.endOf tokens) ≠ [] ∧
      (∀ diagnostic ∈ (program tokens).diagnostics (Token.endOf tokens),
        diagnostic.position = (tokens.getD position (Token.endOf tokens)).position) ∧
      (∃ accepted, tokens.take position <+: accepted ∧ (program accepted).error? = none ∧
        (program accepted).rest = []) ∧
      ∀ accepted, (program accepted).error? = none →
        accepted.take (position + 1) ≠ tokens.take (position + 1) := by
  rcases program_settled tokens with ⟨before, split, same⟩
  have here : tokens.take before.length = before := by
    have taken := congrArg (List.take before.length) split
    rwa [List.take_left] at taken
  have stopped : (program tokens).rest = tokens.drop before.length := by
    have dropped := congrArg (List.drop before.length) split
    rw [List.drop_left] at dropped
    exact dropped.symm
  have within : before.length ≤ tokens.length := by
    have length := congrArg List.length split
    rw [List.length_append] at length
    omega
  have told : TellsOf Construct error (tokens.getD before.length (Token.endOf tokens)).position
      ((program tokens).diagnostics (Token.endOf tokens)) := by
    have tells := (candid_program tokens).tellsOf refused (Token.endOf tokens)
    simpa [Cursor.current, stopped, List.headD_eq_head?_getD] using tells
  refine ⟨before.length, stopped, within, told.ne_nil, told.position_eq, ?_, ?_⟩
  · rcases completable_program tokens with ⟨read, derivation, splitToo, starts⟩
    obtain rfl : read = before := List.append_cancel_right (splitToo.symm.trans split)
    refine ⟨derivation.tokens, by rwa [here], ?_, ?_⟩
    · rw [program_tokens]
    · rw [program_tokens]
  · intro accepted accepts agrees
    have starts : accepted.take before.length = before := by
      have shorter := congrArg (List.take before.length) agrees
      simpa [List.take_take, here] using shorter
    have next : (accepted.drop before.length).head? = (program tokens).rest.head? := by
      have there := congrArg (·[before.length]?) agrees
      simpa [stopped] using there
    have refusedToo := (same (accepted.drop before.length) next).2
    rw [refused] at refusedToo
    have whole : before ++ accepted.drop before.length = accepted := by
      have joined := List.take_append_drop before.length accepted
      rwa [starts] at joined
    rw [whole, accepts] at refusedToo
    cases refusedToo

/-- Twelve tokens, of which the eleventh stands where an operand is missing. -/
def danglingOperator : String := "int f(int a) { return a + ; }"

theorem refused_at_first_offence_dangling :
    (program (tokenize danglingOperator)).error? = some (.expectedValue .semicolon) ∧
      (∃ accepted, (tokenize danglingOperator).take 10 <+: accepted ∧
        (program accepted).error? = none) ∧
      ∀ accepted, (program accepted).error? = none →
        accepted.take 11 ≠ (tokenize danglingOperator).take 11 := by
  have refused : (program (tokenize danglingOperator)).error? =
      some (.expectedValue .semicolon) := by decide +kernel
  rcases refused_at_first_offence refused with ⟨position, stopped, _, _, _, viable, offends⟩
  obtain rfl : position = 10 := by
    have left : (program (tokenize danglingOperator)).rest.length = 2 := by decide +kernel
    have all : (tokenize danglingOperator).length = 12 := by decide +kernel
    rw [stopped, List.length_drop, all] at left
    omega
  rcases viable with ⟨accepted, starts, accepts, _⟩
  exact ⟨refused, ⟨accepted, starts, accepts⟩, offends⟩

end Grammar

end Tuplet
