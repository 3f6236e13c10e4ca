import Tuplet.Proofs.DerivedExpressions
import Tuplet.Proofs.Lookahead
import Tuplet.Syntax.Outline
import Tuplet.Token.Scan

/-!
# The grammar accepts what is derived

Signatures, statements and whole programs are read exactly where they are derived, and
their trees are those of the derivations. Nothing has to be known about what stands
behind them, except behind a signature that no body and no semicolon follows.

The main result is that reading a program succeeds exactly on the token sequences that
have a derivation, that it has only one, and that the items are its trees.
-/

namespace Tuplet

namespace Grammar

open Tuplet.Derivation Reading

variable {tokens rest : List Token}

theorem listedType_eq_ok_iff {isFirst : Bool} {token : Token} {type : String} :
    listedType isFirst token = .ok type ↔ token.IsType ∧ token.typeName = type := by
  rcases token with ⟨kind, text, position⟩
  cases kind with
  | primitive primitive =>
      cases primitive <;>
        simp [listedType, Token.IsType, Token.IsValidName, Token.typeName]
  | name =>
      by_cases isValid : isValidName text <;>
        simp [listedType, Token.IsType, Token.IsValidName, Token.typeName, isValid]
  | _ => simp [listedType, Token.IsType, Token.IsValidName]

theorem bareReturns_eq_ok_iff {token : Token} {types : List String} :
    bareReturns token = .ok types ↔
      token.kind = .primitive .void ∧ [] = types ∨ token.IsType ∧ [token.typeName] = types := by
  rcases token with ⟨kind, text, position⟩
  cases kind with
  | primitive primitive =>
      cases primitive <;>
        simp [bareReturns, Token.IsType, Token.IsValidName, Token.typeName]
  | name =>
      by_cases isValid : isValidName text <;>
        simp [bareReturns, Token.IsType, Token.IsValidName, Token.typeName, isValid]
  | _ => simp [bareReturns, Token.IsType, Token.IsValidName]

theorem reads_returnList {isFirst : Bool} {names : List String} :
    (returnList isFirst tokens).Reads names rest ↔
      ∃ (types : Types) (closing : Mark .parenClose),
        tokens = types.tokens ++ closing.val :: rest ∧ types.names = names := by
  constructor
  · intro reads
    fun_induction returnList isFirst tokens generalizing names with
    | case1 => simp at reads
    | case2 => simp at reads
    | case3 isFirst token type isType text position rest' ih =>
        simp only [reads_behind, reads_map] at reads
        rcases reads with ⟨others, reads, rfl⟩
        rcases ih reads with ⟨types, closing, rfl, rfl⟩
        rcases listedType_eq_ok_iff.mp isType with ⟨named, rfl⟩
        exact ⟨.more ⟨token, named⟩ ⟨_, rfl⟩ types, closing, rfl, rfl⟩
    | case4 isFirst token type isType text position rest' =>
        rcases reads_take.mp (reads_behind.mp reads) with ⟨rfl, rfl⟩
        rcases listedType_eq_ok_iff.mp isType with ⟨named, rfl⟩
        exact ⟨.last ⟨token, named⟩, ⟨_, rfl⟩, rfl, rfl⟩
    | case5 => simp at reads
  · rintro ⟨types, ⟨⟨kind, text, position⟩, closes⟩, rfl, rfl⟩
    obtain rfl : kind = .parenClose := closes
    induction types generalizing isFirst with
    | last type =>
        have named : listedType isFirst type.val = .ok type.val.typeName :=
          listedType_eq_ok_iff.mpr ⟨type.2, rfl⟩
        rw [returnList.eq_def]
        simp [Types.tokens, Types.names, named]
    | more type comma others ih =>
        rcases comma with ⟨⟨kind, text, position⟩, isComma⟩
        obtain rfl : kind = .comma := isComma
        have named : listedType isFirst type.val = .ok type.val.typeName :=
          listedType_eq_ok_iff.mpr ⟨type.2, rfl⟩
        rw [returnList.eq_def]
        simp only [Types.tokens, Types.names, List.cons_append, named, reads_behind, reads_map]
        exact ⟨_, ih, rfl⟩

theorem reads_returnTypes_listed {token : Token} (opens : token.kind = .parenOpen)
    {names : List String} :
    (returnTypes (token :: tokens)).Reads names rest ↔
      (returnList true tokens).Reads names rest := by
  rcases token with ⟨kind, text, position⟩
  obtain rfl : kind = .parenOpen := opens
  rw [returnTypes, reads_behind]

theorem reads_returnTypes_bare {token : Token} (notList : token.kind ≠ .parenOpen)
    {names : List String} :
    (returnTypes (token :: tokens)).Reads names rest ↔
      bareReturns token = .ok names ∧ tokens = rest := by
  rw [returnTypes]
  · cases bareReturns token <;> simp
  · rintro text position rfl
    exact absurd rfl notList

theorem reads_returnTypes {names : List String} :
    (returnTypes tokens).Reads names rest ↔
      ∃ returns : Returns, tokens = returns.tokens ++ rest ∧ returns.names = names := by
  constructor
  · intro reads
    cases tokens with
    | nil => simp [returnTypes] at reads
    | cons token tokens =>
        by_cases opens : token.kind = .parenOpen
        · rw [reads_returnTypes_listed opens, reads_returnList] at reads
          rcases reads with ⟨types, closing, rfl, rfl⟩
          refine ⟨.listed ⟨token, opens⟩ types closing, ?_, rfl⟩
          simp [Returns.tokens]
        · rw [reads_returnTypes_bare opens, bareReturns_eq_ok_iff] at reads
          rcases reads with ⟨⟨isVoid, rfl⟩ | ⟨isType, rfl⟩, rfl⟩
          · exact ⟨.void ⟨token, isVoid⟩, rfl, rfl⟩
          · exact ⟨.bare ⟨token, isType⟩, rfl, rfl⟩
  · rintro ⟨returns, rfl, rfl⟩
    cases returns with
    | void word =>
        have notList : word.val.kind ≠ .parenOpen := by simp [word.2]
        apply (reads_returnTypes_bare notList).mpr
        exact ⟨bareReturns_eq_ok_iff.mpr (.inl ⟨word.2, rfl⟩), rfl⟩
    | bare type =>
        apply (reads_returnTypes_bare (type.2.kind_ne (by simp))).mpr
        exact ⟨bareReturns_eq_ok_iff.mpr (.inr ⟨type.2, rfl⟩), rfl⟩
    | listed opening types closing =>
        apply (reads_returnTypes_listed opening.2).mpr
        apply reads_returnList.mpr
        exact ⟨types, closing, by simp, rfl⟩

theorem reads_functionName {name : String} :
    (functionName tokens).Reads name rest ↔
      ∃ token : ValidName, tokens = token.val :: rest ∧ token.val.text = name := by
  cases tokens with
  | nil => simp [functionName]
  | cons token tokens =>
      constructor
      · intro reads
        rw [functionName.eq_def] at reads
        simp only at reads
        split at reads
        · simp at reads
        · rename_i isName
          split at reads
          · rename_i isValid
            rcases reads_take.mp reads with ⟨rfl, rfl⟩
            exact ⟨⟨token, by simpa using isName, isValid⟩, rfl, rfl⟩
          · simp at reads
      · rintro ⟨⟨token, isName, isValid⟩, same, rfl⟩
        cases same
        rw [functionName.eq_def]
        simp [isName, isValid]

theorem reads_parameterList {params : List Parameter} :
    (parameterList tokens).Reads params rest ↔
      ∃ (list : Parameters) (closing : Mark .parenClose),
        tokens = list.tokens ++ closing.val :: rest ∧ list.params = params := by
  constructor
  · intro reads
    fun_induction parameterList tokens generalizing params with
    | case1 => simp at reads
    | case2 => simp at reads
    | case3 type isType name isName =>
        rename_i ih
        simp only [reads_behind, reads_map] at reads
        rcases reads with ⟨others, reads, rfl⟩
        rcases ih reads with ⟨list, closing, rfl, rfl⟩
        exact ⟨.more ⟨type, Token.isTypeName_iff.mp isType⟩ ⟨name, isName⟩ ⟨_, rfl⟩ list, closing,
          rfl, rfl⟩
    | case4 type isType name isName =>
        simp only [reads_behind, reads_take] at reads
        rcases reads with ⟨rfl, rfl⟩
        exact ⟨.last ⟨type, Token.isTypeName_iff.mp isType⟩ ⟨name, isName⟩, ⟨_, rfl⟩, rfl, rfl⟩
    | case5 => simp at reads
    | case6 => simp at reads
    | case7 => simp at reads
  · rintro ⟨list, ⟨⟨kind, text, position⟩, closes⟩, rfl, rfl⟩
    obtain rfl : kind = .parenClose := closes
    induction list with
    | last type name =>
        rw [parameterList.eq_def]
        simp [Parameters.tokens, Parameters.params, Token.isTypeName_iff.mpr type.2, name.2.1,
          name.2.2]
    | more type name comma others ih =>
        rcases comma with ⟨⟨kind, text, position⟩, isComma⟩
        obtain rfl : kind = .comma := isComma
        rw [parameterList.eq_def]
        simp only [Parameters.tokens, Parameters.params, List.cons_append,
          Token.isTypeName_iff.mpr type.2, name.2.1, name.2.2, if_true, and_self, reads_behind,
          reads_map]
        exact ⟨_, ih, rfl⟩

theorem reads_parameters {params : List Parameter} :
    (parameters tokens).Reads params rest ↔
      ∃ (list : Option Parameters) (closing : Mark .parenClose),
        tokens = list.elim [] Parameters.tokens ++ closing.val :: rest ∧
          list.elim [] Parameters.params = params := by
  constructor
  · intro reads
    rw [parameters.eq_def] at reads
    split at reads
    · rcases reads_take.mp reads with ⟨rfl, rfl⟩
      exact ⟨none, ⟨_, rfl⟩, rfl, rfl⟩
    · rcases reads_parameterList.mp reads with ⟨list, closing, rfl, rfl⟩
      exact ⟨some list, closing, rfl, rfl⟩
  · rintro ⟨list, closing, rfl, rfl⟩
    cases list with
    | none =>
        rcases closing with ⟨⟨kind, text, position⟩, closes⟩
        obtain rfl : kind = .parenClose := closes
        simp [parameters]
    | some list =>
        rw [parameters]
        · exact reads_parameterList.mpr ⟨list, closing, rfl, rfl⟩
        · intro text position behind
          exact list.ne_cons ⟨⟨.parenClose, text, position⟩, rfl⟩

theorem reads_signature {header : Tuplet.Signature} :
    (signature tokens).Reads header rest ↔
      ∃ derivation : Derivation.Signature,
        tokens = derivation.tokens ++ rest ∧ derivation.header = header := by
  constructor
  · simp only [signature, reads_andThen, reads_map, reads_expect]
    rintro ⟨_, _, _, readsReturns, _, _, _, readsName, _, _, _, ⟨opening, rfl, opens⟩,
      _, readsParams, rfl⟩
    rcases reads_parameters.mp readsParams with ⟨params, closing, rfl, rfl⟩
    rcases reads_functionName.mp readsName with ⟨name, rfl, rfl⟩
    rcases reads_returnTypes.mp readsReturns with ⟨returns, rfl, rfl⟩
    refine ⟨⟨returns, name, ⟨opening, opens⟩, params, closing⟩, ?_, rfl⟩
    simp [Signature.tokens]
  · rintro ⟨⟨returns, name, opening, params, closing⟩, rfl, rfl⟩
    rw [Signature.tokens, List.append_assoc]
    apply (reads_returnTypes.mpr ⟨returns, rfl, rfl⟩).andThen
    intro _
    apply (reads_functionName.mpr ⟨name, rfl, rfl⟩).andThen
    intro _
    apply Reads.andThen ((@reads_expect _ _ _ _ ()).mpr ⟨opening.val, rfl, opening.2⟩)
    intro _
    rw [reads_map]
    exact ⟨_, reads_parameters.mpr ⟨params, closing, by simp, rfl⟩, rfl⟩

/-- Statements are read exactly where they are derived. -/
theorem reads_statement_iff {node : Node} :
    (statement tokens).Reads node rest ↔
      ∃ derivation : Statement, tokens = derivation.tokens ++ rest ∧ derivation.tree = node := by
  rw [reads_statement]
  constructor
  · intro reads
    cases reads with
    | ret starts reads =>
        cases reads with
        | none closes => exact ⟨.emptyReturn ⟨_, starts⟩ ⟨_, closes⟩, rfl, rfl⟩
        | some reads =>
            rcases (operandsDerived _).values reads (Nat.le_refl _) with ⟨values, closer, rfl, rfl⟩
            refine ⟨.ret ⟨_, starts⟩ values closer, ?_, rfl⟩
            simp [Statement.tokens]
    | call isName opens reads ends =>
        cases reads with
        | none closes =>
            exact ⟨.emptyCall ⟨_, isName⟩ ⟨_, opens⟩ ⟨_, closes⟩ ⟨_, ends⟩, rfl, rfl⟩
        | some reads =>
            rcases (operandsDerived _).values reads (Nat.le_refl _) with ⟨args, closer, rfl, rfl⟩
            refine ⟨.call ⟨_, isName⟩ ⟨_, opens⟩ args closer ⟨_, ends⟩, ?_, rfl⟩
            simp [Statement.tokens]
    | decl isType isName ends =>
        exact ⟨.decl ⟨_, isType⟩ ⟨_, isName⟩ ⟨_, ends⟩, rfl, rfl⟩
    | initialise isType isName assigns reads ends =>
        rcases (operandsDerived _).expression (Nat.le_refl _) reads with ⟨value, rfl, rfl⟩
        refine ⟨.initialise ⟨_, isType⟩ ⟨_, isName⟩ ⟨_, assigns⟩ value ⟨_, ends⟩, ?_, rfl⟩
        simp [Statement.tokens]
    | assign isName assigns reads ends =>
        rcases (operandsDerived _).expression (Nat.le_refl _) reads with ⟨value, rfl, rfl⟩
        refine ⟨.assign ⟨_, isName⟩ ⟨_, assigns⟩ value ⟨_, ends⟩, ?_, rfl⟩
        simp [Statement.tokens]
  · rintro ⟨derivation, rfl, rfl⟩
    cases derivation with
    | emptyReturn word semicolon => exact .ret word.2 (.none semicolon.2)
    | ret word values semicolon =>
        simp only [Statement.tokens, List.cons_append, List.append_assoc, List.nil_append]
        exact .ret word.2 (.some (values.reads semicolon semicolon.endsValues_semicolon))
    | emptyCall name opening closing semicolon =>
        exact .call name.2 opening.2 (.none closing.2) semicolon.2
    | call name opening args closing semicolon =>
        simp only [Statement.tokens, List.cons_append, List.append_assoc, List.nil_append]
        exact .call name.2 opening.2
          (.some (args.reads closing closing.endsValues_parenClose)) semicolon.2
    | decl type name semicolon => exact .decl type.2 name.2 semicolon.2
    | initialise type name sign value semicolon =>
        simp only [Statement.tokens, List.cons_append, List.append_assoc, List.nil_append]
        exact .initialise type.2 name.2 sign.2
          (value.reads semicolon.endsValues_semicolon.toEndsExpression) semicolon.2
    | assign name sign value semicolon =>
        simp only [Statement.tokens, List.cons_append, List.append_assoc, List.nil_append]
        exact .assign name.2 sign.2
          (value.reads semicolon.endsValues_semicolon.toEndsExpression) semicolon.2

theorem reads_body_closed {closing : Token} (closes : closing.kind = .braceClose)
    {nodes : List Node} :
    (body (closing :: tokens)).Reads nodes rest ↔ [] = nodes ∧ tokens = rest := by
  rw [body.eq_def]
  simp [closes]

theorem reads_body_open (notClosed : headKind tokens ≠ .braceClose)
    (notEnd : headKind tokens ≠ .endOfInput) {nodes : List Node} :
    (body tokens).Reads nodes rest ↔
      ∃ first middle others, (statement tokens).Reads first middle ∧
        (body middle).Reads others rest ∧ first :: others = nodes := by
  cases tokens with
  | nil => exact absurd rfl notEnd
  | cons token tokens =>
      rw [body.eq_def]
      simp only
      split
      · rename_i closes
        exact absurd closes notClosed
      · rename_i ends
        exact absurd ends notEnd
      · rw [reads_andThen]
        simp only [reads_inside, reads_map]
        constructor
        · rintro ⟨first, middle, _, reads, others, more, all⟩
          exact ⟨first, middle, others, reads, more, all⟩
        · rintro ⟨first, middle, others, reads, more, all⟩
          exact ⟨first, middle, reads.shorter, reads, others, more, all⟩

/-- The bodies of functions are read exactly where they are derived. -/
theorem reads_body {nodes : List Node} :
    (body tokens).Reads nodes rest ↔
      ∃ (statements : List Statement) (closing : Mark .braceClose),
        tokens = statements.flatMap Statement.tokens ++ closing.val :: rest ∧
          statements.map Statement.tree = nodes := by
  constructor
  · intro reads
    fun_induction body tokens generalizing nodes with
    | case1 => simp at reads
    | case2 token tokens closes =>
        rcases reads_take.mp reads with ⟨rfl, rfl⟩
        exact ⟨[], ⟨token, closes⟩, rfl, rfl⟩
    | case3 => simp at reads
    | case4 token tokens notClosed notEnd ih =>
        simp only [reads_andThen, reads_inside, reads_map] at reads
        rcases reads with ⟨first, middle, shorter, readsFirst, others, readsOthers, rfl⟩
        rcases ih middle shorter readsOthers with ⟨statements, closing, rfl, rfl⟩
        rcases reads_statement_iff.mp readsFirst with ⟨statement, spelled, rfl⟩
        refine ⟨statement :: statements, closing, ?_, rfl⟩
        rw [spelled, List.flatMap_cons, List.append_assoc]
  · rintro ⟨statements, closing, rfl, rfl⟩
    induction statements with
    | nil => exact (reads_body_closed closing.2).mpr ⟨rfl, rfl⟩
    | cons statement statements ih =>
        rw [List.flatMap_cons, List.append_assoc,
          reads_body_open (statement.headKind_tokens_ne (.inl rfl))
            (statement.headKind_tokens_ne (.inr rfl))]
        exact ⟨_, _, _, reads_statement_iff.mpr ⟨statement, rfl, rfl⟩, ih, rfl⟩

theorem exists_item_of_reads {node : Node} (reads : (function tokens).Reads node rest) :
    ∃ item : Item, tokens = item.tokens ++ rest ∧ item.tree = node := by
  rw [function, reads_andMaybe] at reads
  simp only [reads_inside, reads_signature] at reads
  rcases reads with ⟨_, _, _, ⟨signature, rfl, rfl⟩, reads⟩
  rw [definition.eq_def] at reads
  split at reads
  · rename_i text position _ _
    simp only [reads_orNothing, reads_behind, reads_map, reads_body] at reads
    rcases reads with ⟨_, ⟨statements, closing, rfl, rfl⟩, rfl⟩
    refine ⟨.definition signature ⟨⟨.braceOpen, text, position⟩, rfl⟩ statements closing, ?_, rfl⟩
    simp [Item.tokens]
  · rename_i text position _ _
    simp only [reads_orNothing, reads_take] at reads
    rcases reads with ⟨rfl, rfl⟩
    refine ⟨.declaration signature (some ⟨⟨.semicolon, text, position⟩, rfl⟩), ?_, rfl⟩
    simp [Item.tokens]
  · rcases reads_stay.mp reads with ⟨rfl, rfl⟩
    refine ⟨.declaration signature none, ?_, rfl⟩
    simp [Item.tokens]

theorem reads_item (item : Item) (ends : EndsItem rest) :
    (function (item.tokens ++ rest)).Reads item.tree rest := by
  have goesOn : ∀ (signature : Derivation.Signature) {behind : List Token} {node : Node},
      (definition signature.header behind).Reads node rest →
        (function (signature.tokens ++ behind)).Reads node rest := by
    intro signature behind node reads
    rw [function]
    apply Reads.andMaybe (reads_inside.mpr (reads_signature.mpr ⟨signature, rfl, rfl⟩))
    intro _
    exact reads
  cases item with
  | definition signature opening statements closing =>
      rw [Item.tokens, List.append_assoc]
      apply goesOn
      rcases opening with ⟨⟨kind, text, position⟩, opens⟩
      obtain rfl : kind = .braceOpen := opens
      rw [List.cons_append, definition, reads_orNothing, reads_behind, reads_map]
      exact ⟨_, reads_body.mpr ⟨statements, closing, by simp, rfl⟩, rfl⟩
  | declaration signature semicolon =>
      rw [Item.tokens, List.append_assoc]
      apply goesOn
      cases semicolon with
      | none =>
          rw [Option.elim_none, List.nil_append, definition]
          · exact reads_stay.mpr ⟨rfl, rfl⟩
          · rintro text position behind rfl
            exact absurd rfl ends.noBody
          · rintro text position behind rfl
            exact absurd rfl ends.noSemicolon
      | some semicolon =>
          rcases semicolon with ⟨⟨kind, text, position⟩, isSemicolon⟩
          obtain rfl : kind = .semicolon := isSemicolon
          exact reads_orNothing.mpr (reads_take.mpr ⟨rfl, rfl⟩)

/-- What is derived is accepted, and the items are the trees of the derivation. -/
theorem program_tokens (derivation : Derivation.Program) :
    program derivation.tokens = ⟨derivation.trees, none, [], []⟩ := by
  induction derivation with
  | nil =>
      rw [program.eq_def]
      rfl
  | cons item others ih =>
      have notEnd : headKind (item.tokens ++ Program.tokens others) ≠ .endOfInput :=
        item.headKind_tokens_ne (.inr (.inr rfl))
      have reads : (function (item.tokens ++ Program.tokens others)).Reads
          item.tree (Program.tokens others) :=
        reads_item item (Program.endsItem others)
      rw [Program.tokens, List.flatMap_cons, ← Program.tokens, program_of_reads notEnd reads, ih]
      rfl

/-- What is accepted is derived, unless an end stands within it. -/
theorem exists_derivation_of_accepted (noEnd : ∀ token ∈ tokens, token.kind ≠ .endOfInput)
    (accepted : (program tokens).error? = none) :
    ∃ derivation : Derivation.Program, derivation.tokens = tokens := by
  fun_induction program tokens with
  | case1 tokens ended =>
      cases tokens with
      | nil => exact ⟨[], rfl⟩
      | cons token tokens => exact absurd ended (noEnd token (by simp))
  | case2 tokens notEnded error rest log failed => simp at accepted
  | case3 tokens notEnded item rest shorter log reads reading ih =>
      have read : (function tokens).Reads item rest :=
        reads_inside.mp ⟨shorter, log, reads⟩
      rcases exists_item_of_reads read with ⟨first, rfl, rfl⟩
      have noEndBehind : ∀ token ∈ rest, token.kind ≠ .endOfInput := by
        intro token stands
        exact noEnd token (List.mem_append_right _ stands)
      rcases ih noEndBehind accepted with ⟨others, rfl⟩
      exact ⟨first :: others, rfl⟩

/--
Reading succeeds exactly on the token sequences that have a derivation. There is only
one, and the items that were read are its trees.
-/
theorem accepts_iff_derived (tokens : List Token)
    (noEnd : ∀ token ∈ tokens, token.kind ≠ .endOfInput) :
    ((program tokens).error? = none ↔
      ∃ derivation : Derivation.Program, derivation.tokens = tokens) ∧
    ∀ derivation : Derivation.Program, derivation.tokens = tokens →
      (program tokens).items = derivation.trees ∧
        ∀ other : Derivation.Program, other.tokens = tokens → other = derivation := by
  refine ⟨⟨exists_derivation_of_accepted noEnd, ?_⟩, ?_⟩
  · rintro ⟨derivation, rfl⟩
    rw [program_tokens]
  · rintro derivation rfl
    rw [program_tokens]
    refine ⟨rfl, ?_⟩
    intro other same
    exact Program.unique other derivation same

/-- A weaker operator before one that binds tighter, and a declaration without a semicolon. -/
def climbing : String := "int f(int a) { return a + 2 * f(a); } void g()"

theorem accepts_iff_derived_climbing :
    (∀ token ∈ tokenize climbing, token.kind ≠ .endOfInput) ∧
      ∃ derivation : Derivation.Program, derivation.tokens = tokenize climbing ∧
        (∀ other : Derivation.Program, other.tokens = tokenize climbing → other = derivation) ∧
        derivation.trees.map Node.outline =
          ["Function int f(int a)\n  Return\n    Binary +\n      Binary *\n" ++
            "        Literal 2\n        Call f\n          Variable a\n      Variable a\n",
          "Signature void g()\n"] := by
  have noEnd : ∀ token ∈ tokenize climbing, token.kind ≠ .endOfInput := by decide +kernel
  have accepted : (program (tokenize climbing)).error? = none := by decide +kernel
  rcases accepts_iff_derived (tokenize climbing) noEnd with ⟨accepts, trees⟩
  rcases accepts.mp accepted with ⟨derivation, spelled⟩
  rcases trees derivation spelled with ⟨items, unique⟩
  refine ⟨noEnd, derivation, spelled, unique, ?_⟩
  rw [← items]
  decide +kernel

end Grammar

end Tuplet
