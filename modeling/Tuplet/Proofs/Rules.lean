import Tuplet.Proofs.Derivation
import Tuplet.Syntax.Program

/-!
# What the rules of the grammar read

A rule is applied to tokens and, if it succeeds, leaves some of them. This file says
for each rule what its successes are made of, in terms of the successes of the rules
it uses. A rule that may stop early says so as well: a variable is only read where no
parenthesis follows, and a chain of operators ends where no operator does.

Later proofs about reading use these descriptions and do not open the rules again.
-/

namespace Tuplet

namespace Reading

variable {bound large : Nat} {α β : Type} {reading : Reading bound α} {value : α}
  {rest : List Token}

/-- A rule has read a value and has left some tokens. -/
def Reads (reading : Reading bound α) (value : α) (rest : List Token) : Prop :=
  ∃ shorter log, reading = .done value rest shorter log

theorem Reads.shorter (reads : reading.Reads value rest) : rest.length < bound := by
  rcases reads with ⟨shorter, _⟩
  exact shorter

@[simp]
theorem reads_done {shorter : rest.length < bound} {log : ReadingLog} {other : α}
    {left : List Token} :
    (done value rest shorter log).Reads other left ↔ value = other ∧ rest = left := by
  constructor
  · rintro ⟨_, _, same⟩
    cases same
    exact ⟨rfl, rfl⟩
  · rintro ⟨rfl, rfl⟩
    exact ⟨shorter, log, rfl⟩

@[simp]
theorem not_reads_failed {error : GrammarError} {stopped : List Token} {log : ReadingLog} :
    ¬ (failed error stopped log : Reading bound α).Reads value rest := by
  rintro ⟨_, _, same⟩
  cases same

@[simp]
theorem not_reads_fail {error : GrammarError} {stopped : List Token} :
    ¬ (fail error stopped : Reading bound α).Reads value rest :=
  not_reads_failed

@[simp]
theorem reads_stay {other : α} {tokens : List Token} :
    (stay value tokens).Reads other rest ↔ value = other ∧ tokens = rest :=
  reads_done

@[simp]
theorem reads_take {other : α} {token : Token} {tokens : List Token} :
    (take value tokens : Reading (token :: tokens).length α).Reads other rest ↔
      value = other ∧ tokens = rest :=
  reads_done

@[simp]
theorem reads_relax {le : bound ≤ large} :
    (reading.relax le).Reads value rest ↔ reading.Reads value rest := by
  cases reading <;> simp [relax]

@[simp]
theorem reads_after {earlier : ReadingLog} :
    (reading.after earlier).Reads value rest ↔ reading.Reads value rest := by
  cases reading <;> simp [after]

@[simp]
theorem reads_behind {token : Token} {tokens : List Token} {reading : Reading tokens.length α} :
    (reading.behind : Reading (token :: tokens).length α).Reads value rest ↔
      reading.Reads value rest :=
  reads_relax

@[simp]
theorem reads_orNothing : reading.orNothing.Reads value rest ↔ reading.Reads value rest :=
  reads_relax

@[simp]
theorem reads_inside {construct : Construct} :
    (reading.inside construct).Reads value rest ↔ reading.Reads value rest := by
  cases reading <;> simp [inside]

@[simp]
theorem reads_map {change : α → β} {result : β} :
    (reading.map change).Reads result rest ↔
      ∃ value, reading.Reads value rest ∧ change value = result := by
  cases reading with
  | failed error stopped => simp [map]
  | done value middle shorter =>
      simp only [map, reads_done]
      constructor
      · rintro ⟨changed, left⟩
        exact ⟨value, ⟨rfl, left⟩, changed⟩
      · rintro ⟨_, ⟨rfl, left⟩, changed⟩
        exact ⟨changed, left⟩

theorem reads_andThen {result : β}
    {next : (value : α) → (rest : List Token) → rest.length < bound → Reading rest.length β} :
    (reading.andThen next).Reads result rest ↔
      ∃ value middle shorter, reading.Reads value middle ∧
        (next value middle shorter).Reads result rest := by
  cases reading with
  | failed error stopped => simp [andThen]
  | done value middle shorter =>
      simp only [andThen, reads_relax, reads_after, reads_done]
      constructor
      · intro reads
        exact ⟨value, middle, shorter, ⟨rfl, rfl⟩, reads⟩
      · rintro ⟨_, _, _, ⟨rfl, rfl⟩, reads⟩
        exact reads

theorem Reads.andThen {result : β} {left : List Token}
    {next : (value : α) → (rest : List Token) → rest.length < bound → Reading rest.length β}
    (reads : reading.Reads value rest)
    (goesOn : ∀ shorter, (next value rest shorter).Reads result left) :
    (reading.andThen next).Reads result left :=
  reads_andThen.mpr ⟨value, rest, reads.shorter, reads, goesOn reads.shorter⟩

theorem reads_andMaybe {result : β}
    {next : (value : α) → (rest : List Token) → rest.length < bound →
      Reading (rest.length + 1) β} :
    (reading.andMaybe next).Reads result rest ↔
      ∃ value middle shorter, reading.Reads value middle ∧
        (next value middle shorter).Reads result rest := by
  cases reading with
  | failed error stopped => simp [andMaybe]
  | done value middle shorter =>
      simp only [andMaybe, reads_relax, reads_after, reads_done]
      constructor
      · intro reads
        exact ⟨value, middle, shorter, ⟨rfl, rfl⟩, reads⟩
      · rintro ⟨_, _, _, ⟨rfl, rfl⟩, reads⟩
        exact reads

theorem Reads.andMaybe {result : β} {left : List Token}
    {next : (value : α) → (rest : List Token) → rest.length < bound →
      Reading (rest.length + 1) β}
    (reads : reading.Reads value rest)
    (goesOn : ∀ shorter, (next value rest shorter).Reads result left) :
    (reading.andMaybe next).Reads result left :=
  reads_andMaybe.mpr ⟨value, rest, reads.shorter, reads, goesOn reads.shorter⟩

end Reading

namespace Token

variable {token : Token}

theorem IsValidName.isType (isName : token.IsValidName) : token.IsType :=
  .inr (.inr (.inr isName))

theorem isTypeName_iff : token.isTypeName = true ↔ token.IsType := by
  rcases token with ⟨kind, text, position⟩
  cases kind with
  | primitive type => cases type <;> simp [isTypeName, IsType, IsValidName]
  | _ => simp [isTypeName, IsType, IsValidName]

theorem IsType.isValidName (isType : token.IsType) (isName : token.kind = .name) :
    token.IsValidName := by
  rcases isType with isInt | isFloat | isString | isValid
  · simp [isName] at isInt
  · simp [isName] at isFloat
  · simp [isName] at isString
  · exact isValid

/-- A name of the language's own shape has no marker at its end. -/
theorem IsValidName.isName (isValid : token.IsValidName) : token.IsName := by
  refine ⟨isValid.1, ?_⟩
  have shape := isValid.2
  simp only [isValidName] at shape
  simp only [isReferenceName]
  split
  · rfl
  · rfl
  · rename_i first others _ spelled
    simp only [spelled, Bool.and_eq_true, List.all_eq_true] at shape
    rw [decide_eq_false_iff_not]
    intro marked
    have isPart := shape.2 _ (List.mem_of_getLast? marked)
    exact absurd isPart (by decide)

theorem IsType.isReference (isType : token.IsType) : Grammar.isReference token = false := by
  rcases isType with isInt | isFloat | isString | isValid
  · simp [Grammar.isReference, isInt]
  · simp [Grammar.isReference, isFloat]
  · simp [Grammar.isReference, isString]
  · simp [Grammar.isReference, isValid.isName.1, isValid.isName.2]

end Token

namespace Grammar

open Reading

variable {tokens rest : List Token}

theorem exists_of_headKind {kind : TokenKind} (found : headKind tokens = kind)
    (notEnd : kind ≠ .endOfInput) :
    ∃ text position behind, tokens = ⟨kind, text, position⟩ :: behind := by
  cases tokens with
  | nil => exact absurd found.symm notEnd
  | cons token behind =>
      rcases token with ⟨kind, text, position⟩
      obtain rfl := found
      exact ⟨text, position, behind, rfl⟩

@[simp]
theorem reads_expect {kind : TokenKind} {error : TokenKind → GrammarError} {value : Unit} :
    (expect kind error tokens).Reads value rest ↔
      ∃ token, tokens = token :: rest ∧ token.kind = kind := by
  cases tokens with
  | nil => simp [expect]
  | cons token tokens =>
      by_cases same : token.kind = kind
      · simp only [expect, same, if_true, reads_take, true_and, List.cons.injEq]
        constructor
        · intro left
          exact ⟨token, ⟨rfl, left⟩, same⟩
        · rintro ⟨_, ⟨_, left⟩, _⟩
          exact left
      · simp only [expect, same, if_false, not_reads_fail, List.cons.injEq, false_iff]
        rintro ⟨_, ⟨rfl, _⟩, isKind⟩
        exact same isKind

theorem reads_expression {node : Node} :
    (expression tokens).Reads node rest ↔
      ∃ first middle links, (operand tokens).Reads first middle ∧
        (chain middle).Reads links rest ∧ first.ofChain links = node := by
  rw [expression, reads_andMaybe]
  simp only [reads_map]
  constructor
  · rintro ⟨first, middle, _, readFirst, links, readLinks, tree⟩
    exact ⟨first, middle, links, readFirst, readLinks, tree⟩
  · rintro ⟨first, middle, links, readFirst, readLinks, tree⟩
    exact ⟨first, middle, readFirst.shorter, readFirst, links, readLinks, tree⟩

theorem reads_chain_cons {op : Operator} {token : Token} (isOperator : token.kind = .operator op)
    {links : List (Operator × Node)} :
    (chain (token :: tokens)).Reads links rest ↔
      ∃ right middle others, (operand tokens).Reads right middle ∧
        (chain middle).Reads others rest ∧ (op, right) :: others = links := by
  rcases token with ⟨kind, text, position⟩
  obtain rfl : kind = .operator op := isOperator
  rw [chain, reads_orNothing, reads_behind, reads_andMaybe]
  simp only [reads_map, reads_inside]
  constructor
  · rintro ⟨right, middle, _, readRight, others, readOthers, all⟩
    exact ⟨right, middle, others, readRight, readOthers, all⟩
  · rintro ⟨right, middle, others, readRight, readOthers, all⟩
    exact ⟨right, middle, readRight.shorter, readRight, others, readOthers, all⟩

theorem reads_chain_nil (noOperator : (headKind tokens).operator? = none)
    {links : List (Operator × Node)} :
    (chain tokens).Reads links rest ↔ links = [] ∧ rest = tokens := by
  rw [chain]
  · simp [eq_comm]
  · rintro op text position behind rfl
    simp [headKind, TokenKind.operator?] at noOperator

theorem chain_cases {links : List (Operator × Node)} (reads : (chain tokens).Reads links rest) :
    links = [] ∧ rest = tokens ∨
      ∃ op sign behind right middle others, tokens = sign :: behind ∧ sign.kind = .operator op ∧
        (operand behind).Reads right middle ∧ (chain middle).Reads others rest ∧
        links = (op, right) :: others := by
  cases isOperator : (headKind tokens).operator? with
  | none => exact .inl ((reads_chain_nil isOperator).mp reads)
  | some op =>
      have starts : headKind tokens = .operator op := by
        cases kind : headKind tokens <;> simp_all [TokenKind.operator?]
      rcases exists_of_headKind starts (by simp) with ⟨text, position, behind, rfl⟩
      rcases (reads_chain_cons rfl).mp reads with ⟨right, middle, others, reads, more, all⟩
      exact .inr ⟨op, _, behind, right, middle, others, rfl, rfl, reads, more, all.symm⟩

/-- The ways in which an operand is read. -/
inductive ReadsOperand : List Token → Node → List Token → Prop
  | literal {token : Token} {rest : List Token} {value : Int32}
      (isLiteral : token.kind = .intLiteral) (fits : intLiteral? token.text = some value) :
      ReadsOperand (token :: rest) (.literal value) rest
  | group {opening closing : Token} {behind rest : List Token} {inner : Node}
      (opens : opening.kind = .parenOpen)
      (reads : (expression behind).Reads inner (closing :: rest))
      (closes : closing.kind = .parenClose) :
      ReadsOperand (opening :: behind) (.group inner) rest
  | call {name opening : Token} {behind rest : List Token} {args : List Node}
      (isName : name.IsName) (opens : opening.kind = .parenOpen)
      (reads : (arguments behind).Reads args rest) :
      ReadsOperand (name :: opening :: behind) (.call name.text args) rest
  | var {name : Token} {rest : List Token} (isName : name.IsName)
      (ends : headKind rest ≠ .parenOpen) :
      ReadsOperand (name :: rest) (.var ⟨name.text, none⟩) rest

theorem reads_operand {node : Node} :
    (operand tokens).Reads node rest ↔ ReadsOperand tokens node rest := by
  constructor
  · intro reads
    cases tokens with
    | nil => simp [operand] at reads
    | cons token tokens =>
        rw [operand.eq_def] at reads
        simp only at reads
        split at reads
        · rename_i isLiteral
          split at reads
          · rename_i value fits
            rcases reads_take.mp reads with ⟨rfl, rfl⟩
            exact .literal isLiteral fits
          · simp at reads
        · rename_i opens
          simp only [reads_behind, reads_andThen, reads_inside, reads_map, reads_expect] at reads
          rcases reads with ⟨inner, _, _, reads, _, ⟨closing, rfl, closes⟩, rfl⟩
          exact .group opens reads closes
        · rename_i isName
          split at reads
          · simp at reads
          · rename_i notReference
            have named : token.IsName := ⟨isName, by simpa using notReference⟩
            split at reads
            · simp only [reads_behind, reads_map] at reads
              rcases reads with ⟨args, reads, rfl⟩
              exact .call named rfl reads
            · rename_i notOpening
              rcases reads_take.mp reads with ⟨rfl, rfl⟩
              -- the match fell through, so what follows is not an opening parenthesis
              apply ReadsOperand.var named
              intro opens
              rcases exists_of_headKind opens (by simp) with ⟨text, position, behind, rfl⟩
              exact notOpening text position behind rfl
        all_goals simp at reads
  · intro reads
    cases reads with
    | literal isLiteral fits =>
        rw [operand.eq_def]
        simp [isLiteral, fits]
    | group opens reads closes =>
        rw [operand.eq_def]
        simp only [opens, reads_behind, reads_andThen, reads_inside, reads_map, reads_expect]
        exact ⟨_, _, reads.shorter, reads, (), ⟨_, rfl, closes⟩, rfl⟩
    | @call name opening behind rest args isName opens reads =>
        rcases opening with ⟨kind, text, position⟩
        obtain rfl : kind = .parenOpen := opens
        rw [operand.eq_def]
        simp only [isName.1, isName.2, Bool.false_eq_true, if_false, reads_behind, reads_map]
        exact ⟨args, reads, rfl⟩
    | @var name rest isName ends =>
        rw [operand.eq_def]
        simp only [isName.1, isName.2, Bool.false_eq_true, if_false]
        split
        · exact absurd rfl ends
        · simp

/-- What an operand starts with, and hence an expression. -/
theorem headKind_of_reads_operand {node : Node} (reads : (operand tokens).Reads node rest) :
    headKind tokens = .intLiteral ∨ headKind tokens = .parenOpen ∨ headKind tokens = .name := by
  rcases reads_operand.mp reads with ⟨isLiteral, _⟩ | ⟨opens, _, _⟩ | ⟨isName, _, _⟩ | ⟨isName, _⟩
  · exact .inl isLiteral
  · exact .inr (.inl opens)
  · exact .inr (.inr isName.1)
  · exact .inr (.inr isName.1)

/-- Expressions with commas between them are read, and a token of a kind that closes them. -/
inductive ReadsValues (closing : TokenKind) : List Token → List Node → List Token → Prop
  | last {tokens rest : List Token} {value : Node} {closer : Token}
      (reads : (expression tokens).Reads value (closer :: rest)) (closes : closer.kind = closing) :
      ReadsValues closing tokens [value] rest
  | more {tokens behind rest : List Token} {value : Node} {comma : Token} {others : List Node}
      (reads : (expression tokens).Reads value (comma :: behind)) (isComma : comma.kind = .comma)
      (readsOthers : ReadsValues closing behind others rest) :
      ReadsValues closing tokens (value :: others) rest

/-- A rule reads an expression and looks at the token behind it to see whether more follow. -/
def ReadsOneByOne (closing : TokenKind)
    (list : (tokens : List Token) → Reading tokens.length (List Node)) : Prop :=
  ∀ tokens values rest, (list tokens).Reads values rest ↔
    ∃ value next behind, (expression tokens).Reads value (next :: behind) ∧
      (next.kind = closing ∧ values = [value] ∧ rest = behind ∨
        next.kind = .comma ∧ ∃ others, (list behind).Reads others rest ∧ values = value :: others)

theorem ReadsOneByOne.reads_iff {closing : TokenKind}
    {list : (tokens : List Token) → Reading tokens.length (List Node)}
    (oneByOne : ReadsOneByOne closing list) {values : List Node} :
    (list tokens).Reads values rest ↔ ReadsValues closing tokens values rest := by
  constructor
  · intro reads
    induction length : tokens.length using Nat.strongRecOn generalizing tokens values with
    | _ _ ih =>
        rcases (oneByOne tokens values rest).mp reads with
          ⟨value, next, behind, readsValue, ⟨closes, rfl, rfl⟩ | ⟨isComma, others, more, rfl⟩⟩
        · exact .last readsValue closes
        · have shorter := readsValue.shorter
          simp only [List.length_cons] at shorter
          exact .more readsValue isComma (ih behind.length (by omega) more rfl)
  · intro reads
    induction reads with
    | last reads closes =>
        exact (oneByOne _ _ _).mpr ⟨_, _, _, reads, .inl ⟨closes, rfl, rfl⟩⟩
    | more reads isComma _ ih =>
        exact (oneByOne _ _ _).mpr ⟨_, _, _, reads, .inr ⟨isComma, _, ih, rfl⟩⟩

theorem argumentList_oneByOne : ReadsOneByOne .parenClose argumentList := by
  intro tokens values rest
  rw [argumentList.eq_def, reads_andThen]
  simp only [reads_inside]
  constructor
  · rintro ⟨value, middle, _, reads, next⟩
    split at next
    · rcases reads_take.mp next with ⟨rfl, rfl⟩
      exact ⟨value, _, _, reads, .inl ⟨rfl, rfl, rfl⟩⟩
    · simp only [reads_behind, reads_map] at next
      rcases next with ⟨others, more, rfl⟩
      exact ⟨value, _, _, reads, .inr ⟨rfl, others, more, rfl⟩⟩
    · simp at next
  · rintro ⟨value, ⟨kind, text, position⟩, behind, reads, next⟩
    refine ⟨value, _, reads.shorter, reads, ?_⟩
    rcases next with ⟨closes, rfl, rfl⟩ | ⟨isComma, others, more, rfl⟩
    · obtain rfl : kind = .parenClose := closes
      simp
    · obtain rfl : kind = .comma := isComma
      simp [more]

theorem returnedValues_oneByOne : ReadsOneByOne .semicolon returnedValues := by
  intro tokens values rest
  rw [returnedValues.eq_def, reads_andThen]
  simp only [reads_inside]
  constructor
  · rintro ⟨value, middle, _, reads, next⟩
    split at next
    · simp only [reads_behind, reads_map] at next
      rcases next with ⟨others, more, rfl⟩
      exact ⟨value, _, _, reads, .inr ⟨rfl, others, more, rfl⟩⟩
    · rcases reads_take.mp next with ⟨rfl, rfl⟩
      exact ⟨value, _, _, reads, .inl ⟨rfl, rfl, rfl⟩⟩
    · simp at next
  · rintro ⟨value, ⟨kind, text, position⟩, behind, reads, next⟩
    refine ⟨value, _, reads.shorter, reads, ?_⟩
    rcases next with ⟨closes, rfl, rfl⟩ | ⟨isComma, others, more, rfl⟩
    · obtain rfl : kind = .semicolon := closes
      simp
    · obtain rfl : kind = .comma := isComma
      simp [more]

/-- Such a list that may be empty. -/
inductive ReadsMaybeValues (closing : TokenKind) : List Token → List Node → List Token → Prop
  | none {closer : Token} {rest : List Token} (closes : closer.kind = closing) :
      ReadsMaybeValues closing (closer :: rest) [] rest
  | some {tokens rest : List Token} {values : List Node}
      (reads : ReadsValues closing tokens values rest) : ReadsMaybeValues closing tokens values rest

theorem headKind_of_readsValues {closing : TokenKind} {values : List Node}
    (reads : ReadsValues closing tokens values rest) :
    headKind tokens = .intLiteral ∨ headKind tokens = .parenOpen ∨ headKind tokens = .name := by
  rcases reads with ⟨reads, _⟩ | ⟨reads, _, _⟩ <;>
  · rcases reads_expression.mp reads with ⟨_, _, _, readsFirst, _, _⟩
    exact headKind_of_reads_operand readsFirst

theorem readsMaybeValues_closer {closing : TokenKind} {text : String} {position : Position}
    {values : List Node} (isEnd : closing = .parenClose ∨ closing = .semicolon) :
    ReadsMaybeValues closing (⟨closing, text, position⟩ :: tokens) values rest ↔
      [] = values ∧ tokens = rest := by
  constructor
  · rintro (_ | reads)
    · exact ⟨rfl, rfl⟩
    · have start := headKind_of_readsValues reads
      rcases isEnd with rfl | rfl <;> simp [headKind] at start
  · rintro ⟨rfl, rfl⟩
    exact .none rfl

theorem readsMaybeValues_not_closer {closing : TokenKind} {values : List Node}
    (notClosing : ∀ text position behind, tokens ≠ ⟨closing, text, position⟩ :: behind) :
    ReadsMaybeValues closing tokens values rest ↔ ReadsValues closing tokens values rest := by
  constructor
  · rintro (rfl | reads)
    · exact absurd rfl (notClosing _ _ _)
    · exact reads
  · exact .some

theorem reads_arguments {args : List Node} :
    (arguments tokens).Reads args rest ↔ ReadsMaybeValues .parenClose tokens args rest := by
  rw [arguments.eq_def]
  split
  · rw [readsMaybeValues_closer (.inl rfl), reads_take]
  · rename_i notClosing
    rw [readsMaybeValues_not_closer notClosing, argumentList_oneByOne.reads_iff]

theorem reads_returned {values : List Node} :
    (returned tokens).Reads values rest ↔ ReadsMaybeValues .semicolon tokens values rest := by
  rw [returned.eq_def]
  split
  · rw [readsMaybeValues_closer (.inr rfl), reads_take]
  · rename_i notClosing
    rw [readsMaybeValues_not_closer notClosing, returnedValues_oneByOne.reads_iff]

/-- The ways in which a statement is read. -/
inductive ReadsStatement : List Token → Node → List Token → Prop
  | ret {word : Token} {behind rest : List Token} {values : List Node}
      (starts : word.kind = .returnWord) (reads : ReadsMaybeValues .semicolon behind values rest) :
      ReadsStatement (word :: behind) (.ret values) rest
  | call {name opening semicolon : Token} {behind rest : List Token} {args : List Node}
      (isName : name.IsValidName) (opens : opening.kind = .parenOpen)
      (reads : ReadsMaybeValues .parenClose behind args (semicolon :: rest))
      (ends : semicolon.kind = .semicolon) :
      ReadsStatement (name :: opening :: behind) (.call name.text args) rest
  | decl {type name semicolon : Token} {rest : List Token} (isType : type.IsType)
      (isName : name.IsName) (ends : semicolon.kind = .semicolon) :
      ReadsStatement (type :: name :: semicolon :: rest) (.decl ⟨name.text, type.typeName⟩) rest
  | initialise {type name sign semicolon : Token} {behind rest : List Token} {value : Node}
      (isType : type.IsType) (isName : name.IsName) (assigns : sign.kind = .assign)
      (reads : (expression behind).Reads value (semicolon :: rest))
      (ends : semicolon.kind = .semicolon) :
      ReadsStatement (type :: name :: sign :: behind)
        (.assign (.decl ⟨name.text, type.typeName⟩) value) rest
  | assign {name sign semicolon : Token} {behind rest : List Token} {value : Node}
      (isName : name.IsValidName) (assigns : sign.kind = .assign)
      (reads : (expression behind).Reads value (semicolon :: rest))
      (ends : semicolon.kind = .semicolon) :
      ReadsStatement (name :: sign :: behind) (.assign (.var ⟨name.text, none⟩) value) rest

theorem readsStatement_of_startedBy {first semicolon : Token} {node : Node}
    (isType : first.IsType) (reads : (startedBy first tokens).Reads node (semicolon :: rest))
    (ends : semicolon.kind = .semicolon) : ReadsStatement (first :: tokens) node rest := by
  cases tokens with
  | nil => simp [startedBy] at reads
  | cons second tokens =>
      rw [startedBy.eq_def] at reads
      simp only at reads
      split at reads
      · rename_i opens
        split at reads
        · rename_i isName
          simp only [reads_orNothing, reads_behind, reads_map, reads_arguments] at reads
          rcases reads with ⟨args, reads, rfl⟩
          exact .call (isType.isValidName isName) opens reads ends
        · simp at reads
      · rename_i isName
        split at reads
        · simp at reads
        · rename_i notReference
          have named : second.IsName := ⟨isName, by simpa using notReference⟩
          rw [reads_orNothing, declared.eq_def] at reads
          split at reads
          · simp only [reads_orNothing, reads_behind, assignedValue, reads_map, reads_inside]
              at reads
            rcases reads with ⟨value, reads, rfl⟩
            exact .initialise isType named rfl reads ends
          · simp at reads
          · rcases reads_stay.mp reads with ⟨rfl, rfl⟩
            exact .decl isType named ends
      · rename_i assigns
        split at reads
        · rename_i isName
          simp only [reads_orNothing, reads_behind, assignedValue, reads_map, reads_inside]
            at reads
          rcases reads with ⟨value, reads, rfl⟩
          exact .assign (isType.isValidName isName) assigns reads ends
        · simp at reads
      all_goals simp at reads

theorem reads_statement {node : Node} :
    (statement tokens).Reads node rest ↔ ReadsStatement tokens node rest := by
  constructor
  · intro reads
    cases tokens with
    | nil => simp [statement] at reads
    | cons first tokens =>
        rw [statement.eq_def] at reads
        simp only at reads
        split at reads
        · rename_i starts
          simp only [reads_behind, reads_map, reads_returned] at reads
          rcases reads with ⟨values, reads, rfl⟩
          exact .ret starts reads
        · split at reads
          · simp at reads
          · split at reads
            · rename_i isType
              simp only [reads_andThen, reads_map, reads_expect] at reads
              rcases reads with ⟨node, _, _, started, _, ⟨semicolon, rfl, ends⟩, rfl⟩
              exact readsStatement_of_startedBy (Token.isTypeName_iff.mp isType) started ends
            · simp at reads
  · intro reads
    have started : ∀ {first semicolon : Token} {tokens : List Token}, first.IsType →
        (startedBy first tokens).Reads node (semicolon :: rest) → semicolon.kind = .semicolon →
        (statement (first :: tokens)).Reads node rest := by
      intro first semicolon tokens isType reads ends
      rw [statement.eq_def]
      have notReturn : first.kind ≠ .returnWord := isType.kind_ne (by simp)
      simp only [notReturn, isType.isReference, Token.isTypeName_iff.mpr isType,
        Bool.false_eq_true, if_true, if_false, reads_andThen, reads_map, reads_expect]
      exact ⟨node, _, reads.shorter, reads, (), ⟨semicolon, rfl, ends⟩, rfl⟩
    cases reads with
    | ret starts reads =>
        rw [statement.eq_def]
        simp only [starts, if_true, reads_behind, reads_map, reads_returned]
        exact ⟨_, reads, rfl⟩
    | call isName opens reads ends =>
        refine started isName.isType ?_ ends
        rw [startedBy.eq_def]
        simp only [opens, isName.1, if_true, reads_orNothing, reads_behind, reads_map,
          reads_arguments]
        exact ⟨_, reads, rfl⟩
    | @decl type name semicolon rest isType isName ends =>
        refine started isType ?_ ends
        rcases semicolon with ⟨kind, text, position⟩
        obtain rfl : kind = .semicolon := ends
        rw [startedBy.eq_def]
        simp [isName.1, isName.2, declared]
    | @initialise type name sign semicolon behind rest value isType isName assigns reads ends =>
        refine started isType ?_ ends
        rcases sign with ⟨kind, text, position⟩
        obtain rfl : kind = .assign := assigns
        rw [startedBy.eq_def]
        simp [isName.1, isName.2, declared, assignedValue, reads]
    | assign isName assigns reads ends =>
        refine started isName.isType ?_ ends
        rw [startedBy.eq_def]
        simp [assigns, isName.1, assignedValue, reads]

end Grammar

end Tuplet
