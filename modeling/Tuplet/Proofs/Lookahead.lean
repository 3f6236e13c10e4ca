import Tuplet.Proofs.ReadingLog
import Tuplet.Proofs.Rules

/-!
# How far the grammar looks ahead

A rule reads tokens off the front of a sequence and stops at one of them, or at the end.
What comes of it is settled by the tokens it has read and the one it stops at: whatever
stands behind that token may be exchanged. This holds of failures as well as of
successes, so a sequence that is refused at a token is refused at that token however it
goes on from there.

Rules are made of each other in a few ways, and each of them keeps this. A rule that goes
on behind another one looks at the tokens where that one has stopped, and no further than
where it stops itself.
-/

namespace Tuplet

namespace Reading

variable {bound large : Nat} {α β : Type} {reading : Reading bound α} {value : α}
  {tokens rest : List Token}

@[simp]
theorem rest_fail {error : GrammarError} :
    (fail error tokens : Reading bound α).rest = tokens := rfl

@[simp]
theorem result_fail {error : GrammarError} :
    (fail error tokens : Reading bound α).result = .error error := rfl

@[simp]
theorem rest_stay : (stay value tokens).rest = tokens := rfl

@[simp]
theorem result_stay : (stay value tokens).result = .ok value := rfl

@[simp]
theorem rest_take {token : Token} :
    (take value tokens : Reading (token :: tokens).length α).rest = tokens := rfl

@[simp]
theorem result_take {token : Token} :
    (take value tokens : Reading (token :: tokens).length α).result = .ok value := rfl

@[simp]
theorem rest_relax {le : bound ≤ large} : (reading.relax le).rest = reading.rest := by
  cases reading <;> rfl

@[simp]
theorem result_relax {le : bound ≤ large} : (reading.relax le).result = reading.result := by
  cases reading <;> rfl

@[simp]
theorem rest_after {earlier : ReadingLog} : (reading.after earlier).rest = reading.rest := by
  cases reading <;> rfl

@[simp]
theorem result_after {earlier : ReadingLog} :
    (reading.after earlier).result = reading.result := by
  cases reading <;> rfl

@[simp]
theorem rest_behind {token : Token} {reading : Reading tokens.length α} :
    (reading.behind : Reading (token :: tokens).length α).rest = reading.rest :=
  rest_relax

@[simp]
theorem result_behind {token : Token} {reading : Reading tokens.length α} :
    (reading.behind : Reading (token :: tokens).length α).result = reading.result :=
  result_relax

@[simp]
theorem rest_orNothing : reading.orNothing.rest = reading.rest := rest_relax

@[simp]
theorem result_orNothing : reading.orNothing.result = reading.result := result_relax

@[simp]
theorem rest_inside {construct : Construct} : (reading.inside construct).rest = reading.rest := by
  cases reading <;> rfl

@[simp]
theorem result_inside {construct : Construct} :
    (reading.inside construct).result = reading.result := by
  cases reading <;> rfl

@[simp]
theorem rest_map {change : α → β} : (reading.map change).rest = reading.rest := by
  cases reading <;> rfl

@[simp]
theorem result_map {change : α → β} :
    (reading.map change).result = reading.result.map change := by
  cases reading <;> rfl

theorem reads_iff :
    reading.Reads value rest ↔ reading.rest = rest ∧ reading.result = .ok value := by
  cases reading with
  | done found left shorter => simp [Reading.rest, result, and_comm]
  | failed error left => simp [result]

theorem Candid.log_eq_nil (candid : reading.Candid) (reads : reading.Reads value rest) :
    reading.log = [] := by
  cases candid with
  | done found left shorter => rfl
  | failed failure left => exact absurd reads not_reads_failed

theorem exists_reads {view : α → β} {seen : β} (stopped : reading.rest = rest)
    (found : reading.result.toOption.map view = some seen) :
    ∃ value, reading.Reads value rest ∧ view value = seen := by
  cases reading with
  | done value left shorter => exact ⟨value, reads_done.mpr ⟨rfl, stopped⟩, Option.some.inj found⟩
  | failed error left => cases found

theorem andMaybe_of_reads (reads : reading.Reads value rest)
    (next : (value : α) → (rest : List Token) → rest.length < bound →
      Reading (rest.length + 1) β) :
    (reading.andMaybe next).rest = (next value rest reads.shorter).rest ∧
      (reading.andMaybe next).result = (next value rest reads.shorter).result := by
  rcases reads with ⟨shorter, log, rfl⟩
  simp [andMaybe]

theorem andMaybe_of_error {error : GrammarError} (failed : reading.result = .error error)
    (next : (value : α) → (rest : List Token) → rest.length < bound →
      Reading (rest.length + 1) β) :
    (reading.andMaybe next).rest = reading.rest ∧
      (reading.andMaybe next).result = .error error := by
  cases reading with
  | done found left shorter => cases failed
  | failed error left =>
      cases failed
      exact ⟨rfl, rfl⟩

theorem andThen_eq_andMaybe
    {next : (value : α) → (rest : List Token) → rest.length < bound → Reading rest.length β} :
    reading.andThen next =
      reading.andMaybe fun value rest shorter => (next value rest shorter).orNothing := by
  cases reading with
  | failed error left => rfl
  | done found left shorter =>
      simp only [andThen, andMaybe]
      cases next found left shorter <;> rfl

/-- Tokens start with the same token again if some of those behind it are exchanged. -/
theorem head?_of_split {before left : List Token} (split : tokens = before ++ left)
    (sameHead : rest.head? = left.head?) : (before ++ rest).head? = tokens.head? := by
  rw [split, List.head?_append, List.head?_append, sameHead]

/--
What comes of applying a rule to some tokens is settled by those that it reads and the
one that it stops at.
-/
def Settled {size : List Token → Nat} (rule : (tokens : List Token) → Reading (size tokens) α)
    (tokens : List Token) : Prop :=
  ∃ before, tokens = before ++ (rule tokens).rest ∧
    ∀ rest, rest.head? = (rule tokens).rest.head? →
      (rule (before ++ rest)).rest = rest ∧ (rule (before ++ rest)).result = (rule tokens).result

namespace Settled

variable {size other : List Token → Nat} {rule : (tokens : List Token) → Reading (size tokens) α}

/-- A rule that reads nothing is settled if it looks at no more than the first token. -/
theorem of_stop
    (stops : ∀ rest, rest.head? = tokens.head? →
      (rule rest).rest = rest ∧ (rule rest).result = (rule tokens).result) :
    Settled rule tokens := by
  have here := (stops tokens rfl).1
  refine ⟨[], by simp [here], ?_⟩
  intro rest sameHead
  rw [here] at sameHead
  exact stops rest sameHead

theorem of_nil (stops : (rule []).rest = []) : Settled rule [] := by
  apply of_stop
  intro rest sameHead
  cases rest with
  | nil => exact ⟨stops, rfl⟩
  | cons token tokens => simp at sameHead

theorem of_stop_cons {token : Token}
    (stops : ∀ rest, (rule (token :: rest)).rest = token :: rest ∧
      (rule (token :: rest)).result = (rule (token :: tokens)).result) :
    Settled rule (token :: tokens) := by
  apply of_stop
  intro rest sameHead
  cases rest with
  | nil => simp at sameHead
  | cons first others =>
      simp only [List.head?_cons, Option.some.injEq] at sameHead
      subst first
      exact stops others

/-- The first token may be taken for granted. -/
theorem of_cons {token : Token} (settled : Settled (fun tokens => rule (token :: tokens)) tokens) :
    Settled rule (token :: tokens) := by
  rcases settled with ⟨before, split, same⟩
  refine ⟨token :: before, ?_, same⟩
  rw [List.cons_append, ← split]

theorem of_take {token : Token}
    (takes : ∀ rest, (rule (token :: rest)).rest = rest ∧
      (rule (token :: rest)).result = (rule (token :: tokens)).result) :
    Settled rule (token :: tokens) := by
  apply of_cons
  apply of_stop
  intro rest _
  exact takes rest

/-- Rules may be exchanged that do the same wherever the first token is the same. -/
theorem congr {rule' : (tokens : List Token) → Reading (other tokens) α}
    (settled : Settled rule tokens)
    (same : ∀ rest, rest.head? = tokens.head? →
      (rule' rest).rest = (rule rest).rest ∧ (rule' rest).result = (rule rest).result) :
    Settled rule' tokens := by
  rcases settled with ⟨before, split, settled⟩
  rcases same tokens rfl with ⟨sameHere, sameResult⟩
  refine ⟨before, by rw [sameHere]; exact split, ?_⟩
  intro rest sameHead
  rw [sameHere] at sameHead
  rcases same (before ++ rest) (head?_of_split split sameHead) with ⟨sameThere, sameResultThere⟩
  rw [sameThere, sameResultThere, sameResult]
  exact settled rest sameHead

theorem map (settled : Settled rule tokens) (change : α → β) :
    Settled (fun tokens => (rule tokens).map change) tokens := by
  rcases settled with ⟨before, split, same⟩
  refine ⟨before, by simpa using split, ?_⟩
  intro rest sameHead
  simp only [rest_map, result_map] at sameHead ⊢
  rcases same rest sameHead with ⟨sameRest, sameResult⟩
  exact ⟨sameRest, by rw [sameResult]⟩

theorem andMaybe {next : α → (tokens : List Token) → Reading (tokens.length + 1) β}
    (settled : Settled rule tokens)
    (goesOn : ∀ value rest, (rule tokens).Reads value rest → Settled (next value) rest) :
    Settled (fun tokens => (rule tokens).andMaybe fun value rest _ => next value rest) tokens := by
  rcases settled with ⟨before, split, same⟩
  cases outcome : (rule tokens).result with
  | error error =>
      rcases andMaybe_of_error outcome fun value rest _ => next value rest with ⟨stopped, failed⟩
      refine ⟨before, by rw [stopped]; exact split, ?_⟩
      intro rest sameHead
      rw [stopped] at sameHead
      rcases same rest sameHead with ⟨sameRest, sameResult⟩
      rcases andMaybe_of_error (sameResult.trans outcome) fun value rest _ => next value rest with
        ⟨otherStopped, otherFailed⟩
      exact ⟨otherStopped.trans sameRest, otherFailed.trans failed.symm⟩
  | ok value =>
      have reads : (rule tokens).Reads value (rule tokens).rest := reads_iff.mpr ⟨rfl, outcome⟩
      rcases goesOn value _ reads with ⟨between, splitRest, sameNext⟩
      rcases andMaybe_of_reads reads fun value rest _ => next value rest with ⟨stopped, found⟩
      refine ⟨before ++ between, ?_, ?_⟩
      · rw [stopped, List.append_assoc, ← splitRest]
        exact split
      · intro rest sameHead
        rw [stopped] at sameHead
        -- the first rule stops where it did, since the token there is still the same
        rcases same (between ++ rest) (head?_of_split splitRest sameHead) with
          ⟨sameRest, sameResult⟩
        have readsAgain := reads_iff.mpr ⟨sameRest, sameResult.trans outcome⟩
        rcases andMaybe_of_reads readsAgain fun value rest _ => next value rest with
          ⟨otherStopped, otherFound⟩
        rcases sameNext rest sameHead with ⟨sameEnd, sameOutcome⟩
        rw [List.append_assoc]
        exact ⟨otherStopped.trans sameEnd, (otherFound.trans sameOutcome).trans found.symm⟩

theorem andThen {next : α → (tokens : List Token) → Reading tokens.length β}
    (settled : Settled rule tokens)
    (goesOn : ∀ value rest, (rule tokens).Reads value rest → Settled (next value) rest) :
    Settled (fun tokens => (rule tokens).andThen fun value rest _ => next value rest) tokens := by
  simp only [andThen_eq_andMaybe]
  apply settled.andMaybe
  intro value rest reads
  exact (goesOn value rest reads).congr (by simp)

end Settled

end Reading

namespace Grammar

open Reading

variable {tokens : List Token} {bound : Nat}

theorem headKind_congr {rest : List Token} (sameHead : rest.head? = tokens.head?) :
    headKind rest = headKind tokens := by
  cases tokens <;> cases rest <;> simp_all [headKind]

theorem settled_expect (kind : TokenKind) (error : TokenKind → GrammarError)
    (tokens : List Token) : Settled (expect kind error) tokens := by
  cases tokens with
  | nil => exact .of_nil rfl
  | cons token tokens =>
      by_cases same : token.kind = kind
      · exact .of_take (by simp [expect, same])
      · exact .of_stop_cons (by simp [expect, same])

/--
What a list of expressions does behind one of them: it ends at a token of the closing
kind and goes on behind a comma.
-/
def behindValue (closing : TokenKind) (error : GrammarError)
    (list : (tokens : List Token) → Reading tokens.length (List Node)) (first : Node)
    (tokens : List Token) : Reading tokens.length (List Node) :=
  match tokens with
  | [] => .fail error []
  | token :: rest =>
      if token.kind = closing then .take [first] rest
      else if token.kind = .comma then ((list rest).map fun others => first :: others).behind
      else .fail error (token :: rest)

theorem argumentList_eq (tokens : List Token) :
    argumentList tokens = ((expression tokens).inside .argument).andThen fun first rest _ =>
      behindValue .parenClose .expectedArgumentsEnd argumentList first rest := by
  rw [argumentList]
  congr 1
  funext first rest _
  rcases rest with _ | ⟨⟨kind, text, position⟩, rest⟩
  · rfl
  · cases kind <;> rfl

theorem returnedValues_eq (tokens : List Token) :
    returnedValues tokens = ((expression tokens).inside .returnedValue).andThen fun first rest _ =>
      behindValue .semicolon .expectedReturnEnd returnedValues first rest := by
  rw [returnedValues]
  congr 1
  funext first rest _
  rcases rest with _ | ⟨⟨kind, text, position⟩, rest⟩
  · rfl
  · cases kind <;> rfl

theorem settled_behindValue {closing : TokenKind} {error : GrammarError}
    {list : (tokens : List Token) → Reading tokens.length (List Node)} {first : Node}
    (others : ∀ behind : List Token, behind.length < tokens.length → Settled list behind) :
    Settled (behindValue closing error list first) tokens := by
  cases tokens with
  | nil => exact .of_nil rfl
  | cons token tokens =>
      by_cases closes : token.kind = closing
      · exact .of_take (by simp [behindValue, closes])
      by_cases isComma : token.kind = .comma
      · apply Settled.of_cons
        apply ((others tokens (by simp)).map fun others => first :: others).congr
        have notClosing : TokenKind.comma ≠ closing := isComma ▸ closes
        simp [behindValue, isComma, notClosing]
      · exact .of_stop_cons (by simp [behindValue, closes, isComma])

/-- Operands are settled if there are fewer tokens than some number. -/
def OperandsSettled (bound : Nat) : Prop :=
  ∀ tokens : List Token, tokens.length < bound → Settled operand tokens

namespace OperandsSettled

theorem chain (operands : OperandsSettled bound) (within : tokens.length < bound) :
    Settled chain tokens := by
  induction length : tokens.length using Nat.strongRecOn generalizing tokens with
  | _ _ ih =>
      cases isOperator : (headKind tokens).operator? with
      | none =>
          apply Settled.of_stop
          intro rest sameHead
          have endsToo : (headKind rest).operator? = none := by
            rw [headKind_congr sameHead]
            exact isOperator
          have reads := (reads_chain_nil isOperator).mpr ⟨rfl, rfl⟩
          have readsOther := (reads_chain_nil endsToo).mpr ⟨rfl, rfl⟩
          exact ⟨(reads_iff.mp readsOther).1,
            (reads_iff.mp readsOther).2.trans (reads_iff.mp reads).2.symm⟩
      | some op =>
          have starts : headKind tokens = .operator op := by
            cases kind : headKind tokens <;> simp_all [TokenKind.operator?]
          rcases exists_of_headKind starts (by simp) with ⟨text, position, behind, rfl⟩
          simp only [List.length_cons] at within length
          have settled : Settled (fun tokens =>
              ((operand tokens).inside .rightOperand).andMaybe fun right rest _ =>
                (Grammar.chain rest).map fun links => (op, right) :: links) behind := by
            apply Settled.andMaybe
            · exact (operands behind (by omega)).congr (by simp)
            · intro right rest reads
              have shorter := reads.shorter
              exact (ih rest.length (by omega) (by omega) rfl).map _
          apply Settled.of_cons
          apply settled.congr
          intro tokens _
          rw [Grammar.chain]
          simp

theorem expression (operands : OperandsSettled bound) (within : tokens.length < bound) :
    Settled expression tokens := by
  have settled : Settled (fun tokens => (operand tokens).andMaybe fun first rest _ =>
      (Grammar.chain rest).map fun links => first.ofChain links) tokens := by
    apply Settled.andMaybe (operands tokens within)
    intro first rest reads
    have shorter := reads.shorter
    exact (operands.chain (by omega)).map _
  apply settled.congr
  intro tokens _
  rw [Grammar.expression]
  exact ⟨rfl, rfl⟩

theorem values (operands : OperandsSettled bound) {closing : TokenKind} {error : GrammarError}
    {construct : Construct} {list : (tokens : List Token) → Reading tokens.length (List Node)}
    (list_eq : ∀ tokens, list tokens = ((Grammar.expression tokens).inside construct).andThen
      fun first rest _ => behindValue closing error list first rest)
    (within : tokens.length < bound) : Settled list tokens := by
  induction length : tokens.length using Nat.strongRecOn generalizing tokens with
  | _ _ ih =>
      have settled : Settled (fun tokens => ((Grammar.expression tokens).inside construct).andThen
          fun first rest _ => behindValue closing error list first rest) tokens := by
        apply Settled.andThen
        · exact (operands.expression within).congr (by simp)
        · intro first rest reads
          have shorter := reads.shorter
          apply settled_behindValue
          intro behind fewer
          exact ih behind.length (by omega) (by omega) rfl
      apply settled.congr
      intro tokens _
      rw [list_eq]
      exact ⟨rfl, rfl⟩

theorem group (operands : OperandsSettled bound) (within : tokens.length < bound) {token : Token}
    (opens : token.kind = .parenOpen) : Settled operand (token :: tokens) := by
  have settled : Settled (fun tokens =>
      ((Grammar.expression tokens).inside .group).andThen fun inner rest _ =>
        (expect .parenClose .expectedGroupEnd rest).map fun _ => Node.group inner) tokens := by
    apply Settled.andThen
    · exact (operands.expression within).congr (by simp)
    · intro inner rest _
      exact (settled_expect _ _ rest).map _
  apply Settled.of_cons
  apply settled.congr
  simp [operand.eq_def, opens]

theorem arguments (operands : OperandsSettled bound) (within : tokens.length < bound) :
    Settled arguments tokens := by
  by_cases closes : headKind tokens = .parenClose
  · rcases exists_of_headKind closes (by simp) with ⟨text, position, behind, rfl⟩
    exact .of_take (by simp [Grammar.arguments])
  · apply (operands.values argumentList_eq within).congr
    intro rest sameHead
    rw [Grammar.arguments]
    · exact ⟨rfl, rfl⟩
    · rintro text position behind rfl
      exact closes (headKind_congr sameHead).symm

end OperandsSettled

theorem settled_var {name : Token} (isName : name.IsName)
    (noCall : headKind tokens ≠ .parenOpen) : Settled operand (name :: tokens) := by
  have reads : ∀ rest : List Token, headKind rest = headKind tokens →
      (operand (name :: rest)).Reads (.var ⟨name.text, none⟩) rest := by
    intro rest sameKind
    exact reads_operand.mpr (.var isName (sameKind ▸ noCall))
  apply Settled.of_cons
  apply Settled.of_stop
  intro rest sameHead
  rcases reads_iff.mp (reads tokens rfl) with ⟨_, result⟩
  rcases reads_iff.mp (reads rest (headKind_congr sameHead)) with ⟨stops, sameResult⟩
  exact ⟨stops, sameResult.trans result.symm⟩

theorem operandsSettled (bound : Nat) : OperandsSettled bound := by
  induction bound with
  | zero =>
      intro tokens within
      exact absurd within (Nat.not_lt_zero _)
  | succ bound ih =>
      intro tokens within
      cases tokens with
      | nil => exact .of_nil (by simp [operand])
      | cons token tokens =>
          simp only [List.length_cons, Nat.add_lt_add_iff_right] at within
          cases kind : token.kind with
          | intLiteral =>
              cases fits : intLiteral? token.text with
              | none => exact .of_stop_cons (by simp [operand.eq_def, kind, fits])
              | some value => exact .of_take (by simp [operand.eq_def, kind, fits])
          | parenOpen => exact ih.group within kind
          | name =>
              by_cases isReference : isReferenceName token.text = true
              · exact .of_stop_cons (by simp [operand.eq_def, kind, isReference])
              by_cases opens : headKind tokens = .parenOpen
              · rcases exists_of_headKind opens (by simp) with ⟨text, position, behind, rfl⟩
                simp only [List.length_cons] at within
                apply Settled.of_cons
                apply Settled.of_cons
                apply ((ih.arguments (by omega)).map (.call token.text)).congr
                simp [operand.eq_def, kind, isReference]
              · exact settled_var ⟨kind, by simpa using isReference⟩ opens
          | _ => exact .of_stop_cons (by simp [operand.eq_def, kind])

theorem settled_expression (tokens : List Token) : Settled expression tokens :=
  (operandsSettled _).expression (Nat.lt_succ_self _)

theorem settled_arguments (tokens : List Token) : Settled arguments tokens :=
  (operandsSettled _).arguments (Nat.lt_succ_self _)

theorem settled_assignedValue (target : Target) (tokens : List Token) :
    Settled (assignedValue target) tokens := by
  apply ((settled_expression tokens).map (Node.assign target)).congr
  simp [assignedValue]

theorem settled_returned (tokens : List Token) : Settled returned tokens := by
  by_cases ends : headKind tokens = .semicolon
  · rcases exists_of_headKind ends (by simp) with ⟨text, position, behind, rfl⟩
    exact .of_take (by simp [returned])
  · apply ((operandsSettled _).values returnedValues_eq (Nat.lt_succ_self _)).congr
    intro rest sameHead
    rw [returned]
    · exact ⟨rfl, rfl⟩
    · rintro text position behind rfl
      exact ends (headKind_congr sameHead).symm

theorem settled_declared (declaration : Declaration) (tokens : List Token) :
    Settled (declared declaration) tokens := by
  rcases tokens with _ | ⟨⟨kind, text, position⟩, tokens⟩
  · exact .of_nil rfl
  · cases kind with
    | assign =>
        apply Settled.of_cons
        apply (settled_assignedValue (.decl declaration) tokens).congr
        simp [declared]
    | _ => exact .of_stop_cons (by simp [declared])

theorem settled_startedBy (first : Token) (tokens : List Token) :
    Settled (startedBy first) tokens := by
  cases tokens with
  | nil => exact .of_nil rfl
  | cons second tokens =>
      cases kind : second.kind with
      | parenOpen =>
          by_cases isName : first.kind = .name
          · apply Settled.of_cons
            apply ((settled_arguments tokens).map (.call first.text)).congr
            simp [startedBy, kind, isName]
          · exact .of_stop_cons (by simp [startedBy, kind, isName])
      | name =>
          by_cases isReference : isReferenceName second.text = true
          · exact .of_stop_cons (by simp [startedBy, kind, isReference])
          · apply Settled.of_cons
            apply (settled_declared ⟨second.text, first.typeName⟩ tokens).congr
            simp [startedBy, kind, isReference]
      | assign =>
          by_cases isName : first.kind = .name
          · apply Settled.of_cons
            apply (settled_assignedValue (.var ⟨first.text, none⟩) tokens).congr
            simp [startedBy, kind, isName]
          · exact .of_stop_cons (by simp [startedBy, kind, isName])
      | _ => exact .of_stop_cons (by simp [startedBy, kind])

theorem settled_statement (tokens : List Token) : Settled statement tokens := by
  cases tokens with
  | nil => exact .of_nil rfl
  | cons first tokens =>
      by_cases returns : first.kind = .returnWord
      · apply Settled.of_cons
        apply ((settled_returned tokens).map Node.ret).congr
        simp [statement, returns]
      by_cases refers : isReference first = true
      · exact .of_stop_cons (by simp [statement, returns, refers])
      by_cases isType : first.isTypeName = true
      · have settled : Settled (fun tokens => (startedBy first tokens).andThen fun node rest _ =>
            (expect .semicolon .expectedStatementEnd rest).map fun _ => node) tokens := by
          apply Settled.andThen (settled_startedBy first tokens)
          intro node rest _
          exact (settled_expect _ _ rest).map _
        apply Settled.of_cons
        apply settled.congr
        simp [statement, returns, refers, isType]
      · exact .of_stop_cons (by simp [statement, returns, refers, isType])

theorem settled_returnList (isFirst : Bool) (tokens : List Token) :
    Settled (returnList isFirst) tokens := by
  induction length : tokens.length using Nat.strongRecOn generalizing isFirst tokens with
  | _ _ ih =>
      cases tokens with
      | nil => exact .of_nil (by simp [returnList])
      | cons token tokens =>
          cases listed : listedType isFirst token with
          | error error => exact .of_stop_cons (by simp [returnList.eq_def, listed])
          | ok type =>
              simp only [List.length_cons] at length
              apply Settled.of_cons
              rcases tokens with _ | ⟨⟨kind, text, position⟩, tokens⟩
              · exact .of_nil (by simp [returnList.eq_def, listed])
              · simp only [List.length_cons] at length
                cases kind with
                | comma =>
                    apply Settled.of_cons
                    apply ((ih tokens.length (by omega) false tokens rfl).map (type :: ·)).congr
                    intro rest _
                    rw [returnList]
                    simp [listed]
                | parenClose => exact .of_take (by simp [returnList.eq_def, listed])
                | _ => exact .of_stop_cons (by simp [returnList.eq_def, listed])

theorem settled_returnTypes (tokens : List Token) : Settled returnTypes tokens := by
  rcases tokens with _ | ⟨⟨kind, text, position⟩, tokens⟩
  · exact .of_nil rfl
  · by_cases opens : kind = .parenOpen
    · subst opens
      apply Settled.of_cons
      apply (settled_returnList true tokens).congr
      simp [returnTypes]
    · cases bare : bareReturns ⟨kind, text, position⟩ with
      | error error => exact .of_stop_cons (by simp [returnTypes, opens, bare])
      | ok types => exact .of_take (by simp [returnTypes, opens, bare])

theorem settled_functionName (tokens : List Token) : Settled functionName tokens := by
  cases tokens with
  | nil => exact .of_nil rfl
  | cons token tokens =>
      by_cases isName : token.kind = .name
      · by_cases isValid : isValidName token.text = true
        · exact .of_take (by simp [functionName, isName, isValid])
        · exact .of_stop_cons (by simp [functionName, isName, isValid])
      · exact .of_stop_cons (by simp [functionName, isName])

theorem settled_parameterList (tokens : List Token) : Settled parameterList tokens := by
  induction length : tokens.length using Nat.strongRecOn generalizing tokens with
  | _ _ ih =>
      cases tokens with
      | nil => exact .of_nil (by simp [parameterList])
      | cons type tokens =>
          by_cases isType : type.isTypeName = true
          · apply Settled.of_cons
            cases tokens with
            | nil => exact .of_nil (by simp [parameterList.eq_def, isType])
            | cons name tokens =>
                by_cases isValid : name.kind = .name ∧ isValidName name.text = true
                · apply Settled.of_cons
                  rcases tokens with _ | ⟨⟨kind, text, position⟩, tokens⟩
                  · exact .of_nil (by simp [parameterList.eq_def, isType, isValid])
                  · simp only [List.length_cons] at length
                    cases kind with
                    | comma =>
                        apply Settled.of_cons
                        apply ((ih tokens.length (by omega) tokens rfl).map
                          (⟨type.typeName, name.text⟩ :: ·)).congr
                        intro rest _
                        rw [parameterList]
                        simp [isType, isValid]
                    | parenClose => exact .of_take (by simp [parameterList.eq_def, isType, isValid])
                    | _ => exact .of_stop_cons (by simp [parameterList.eq_def, isType, isValid])
                · exact .of_stop_cons (by simp [parameterList.eq_def, isType, isValid])
          · exact .of_stop_cons (by simp [parameterList.eq_def, isType])

theorem settled_parameters (tokens : List Token) : Settled parameters tokens := by
  by_cases closes : headKind tokens = .parenClose
  · rcases exists_of_headKind closes (by simp) with ⟨text, position, behind, rfl⟩
    exact .of_take (by simp [parameters])
  · apply (settled_parameterList tokens).congr
    intro rest sameHead
    rw [parameters]
    · exact ⟨rfl, rfl⟩
    · rintro text position behind rfl
      exact closes (headKind_congr sameHead).symm

theorem settled_signature (tokens : List Token) : Settled signature tokens := by
  apply Settled.andThen (settled_returnTypes tokens)
  intro returns rest _
  apply Settled.andThen (settled_functionName rest)
  intro name rest _
  apply Settled.andThen (settled_expect _ _ rest)
  intro _ rest _
  exact (settled_parameters rest).map _

theorem settled_body (tokens : List Token) : Settled body tokens := by
  induction length : tokens.length using Nat.strongRecOn generalizing tokens with
  | _ _ ih =>
      cases tokens with
      | nil => exact .of_nil (by simp [body])
      | cons token tokens =>
          by_cases closes : token.kind = .braceClose
          · exact .of_take (by simp [body.eq_def, closes])
          by_cases ends : token.kind = .endOfInput
          · exact .of_stop_cons (by simp [body.eq_def, ends])
          · have settled : Settled (fun tokens =>
                ((statement tokens).inside .statement).andThen fun first rest _ =>
                  (body rest).map fun others => first :: others) (token :: tokens) := by
              apply Settled.andThen
              · exact (settled_statement _).congr (by simp)
              · intro first rest reads
                have shorter := reads.shorter
                exact (ih rest.length (by omega) rest rfl).map _
            apply settled.congr
            intro rest sameHead
            rcases rest with _ | ⟨first, rest⟩
            · simp at sameHead
            · simp only [List.head?_cons, Option.some.injEq] at sameHead
              subst first
              simp [body.eq_def (token :: rest)]

theorem settled_definition (header : Signature) (tokens : List Token) :
    Settled (definition header) tokens := by
  rcases tokens with _ | ⟨⟨kind, text, position⟩, tokens⟩
  · exact .of_nil rfl
  · cases kind with
    | braceOpen =>
        apply Settled.of_cons
        apply ((settled_body tokens).map (.function header)).congr
        simp [definition]
    | semicolon => exact .of_take (by simp [definition])
    | _ => exact .of_stop_cons (by simp [definition])

theorem settled_function (tokens : List Token) : Settled function tokens := by
  apply Settled.andMaybe
  · exact (settled_signature tokens).congr (by simp)
  · intro header rest _
    exact settled_definition header rest

theorem program_of_end (ended : headKind tokens = .endOfInput) :
    program tokens = ⟨[], none, tokens, []⟩ := by
  rw [program.eq_def, if_pos ended]

theorem program_of_reads {item : Node} {rest : List Token}
    (notEnded : headKind tokens ≠ .endOfInput) (reads : (function tokens).Reads item rest) :
    program tokens = { program rest with items := item :: (program rest).items } := by
  have nothing := (candid_function tokens).log_eq_nil reads
  rcases reads with ⟨shorter, log, reads⟩
  obtain rfl : log = [] := by rwa [reads] at nothing
  rw [program.eq_def, if_neg notEnded, reads]
  rfl

theorem program_of_error {error : GrammarError} (notEnded : headKind tokens ≠ .endOfInput)
    (failed : (function tokens).result = .error error) :
    (program tokens).rest = (function tokens).rest ∧ (program tokens).error? = some error := by
  cases reading : function tokens with
  | done item rest shorter =>
      rw [reading] at failed
      cases failed
  | failed failure rest =>
      rw [reading] at failed
      cases failed
      rw [program.eq_def, if_neg notEnded, reading]
      exact ⟨rfl, rfl⟩

/-- Whether a program is refused is settled by the tokens up to the one where reading stops. -/
theorem program_settled (tokens : List Token) :
    ∃ before, tokens = before ++ (program tokens).rest ∧
      ∀ rest, rest.head? = (program tokens).rest.head? →
        (program (before ++ rest)).rest = rest ∧
          (program (before ++ rest)).error? = (program tokens).error? := by
  induction length : tokens.length using Nat.strongRecOn generalizing tokens with
  | _ _ ih =>
      by_cases ended : headKind tokens = .endOfInput
      · rw [program_of_end ended]
        refine ⟨[], rfl, ?_⟩
        intro rest sameHead
        rw [List.nil_append, program_of_end ((headKind_congr sameHead).trans ended)]
        exact ⟨rfl, rfl⟩
      rcases settled_function tokens with ⟨before, split, same⟩
      -- what was read starts with the same token again, which is not the end
      have startsAgain : ∀ rest, rest.head? = (function tokens).rest.head? →
          headKind (before ++ rest) ≠ .endOfInput := by
        intro rest sameHead
        rw [headKind_congr (head?_of_split split sameHead)]
        exact ended
      cases outcome : (function tokens).result with
      | error error =>
          rcases program_of_error ended outcome with ⟨stopped, failed⟩
          refine ⟨before, by rw [stopped]; exact split, ?_⟩
          intro rest sameHead
          rw [stopped] at sameHead
          rcases same rest sameHead with ⟨sameRest, sameResult⟩
          rcases program_of_error (startsAgain rest sameHead) (sameResult.trans outcome) with
            ⟨stoppedAgain, failedAgain⟩
          exact ⟨stoppedAgain.trans sameRest, failedAgain.trans failed.symm⟩
      | ok item =>
          have reads : (function tokens).Reads item (function tokens).rest :=
            reads_iff.mpr ⟨rfl, outcome⟩
          have shorter := reads.shorter
          rcases ih _ (length ▸ shorter) (function tokens).rest rfl with
            ⟨between, splitRest, sameOthers⟩
          rw [program_of_reads ended reads]
          refine ⟨before ++ between, ?_, ?_⟩
          · rw [List.append_assoc, ← splitRest]
            exact split
          · intro rest sameHead
            have sameMiddle := head?_of_split splitRest sameHead
            rcases same (between ++ rest) sameMiddle with ⟨sameRest, sameResult⟩
            have readsAgain := reads_iff.mpr ⟨sameRest, sameResult.trans outcome⟩
            rw [List.append_assoc, program_of_reads (startsAgain _ sameMiddle) readsAgain]
            exact sameOthers rest sameHead

end Grammar

end Tuplet
