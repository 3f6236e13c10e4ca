import Mathlib.Data.List.TakeWhile
import Tuplet.Proofs.LexicalRules

/-!
# Scanning follows the lexical rules

What is cut off at the front of a source is what the lexical rules pick there. It is shown
for each way in which a piece can open: no rule that can match there matches a longer text,
and none that matches the same one ranks before the rule of the piece.

From this a scan is described without cutting anything: the source is gaps with the slices
of tokens between them, and a token has the position behind all that stands before it.
-/

namespace Tuplet

namespace Lexical

/-- The piece that a lexeme cuts off is one that a rule wins on. -/
def Won (first : Char) (rest : List Char) (lexeme : Lexeme) : Prop :=
  ∃ (rule : Rule) (tail behind : List Char), lexeme = ⟨rule.kind, tail.length⟩ ∧
    rest = tail ++ behind ∧ Wins rule (first :: tail) behind

section Runs

variable {holds : Char → Bool} {first : Char} {text rest tail source : List Char}

theorem prefix_takeWhile (split : text ++ rest = source) (held : ∀ char ∈ text, holds char = true) :
    text <+: source.takeWhile holds := by
  rw [← split, List.takeWhile_append_of_pos held]
  exact List.prefix_append _ _

theorem takeWhile_stopped {stop : Char} (held : ∀ char ∈ text, holds char = true)
    (stops : holds stop = false) :
    (text ++ stop :: rest).takeWhile holds = text ∧
      (text ++ stop :: rest).dropWhile holds = stop :: rest := by
  rw [List.takeWhile_append_of_pos held, List.dropWhile_append_of_pos held]
  simp [stops]

theorem drop_length_takeWhile :
    source.drop (source.takeWhile holds).length = source.dropWhile holds := by
  conv => lhs; arg 2; rw [← List.takeWhile_append_dropWhile (p := holds) (l := source)]
  exact List.drop_left

theorem shorter_or_eq (isPrefix : text <+: tail) : text.length < tail.length ∨ text = tail := by
  rcases Nat.lt_or_eq_of_le isPrefix.length_le with shorter | same
  · exact .inl shorter
  · exact .inr (isPrefix.eq_of_length same)

theorem won_blank (blank : isBlank first = true) :
    Won first rest (.gap (rest.takeWhile isBlank).length) := by
  refine ⟨.blanks, rest.takeWhile isBlank, rest.dropWhile isBlank, rfl,
    List.takeWhile_append_dropWhile.symm, ?_⟩
  apply Wins.of_rivals
  · refine .of_mem (mem_run.mpr ⟨List.cons_ne_nil _ _, ?_⟩) rfl
    exact List.forall_mem_cons.mpr ⟨blank, fun _ occurs => List.mem_takeWhile_imp occurs⟩
  · decide
  · intro other text tail rival split matched
    rw [Opening.of_blank blank] at rival
    rw [List.takeWhile_append_dropWhile] at split
    cases rival
    have held := (List.forall_mem_cons.mp (mem_run.mp matched.1).2).2
    apply (shorter_or_eq (prefix_takeWhile split held)).imp_right
    intro same
    exact ⟨same, .inr ⟨rfl, rfl⟩⟩

end Runs

section Words

variable {first : Char} {text rest : List Char}

theorem nameTail_isPrefix (source : List Char) : nameTail source <+: source := by
  conv => rhs; rw [← List.takeWhile_append_dropWhile (p := isNamePart) (l := source)]
  rw [nameTail, List.prefix_append_right_inj]
  split
  case isTrue marked =>
    rcases List.head?_eq_some_iff.mp marked with ⟨behind, follows⟩
    exact ⟨behind, follows.symm⟩
  case isFalse => exact List.nil_prefix

theorem cons_nameTail_mem (starts : isNameStart first = true) :
    first :: nameTail rest ∈ Rule.name.texts := by
  refine Rule.mem_name.mpr ⟨first, _, _, rfl, starts, ?_, ?_⟩
  · intro char occurs
    exact List.mem_takeWhile_imp occurs
  · split
    case isTrue => exact .inr rfl
    case isFalse => exact .inl rfl

theorem prefix_nameTail (isName : first :: text ∈ Rule.name.texts) :
    text <+: nameTail (text ++ rest) := by
  rcases Rule.mem_name.mp isName with ⟨_, body, mark, spelled, _, parts, rfl | rfl⟩
  · rcases List.cons.inj spelled with ⟨_, rfl⟩
    rw [List.append_nil]
    exact (prefix_takeWhile rfl parts).trans (List.prefix_append _ _)
  · rcases List.cons.inj spelled with ⟨_, rfl⟩
    have stopped := @takeWhile_stopped isNamePart body rest '\'' parts (by decide)
    rw [List.append_assoc, List.singleton_append, nameTail, stopped.1, stopped.2]
    exact List.prefix_rfl

theorem mem_name_of_isWord (word : isWord text = true) : text ∈ Rule.name.texts := by
  cases text with
  | nil => cases word
  | cons first rest =>
      simp only [isWord, Bool.and_eq_true, beq_iff_eq] at word
      rw [← word.2]
      exact cons_nameTail_mem word.1

theorem word_eq : Lexeme.word first rest =
    .token (Lexeme.ofWord (first :: nameTail rest)) (nameTail rest).length := by
  rw [Lexeme.word, drop_length_takeWhile]
  split
  case h_1 behind follows => simp [nameTail, follows]
  case h_2 unmarked =>
    have noMark : (rest.dropWhile isNamePart).head? ≠ some '\'' := by
      intro marked
      rcases List.head?_eq_some_iff.mp marked with ⟨behind, follows⟩
      exact unmarked behind follows
    simp [nameTail, noMark]

theorem ofWord_cases (word : List Char) : Lexeme.ofWord word = .name ∨
    ∃ text, (text, Lexeme.ofWord word) ∈ fixedTexts ∧ word = text.toList := by
  fun_cases Lexeme.ofWord word
  case case1 isReturn => exact .inr ⟨_, by decide, isReturn⟩
  case case2 isVoid => exact .inr ⟨_, by decide, isVoid⟩
  case case3 isFloat => exact .inr ⟨_, by decide, isFloat⟩
  case case4 isInt => exact .inr ⟨_, by decide, isInt⟩
  case case5 isString => exact .inr ⟨_, by decide, isString⟩
  case case6 isReference => exact .inr ⟨_, by decide, isReference⟩
  case case7 => exact .inl rfl

/-- Keywords have the shape of names, so no word is longer than the name that could stand there. -/
theorem word_rival {other : Rule} {behind : List Char} (rival : Rival .word other)
    (matched : other.Matches (first :: text) behind) :
    text <+: nameTail (text ++ behind) ∧
      (other.kind = some (Lexeme.ofWord (first :: text)) ∧ other.rank = 0 ∧
        Lexeme.ofWord (first :: text) ≠ .name ∨ other = .name) := by
  cases rival with
  | name => exact ⟨prefix_nameTail matched.1, .inr rfl⟩
  | keyword fixedText kind listed word ofWord notName =>
      have spelled : first :: text = fixedText.toList := matched.1
      rw [← spelled] at word ofWord
      refine ⟨prefix_nameTail (mem_name_of_isWord word), .inl ⟨?_, rfl, ?_⟩⟩
      · rw [ofWord, Rule.kind]
      · rw [ofWord]
        exact notName

/-- A rule for a whole word wins if it ranks as it should among those for the same word. -/
theorem wins_of_word {rule : Rule} {behind : List Char} (starts : isNameStart first = true)
    (cut : nameTail rest ++ behind = rest)
    (matched : rule.Matches (first :: nameTail rest) behind) (ranked : rule.rank < 2)
    (ties : ∀ other : Rule, other.kind = some (Lexeme.ofWord (first :: nameTail rest)) ∧
      other.rank = 0 ∧ Lexeme.ofWord (first :: nameTail rest) ≠ .name ∨ other = .name →
      rule.rank < other.rank ∨ rule.rank = other.rank ∧ rule.kind = other.kind) :
    Wins rule (first :: nameTail rest) behind := by
  apply Wins.of_rivals matched ranked
  intro other text tail rival split otherMatched
  rw [Opening.of_word starts] at rival
  rcases word_rival rival otherMatched with ⟨isPrefix, kinds⟩
  rw [split, cut] at isPrefix
  apply (shorter_or_eq isPrefix).imp_right
  rintro rfl
  exact ⟨rfl, ties other kinds⟩

theorem won_word (starts : isNameStart first = true) :
    Won first rest (Lexeme.word first rest) := by
  rcases nameTail_isPrefix rest with ⟨behind, cut⟩
  rw [word_eq]
  rcases ofWord_cases (first :: nameTail rest) with isName | ⟨fixedText, listed, spelled⟩
  · refine ⟨.name, nameTail rest, behind, by rw [isName]; rfl, cut.symm, ?_⟩
    apply wins_of_word starts cut (.of_mem (cons_nameTail_mem starts) rfl) (by decide)
    rintro other (⟨_, _, notName⟩ | rfl)
    · exact absurd isName notName
    · exact .inr ⟨rfl, rfl⟩
  · refine ⟨.fixed fixedText _ listed, nameTail rest, behind, rfl, cut.symm, ?_⟩
    have isText : first :: nameTail rest ∈ (Rule.fixed fixedText _ listed).texts := spelled
    apply wins_of_word starts cut (.of_mem isText rfl) Nat.zero_lt_two
    rintro other (⟨sameKind, sameRank, _⟩ | rfl)
    · exact .inr ⟨sameRank.symm, sameKind.symm⟩
    · exact .inl Nat.zero_lt_one

end Words

section Numbers

variable {first : Char} {text rest fraction : List Char}

/-- A float at the front of a source ends at the latest where the digits behind its point do. -/
theorem float_front (isFloat : text ∈ Rule.float.texts) :
    ∃ fraction, (text ++ rest).dropWhile Char.isDigit = '.' :: fraction ∧
      fraction.takeWhile Char.isDigit ≠ [] ∧
      text <+: (text ++ rest).takeWhile Char.isDigit ++ '.' :: fraction.takeWhile Char.isDigit := by
  rcases Rule.mem_float.mp isFloat with ⟨whole, places, rfl, nonempty, wholeDigits, digits⟩
  have stopped := @takeWhile_stopped Char.isDigit whole (places ++ rest) '.' wholeDigits (by decide)
  have front : places <+: (places ++ rest).takeWhile Char.isDigit := prefix_takeWhile rfl digits
  rw [List.append_assoc, List.cons_append, stopped.1, stopped.2]
  refine ⟨_, rfl, ?_, ?_⟩
  · intro none
    rw [none, List.prefix_nil] at front
    exact nonempty front
  · rw [List.prefix_append_right_inj, List.cons_prefix_cons]
    exact ⟨rfl, front⟩

theorem won_int (isDigit : first.isDigit = true)
    (noFloat : ∀ fraction, rest.dropWhile Char.isDigit = '.' :: fraction →
      fraction.takeWhile Char.isDigit = []) :
    Won first rest (.token .intLiteral (rest.takeWhile Char.isDigit).length) := by
  refine ⟨.int, rest.takeWhile Char.isDigit, rest.dropWhile Char.isDigit, rfl,
    List.takeWhile_append_dropWhile.symm, ?_⟩
  apply Wins.of_rivals
  · refine .of_mem (mem_run.mpr ⟨List.cons_ne_nil _ _, ?_⟩) rfl
    exact List.forall_mem_cons.mpr ⟨isDigit, fun _ occurs => List.mem_takeWhile_imp occurs⟩
  · decide
  · intro other text tail rival split matched
    rw [Opening.of_digit isDigit] at rival
    rw [List.takeWhile_append_dropWhile] at split
    cases rival with
    | int =>
        have held := (List.forall_mem_cons.mp (mem_run.mp matched.1).2).2
        apply (shorter_or_eq (prefix_takeWhile split held)).imp_right
        intro same
        exact ⟨same, .inr ⟨rfl, rfl⟩⟩
    | float =>
        rcases @float_front _ tail matched.1 with ⟨fraction, follows, nonempty, _⟩
        rw [List.cons_append, split, List.dropWhile_cons_of_pos isDigit] at follows
        exact absurd (noFloat fraction follows) nonempty

theorem won_float (isDigit : first.isDigit = true)
    (follows : rest.dropWhile Char.isDigit = '.' :: fraction)
    (nonempty : fraction.takeWhile Char.isDigit ≠ []) :
    Won first rest (.token .floatLiteral
      (rest.takeWhile Char.isDigit ++ '.' :: fraction.takeWhile Char.isDigit).length) := by
  have cut : rest = rest.takeWhile Char.isDigit ++ '.' :: fraction.takeWhile Char.isDigit ++
      fraction.dropWhile Char.isDigit := by
    rw [List.append_assoc, List.cons_append, List.takeWhile_append_dropWhile, ← follows,
      List.takeWhile_append_dropWhile]
  refine ⟨.float, _, fraction.dropWhile Char.isDigit, rfl, cut, ?_⟩
  apply Wins.of_rivals
  · refine .of_mem (Rule.mem_float.mpr
      ⟨first :: rest.takeWhile Char.isDigit, _, rfl, nonempty, ?_, ?_⟩) rfl
    · exact List.forall_mem_cons.mpr ⟨isDigit, fun _ occurs => List.mem_takeWhile_imp occurs⟩
    · exact fun _ occurs => List.mem_takeWhile_imp occurs
  · decide
  · intro other text tail rival split matched
    rw [Opening.of_digit isDigit] at rival
    rw [← cut] at split
    cases rival with
    | int =>
        have held := (List.forall_mem_cons.mp (mem_run.mp matched.1).2).2
        have bounded := (prefix_takeWhile split held).length_le
        refine .inl (Nat.lt_of_le_of_lt bounded ?_)
        simp
    | float =>
        rcases @float_front _ tail matched.1 with ⟨found, foundFollows, _, isPrefix⟩
        rw [List.cons_append, split, List.dropWhile_cons_of_pos isDigit, follows] at foundFollows
        cases foundFollows
        rw [List.cons_append, split, List.takeWhile_cons_of_pos isDigit, List.cons_append,
          List.cons_prefix_cons] at isPrefix
        apply (shorter_or_eq isPrefix.2).imp_right
        intro same
        exact ⟨same, .inr ⟨rfl, rfl⟩⟩

theorem won_number (isDigit : first.isDigit = true) : Won first rest (Lexeme.number rest) := by
  rw [Lexeme.number, drop_length_takeWhile]
  split
  case h_1 fraction follows =>
    split
    case h_1 none =>
      apply won_int isDigit
      intro other otherFollows
      rw [follows] at otherFollows
      cases otherFollows
      exact List.length_eq_zero_iff.mp none
    case h_2 some =>
      have won := won_float isDigit follows (List.length_eq_zero_iff.not.mp some)
      rw [List.length_append, List.length_cons] at won
      rw [Nat.add_assoc, Nat.add_comm 1]
      exact won
  case h_2 noPoint =>
    apply won_int isDigit
    intro fraction follows
    exact absurd follows (noPoint fraction)

theorem won_point : Won '.' rest (Lexeme.point rest) := by
  have noDigits : ('.' :: rest).takeWhile Char.isDigit = [] :=
    List.takeWhile_cons_of_neg (by decide)
  have allLeft : ('.' :: rest).dropWhile Char.isDigit = '.' :: rest :=
    List.dropWhile_cons_of_neg (by decide)
  rw [Lexeme.point]
  split
  case h_1 none =>
    refine ⟨.stray, [], rest, rfl, rfl, ?_⟩
    apply Wins.stray_of_unmatched
    intro other text tail rival split matched
    rw [Opening.of_point] at rival
    cases rival
    rcases @float_front _ tail matched.1 with ⟨fraction, follows, nonempty, _⟩
    rw [List.cons_append, split, allLeft] at follows
    cases follows
    exact nonempty (List.length_eq_zero_iff.mp none)
  case h_2 some =>
    refine ⟨.float, rest.takeWhile Char.isDigit, rest.dropWhile Char.isDigit, rfl,
      List.takeWhile_append_dropWhile.symm, ?_⟩
    apply Wins.of_rivals
    · have nonempty := List.length_eq_zero_iff.not.mp some
      refine .of_mem (Rule.mem_float.mpr ⟨[], _, rfl, nonempty, List.forall_mem_nil _, ?_⟩) rfl
      exact fun _ occurs => List.mem_takeWhile_imp occurs
    · decide
    · intro other text tail rival split matched
      rw [Opening.of_point] at rival
      rw [List.takeWhile_append_dropWhile] at split
      cases rival
      rcases @float_front _ tail matched.1 with ⟨fraction, follows, _, isPrefix⟩
      rw [List.cons_append, split, allLeft] at follows
      cases follows
      rw [List.cons_append, split, noDigits, List.nil_append, List.cons_prefix_cons] at isPrefix
      apply (shorter_or_eq isPrefix.2).imp_right
      intro same
      exact ⟨same, .inr ⟨rfl, rfl⟩⟩

end Numbers

section Enclosed

variable {rest : List Char}

/-- A comment ends behind the first closing mark. -/
theorem commentLength?_closed {inner behind : List Char} (unclosed : ¬ ['*', '/'] <:+: inner) :
    Lexeme.commentLength? (inner ++ '*' :: '/' :: behind) = some (inner.length + 2) := by
  induction inner with
  | nil => rfl
  | cons char inner ih =>
      have innerUnclosed : ¬ ['*', '/'] <:+: inner := by
        intro occurs
        exact unclosed (List.infix_cons occurs)
      rw [List.cons_append, Lexeme.commentLength?, ih innerUnclosed]
      · rfl
      · intro behind' isStar follows
        apply unclosed
        cases inner with
        | nil => cases follows
        | cons next inner =>
            rcases List.cons.inj follows with ⟨rfl, _⟩
            subst isStar
            exact (List.prefix_append ['*', '/'] inner).isInfix

theorem commentLength?_cases (comment : List Char) :
    (Lexeme.commentLength? comment = none ∧ ¬ ['*', '/'] <:+: comment) ∨
      ∃ inner behind, comment = inner ++ '*' :: '/' :: behind ∧ ¬ ['*', '/'] <:+: inner := by
  fun_induction Lexeme.commentLength? comment with
  | case1 => exact .inl ⟨rfl, by decide⟩
  | case2 behind => exact .inr ⟨[], behind, rfl, by decide⟩
  | case3 char rest notClosing ih =>
      have notFront : ∀ behind, ¬ char :: rest = '*' :: '/' :: behind := by
        intro behind spelled
        rcases List.cons.inj spelled with ⟨isStar, follows⟩
        exact notClosing behind isStar follows
      rcases ih with ⟨none, unclosed⟩ | ⟨inner, behind, rfl, unclosed⟩
      · refine .inl ⟨by rw [none]; rfl, ?_⟩
        rw [List.infix_cons_iff]
        rintro (⟨behind, spelled⟩ | occurs)
        · exact notFront behind spelled.symm
        · exact unclosed occurs
      · refine .inr ⟨char :: inner, behind, rfl, ?_⟩
        rw [List.infix_cons_iff]
        rintro (⟨more, spelled⟩ | occurs)
        · apply notFront (more ++ '*' :: '/' :: behind)
          rw [← List.cons_append, ← spelled]
          rfl
        · exact unclosed occurs

theorem stringLength?_closed {inner behind : List Char} (noQuote : ∀ char ∈ inner, char ≠ '"') :
    Lexeme.stringLength? (inner ++ '"' :: behind) = some (inner.length + 1) := by
  induction inner with
  | nil => rfl
  | cons char inner ih =>
      rcases List.forall_mem_cons.mp noQuote with ⟨notQuote, innerNoQuote⟩
      rw [List.cons_append, Lexeme.stringLength?, ih innerNoQuote]
      · rfl
      · exact notQuote

theorem stringLength?_cases (source : List Char) :
    (Lexeme.stringLength? source = none ∧ ∀ char ∈ source, char ≠ '"') ∨
      ∃ inner behind, source = inner ++ '"' :: behind ∧ ∀ char ∈ inner, char ≠ '"' := by
  fun_induction Lexeme.stringLength? source with
  | case1 => exact .inl ⟨rfl, List.forall_mem_nil _⟩
  | case2 behind => exact .inr ⟨[], behind, rfl, List.forall_mem_nil _⟩
  | case3 char rest notQuote ih =>
      rcases ih with ⟨none, noQuote⟩ | ⟨inner, behind, rfl, noQuote⟩
      · exact .inl ⟨by rw [none]; rfl, List.forall_mem_cons.mpr ⟨notQuote, noQuote⟩⟩
      · exact .inr ⟨char :: inner, behind, rfl, List.forall_mem_cons.mpr ⟨notQuote, noQuote⟩⟩

/-- What can stand behind a slash, and by which rule. -/
theorem slash_rival {other : Rule} {text behind : List Char} (rival : Rival .slash other)
    (matched : other.Matches ('/' :: text) behind) :
    text = [] ∧ other = .fixed "/" (.operator .div) (by decide) ∨
    (∃ comment, text = '/' :: comment ∧ (∀ char ∈ comment, char ≠ '\n') ∧ other = .lineComment) ∨
    (∃ inner, text = '*' :: (inner ++ ['*', '/']) ∧ ¬ ['*', '/'] <:+: inner ∧
      other = .blockComment) ∨
    ∃ inner, text = '*' :: inner ∧ ¬ ['*', '/'] <:+: inner ∧ behind = [] ∧
      other = .unclosedComment := by
  cases rival with
  | division =>
      cases matched.1
      exact .inl ⟨rfl, rfl⟩
  | lineComment =>
      rcases Rule.mem_lineComment.mp matched.1 with ⟨comment, spelled, noBreak⟩
      exact .inr (.inl ⟨comment, (List.cons.inj spelled).2, noBreak, rfl⟩)
  | blockComment =>
      rcases Rule.mem_blockComment.mp matched.1 with ⟨inner, spelled, unclosed⟩
      exact .inr (.inr (.inl ⟨inner, (List.cons.inj spelled).2, unclosed, rfl⟩))
  | unclosedComment =>
      rcases Rule.mem_unclosedComment.mp matched.1 with ⟨inner, spelled, unclosed⟩
      exact .inr (.inr (.inr ⟨inner, (List.cons.inj spelled).2, unclosed, matched.2 rfl, rfl⟩))

theorem won_lineComment (comment : List Char) :
    Won '/' ('/' :: comment) (.gap (1 + (comment.takeWhile (· ≠ '\n')).length)) := by
  refine ⟨.lineComment, '/' :: comment.takeWhile (· ≠ '\n'), comment.dropWhile (· ≠ '\n'),
    ?_, by rw [List.cons_append, List.takeWhile_append_dropWhile], ?_⟩
  · rw [List.length_cons, Nat.add_comm]
    rfl
  apply Wins.of_rivals
  · refine .of_mem (Rule.mem_lineComment.mpr ⟨_, rfl, ?_⟩) rfl
    intro char occurs
    have held := List.mem_takeWhile_imp occurs
    exact of_decide_eq_true held
  · decide
  · intro other text tail rival split matched
    rw [Opening.of_slash] at rival
    rw [List.cons_append, List.takeWhile_append_dropWhile] at split
    rcases slash_rival rival matched with ⟨rfl, _⟩ | ⟨inner, rfl, noBreak, rfl⟩ | ⟨_, rfl, _⟩ |
      ⟨_, rfl, _⟩
    · exact .inl (Nat.zero_lt_succ _)
    · have isPrefix : inner <+: comment.takeWhile (· ≠ '\n') :=
        prefix_takeWhile (List.cons.inj split).2 fun char occurs =>
          decide_eq_true (noBreak char occurs)
      rcases shorter_or_eq isPrefix with shorter | same
      · exact .inl (Nat.succ_lt_succ shorter)
      · exact .inr ⟨by rw [same], .inr ⟨rfl, rfl⟩⟩
    · cases split
    · cases split

theorem won_blockComment {inner behind : List Char} (unclosed : ¬ ['*', '/'] <:+: inner) :
    Won '/' ('*' :: (inner ++ '*' :: '/' :: behind)) (.gap (1 + (inner.length + 2))) := by
  refine ⟨.blockComment, '*' :: (inner ++ ['*', '/']), behind, ?_, by simp, ?_⟩
  · rw [List.length_cons, List.length_append, Nat.add_comm]
    rfl
  apply Wins.of_rivals (.of_mem (Rule.mem_blockComment.mpr ⟨_, rfl, unclosed⟩) rfl) (by decide)
  intro other text tail rival split matched
  rw [Opening.of_slash] at rival
  rcases slash_rival rival matched with ⟨rfl, _⟩ | ⟨_, rfl, _⟩ | ⟨found, rfl, foundUnclosed, rfl⟩ |
    ⟨found, rfl, foundUnclosed, rfl, _⟩
  · exact .inl (Nat.zero_lt_succ _)
  · cases split
  · simp only [List.cons_append, List.append_assoc, List.nil_append, List.cons.injEq,
      true_and] at split
    have sameLength := congrArg Lexeme.commentLength? split
    rw [commentLength?_closed foundUnclosed, commentLength?_closed unclosed] at sameLength
    rcases List.append_inj split (by simpa using sameLength) with ⟨rfl, _⟩
    exact .inr ⟨rfl, .inr ⟨rfl, rfl⟩⟩
  · simp only [List.append_nil, List.cons_append, List.append_assoc, List.nil_append,
      List.cons.injEq, true_and] at split
    rw [split] at foundUnclosed
    exact absurd ⟨inner, behind, by simp⟩ foundUnclosed

theorem won_unclosedComment {comment : List Char} (unclosed : ¬ ['*', '/'] <:+: comment) :
    Won '/' ('*' :: comment) (.token .invalid ('*' :: comment).length) := by
  refine ⟨.unclosedComment, '*' :: comment, [], rfl, (List.append_nil _).symm, ?_⟩
  apply Wins.of_rivals ⟨Rule.mem_unclosedComment.mpr ⟨_, rfl, unclosed⟩, fun _ => rfl⟩ (by decide)
  intro other text tail rival split matched
  rw [Opening.of_slash] at rival
  rw [List.append_nil] at split
  rcases slash_rival rival matched with ⟨rfl, _⟩ | ⟨_, rfl, _⟩ | ⟨inner, rfl, _⟩ |
    ⟨_, _, _, rfl, rfl⟩
  · exact .inl (Nat.zero_lt_succ _)
  · cases split
  · rcases List.cons.inj split with ⟨_, rfl⟩
    exact absurd ⟨inner, tail, rfl⟩ unclosed
  · rw [List.append_nil] at split
    exact .inr ⟨split, .inr ⟨rfl, rfl⟩⟩

theorem won_division (noLine : ∀ comment, rest ≠ '/' :: comment)
    (noBlock : ∀ comment, rest ≠ '*' :: comment) :
    Won '/' rest (.token (.operator .div) 0) := by
  refine ⟨.fixed "/" (.operator .div) (by decide), [], rest, rfl, rfl, ?_⟩
  have isText : ['/'] ∈ (Rule.fixed "/" (.operator .div) (by decide)).texts := rfl
  apply Wins.of_rivals (.of_mem isText rfl) Nat.zero_lt_two
  intro other text tail rival split matched
  rw [Opening.of_slash] at rival
  rcases slash_rival rival matched with ⟨rfl, rfl⟩ | ⟨_, rfl, _⟩ | ⟨_, rfl, _⟩ | ⟨_, rfl, _⟩
  · exact .inr ⟨rfl, .inr ⟨rfl, rfl⟩⟩
  · exact absurd split.symm (noLine _)
  · exact absurd split.symm (noBlock _)
  · exact absurd split.symm (noBlock _)

theorem won_slash (rest : List Char) : Won '/' rest (Lexeme.slash rest) := by
  fun_cases Lexeme.slash rest
  case case1 comment => exact won_lineComment comment
  case case2 comment length closed =>
    rcases commentLength?_cases comment with ⟨none, _⟩ | ⟨inner, behind, rfl, unclosed⟩
    · rw [closed] at none
      cases none
    · rw [commentLength?_closed unclosed] at closed
      cases closed
      exact won_blockComment unclosed
  case case3 comment none =>
    rcases commentLength?_cases comment with ⟨_, unclosed⟩ | ⟨inner, behind, rfl, unclosed⟩
    · exact won_unclosedComment unclosed
    · rw [commentLength?_closed unclosed] at none
      cases none
  case case4 noLine noBlock => exact won_division noLine noBlock

theorem won_string {inner behind : List Char} (noQuote : ∀ char ∈ inner, char ≠ '"') :
    Won '"' (inner ++ '"' :: behind) (.token .stringLiteral (inner.length + 1)) := by
  refine ⟨.string, inner ++ ['"'], behind, ?_, by simp, ?_⟩
  · rw [List.length_append]
    rfl
  apply Wins.of_rivals (.of_mem (Rule.mem_string.mpr ⟨_, rfl, noQuote⟩) rfl) (by decide)
  intro other text tail rival split matched
  rw [Opening.of_quote] at rival
  rw [List.append_assoc, List.singleton_append] at split
  cases rival with
  | string =>
      rcases Rule.mem_string.mp matched.1 with ⟨otherInner, spelled, otherNoQuote⟩
      cases spelled
      rw [List.append_assoc, List.singleton_append] at split
      have sameLength := congrArg Lexeme.stringLength? split
      rw [stringLength?_closed otherNoQuote, stringLength?_closed noQuote] at sameLength
      rcases List.append_inj split (by simpa using sameLength) with ⟨rfl, _⟩
      exact .inr ⟨rfl, .inr ⟨rfl, rfl⟩⟩
  | unclosedString =>
      rcases Rule.mem_unclosedString.mp matched.1 with ⟨otherInner, spelled, otherNoQuote⟩
      cases spelled
      rw [matched.2 rfl, List.append_nil] at split
      exact absurd rfl (otherNoQuote '"' (by simp [split]))

theorem won_unclosedString (noQuote : ∀ char ∈ rest, char ≠ '"') :
    Won '"' rest (.token .invalid rest.length) := by
  refine ⟨.unclosedString, rest, [], rfl, (List.append_nil _).symm, ?_⟩
  apply Wins.of_rivals ⟨Rule.mem_unclosedString.mpr ⟨_, rfl, noQuote⟩, fun _ => rfl⟩ (by decide)
  intro other text tail rival split matched
  rw [Opening.of_quote] at rival
  rw [List.append_nil] at split
  cases rival with
  | string =>
      rcases Rule.mem_string.mp matched.1 with ⟨inner, spelled, _⟩
      cases spelled
      exact absurd rfl (noQuote '"' (by simp [← split]))
  | unclosedString =>
      rw [matched.2 rfl, List.append_nil] at split
      exact .inr ⟨split, .inr ⟨rfl, rfl⟩⟩

theorem won_quote (rest : List Char) : Won '"' rest (Lexeme.quote rest) := by
  rcases stringLength?_cases rest with ⟨none, noQuote⟩ | ⟨inner, behind, rfl, noQuote⟩
  · rw [Lexeme.quote, none]
    exact won_unclosedString noQuote
  · rw [Lexeme.quote, stringLength?_closed noQuote]
    exact won_string noQuote

end Enclosed

section Marks

variable {first : Char} {rest : List Char}

theorem mark_cases (first : Char) (rest : List Char) :
    (∃ text kind tail behind, (text, kind) ∈ fixedTexts ∧ text.toList = first :: tail ∧
      rest = tail ++ behind ∧ Lexeme.mark first rest = .token kind tail.length) ∨
    Lexeme.mark first rest = .token .invalid 0 := by
  fun_cases Lexeme.mark first rest
  case case1 behind => exact .inl ⟨"'=", _, ['='], behind, by decide, rfl, rfl, rfl⟩
  case case2 behind => exact .inl ⟨"¬/", _, ['/'], behind, by decide, rfl, rfl, rfl⟩
  case case3 => exact .inl ⟨",", _, [], rest, by decide, rfl, rfl, rfl⟩
  case case4 => exact .inl ⟨";", _, [], rest, by decide, rfl, rfl, rfl⟩
  case case5 => exact .inl ⟨"=", _, [], rest, by decide, rfl, rfl, rfl⟩
  case case6 => exact .inl ⟨"+", _, [], rest, by decide, rfl, rfl, rfl⟩
  case case7 => exact .inl ⟨"-", _, [], rest, by decide, rfl, rfl, rfl⟩
  case case8 => exact .inl ⟨"*", _, [], rest, by decide, rfl, rfl, rfl⟩
  case case9 => exact .inl ⟨"%", _, [], rest, by decide, rfl, rfl, rfl⟩
  case case10 => exact .inl ⟨"^", _, [], rest, by decide, rfl, rfl, rfl⟩
  case case11 => exact .inl ⟨"\x7b", _, [], rest, by decide, rfl, rfl, rfl⟩
  case case12 => exact .inl ⟨"\x7d", _, [], rest, by decide, rfl, rfl, rfl⟩
  case case13 => exact .inl ⟨"(", _, [], rest, by decide, rfl, rfl, rfl⟩
  case case14 => exact .inl ⟨")", _, [], rest, by decide, rfl, rfl, rfl⟩
  case case15 => exact .inr rfl

/-- No mark is the front of another one. -/
theorem mark_of_fixed {text : String} {kind : TokenKind} {tail : List Char} (behind : List Char)
    (listed : (text, kind) ∈ fixedTexts) (spelled : text.toList = first :: tail)
    (opens : Opening.of first = .mark) :
    Lexeme.mark first (tail ++ behind) = .token kind tail.length ∧ kind ≠ .invalid := by
  simp only [fixedTexts, List.mem_cons, List.not_mem_nil, or_false, Prod.mk.injEq] at listed
  -- a word or a slash does not open like a mark, and the others are read as they are written
  rcases listed with ⟨rfl, rfl⟩ | ⟨rfl, rfl⟩ | ⟨rfl, rfl⟩ | ⟨rfl, rfl⟩ | ⟨rfl, rfl⟩ | ⟨rfl, rfl⟩ |
    ⟨rfl, rfl⟩ | ⟨rfl, rfl⟩ | ⟨rfl, rfl⟩ | ⟨rfl, rfl⟩ | ⟨rfl, rfl⟩ | ⟨rfl, rfl⟩ | ⟨rfl, rfl⟩ |
    ⟨rfl, rfl⟩ | ⟨rfl, rfl⟩ | ⟨rfl, rfl⟩ | ⟨rfl, rfl⟩ | ⟨rfl, rfl⟩ | ⟨rfl, rfl⟩ | ⟨rfl, rfl⟩ |
    ⟨rfl, rfl⟩ <;> cases spelled <;>
    first
    | exact ⟨rfl, by decide⟩
    | exact absurd opens (by decide)

theorem won_mark (opens : Opening.of first = .mark) :
    Won first rest (Lexeme.mark first rest) := by
  -- what a rival reads is what the mark is
  have fits : ∀ (other : Rule) (text tail : List Char), Rival (.of first) other →
      text ++ tail = rest → other.Matches (first :: text) tail → other.rank = 0 ∧
        Lexeme.mark first rest = ⟨other.kind, text.length⟩ ∧ other.kind ≠ some .invalid := by
    intro other text tail rival split matched
    rw [opens] at rival
    cases rival with
    | mark fixedText kind listed _ =>
        have spelled : first :: text = fixedText.toList := matched.1
        have read := mark_of_fixed tail listed spelled.symm opens
        rw [split] at read
        exact ⟨rfl, read.1, by simpa [Rule.kind] using read.2⟩
  rcases mark_cases first rest with ⟨text, kind, tail, behind, listed, spelled, cut, isMark⟩ | stray
  · refine ⟨.fixed text kind listed, tail, behind, isMark, cut, ?_⟩
    have isText : first :: tail ∈ (Rule.fixed text kind listed).texts := spelled.symm
    apply Wins.of_rivals (.of_mem isText rfl) Nat.zero_lt_two
    intro other otherText otherTail rival split matched
    rcases fits other otherText otherTail rival (split.trans cut.symm) matched with
      ⟨ranked, otherMark, _⟩
    rw [isMark] at otherMark
    rcases Lexeme.mk.inj otherMark with ⟨sameKind, sameLength⟩
    rcases List.append_inj split sameLength.symm with ⟨rfl, _⟩
    exact .inr ⟨rfl, .inr ⟨ranked.symm, sameKind⟩⟩
  · refine ⟨.stray, [], rest, stray, rfl, ?_⟩
    apply Wins.stray_of_unmatched
    intro other text tail rival split matched
    rcases fits other text tail rival split matched with ⟨_, otherMark, valid⟩
    rw [stray] at otherMark
    exact valid (Lexeme.mk.inj otherMark).1.symm

end Marks

/-- The lexical rules pick what is cut off at the front of a source. -/
theorem won_read (first : Char) (rest : List Char) : Won first rest (Lexeme.read first rest) := by
  fun_cases Lexeme.read first rest
  case case1 blank => exact won_blank blank
  case case2 starts => exact won_word starts
  case case3 isDigit => exact won_number isDigit
  case case4 isPoint =>
    rw [isPoint]
    exact won_point
  case case5 isSlash =>
    rw [isSlash]
    exact won_slash rest
  case case6 isQuote =>
    rw [isQuote]
    exact won_quote rest
  case case7 notBlank notWord notDigit notPoint notSlash notQuote =>
    apply won_mark
    simp [Opening.of, notBlank, notWord, notDigit, notPoint, notSlash, notQuote]

theorem Picks.ne_nil {slice behind : List Char} {kind : Option TokenKind}
    (picks : Picks slice behind kind) : slice ≠ [] := by
  rcases picks with ⟨_, _, matched, _⟩
  exact matched.ne_nil

theorem split_of_picks {slice behind : List Char} {kind : Option TokenKind}
    (picks : Picks slice behind kind) :
    Piece.split (slice ++ behind) = ⟨kind, slice⟩ :: Piece.split behind := by
  rcases List.exists_cons_of_ne_nil picks.ne_nil with ⟨first, tail, rfl⟩
  rcases won_read first (tail ++ behind) with ⟨rule, wonTail, wonBehind, read, cut, wins⟩
  have split : first :: tail ++ behind = first :: wonTail ++ wonBehind := by
    rw [List.cons_append, List.cons_append, cut]
  rcases wins.eq_of_picks picks split with ⟨same, rfl, rfl⟩
  cases same
  rw [List.cons_append, Piece.split, read]
  simp only [List.take_left, List.drop_left]

theorem exists_picks (first : Char) (rest : List Char) :
    ∃ slice behind kind, first :: rest = slice ++ behind ∧ Picks slice behind kind := by
  rcases won_read first rest with ⟨rule, tail, behind, _, rfl, wins⟩
  exact ⟨first :: tail, behind, rule.kind, rfl, wins.picks⟩

/-- A gap that is a concatenation of white space and comments, as the rules pick them. -/
inductive Skips : List Char → List Char → Prop
  | nil {behind : List Char} : Skips [] behind
  | cons {slice gap behind : List Char} (picks : Picks slice (gap ++ behind) none)
      (others : Skips gap behind) : Skips (slice ++ gap) behind

/-- A token keeps the text of its slice: a string without its quotes. -/
def Spells (token : Token) (slice : List Char) : Prop :=
  if token.kind = .stringLiteral then slice = '"' :: (token.text.toList ++ ['"'])
  else slice = token.text.toList

/-- The position that a text ends at: its lines, and its characters since the last line break. -/
def positionBehind (text : List Char) : Position :=
  ⟨1 + text.count '\n', (text.reverse.takeWhile (· ≠ '\n')).length⟩

/-- What stands before a source is known. The source is gaps with tokens between them. -/
inductive Scans : List Char → List Char → List Token → Prop
  | done {before gap : List Char} (skips : Skips gap []) : Scans before gap []
  | token {before gap slice behind : List Char} {token : Token} {tokens : List Token}
      (skips : Skips gap (slice ++ behind)) (nonempty : slice ≠ [])
      (picks : Picks slice behind (some token.kind)) (spells : Spells token slice)
      (positioned : token.position = positionBehind (before ++ gap))
      (others : Scans (before ++ gap ++ slice) behind tokens) :
      Scans before (gap ++ (slice ++ behind)) (token :: tokens)

theorem after_start (text : List Char) : Position.start.after text = positionBehind text := by
  induction text using List.reverseRecOn with
  | nil => rfl
  | append_singleton text char ih =>
      rw [Position.after_append, ih]
      simp only [Position.after_cons, Position.after_nil, Position.next, positionBehind,
        List.reverse_append, List.reverse_cons, List.reverse_nil, List.nil_append,
        List.singleton_append, List.count_append]
      split
      case isTrue isBreak => simp [isBreak, Nat.add_assoc]
      case isFalse notBreak => simp [notBreak]

theorem positionBehind_after (before text : List Char) :
    (positionBehind before).after text = positionBehind (before ++ text) := by
  rw [← after_start, ← after_start, Position.after_append]

theorem spells_iff {slice behind : List Char} {token : Token}
    (picks : Picks slice behind (some token.kind)) :
    Spells token slice ↔ token.text = Piece.textOf token.kind slice := by
  rw [Spells, Piece.textOf]
  split
  case isTrue isString =>
    rcases picks with ⟨rule, isKind, matched, _⟩
    rw [isString] at isKind
    have quoted : slice ∈ Rule.string.texts := by
      cases rule with
      | string => exact matched.1
      | fixed text kind listed =>
          have noString : ∀ entry ∈ fixedTexts, entry.2 ≠ .stringLiteral := by decide
          exact absurd (Option.some.inj isKind) (noString _ listed)
      | _ => cases isKind
    rcases Rule.mem_string.mp quoted with ⟨inner, rfl, _⟩
    simp [String.ext_iff, eq_comm]
  case isFalse => simp [String.ext_iff, eq_comm]

theorem Skips.locate_split {gap behind : List Char} (skips : Skips gap behind)
    (position : Position) :
    Piece.locate position (Piece.split (gap ++ behind)) =
      Piece.locate (position.after gap) (Piece.split behind) := by
  induction skips generalizing position with
  | nil => rfl
  | cons picks _ ih =>
      rw [List.append_assoc, split_of_picks picks, Piece.locate, ih, Position.after_append]

namespace Scans

variable {before source slice behind : List Char} {tokens : List Token}

theorem skip (picks : Picks slice behind none) (scans : Scans (before ++ slice) behind tokens) :
    Scans before (slice ++ behind) tokens := by
  cases scans with
  | done skips =>
      rw [← List.append_nil behind] at picks
      exact .done (.cons picks skips)
  | token skips nonempty next spells positioned others =>
      rw [← List.append_assoc]
      rw [List.append_assoc before] at positioned others
      exact .token (.cons picks skips) nonempty next spells positioned others

theorem locate_split (scans : Scans before source tokens) :
    Piece.locate (positionBehind before) (Piece.split source) = tokens := by
  induction scans with
  | @done before gap skips =>
      rw [← List.append_nil gap, skips.locate_split, Piece.split]
      rfl
  | @token before gap slice behind token tokens skips _ picks spells positioned _ ih =>
      have sameText := (spells_iff picks).mp spells
      rw [skips.locate_split, split_of_picks picks, Piece.locate, positionBehind_after,
        positionBehind_after, ih]
      dsimp only
      rw [← sameText, ← positioned]

end Scans

theorem scans_locate_split (before source : List Char) :
    Scans before source (Piece.locate (positionBehind before) (Piece.split source)) := by
  -- on the length of the source, since a piece is cut off in each step
  induction length : source.length using Nat.strong_induction_on generalizing before source with
  | _ count ih =>
      cases source with
      | nil =>
          rw [Piece.split]
          exact .done .nil
      | cons first rest =>
          rcases exists_picks first rest with ⟨slice, behind, kind, cut, picks⟩
          have nonempty := picks.ne_nil
          have shorter : behind.length < count := by
            rw [← length, cut, List.length_append]
            exact Nat.lt_add_of_pos_left (List.length_pos_iff.mpr nonempty)
          have scans := ih behind.length shorter (before ++ slice) behind rfl
          rw [cut, split_of_picks picks, Piece.locate, positionBehind_after]
          cases kind with
          | none => exact .skip picks scans
          | some kind =>
              apply @Scans.token before [] slice behind
                ⟨kind, Piece.textOf kind slice, positionBehind before⟩ _ .nil nonempty picks
              · exact (spells_iff picks).mpr rfl
              · rw [List.append_nil]
              · rw [List.append_nil]
                exact scans

/--
The tokens of a source are found by the lexical rules: the source is gaps of white space
and comments with the slices of the tokens between them, each slice is the one that the
rules pick there, and each token has the text of its slice and the position behind all that
stands before it. No other tokens are found so.
-/
theorem tokenize_eq_iff_scans (source : String) (tokens : List Token) :
    tokenize source = tokens ↔ Scans [] source.toList tokens := by
  have atStart : Position.start = positionBehind [] := rfl
  rw [tokenize, atStart]
  constructor
  · rintro rfl
    exact scans_locate_split [] source.toList
  · exact Scans.locate_split

end Lexical

end Tuplet
