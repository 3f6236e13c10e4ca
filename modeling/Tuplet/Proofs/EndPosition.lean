import Tuplet.Proofs.Scanning
import Tuplet.Token.Cursor

/-!
# Where the end of the input is reported

The end token stands behind the last token of a source, by a computation of its own: it adds
the bytes of the last token's text to the column of the token. That is where the last token
ends if its lexeme is on one line and has as many characters as its text has bytes. All but
three kinds of tokens are like that. The text of a string lacks the quotes of its lexeme, the
root operator has a character of two bytes, and what is invalid may be anything.
-/

namespace Tuplet

namespace Position

variable {position : Position} {text : List Char}

theorem line_after (position : Position) (text : List Char) :
    (position.after text).line = position.line + text.count '\n' := by
  induction text generalizing position with
  | nil => rfl
  | cons char rest ih =>
      rw [after_cons, ih, next, List.count_cons]
      split
      case isTrue isBreak =>
        subst isBreak
        simp only [beq_self_eq_true, if_true]
        omega
      case isFalse notBreak => simp [notBreak]

theorem after_of_no_break (noBreak : '\n' ∉ text) :
    position.after text = ⟨position.line, position.column + text.length⟩ := by
  induction text generalizing position with
  | nil => rfl
  | cons char rest ih =>
      rw [List.mem_cons, not_or] at noBreak
      rw [after_cons, ih noBreak.2, next, if_neg (Ne.symm noBreak.1), List.length_cons]
      simp only [mk.injEq, true_and]
      omega

/-- A position on the same line is behind a text exactly if its column counts the text. -/
theorem eq_after_iff {width : Nat} :
    ⟨position.line, position.column + width⟩ = position.after text ↔
      '\n' ∉ text ∧ width = text.length := by
  constructor
  · intro reached
    have noBreak : '\n' ∉ text := by
      have lines := congrArg line reached
      rw [line_after] at lines
      rw [← List.count_eq_zero]
      simp only at lines
      omega
    rw [after_of_no_break noBreak] at reached
    have columns := congrArg column reached
    exact ⟨noBreak, Nat.add_left_cancel columns⟩
  · rintro ⟨noBreak, rfl⟩
    rw [after_of_no_break noBreak]

end Position

namespace Lexical

/-- A source ends in a slice, which is the lexeme of its last token, and a gap. -/
structure EndsIn (source : List Char) (last : Token) (front slice gap : List Char) : Prop where
  split : source = front ++ slice ++ gap
  picks : Picks slice gap (some last.kind)
  spells : Spells last slice
  positioned : last.position = Position.start.after front
  skips : Skips gap []

theorem Scans.exists_last {before source : List Char} {tokens : List Token}
    (scans : Scans before source tokens) (nonempty : tokens ≠ []) :
    ∃ last front slice gap, tokens.getLast? = some last ∧
      EndsIn (before ++ source) last front slice gap := by
  induction scans with
  | done => exact absurd rfl nonempty
  | @token before gap slice behind token tokens skips _ picks spells positioned others ih =>
      -- The token is the last one if nothing but a gap is scanned behind it.
      cases tokens with
      | nil =>
          cases others with
          | done skips =>
              refine ⟨token, before ++ gap, slice, behind, rfl, ?_, picks, spells, ?_, skips⟩
              · simp only [List.append_assoc]
              · rw [positioned, after_start]
      | cons next rest =>
          rcases ih (List.cons_ne_nil _ _) with ⟨last, front, lexeme, tail, isLast, ends⟩
          refine ⟨last, front, lexeme, tail, ?_, ?_⟩
          · rw [List.getLast?_cons_cons, isLast]
          · simpa only [List.append_assoc] using ends

/-- The end is reported behind the last lexeme exactly if that is on one line and has as many
characters as the text of the token has bytes. -/
theorem EndsIn.position_eq_iff {source front slice gap : List Char} {last : Token}
    {tokens : List Token} (ends : EndsIn source last front slice gap)
    (isLast : tokens.getLast? = some last) :
    (Cursor.ofTokens tokens).stop.position = Position.start.after (front ++ slice) ↔
      '\n' ∉ slice ∧ last.text.utf8ByteSize = slice.length := by
  rw [Cursor.ofTokens, Token.endOf, isLast, Position.after_append, ← ends.positioned]
  exact Position.eq_after_iff

section Bytes

/-- Whether a character is a visible one of the first 128. -/
def isVisible (char : Char) : Bool := 33 ≤ char.toNat ∧ char.toNat ≤ 126

variable {char : Char} {slice : List Char} {kind : TokenKind}

theorem isVisible_iff : isVisible char = true ↔ 33 ≤ char.toNat ∧ char.toNat ≤ 126 :=
  decide_eq_true_iff

theorem utf8Size_of_isVisible (visible : isVisible char = true) : char.utf8Size = 1 := by
  rw [Char.utf8Size_eq_one_iff, UInt32.le_iff_toNat_le]
  exact (isVisible_iff.mp visible).2.trans (by decide)

theorem isVisible_of_isDigit (digit : char.isDigit = true) : isVisible char = true := by
  have bounds := Char.isDigit_iff_toNat.mp digit
  simp only [Char.reduceToNat] at bounds
  rw [isVisible_iff]
  omega

theorem isVisible_of_isNameStart (starts : isNameStart char = true) : isVisible char = true := by
  rw [isNameStart, Bool.or_eq_true, decide_eq_true_iff] at starts
  rcases starts with isAlpha | rfl
  · rw [isVisible_iff]
    rcases (Bool.or_eq_true _ _).mp isAlpha with upper | lower
    · have bounds := of_decide_eq_true upper
      have above := UInt32.le_iff_toNat_le.mp bounds.1
      have below := UInt32.le_iff_toNat_le.mp bounds.2
      exact ⟨le_trans (by decide) above, le_trans below (by decide)⟩
    · have bounds := (Bool.and_eq_true _ _).mp lower
      have above := UInt32.le_iff_toNat_le.mp (of_decide_eq_true bounds.1)
      have below := UInt32.le_iff_toNat_le.mp (of_decide_eq_true bounds.2)
      exact ⟨le_trans (by decide) above, le_trans below (by decide)⟩
  · decide

theorem isVisible_of_isNamePart (part : isNamePart char = true) : isVisible char = true := by
  have parts : isNamePart char = (char.isAlpha || char.isDigit || decide (char = '_')) := rfl
  rw [parts, Bool.or_eq_true, Bool.or_eq_true] at part
  rcases part with (isAlpha | digit) | mark
  · exact isVisible_of_isNameStart ((Bool.or_eq_true _ _).mpr (.inl isAlpha))
  · exact isVisible_of_isDigit digit
  · exact isVisible_of_isNameStart ((Bool.or_eq_true _ _).mpr (.inr mark))

theorem utf8ByteSize_ofList_of_isVisible (visible : ∀ char ∈ slice, isVisible char = true) :
    (String.ofList slice).utf8ByteSize = slice.length := by
  induction slice with
  | nil => rfl
  | cons char rest ih =>
      rw [List.forall_mem_cons] at visible
      rw [String.ofList_cons, String.utf8ByteSize_append, String.utf8ByteSize_singleton,
        utf8Size_of_isVisible visible.1, ih visible.2, List.length_cons, Nat.add_comm]

/-- The kinds of tokens whose lexemes may have other than visible characters. -/
def irregularKinds : List TokenKind := [.stringLiteral, .operator .root, .invalid]

/-- All other tokens are written with visible characters. -/
theorem Rule.isVisible_of_mem {rule : Rule} (isText : slice ∈ rule.texts)
    (isKind : rule.kind = some kind) (regular : kind ∉ irregularKinds) :
    ∀ char ∈ slice, isVisible char = true := by
  cases rule with
  | fixed text kind listed =>
      have checked : (fixedTexts.all fun entry =>
          decide (entry.2 ∈ irregularKinds) || entry.1.toList.all isVisible) = true := by decide
      cases isKind
      rw [mem_exactly.mp isText]
      rcases (Bool.or_eq_true _ _).mp (List.all_eq_true.mp checked _ listed) with
        irregular | visible
      · exact absurd (of_decide_eq_true irregular) regular
      · exact List.all_eq_true.mp visible
  | name =>
      rcases mem_name.mp isText with ⟨first, body, mark, rfl, starts, parts, marked⟩
      have visibleMark : ∀ char ∈ mark, isVisible char = true := by
        rcases marked with rfl | rfl
        · exact List.forall_mem_nil _
        · exact List.forall_mem_singleton.mpr rfl
      rw [List.forall_mem_cons, List.forall_mem_append]
      exact ⟨isVisible_of_isNameStart starts,
        fun char occurs => isVisible_of_isNamePart (parts char occurs), visibleMark⟩
  | int => exact fun char occurs => isVisible_of_isDigit ((mem_run.mp isText).2 char occurs)
  | float =>
      rcases mem_float.mp isText with ⟨whole, fraction, rfl, _, wholeDigits, digits⟩
      rw [List.forall_mem_append, List.forall_mem_cons]
      exact ⟨fun char occurs => isVisible_of_isDigit (wholeDigits char occurs), by decide,
        fun char occurs => isVisible_of_isDigit (digits char occurs)⟩
  | string | unclosedComment | unclosedString | stray =>
      cases isKind
      exact absurd (by decide) regular
  | blanks | lineComment | blockComment => cases isKind

end Bytes

/-- A lexeme of visible characters ends where the end of the input is reported. -/
theorem EndsIn.regular {source front slice gap : List Char} {last : Token}
    (ends : EndsIn source last front slice gap) (regular : last.kind ∉ irregularKinds) :
    '\n' ∉ slice ∧ last.text.utf8ByteSize = slice.length := by
  rcases ends.picks with ⟨rule, isKind, ⟨isText, _⟩, _⟩
  have visible := Rule.isVisible_of_mem isText isKind regular
  have notString : last.kind ≠ .stringLiteral := by
    intro isString
    rw [isString] at regular
    exact regular (by decide)
  have spelled : slice = last.text.toList := by
    have spells := ends.spells
    rwa [Spells, if_neg notString] at spells
  constructor
  · intro occurs
    exact absurd (visible _ occurs) (by decide)
  · rw [← utf8ByteSize_ofList_of_isVisible visible, spelled, String.ofList_toList]

/-- The end of the input is reported behind the last token of a source exactly if the lexeme of
that token is on one line and as long as the bytes of its text. It always is, but for strings,
the root operator and what is invalid. -/
theorem end_position_iff (source : String) (nonempty : tokenize source ≠ []) :
    ∃ last front slice gap, (tokenize source).getLast? = some last ∧
      EndsIn source.toList last front slice gap ∧
      ((Cursor.ofTokens (tokenize source)).stop.position =
          Position.start.after (front ++ slice) ↔
        '\n' ∉ slice ∧ last.text.utf8ByteSize = slice.length) ∧
      (last.kind ∉ irregularKinds → (Cursor.ofTokens (tokenize source)).stop.position =
        Position.start.after (front ++ slice)) := by
  have scans : Scans [] source.toList (tokenize source) := scans_locate_split [] source.toList
  rcases scans.exists_last nonempty with ⟨last, front, slice, gap, isLast, ends⟩
  have position_iff := ends.position_eq_iff isLast
  exact ⟨last, front, slice, gap, isLast, ends, position_iff,
    fun regular => position_iff.mpr (ends.regular regular)⟩

/-- A name that comments and line breaks follow is where the end of the input is reported. -/
theorem end_position_iff_commented :
    tokenize "\"é\"\n  x // é\n\n" ≠ [] ∧
      ∃ last front slice gap, (tokenize "\"é\"\n  x // é\n\n").getLast? = some last ∧
        EndsIn "\"é\"\n  x // é\n\n".toList last front slice gap ∧
        (Cursor.ofTokens (tokenize "\"é\"\n  x // é\n\n")).stop.position =
          Position.start.after (front ++ slice) := by
  have nonempty : tokenize "\"é\"\n  x // é\n\n" ≠ [] := by decide +kernel
  have named : (tokenize "\"é\"\n  x // é\n\n").getLast?.map (·.kind) = some .name := by
    decide +kernel
  rcases end_position_iff _ nonempty with ⟨last, front, slice, gap, isLast, ends, _, regular⟩
  have isName : last.kind = .name := by simpa [isLast] using named
  exact ⟨nonempty, last, front, slice, gap, isLast, ends, regular (by rw [isName]; decide)⟩

/-- Behind a string the end of the input is reported too early, by the two quotes. -/
theorem end_within_string :
    tokenize "\"ab\"" = [⟨.stringLiteral, "ab", ⟨1, 0⟩⟩] ∧
      (Cursor.ofTokens (tokenize "\"ab\"")).stop.position = ⟨1, 2⟩ ∧
      Position.start.after "\"ab\"".toList = ⟨1, 4⟩ := by
  decide +kernel

end Lexical

end Tuplet
