import Tuplet.Proofs.Scanning

/-!
# Layout does not matter

Words may be laid out in any way: whatever white space and comments stand around them, the
tokens of the source are the words. A separator behind a word only has to start with white
space, so that the word ends there.

That it does is seen from the rules alone. A rule that matches more than a word would match
across a blank. Most rules match no blanks at all, and the others are for comments and
strings, which a word does not open, or has closed before the blank.
-/

namespace Tuplet

namespace Lexical

/-- What a token of a kind is written with: its text, in quotes if it is a string. -/
def lexeme (kind : TokenKind) (text : String) : List Char :=
  if kind = .stringLiteral then '"' :: (text.toList ++ ['"']) else text.toList

/-- The kinds of tokens and the texts that they can have. -/
inductive Word : TokenKind → String → Prop
  | fixed {kind : TokenKind} {text : String} (listed : (text, kind) ∈ fixedTexts) : Word kind text
  | int {text : String} (digits : text.toList ∈ Rule.int.texts) : Word .intLiteral text
  | float {text : String} (digits : text.toList ∈ Rule.float.texts) : Word .floatLiteral text
  | string {text : String} (quoteFree : ∀ char ∈ text.toList, char ≠ '"') :
      Word .stringLiteral text
  | name {text : String} (isName : text.toList ∈ Rule.name.texts)
      (notKeyword : text ∉ fixedTexts.map (·.1)) : Word .name text

open Computability in
/-- White space, closed block comments, and line comments with the line break that ends them. -/
def separators : Language Char :=
  (one isBlank + Rule.blockComment.texts + Rule.lineComment.texts * exactly "\n")∗

/-- The separators that start with white space. -/
def spacings : Language Char := one isBlank * separators

section Blanks

variable {char : Char} {text : List Char}

theorem isBlank_cases (blank : isBlank char = true) :
    char = ' ' ∨ char = '\r' ∨ char = '\n' ∨ char = '\t' ∨ char = '\x0c' := by
  simpa [isBlank, or_assoc] using blank

theorem isNamePart_of_isNameStart (starts : isNameStart char = true) : isNamePart char = true := by
  have parts : isNamePart char = (char.isAlpha || char.isDigit || decide (char = '_')) := rfl
  rw [isNameStart, Bool.or_eq_true] at starts
  rw [parts, Bool.or_eq_true, Bool.or_eq_true]
  exact starts.imp_left .inl

theorem blank_notMem_name (isName : text ∈ Rule.name.texts) (blank : isBlank char = true) :
    char ∉ text := by
  have noPart : isNamePart char = false ∧ char ≠ '\'' := by
    rcases isBlank_cases blank with rfl | rfl | rfl | rfl | rfl <;> decide
  rcases Rule.mem_name.mp isName with ⟨first, body, mark, rfl, starts, parts, marked⟩
  have isPart := isNamePart_of_isNameStart starts
  rcases marked with rfl | rfl <;> grind

theorem blank_notMem_float (isFloat : text ∈ Rule.float.texts) (blank : isBlank char = true) :
    char ∉ text := by
  have noDigit : char.isDigit = false ∧ char ≠ '.' := by
    rcases isBlank_cases blank with rfl | rfl | rfl | rfl | rfl <;> decide
  rcases Rule.mem_float.mp isFloat with ⟨whole, fraction, rfl, _, wholeDigits, digits⟩
  grind

theorem blank_notMem_int (isInt : text ∈ Rule.int.texts) (blank : isBlank char = true) :
    char ∉ text := by
  have noDigit : char.isDigit = false := by
    rcases isBlank_cases blank with rfl | rfl | rfl | rfl | rfl <;> decide
  have digits := (mem_run.mp isInt).2
  grind

theorem blank_notMem_fixed {fixed : String} {kind : TokenKind}
    (listed : (fixed, kind) ∈ fixedTexts) (blank : isBlank char = true) :
    char ∉ fixed.toList := by
  have checked : (fixedTexts.all fun entry => entry.1.toList.all (!isBlank ·)) = true := by decide
  intro occurs
  have notBlank := List.all_eq_true.mp (List.all_eq_true.mp checked _ listed) char occurs
  rw [blank] at notBlank
  cases notBlank

end Blanks

/-- A rule makes tokens of a kind that words have, and one of its texts is given. -/
structure Rule.Makes (rule : Rule) (kind : TokenKind) (slice : List Char) : Prop where
  isKind : rule.kind = some kind
  valid : kind ≠ .invalid
  isText : slice ∈ rule.texts

namespace Rule.Makes

variable {rule other : Rule} {kind : TokenKind} {first char : Char}
  {slice tail more rest : List Char}

theorem matched (makes : rule.Makes kind slice) (behind : List Char) :
    rule.Matches slice behind := by
  refine .of_mem makes.isText ?_
  have isKind := makes.isKind
  cases rule with
  | unclosedComment => exact absurd (Option.some.inj isKind).symm makes.valid
  | unclosedString => exact absurd (Option.some.inj isKind).symm makes.valid
  | _ => rfl

theorem ranked (makes : rule.Makes kind slice) : rule.rank < 2 := by
  have isKind := makes.isKind
  cases rule with
  | stray => exact absurd (Option.some.inj isKind).symm makes.valid
  | fixed => exact Nat.zero_lt_two
  | _ => exact Nat.one_lt_two

theorem rival (makes : rule.Makes kind (first :: tail)) : Rival (.of first) rule :=
  (makes.matched []).rival makes.ranked

theorem not_blank (makes : rule.Makes kind (first :: tail)) : Opening.of first ≠ .blank := by
  intro opening
  have rival := makes.rival
  rw [opening] at rival
  cases rival
  cases makes.isKind

/-- The only word that opens with a slash is the division operator. -/
theorem division (makes : rule.Makes kind ('/' :: tail)) : tail = [] := by
  have isKind := makes.isKind
  rcases slash_rival makes.rival (makes.matched []) with
    ⟨none, _⟩ | ⟨_, _, _, rfl⟩ | ⟨_, _, _, rfl⟩ | ⟨_, _, _, _, rfl⟩
  · exact none
  · cases isKind
  · cases isKind
  · exact absurd (Option.some.inj isKind).symm makes.valid

/-- A word that opens with a quote also closes with one. -/
theorem quoted (makes : rule.Makes kind ('"' :: tail)) : '"' ∈ tail := by
  have isKind := makes.isKind
  have rival := makes.rival
  rw [Opening.of_quote] at rival
  cases rival with
  | string =>
      rcases mem_string.mp makes.isText with ⟨inner, spelled, _⟩
      rw [(List.cons.inj spelled).2]
      exact List.mem_append_right _ (List.mem_singleton_self _)
  | unclosedString => exact absurd (Option.some.inj isKind).symm makes.valid

/-- No rule matches a word together with a blank behind it. -/
theorem not_matches_across (makes : rule.Makes kind slice) (blank : isBlank char = true) :
    ¬ other.Matches (slice ++ char :: more) rest := by
  rcases List.exists_cons_of_ne_nil (makes.matched []).ne_nil with ⟨first, tail, rfl⟩
  rw [List.cons_append]
  intro matched
  have occurs : char ∈ first :: (tail ++ char :: more) := by simp
  have notSlashed : first = '/' → char ≠ '/' ∧ char ≠ '*' ∧ tail = [] := by
    rintro rfl
    rcases isBlank_cases blank with rfl | rfl | rfl | rfl | rfl <;>
      exact ⟨by decide, by decide, makes.division⟩
  cases other with
  | fixed text kind listed =>
      have spelled : first :: (tail ++ char :: more) = text.toList := matched.1
      rw [spelled] at occurs
      exact blank_notMem_fixed listed blank occurs
  | blanks =>
      have firstBlank := (mem_run.mp matched.1).2 first List.mem_cons_self
      exact makes.not_blank (Opening.of_blank firstBlank)
  | lineComment =>
      rcases mem_lineComment.mp matched.1 with ⟨comment, spelled, _⟩
      rcases List.cons.inj spelled with ⟨isSlash, follows⟩
      rcases notSlashed isSlash with ⟨notSlash, _, rfl⟩
      exact notSlash (List.cons.inj follows).1
  | blockComment =>
      rcases mem_blockComment.mp matched.1 with ⟨comment, spelled, _⟩
      rcases List.cons.inj spelled with ⟨isSlash, follows⟩
      rcases notSlashed isSlash with ⟨_, notStar, rfl⟩
      exact notStar (List.cons.inj follows).1
  | unclosedComment =>
      rcases mem_unclosedComment.mp matched.1 with ⟨comment, spelled, _⟩
      rcases List.cons.inj spelled with ⟨isSlash, follows⟩
      rcases notSlashed isSlash with ⟨_, notStar, rfl⟩
      exact notStar (List.cons.inj follows).1
  | name => exact blank_notMem_name matched.1 blank occurs
  | int => exact blank_notMem_int matched.1 blank occurs
  | float => exact blank_notMem_float matched.1 blank occurs
  | string =>
      -- the quote that closes the word stands before the one at the end of the text
      rcases mem_string.mp matched.1 with ⟨inner, spelled, noQuote⟩
      rcases List.cons.inj spelled with ⟨rfl, follows⟩
      have within : '"' ∈ (tail ++ char :: more).dropLast := by
        rw [List.dropLast_append_of_ne_nil (List.cons_ne_nil _ _)]
        exact List.mem_append_left _ makes.quoted
      rw [follows, List.dropLast_concat] at within
      exact noQuote '"' within rfl
  | unclosedString =>
      rcases mem_unclosedString.mp matched.1 with ⟨inner, spelled, noQuote⟩
      rcases List.cons.inj spelled with ⟨rfl, rfl⟩
      exact noQuote '"' (List.mem_append_left _ makes.quoted) rfl
  | stray =>
      rcases mem_stray.mp matched.1 with ⟨only, single⟩
      simp at single

/-- No rule ranks before one that makes a word of the same text, unless a name is a keyword. -/
theorem rank_le (makes : rule.Makes kind slice)
    (notKeyword : rule = .name → ∀ entry ∈ fixedTexts, slice ≠ entry.1.toList)
    (matched : other.Matches slice rest) : rule.rank ≤ other.rank := by
  rcases List.exists_cons_of_ne_nil matched.ne_nil with ⟨first, tail, rfl⟩
  have ranked := makes.ranked
  cases other with
  | fixed text fixedKind listed =>
      have isKind := makes.isKind
      have rival := makes.rival
      have otherRival := matched.rival Nat.zero_lt_two
      generalize Opening.of first = opening at rival otherRival
      cases otherRival with
      | keyword =>
          cases rival with
          | keyword => exact Nat.le_refl _
          | name => exact absurd matched.1 (notKeyword rfl _ listed)
      | division =>
          cases rival with
          | division => exact Nat.le_refl _
          | lineComment => cases isKind
          | blockComment => cases isKind
          | unclosedComment => exact absurd (Option.some.inj isKind).symm makes.valid
      | mark =>
          cases rival
          exact Nat.le_refl _
  | stray => exact Nat.le_of_lt ranked
  | _ => exact Nat.le_of_lt_succ ranked

end Rule.Makes

/-- Nothing stands there, or white space does. -/
def Spaced (behind : List Char) : Prop := ∀ char ∈ behind.head?, isBlank char = true

namespace Word

variable {kind : TokenKind} {text : String} {behind : List Char}

theorem exists_makes (word : Word kind text) :
    ∃ rule : Rule, rule.Makes kind (lexeme kind text) ∧
      (rule = .name → ∀ entry ∈ fixedTexts, lexeme kind text ≠ entry.1.toList) := by
  cases word with
  | fixed listed =>
      have checked : ∀ entry ∈ fixedTexts, entry.2 ≠ .stringLiteral ∧ entry.2 ≠ .invalid := by
        decide
      rcases checked _ listed with ⟨notString, valid⟩
      rw [lexeme, if_neg notString]
      exact ⟨.fixed text kind listed, ⟨rfl, valid, rfl⟩, by simp⟩
  | int digits => exact ⟨.int, ⟨rfl, by decide, digits⟩, by simp⟩
  | float digits => exact ⟨.float, ⟨rfl, by decide, digits⟩, by simp⟩
  | string quoteFree =>
      exact ⟨.string, ⟨rfl, by decide, Rule.mem_string.mpr ⟨_, rfl, quoteFree⟩⟩, by simp⟩
  | name isName notKeyword =>
      refine ⟨.name, ⟨rfl, by decide, isName⟩, ?_⟩
      intro _ entry listed spelled
      exact notKeyword (List.mem_map.mpr ⟨entry, listed, (String.toList_inj.mp spelled).symm⟩)

/-- The rules pick a word wherever white space follows it, or nothing does. -/
theorem picks (word : Word kind text) (spaced : Spaced behind) :
    Picks (lexeme kind text) behind (some kind) := by
  rcases word.exists_makes with ⟨rule, makes, notKeyword⟩
  refine ⟨rule, makes.isKind, makes.matched behind, ?_⟩
  intro other found rest split matched
  rcases List.append_eq_append_iff.mp split with ⟨more, spelled, _⟩ | ⟨more, rfl, follows⟩
  · cases more with
    | nil =>
        rw [List.append_nil] at spelled
        rw [← spelled] at matched
        exact .inr ⟨by rw [spelled], makes.rank_le notKeyword matched⟩
    | cons char more =>
        rw [spelled, List.length_append, List.length_cons]
        exact .inl (by omega)
  · cases more with
    | nil =>
        rw [List.append_nil] at matched ⊢
        exact .inr ⟨rfl, makes.rank_le notKeyword matched⟩
    | cons char more =>
        have blank : isBlank char = true := spaced char (by rw [follows]; rfl)
        exact absurd matched (makes.not_matches_across blank)

theorem textOf_lexeme (kind : TokenKind) (text : String) :
    Piece.textOf kind (lexeme kind text) = text := by
  rw [Piece.textOf, lexeme]
  split
  · simp
  · exact String.ofList_toList

end Word

/-- A text that the scanner passes over, whatever follows. -/
def Skipped (text : List Char) : Prop :=
  ∀ position behind, Piece.locate position (Piece.split (text ++ behind)) =
    Piece.locate (position.after text) (Piece.split behind)

theorem Skipped.append {text more : List Char} (first : Skipped text) (second : Skipped more) :
    Skipped (text ++ more) := by
  intro position behind
  rw [List.append_assoc, first, second, Position.after_append]

/-- A text that is read as one gap is passed over. -/
theorem locate_split_of_read {first : Char} {tail behind : List Char}
    (read : Lexeme.read first (tail ++ behind) = .gap tail.length) (position : Position) :
    Piece.locate position (Piece.split (first :: tail ++ behind)) =
      Piece.locate (position.after (first :: tail)) (Piece.split behind) := by
  rw [List.cons_append, Piece.split, read]
  simp only [Lexeme.gap, List.take_left, List.drop_left]
  rfl

theorem locate_split_blanks (position : Position) (source : List Char) :
    Piece.locate position (Piece.split source) =
      Piece.locate (position.after (source.takeWhile isBlank))
        (Piece.split (source.dropWhile isBlank)) := by
  cases source with
  | nil => rfl
  | cons char rest =>
      by_cases blank : isBlank char = true
      · have read : Lexeme.read char (rest.takeWhile isBlank ++ rest.dropWhile isBlank) =
            .gap (rest.takeWhile isBlank).length := by
          rw [List.takeWhile_append_dropWhile, read_eq, Opening.of_blank blank]
        have skipped := locate_split_of_read read position
        rw [List.cons_append, List.takeWhile_append_dropWhile] at skipped
        rw [List.takeWhile_cons_of_pos blank, List.dropWhile_cons_of_pos blank]
        exact skipped
      · rw [List.takeWhile_cons_of_neg blank, List.dropWhile_cons_of_neg blank, Position.after_nil]

theorem skipped_blank {char : Char} (blank : isBlank char = true) : Skipped [char] := by
  intro position behind
  rw [List.singleton_append, locate_split_blanks, locate_split_blanks _ behind,
    List.takeWhile_cons_of_pos blank, List.dropWhile_cons_of_pos blank]
  rfl

theorem skipped_blockComment {comment : List Char} (isComment : comment ∈ Rule.blockComment.texts) :
    Skipped comment := by
  rcases Rule.mem_blockComment.mp isComment with ⟨inner, rfl, unclosed⟩
  intro position behind
  apply locate_split_of_read
  rw [read_eq, Opening.of_slash]
  simp only [List.cons_append, List.append_assoc, List.nil_append, Lexeme.slash,
    commentLength?_closed unclosed, List.length_cons, List.length_append, List.length_nil]
  rw [Nat.add_comm]

theorem skipped_lineComment {comment : List Char} (isComment : comment ∈ Rule.lineComment.texts) :
    Skipped (comment ++ ['\n']) := by
  rcases Rule.mem_lineComment.mp isComment with ⟨inner, rfl, noBreak⟩
  intro position behind
  have stopped := @takeWhile_stopped (· ≠ '\n') inner behind '\n' (by simpa using noBreak)
    (by decide)
  have read : Lexeme.read '/' (('/' :: inner) ++ '\n' :: behind) =
      .gap ('/' :: inner).length := by
    rw [read_eq, Opening.of_slash]
    simp only [List.cons_append, Lexeme.slash, stopped.1, List.length_cons]
    rw [Nat.add_comm]
  rw [List.append_assoc, List.singleton_append, locate_split_of_read read, Position.after_append]
  exact @skipped_blank '\n' (by decide) _ behind

theorem skipped_of_mem {gap : List Char} (separates : gap ∈ separators) : Skipped gap := by
  rcases Language.mem_kstar.mp separates with ⟨parts, rfl, each⟩
  clear separates
  induction parts with
  | nil =>
      intro position behind
      rfl
  | cons part parts ih =>
      rcases List.forall_mem_cons.mp each with ⟨isPart, others⟩
      rw [List.flatten_cons]
      refine Skipped.append ?_ (ih others)
      rcases isPart with (⟨char, blank, rfl⟩ | isComment) | isComment
      · exact skipped_blank blank
      · exact skipped_blockComment isComment
      · rcases mem_mul_exactly.mp isComment with ⟨comment, isLine, rfl⟩
        exact skipped_lineComment isLine

theorem spacing_cases {gap : List Char} (spacing : gap ∈ spacings) :
    Skipped gap ∧ ∀ behind, Spaced (gap ++ behind) := by
  rcases spacing with ⟨_, ⟨char, blank, rfl⟩, more, separates, rfl⟩
  refine ⟨(skipped_blank blank).append (skipped_of_mem separates), ?_⟩
  rintro behind _ ⟨⟩
  exact blank

/-- A word and what separates it from the next one. -/
structure Placed where
  kind : TokenKind
  text : String
  behind : List Char

def Placed.source (placed : Placed) : List Char :=
  lexeme placed.kind placed.text ++ placed.behind

theorem locate_split_words (position : Position) (words : List Placed)
    (areWords : ∀ word ∈ words, Word word.kind word.text)
    (separated : ∀ word ∈ words.dropLast, word.behind ∈ spacings)
    (ended : ∀ word ∈ words.getLast?, word.behind = [] ∨ word.behind ∈ spacings) :
    (Piece.locate position (Piece.split (words.flatMap Placed.source))).map
        (fun token => (token.kind, token.text)) =
      words.map fun word => (word.kind, word.text) := by
  induction words generalizing position with
  | nil =>
      rw [List.flatMap_nil, Piece.split]
      rfl
  | cons word rest ih =>
      rcases List.forall_mem_cons.mp areWords with ⟨isWord, areOthers⟩
      have gap : Skipped word.behind ∧ Spaced (word.behind ++ rest.flatMap Placed.source) := by
        cases rest with
        | nil =>
            rcases ended word rfl with none | spacing
            · rw [none]
              exact ⟨fun _ _ => rfl, by simp [Spaced]⟩
            · exact (spacing_cases spacing).imp_right (· _)
        | cons next rest =>
            exact (spacing_cases (separated word List.mem_cons_self)).imp_right (· _)
      have restSeparated : ∀ word ∈ rest.dropLast, word.behind ∈ spacings := by
        intro other stands
        cases rest with
        | nil => cases stands
        | cons next rest => exact separated other (List.mem_cons_of_mem _ stands)
      have restEnded : ∀ word ∈ rest.getLast?, word.behind = [] ∨ word.behind ∈ spacings := by
        intro other isLast
        cases rest with
        | nil => cases isLast
        | cons next rest => exact ended other (by rwa [List.getLast?_cons_cons])
      rw [List.flatMap_cons, Placed.source, List.append_assoc,
        split_of_picks (isWord.picks gap.2), Piece.locate]
      dsimp only
      rw [List.map_cons, Word.textOf_lexeme, gap.1, ih _ areOthers restSeparated restEnded,
        List.map_cons]

/--
Words with separators around them are read as the words, whatever the separators are. Only
behind a word a separator has to start with white space; the last one may be missing.
-/
theorem tokenize_layout (lead : List Char) (words : List Placed) (leads : lead ∈ separators)
    (areWords : ∀ word ∈ words, Word word.kind word.text)
    (separated : ∀ word ∈ words.dropLast, word.behind ∈ spacings)
    (ended : ∀ word ∈ words.getLast?, word.behind = [] ∨ word.behind ∈ spacings) :
    (tokenize (String.ofList (lead ++ words.flatMap Placed.source))).map
        (fun token => (token.kind, token.text)) =
      words.map fun word => (word.kind, word.text) := by
  rw [tokenize, String.toList_ofList, skipped_of_mem leads]
  exact locate_split_words _ words areWords separated ended

/-- A string with a comment's opening in it, a division before a comment, and a fraction. -/
def commented : List Placed :=
  [⟨.stringLiteral, "a // b", " /* \" */".toList⟩, ⟨.operator .div, "/", "\n// '\n".toList⟩,
    ⟨.floatLiteral, ".5", []⟩]

theorem tokenize_layout_commented :
    "/* / */".toList ∈ separators ∧ (∀ word ∈ commented, Word word.kind word.text) ∧
      (∀ word ∈ commented.dropLast, word.behind ∈ spacings) ∧
      (tokenize (String.ofList ("/* / */".toList ++ commented.flatMap Placed.source))).map
          (fun token => (token.kind, token.text)) =
        [(.stringLiteral, "a // b"), (.operator .div, "/"), (.floatLiteral, ".5")] := by
  have lead : "/* / */".toList ∈ separators := by
    refine Language.mem_kstar.mpr ⟨["/* / */".toList], rfl, List.forall_mem_singleton.mpr ?_⟩
    exact .inl (.inr (Rule.mem_blockComment.mpr ⟨" / ".toList, rfl, by decide⟩))
  have areWords : ∀ word ∈ commented, Word word.kind word.text := by
    have fraction : ".5".toList ∈ Rule.float.texts :=
      Rule.mem_float.mpr ⟨[], ['5'], rfl, List.cons_ne_nil _ _, List.forall_mem_nil _,
        List.forall_mem_singleton.mpr rfl⟩
    simp only [commented, List.forall_mem_cons]
    have noQuote : '"' ∉ "a // b".toList := by decide
    exact ⟨.string fun _ occurs => ne_of_mem_of_not_mem occurs noQuote, .fixed (by decide),
      .float fraction, List.forall_mem_nil _⟩
  have afterString : " /* \" */".toList ∈ spacings := by
    refine ⟨[' '], ⟨' ', by decide, rfl⟩, "/* \" */".toList, ?_, rfl⟩
    refine Language.mem_kstar.mpr ⟨["/* \" */".toList], rfl, List.forall_mem_singleton.mpr ?_⟩
    exact .inl (.inr (Rule.mem_blockComment.mpr ⟨" \" ".toList, rfl, by decide⟩))
  have afterSlash : "\n// '\n".toList ∈ spacings := by
    refine ⟨['\n'], ⟨'\n', by decide, rfl⟩, "// '\n".toList, ?_, rfl⟩
    refine Language.mem_kstar.mpr ⟨["// '\n".toList], rfl, List.forall_mem_singleton.mpr ?_⟩
    have noBreak : '\n' ∉ " '".toList := by decide
    have isComment : "// '".toList ∈ Rule.lineComment.texts :=
      Rule.mem_lineComment.mpr
        ⟨" '".toList, rfl, fun _ occurs => ne_of_mem_of_not_mem occurs noBreak⟩
    exact .inr (mem_mul_exactly.mpr ⟨"// '".toList, isComment, rfl⟩)
  have separated : ∀ word ∈ commented.dropLast, word.behind ∈ spacings := by
    simp only [commented, List.dropLast, List.forall_mem_cons]
    exact ⟨afterString, afterSlash, List.forall_mem_nil _⟩
  have ended : ∀ word ∈ commented.getLast?, word.behind = [] ∨ word.behind ∈ spacings := by
    rintro _ ⟨⟩
    exact .inl rfl
  exact ⟨lead, areWords, separated, tokenize_layout _ commented lead areWords separated ended⟩

end Lexical

end Tuplet
