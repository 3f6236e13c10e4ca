import Mathlib.Computability.Language
import Tuplet.Token.Scan

/-!
# The lexical rules

The rules by which a source falls into words, as regular languages of characters: white
space, comments, words that are always written in the same way, names, numbers and
strings. Several rules can match at one place. The longest text is picked, and of rules
that match equally long texts the one that ranks first: a keyword is not a name.

A comment or a string that is opened and never closed is one text up to the end of the
source, and a character that no rule is for is a text of its own.
-/

namespace Tuplet

namespace Lexical

open Computability

/-- The texts of one character of a class. -/
def one (holds : Char → Bool) : Language Char := {text | ∃ char, holds char = true ∧ text = [char]}

/-- The texts of one or more characters of a class. -/
def run (holds : Char → Bool) : Language Char := one holds * (one holds)∗

def exactly (text : String) : Language Char := {text.toList}

/-- The texts in which another one does not occur. -/
def without (text : String) : Language Char := {other | ¬ text.toList <:+: other}

/-- The tokens that are always written in the same way. -/
def fixedTexts : List (String × TokenKind) :=
  [("return", .returnWord), (",", .comma), (";", .semicolon), ("=", .assign),
    ("'=", .assignReference), ("+", .operator .add), ("-", .operator .sub),
    ("*", .operator .mul), ("/", .operator .div), ("%", .operator .mod),
    ("^", .operator .exp), ("¬/", .operator .root), ("\x7b", .braceOpen),
    ("\x7d", .braceClose), ("(", .parenOpen), (")", .parenClose),
    ("void", .primitive .void), ("float", .primitive .float), ("int", .primitive .int),
    ("string", .primitive .string), ("int'", .intReference)]

/-- The lexical rules. -/
inductive Rule where
  | fixed (text : String) (kind : TokenKind) (listed : (text, kind) ∈ fixedTexts)
  | blanks
  | lineComment
  | blockComment
  | unclosedComment
  | name
  | int
  | float
  | string
  | unclosedString
  | stray

namespace Rule

/-- The kind of the token that a rule makes, or nothing for a rule that skips. -/
def kind : Rule → Option TokenKind
  | fixed _ kind _ => some kind
  | blanks | lineComment | blockComment => none
  | name => some .name
  | int => some .intLiteral
  | float => some .floatLiteral
  | string => some .stringLiteral
  | unclosedComment | unclosedString | stray => some .invalid

def texts : Rule → Language Char
  | fixed text _ _ => exactly text
  | blanks => run isBlank
  | lineComment => exactly "//" * (one (· ≠ '\n'))∗
  | blockComment => exactly "/*" * without "*/" * exactly "*/"
  | unclosedComment => exactly "/*" * without "*/"
  | name => one isNameStart * (one isNamePart)∗ * (1 + exactly "'")
  | int => run Char.isDigit
  | float => run Char.isDigit * exactly "." * run Char.isDigit + exactly "." * run Char.isDigit
  | string => exactly "\"" * (one (· ≠ '"'))∗ * exactly "\""
  | unclosedString => exactly "\"" * (one (· ≠ '"'))∗
  | stray => one fun _ => true

/-- Whether a rule is only for what reaches to the end of the source. -/
def endsSource : Rule → Bool
  | unclosedComment | unclosedString => true
  | _ => false

/-- Of rules that match equally long texts, the one of the least rank counts. -/
def rank : Rule → Nat
  | fixed _ _ _ => 0
  | stray => 2
  | _ => 1

/-- A rule matches a text that something stands behind. -/
def Matches (rule : Rule) (text behind : List Char) : Prop :=
  text ∈ rule.texts ∧ (rule.endsSource = true → behind = [])

end Rule

theorem Rule.Matches.of_mem {rule : Rule} {text behind : List Char} (isText : text ∈ rule.texts)
    (anywhere : rule.endsSource = false) : rule.Matches text behind := by
  refine ⟨isText, ?_⟩
  intro ends
  rw [anywhere] at ends
  cases ends

/-- The rules pick a text of a kind at the front of a source: the longest, by the first rule. -/
def Picks (slice behind : List Char) (kind : Option TokenKind) : Prop :=
  ∃ rule : Rule, rule.kind = kind ∧ rule.Matches slice behind ∧
    ∀ (other : Rule) (text rest : List Char), text ++ rest = slice ++ behind →
      other.Matches text rest → text.length < slice.length ∨
        text.length = slice.length ∧ rule.rank ≤ other.rank

section Languages

variable {holds : Char → Bool} {text : List Char}

theorem mem_one : text ∈ one holds ↔ ∃ char, holds char = true ∧ text = [char] := Iff.rfl

theorem mem_exactly {other : String} : text ∈ exactly other ↔ text = other.toList := Iff.rfl

theorem mem_without {other : String} : text ∈ without other ↔ ¬ other.toList <:+: text := Iff.rfl

theorem mem_one_star : text ∈ (one holds)∗ ↔ ∀ char ∈ text, holds char = true := by
  rw [Language.mem_kstar]
  constructor
  · rintro ⟨parts, rfl, ones⟩ char occurs
    rcases List.mem_flatten.mp occurs with ⟨part, isPart, inPart⟩
    rcases ones part isPart with ⟨only, held, rfl⟩
    rw [List.mem_singleton.mp inPart]
    exact held
  · intro held
    refine ⟨text.map ([·]), ?_, ?_⟩
    · induction text with
      | nil => rfl
      | cons char rest ih =>
          rw [List.map_cons, List.flatten_cons, ← ih (List.forall_mem_cons.mp held).2]
          rfl
    · intro part isPart
      rcases List.mem_map.mp isPart with ⟨char, occurs, rfl⟩
      exact ⟨char, held char occurs, rfl⟩

theorem mem_run : text ∈ run holds ↔ text ≠ [] ∧ ∀ char ∈ text, holds char = true := by
  simp only [run, Language.mem_mul, mem_one_star]
  constructor
  · rintro ⟨_, ⟨char, held, rfl⟩, rest, allHeld, rfl⟩
    exact ⟨List.cons_ne_nil _ _, List.forall_mem_cons.mpr ⟨held, allHeld⟩⟩
  · rintro ⟨nonempty, allHeld⟩
    rcases List.exists_cons_of_ne_nil nonempty with ⟨char, rest, rfl⟩
    rcases List.forall_mem_cons.mp allHeld with ⟨held, restHeld⟩
    exact ⟨_, ⟨char, held, rfl⟩, rest, restHeld, rfl⟩

theorem mem_exactly_mul {start : String} {others : Language Char} :
    text ∈ exactly start * others ↔ ∃ rest ∈ others, text = start.toList ++ rest := by
  simp only [Language.mem_mul]
  constructor
  · rintro ⟨_, rfl, rest, isOther, rfl⟩
    exact ⟨rest, isOther, rfl⟩
  · rintro ⟨rest, isOther, rfl⟩
    exact ⟨_, rfl, rest, isOther, rfl⟩

theorem mem_mul_exactly {ending : String} {others : Language Char} :
    text ∈ others * exactly ending ↔ ∃ front ∈ others, text = front ++ ending.toList := by
  simp only [Language.mem_mul]
  constructor
  · rintro ⟨front, isOther, _, rfl, rfl⟩
    exact ⟨front, isOther, rfl⟩
  · rintro ⟨front, isOther, rfl⟩
    exact ⟨front, isOther, _, rfl, rfl⟩

end Languages

namespace Rule

variable {text : List Char}

theorem mem_lineComment : text ∈ lineComment.texts ↔
    ∃ comment, text = '/' :: '/' :: comment ∧ ∀ char ∈ comment, char ≠ '\n' := by
  simp [texts, mem_exactly_mul, mem_one_star, and_comm]

theorem mem_unclosedComment : text ∈ unclosedComment.texts ↔
    ∃ inner, text = '/' :: '*' :: inner ∧ ¬ ['*', '/'] <:+: inner := by
  simp [texts, mem_exactly_mul, mem_without, and_comm]

theorem mem_blockComment : text ∈ blockComment.texts ↔
    ∃ inner, text = '/' :: '*' :: (inner ++ ['*', '/']) ∧ ¬ ['*', '/'] <:+: inner := by
  simp only [texts, mem_mul_exactly, mem_exactly_mul, mem_without]
  constructor
  · rintro ⟨_, ⟨inner, without, rfl⟩, rfl⟩
    exact ⟨inner, rfl, without⟩
  · rintro ⟨inner, rfl, without⟩
    exact ⟨_, ⟨inner, without, rfl⟩, rfl⟩

theorem mem_name : text ∈ name.texts ↔
    ∃ first body mark, text = first :: (body ++ mark) ∧ isNameStart first = true ∧
      (∀ char ∈ body, isNamePart char = true) ∧ (mark = [] ∨ mark = ['\'']) := by
  simp only [texts, Language.mem_mul, mem_one_star, mem_one, Language.mem_add, Language.mem_one,
    mem_exactly]
  constructor
  · rintro ⟨_, ⟨_, ⟨first, starts, rfl⟩, body, parts, rfl⟩, mark, marked, rfl⟩
    exact ⟨first, body, mark, rfl, starts, parts, marked⟩
  · rintro ⟨first, body, mark, rfl, starts, parts, marked⟩
    exact ⟨_, ⟨_, ⟨first, starts, rfl⟩, body, parts, rfl⟩, mark, marked, rfl⟩

theorem mem_float : text ∈ float.texts ↔
    ∃ whole fraction, text = whole ++ '.' :: fraction ∧ fraction ≠ [] ∧
      (∀ char ∈ whole, char.isDigit = true) ∧ ∀ char ∈ fraction, char.isDigit = true := by
  simp only [texts, Language.mem_add, mul_assoc, Language.mem_mul, mem_exactly, mem_run]
  constructor
  · rintro (⟨whole, ⟨_, wholeDigits⟩, _, ⟨_, rfl, fraction, ⟨nonempty, digits⟩, rfl⟩, rfl⟩ |
      ⟨_, rfl, fraction, ⟨nonempty, digits⟩, rfl⟩)
    · exact ⟨whole, fraction, rfl, nonempty, wholeDigits, digits⟩
    · exact ⟨[], fraction, rfl, nonempty, by simp, digits⟩
  · rintro ⟨whole, fraction, rfl, nonempty, wholeDigits, digits⟩
    cases whole with
    | nil => exact .inr ⟨_, rfl, fraction, ⟨nonempty, digits⟩, rfl⟩
    | cons first rest =>
        exact .inl ⟨first :: rest, ⟨List.cons_ne_nil _ _, wholeDigits⟩, _,
          ⟨_, rfl, fraction, ⟨nonempty, digits⟩, rfl⟩, rfl⟩

theorem mem_unclosedString : text ∈ unclosedString.texts ↔
    ∃ inner, text = '"' :: inner ∧ ∀ char ∈ inner, char ≠ '"' := by
  simp [texts, mem_exactly_mul, mem_one_star, and_comm]

theorem mem_string : text ∈ string.texts ↔
    ∃ inner, text = '"' :: (inner ++ ['"']) ∧ ∀ char ∈ inner, char ≠ '"' := by
  simp only [texts, mem_mul_exactly, mem_exactly_mul, mem_one_star, decide_eq_true_iff]
  constructor
  · rintro ⟨_, ⟨inner, noQuote, rfl⟩, rfl⟩
    exact ⟨inner, rfl, noQuote⟩
  · rintro ⟨inner, rfl, noQuote⟩
    exact ⟨_, ⟨inner, noQuote, rfl⟩, rfl⟩

theorem mem_stray : text ∈ stray.texts ↔ ∃ char, text = [char] := by
  simp [texts, mem_one]

end Rule

/-- What a name has behind its first character. -/
def nameTail (source : List Char) : List Char :=
  source.takeWhile isNamePart ++
    if (source.dropWhile isNamePart).head? = some '\'' then ['\''] else []

/-- Whether a text has the shape of a name. -/
def isWord : List Char → Bool
  | [] => false
  | first :: rest => isNameStart first && nameTail rest == rest

/-- What the first character of a text shows about it. -/
inductive Opening where
  | blank | word | digit | point | slash | quote | mark
  deriving DecidableEq

namespace Opening

/-- What a first character shows. -/
def of (char : Char) : Opening :=
  if isBlank char then blank
  else if isNameStart char then word
  else if char.isDigit then digit
  else if char = '.' then point
  else if char = '/' then slash
  else if char = '"' then quote
  else mark

variable {char : Char}

theorem of_blank (isBlank : isBlank char = true) : of char = blank := by simp [of, isBlank]

theorem of_word (starts : isNameStart char = true) : of char = word := by
  have notBlank : isBlank char = false := by
    rw [← Bool.not_eq_true]
    intro blank
    simp only [isBlank, Bool.or_eq_true, decide_eq_true_iff] at blank
    rcases blank with (((rfl | rfl) | rfl) | rfl) | rfl <;> revert starts <;> decide
  simp [of, notBlank, starts]

theorem of_digit (isDigit : char.isDigit = true) : of char = digit := by
  have notBlank : isBlank char = false := by
    rw [← Bool.not_eq_true]
    intro blank
    simp only [isBlank, Bool.or_eq_true, decide_eq_true_iff] at blank
    rcases blank with (((rfl | rfl) | rfl) | rfl) | rfl <;> revert isDigit <;> decide
  have notWord : isNameStart char = false := by
    rw [← Bool.not_eq_true]
    intro starts
    simp only [isNameStart, Bool.or_eq_true, decide_eq_true_iff] at starts
    rcases starts with isAlpha | rfl
    · have below : char.toNat ≤ '9'.toNat := (Char.isDigit_iff_toNat.mp isDigit).2
      have above : 'A'.toNat ≤ char.toNat ∨ 'a'.toNat ≤ char.toNat := by
        apply Or.imp _ _ ((Bool.or_eq_true _ _).mp isAlpha)
        · intro upper
          exact UInt32.le_iff_toNat_le.mp (of_decide_eq_true upper).1
        · intro lower
          exact UInt32.le_iff_toNat_le.mp (of_decide_eq_true ((Bool.and_eq_true _ _).mp lower).1)
      simp only [Char.reduceToNat] at below above
      omega
    · revert isDigit
      decide
  simp [of, notBlank, notWord, isDigit]

theorem of_point : of '.' = point := by decide

theorem of_slash : of '/' = slash := by decide

theorem of_quote : of '"' = quote := by decide

end Opening

theorem read_eq (first : Char) (rest : List Char) :
    Lexeme.read first rest =
      match Opening.of first with
      | .blank => .gap (rest.takeWhile isBlank).length
      | .word => .word first rest
      | .digit => .number rest
      | .point => .point rest
      | .slash => .slash rest
      | .quote => .quote rest
      | .mark => .mark first rest := by
  rw [Lexeme.read, Opening.of]
  repeat' split <;> try rfl

/-- The rules that can match at a first character besides the one for stray characters. -/
inductive Rival : Opening → Rule → Prop
  | blanks : Rival .blank .blanks
  | keyword (text : String) (kind : TokenKind) (listed : (text, kind) ∈ fixedTexts)
      (word : isWord text.toList = true) (ofWord : Lexeme.ofWord text.toList = kind)
      (notName : kind ≠ .name) : Rival .word (.fixed text kind listed)
  | name : Rival .word .name
  | int : Rival .digit .int
  | float : Rival .digit .float
  | fraction : Rival .point .float
  | lineComment : Rival .slash .lineComment
  | blockComment : Rival .slash .blockComment
  | unclosedComment : Rival .slash .unclosedComment
  | division (listed : ("/", .operator .div) ∈ fixedTexts) :
      Rival .slash (.fixed "/" (.operator .div) listed)
  | string : Rival .quote .string
  | unclosedString : Rival .quote .unclosedString
  | mark (text : String) (kind : TokenKind) (listed : (text, kind) ∈ fixedTexts)
      (opens : text.toList.head?.map Opening.of = some .mark) :
      Rival .mark (.fixed text kind listed)

/-- The fixed texts are keywords, the division operator, and marks. -/
theorem Rival.of_fixed {first : Char} {rest : List Char} {text : String} {kind : TokenKind}
    (listed : (text, kind) ∈ fixedTexts) (spelled : first :: rest = text.toList) :
    Rival (.of first) (.fixed text kind listed) := by
  have checked : ∀ entry ∈ fixedTexts,
      (entry.1.toList.head?.map Opening.of = some .word ∧ isWord entry.1.toList = true ∧
        Lexeme.ofWord entry.1.toList = entry.2 ∧ entry.2 ≠ .name) ∨
      entry = ("/", .operator .div) ∨ entry.1.toList.head?.map Opening.of = some .mark := by decide
  rcases checked _ listed with ⟨opens, word, ofWord, notName⟩ | isDivision | opens
  · have isWord : Opening.of first = .word := by simpa [← spelled] using opens
    rw [isWord]
    exact .keyword text kind listed word ofWord notName
  · cases isDivision
    cases spelled
    exact .division listed
  · have isMark : Opening.of first = .mark := by simpa [← spelled] using opens
    rw [isMark]
    exact .mark text kind listed opens

theorem Rule.Matches.rival {rule : Rule} {first : Char} {text behind : List Char}
    (matched : rule.Matches (first :: text) behind) (ranked : rule.rank < 2) :
    Rival (.of first) rule := by
  rcases matched with ⟨isText, _⟩
  cases rule with
  | fixed fixedText kind listed => exact .of_fixed listed isText
  | blanks =>
      rw [Opening.of_blank ((mem_run.mp isText).2 first (by simp))]
      exact .blanks
  | lineComment =>
      rcases mem_lineComment.mp isText with ⟨_, spelled, _⟩
      cases spelled
      exact .lineComment
  | blockComment =>
      rcases mem_blockComment.mp isText with ⟨_, spelled, _⟩
      cases spelled
      exact .blockComment
  | unclosedComment =>
      rcases mem_unclosedComment.mp isText with ⟨_, spelled, _⟩
      cases spelled
      exact .unclosedComment
  | name =>
      rcases mem_name.mp isText with ⟨_, _, _, spelled, starts, _⟩
      cases spelled
      rw [Opening.of_word starts]
      exact .name
  | int =>
      rw [Opening.of_digit ((mem_run.mp isText).2 first (by simp))]
      exact .int
  | float =>
      rcases mem_float.mp isText with ⟨whole, _, spelled, _, digits, _⟩
      cases whole with
      | nil =>
          cases spelled
          exact .fraction
      | cons digit whole =>
          cases spelled
          rw [Opening.of_digit (digits first (by simp))]
          exact .float
  | string =>
      rcases mem_string.mp isText with ⟨_, spelled, _⟩
      cases spelled
      exact .string
  | unclosedString =>
      rcases mem_unclosedString.mp isText with ⟨_, spelled, _⟩
      cases spelled
      exact .unclosedString
  | stray => simp [rank] at ranked

theorem Rule.Matches.ne_nil {rule : Rule} {text behind : List Char}
    (matched : rule.Matches text behind) : text ≠ [] := by
  rintro rfl
  rcases matched with ⟨isText, _⟩
  cases rule with
  | fixed fixedText kind listed =>
      have spelled : [] = fixedText.toList := isText
      have nonempty : ∀ entry ∈ fixedTexts, entry.1.toList ≠ [] := by decide
      exact nonempty _ listed spelled.symm
  | blanks => exact (mem_run.mp isText).1 rfl
  | lineComment => simp [mem_lineComment] at isText
  | blockComment => simp [mem_blockComment] at isText
  | unclosedComment => simp [mem_unclosedComment] at isText
  | name => simp [mem_name] at isText
  | int => exact (mem_run.mp isText).1 rfl
  | float => simp [mem_float] at isText
  | string => simp [mem_string] at isText
  | unclosedString => simp [mem_unclosedString] at isText
  | stray => simp [mem_stray] at isText

theorem Rule.eq_stray {rule : Rule} (last : ¬ rule.rank < 2) : rule = .stray := by
  cases rule with
  | stray => rfl
  | _ => simp [rank] at last

/-- A rule matches a text, and no other one does better or as well in another way. -/
structure Wins (rule : Rule) (slice behind : List Char) : Prop where
  matched : rule.Matches slice behind
  beats : ∀ (other : Rule) (text rest : List Char), text ++ rest = slice ++ behind →
    other.Matches text rest → text.length < slice.length ∨ text.length = slice.length ∧
      (rule.rank < other.rank ∨ rule.rank = other.rank ∧ rule.kind = other.kind)

namespace Wins

variable {rule : Rule} {slice behind tail : List Char} {first : Char}

theorem picks (wins : Wins rule slice behind) : Picks slice behind rule.kind := by
  refine ⟨rule, rfl, wins.matched, ?_⟩
  intro other text rest split matched
  apply (wins.beats other text rest split matched).imp_right
  rintro ⟨sameLength, earlier | ⟨sameRank, _⟩⟩
  · exact ⟨sameLength, Nat.le_of_lt earlier⟩
  · exact ⟨sameLength, Nat.le_of_eq sameRank⟩

/-- What is picked is what wins. -/
theorem eq_of_picks {other behindOther : List Char} {kind : Option TokenKind}
    (wins : Wins rule slice behind) (picks : Picks other behindOther kind)
    (split : other ++ behindOther = slice ++ behind) :
    other = slice ∧ behindOther = behind ∧ kind = rule.kind := by
  rcases picks with ⟨picked, rfl, matched, longest⟩
  have beaten := wins.beats picked other behindOther split matched
  have beats := longest rule slice behind split.symm wins.matched
  have sameLength : other.length = slice.length := by omega
  rcases List.append_inj split sameLength with ⟨rfl, rfl⟩
  refine ⟨rfl, rfl, ?_⟩
  rcases beaten with shorter | ⟨_, earlier | ⟨_, sameKind⟩⟩
  · exact absurd shorter (Nat.lt_irrefl _)
  · omega
  · exact sameKind.symm

/-- Only rules that open in the same way have to be compared. -/
theorem of_rivals (matched : rule.Matches (first :: tail) behind) (ranked : rule.rank < 2)
    (rivals : ∀ (other : Rule) (text rest : List Char), Rival (.of first) other →
      text ++ rest = tail ++ behind → other.Matches (first :: text) rest →
      text.length < tail.length ∨ text = tail ∧
        (rule.rank < other.rank ∨ rule.rank = other.rank ∧ rule.kind = other.kind)) :
    Wins rule (first :: tail) behind := by
  refine ⟨matched, ?_⟩
  intro other text rest split otherMatched
  rcases List.exists_cons_of_ne_nil otherMatched.ne_nil with ⟨char, text, rfl⟩
  rcases List.cons.inj split with ⟨rfl, tails⟩
  by_cases otherRanked : other.rank < 2
  · have compared := rivals other text rest (otherMatched.rival otherRanked) tails otherMatched
    rcases compared with shorter | ⟨rfl, later⟩
    · exact .inl (Nat.succ_lt_succ shorter)
    · exact .inr ⟨rfl, later⟩
  · have later : rule.rank < other.rank := by omega
    rcases Rule.mem_stray.mp (Rule.eq_stray otherRanked ▸ otherMatched.1) with ⟨_, single⟩
    cases single
    rcases Nat.eq_zero_or_pos tail.length with none | some
    · exact .inr ⟨by simp [none], .inl later⟩
    · exact .inl (Nat.succ_lt_succ some)

/-- A stray character is what is left where no other rule matches. -/
theorem stray_of_unmatched
    (unmatched : ∀ (other : Rule) (text rest : List Char), Rival (.of first) other →
      text ++ rest = behind → ¬ other.Matches (first :: text) rest) :
    Wins .stray [first] behind := by
  refine ⟨.of_mem (Rule.mem_stray.mpr ⟨first, rfl⟩) rfl, ?_⟩
  intro other text rest split otherMatched
  rcases List.exists_cons_of_ne_nil otherMatched.ne_nil with ⟨char, text, rfl⟩
  rcases List.cons.inj split with ⟨rfl, tails⟩
  by_cases otherRanked : other.rank < 2
  · exact absurd otherMatched (unmatched other text rest (otherMatched.rival otherRanked) tails)
  · cases Rule.eq_stray otherRanked
    rcases Rule.mem_stray.mp otherMatched.1 with ⟨_, single⟩
    cases single
    exact .inr ⟨rfl, .inr ⟨rfl, rfl⟩⟩

end Wins

end Lexical

end Tuplet
