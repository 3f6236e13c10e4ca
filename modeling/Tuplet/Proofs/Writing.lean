import Mathlib.Data.List.Forall2
import Tuplet.Proofs.Numerals
import Tuplet.Proofs.Scanning
import Tuplet.Syntax.Name
import Tuplet.Syntax.Node

/-!
# Writing programs down

A syntax tree is written as the words of its tokens in order, with a single space between
two of them. Not every tree can be written: a name may not be a keyword, a number has no
sign, and an operator inside another one needs parentheses.

A word stands alone if it is read as one token wherever a space or nothing follows it. What
words that stand alone are read as, one after the other, is said by what each of them is
read as.
-/

namespace Tuplet

/-- Whether a text is a name that is not a keyword. -/
def isPlainName (text : String) : Bool :=
  isValidName text && !(["return", "void", "int", "float", "string"].contains text)

/-- Whether a text can be written for the type of a value. -/
def isPlainType (text : String) : Bool :=
  ["int", "float", "string"].contains text || isPlainName text

namespace Parameter

def words (param : Parameter) : List String := [param.type, param.name]

def isWritable (param : Parameter) : Bool := isPlainType param.type && isPlainName param.name

end Parameter

namespace Signature

/-- The return types in words: `void` for none, a bare type for one, else a list. -/
def returnWords : List String → List String
  | [] => ["void"]
  | [type] => [type]
  | types => "(" :: ([","].intercalate (types.map ([·])) ++ [")"])

def words (signature : Signature) : List String :=
  returnWords signature.returns ++ signature.name :: "(" ::
    ([","].intercalate (signature.params.map Parameter.words) ++ [")"])

def isWritable (signature : Signature) : Bool :=
  signature.returns.all isPlainType && isPlainName signature.name &&
    signature.params.all Parameter.isWritable

end Signature

namespace Declaration

def words (declaration : Declaration) : List String := [declaration.type, declaration.name]

def isWritable (declaration : Declaration) : Bool :=
  isPlainType declaration.type && isPlainName declaration.name

end Declaration

namespace Variable

/-- A type at the use of a variable cannot be written. -/
def isWritable (use : Variable) : Bool := isPlainName use.name && use.type.isNone

theorem exists_of_isWritable {use : Variable} (writable : use.isWritable = true) :
    ∃ name, isPlainName name = true ∧ use = ⟨name, none⟩ := by
  rcases use with ⟨name, _ | type⟩
  · exact ⟨name, (Bool.and_eq_true_iff.mp writable).1, rfl⟩
  · simp [isWritable] at writable

end Variable

namespace Target

def words : Target → List String
  | .var use => [use.name]
  | .decl declaration => declaration.words

def isWritable : Target → Bool
  | .var use => use.isWritable
  | .decl declaration => declaration.isWritable

end Target

namespace Node

mutual

/-- The words that a node is written with. -/
def words : Node → List String
  | .literal value => [toString value.toInt]
  | .var use => [use.name]
  | .binary op left right => left.words ++ op.symbol :: right.words
  | .call name args => name :: "(" :: ([","].intercalate (wordsOfEach args) ++ [")"])
  | .group inner => "(" :: (inner.words ++ [")"])
  | .decl declaration => declaration.words
  | .assign target value => target.words ++ "=" :: value.words
  | .ret values => "return" :: [","].intercalate (wordsOfEach values)
  | .signature header => header.words ++ [";"]
  | .function header body =>
      header.words ++ "\x7b" :: ((wordsOfEach body).flatMap (· ++ [";"]) ++ ["\x7d"])

def wordsOfEach : List Node → List (List String)
  | [] => []
  | node :: rest => node.words :: wordsOfEach rest

end

mutual

/-- Whether a node can be written as a value. -/
def isValue : Node → Bool
  | .literal value => 0 ≤ value.toInt
  | .var use => use.isWritable
  | .binary _ left right =>
      left.form ≠ .binary && right.form ≠ .binary && left.isValue && right.isValue
  | .call name args => isPlainName name && areValues args
  | .group inner => inner.isValue
  | _ => false

def areValues : List Node → Bool
  | [] => true
  | node :: rest => node.isValue && areValues rest

end

/-- Whether a node can be written as a statement. -/
def isStatement : Node → Bool
  | .decl declaration => declaration.isWritable
  | .assign target value => target.isWritable && value.isValue
  | .call name args => isPlainName name && areValues args
  | .ret values => areValues values
  | _ => false

/-- Whether a node can be written as an item of a program. -/
def isItem : Node → Bool
  | .signature header => header.isWritable
  | .function header body => header.isWritable && body.all isStatement
  | _ => false

theorem wordsOfEach_eq (nodes : List Node) : wordsOfEach nodes = nodes.map words := by
  induction nodes with
  | nil => rfl
  | cons node rest ih => rw [wordsOfEach, ih, List.map_cons]

theorem areValues_iff {nodes : List Node} :
    areValues nodes = true ↔ ∀ node ∈ nodes, node.isValue = true := by
  induction nodes with
  | nil => simp [areValues]
  | cons node rest ih => simp [areValues, ih]

end Node

/-- A program in words, with single spaces between them. -/
def written (items : List Node) : String := " ".intercalate (items.flatMap Node.words)

namespace Lexical

/-- Nothing follows, or a space does. -/
def Separated (behind : List Char) : Prop := behind.head? = none ∨ behind.head? = some ' '

/-- A text is one token of a kind that keeps it, if it is separated from what follows. -/
def StandsAlone (text : String) (kind : TokenKind) : Prop :=
  kind ≠ .stringLiteral ∧ ∃ first rest, text.toList = first :: rest ∧
    ∀ behind, Separated behind → Lexeme.read first (rest ++ behind) = .token kind rest.length

section Alone

variable {text : String} {kind : TokenKind} {behind : List Char} {first : Char} {rest : List Char}

theorem StandsAlone.unique {other : TokenKind} (alone : StandsAlone text kind)
    (otherAlone : StandsAlone text other) : kind = other := by
  rcases alone with ⟨_, first, rest, spelled, reads⟩
  rcases otherAlone with ⟨_, otherFirst, otherRest, otherSpelled, otherReads⟩
  rw [spelled] at otherSpelled
  cases otherSpelled
  have same := (reads [] (.inl rfl)).symm.trans (otherReads [] (.inl rfl))
  exact Option.some.inj (Lexeme.mk.inj same).1

theorem takeWhile_separated {holds : Char → Bool} (held : ∀ char ∈ rest, holds char = true)
    (stops : holds ' ' = false) (separated : Separated behind) :
    (rest ++ behind).takeWhile holds = rest ∧ (rest ++ behind).dropWhile holds = behind := by
  rcases separated with ends | spaced
  · rw [List.head?_eq_none_iff.mp ends, List.append_nil, List.takeWhile_eq_self_iff.mpr held,
      List.dropWhile_eq_nil_iff.mpr held]
    exact ⟨rfl, rfl⟩
  · rcases List.head?_eq_some_iff.mp spaced with ⟨_, rfl⟩
    exact takeWhile_stopped held stops

/-- A word ends before a space. -/
theorem nameTail_separated (word : isWord (first :: rest) = true) (separated : Separated behind) :
    nameTail (rest ++ behind) = rest := by
  rcases Rule.mem_name.mp (mem_name_of_isWord word) with ⟨_, body, mark, spelled, _, parts, marked⟩
  rcases List.cons.inj spelled with ⟨_, rfl⟩
  rcases marked with rfl | rfl
  · have stopped := takeWhile_separated parts (by decide) separated
    rcases separated with ends | spaced
    · simp [nameTail, stopped, ends]
    · simp [nameTail, stopped, spaced]
  · have stopped := @takeWhile_stopped isNamePart body behind '\'' parts (by decide)
    simp [nameTail, stopped]

theorem standsAlone_word (spelled : text.toList = first :: rest)
    (word : isWord text.toList = true) (ofWord : Lexeme.ofWord text.toList = kind)
    (notString : kind ≠ .stringLiteral) : StandsAlone text kind := by
  rw [spelled] at word ofWord
  have starts : isNameStart first = true := by
    simp only [isWord, Bool.and_eq_true] at word
    exact word.1
  refine ⟨notString, first, rest, spelled, ?_⟩
  intro behind separated
  rw [read_eq, Opening.of_word starts]
  dsimp only
  rw [word_eq, nameTail_separated word separated, ofWord]

/-- Whatever is always written in the same way stands alone. -/
theorem standsAlone_fixed (listed : (text, kind) ∈ fixedTexts) : StandsAlone text kind := by
  have checked : ∀ entry ∈ fixedTexts, entry.1.toList ≠ [] ∧ entry.2 ≠ .stringLiteral := by decide
  rcases checked _ listed with ⟨nonempty, notString⟩
  rcases List.exists_cons_of_ne_nil nonempty with ⟨first, rest, spelled⟩
  have rival := Rival.of_fixed listed spelled.symm
  generalize opening : Opening.of first = opened at rival
  cases rival with
  | keyword _ _ _ word ofWord _ => exact standsAlone_word spelled word ofWord notString
  | division =>
      refine ⟨notString, '/', [], rfl, ?_⟩
      rintro behind (ends | spaced)
      · rw [List.head?_eq_none_iff.mp ends]
        rfl
      · rcases List.head?_eq_some_iff.mp spaced with ⟨_, rfl⟩
        rfl
  | mark _ _ _ _ =>
      refine ⟨notString, first, rest, spelled, ?_⟩
      intro behind _
      rw [read_eq, opening]
      exact (mark_of_fixed behind listed spelled opening).1

theorem isWord_of_isValidName (valid : isValidName text = true) : isWord text.toList = true := by
  rw [isValidName] at valid
  split at valid
  case h_1 => cases valid
  case h_2 first rest spelled =>
    rcases Bool.and_eq_true_iff.mp valid with ⟨starts, parts⟩
    rw [List.all_eq_true] at parts
    have stopped := @takeWhile_separated [] rest isNamePart parts (by decide) (.inl rfl)
    rw [List.append_nil] at stopped
    simp [isWord, spelled, starts, nameTail, stopped]

/-- A name that is not a keyword is read as a name. -/
theorem standsAlone_plainName (plain : isPlainName text = true) : StandsAlone text .name := by
  simp only [isPlainName, Bool.and_eq_true, Bool.not_eq_true', List.contains_eq_mem,
    decide_eq_false_iff_not, List.mem_cons, List.not_mem_nil, or_false, not_or] at plain
  rcases plain with ⟨valid, noReturn, noVoid, noInt, noFloat, noString⟩
  have noReference : text ≠ "int'" := by
    rintro rfl
    exact absurd valid (by decide)
  have word := isWord_of_isValidName valid
  have nonempty : text.toList ≠ [] := by
    intro empty
    rw [empty] at word
    cases word
  rcases List.exists_cons_of_ne_nil nonempty with ⟨first, rest, spelled⟩
  apply standsAlone_word spelled word _ (by decide)
  simp only [Lexeme.ofWord, String.toList_inj, noReturn, noVoid, noInt, noFloat, noString,
    noReference, if_false]

theorem standsAlone_digits (nonempty : text.toList ≠ [])
    (digits : ∀ char ∈ text.toList, char.isDigit = true) : StandsAlone text .intLiteral := by
  rcases List.exists_cons_of_ne_nil nonempty with ⟨first, rest, spelled⟩
  rw [spelled] at digits
  rcases List.forall_mem_cons.mp digits with ⟨isDigit, restDigits⟩
  refine ⟨by decide, first, rest, spelled, ?_⟩
  intro behind separated
  rw [read_eq, Opening.of_digit isDigit]
  dsimp only
  rw [Lexeme.number, drop_length_takeWhile, (takeWhile_separated restDigits rfl separated).1,
    (takeWhile_separated restDigits rfl separated).2]
  rcases separated with ends | spaced
  · rw [List.head?_eq_none_iff.mp ends]
  · rcases List.head?_eq_some_iff.mp spaced with ⟨_, rfl⟩
    rfl

/-- A number without a sign is written with the digits that it is read from. -/
theorem digits_of_unsigned {value : Int32} (unsigned : 0 ≤ value.toInt) :
    (toString value.toInt).toList = Nat.toDigits 10 value.toInt.toNat := by
  rw [Int.toString_eq_repr, Int.repr_eq_if, if_pos unsigned, Nat.toList_repr]

theorem standsAlone_literal {value : Int32} (unsigned : 0 ≤ value.toInt) :
    StandsAlone (toString value.toInt) .intLiteral ∧
      intLiteral? (toString value.toInt) = some value := by
  have written := digits_of_unsigned unsigned
  have nonempty : (toString value.toInt).toList ≠ [] := by
    rw [written]
    exact Nat.toDigits_ne_nil
  have digits : ∀ char ∈ (toString value.toInt).toList, char.isDigit = true := by
    intro char occurs
    rw [written] at occurs
    exact Nat.isDigit_of_mem_toDigits (by decide) (by decide) occurs
  exact ⟨standsAlone_digits nonempty digits, Numeral.intLiteral?_toString value⟩

theorem StandsAlone.split (alone : StandsAlone text kind) (separated : Separated behind) :
    Piece.split (text.toList ++ behind) = ⟨some kind, text.toList⟩ :: Piece.split behind := by
  rcases alone with ⟨_, first, rest, spelled, reads⟩
  rw [spelled, List.cons_append, Piece.split, reads behind separated]
  simp only [Lexeme.token, List.take_left, List.drop_left]

theorem StandsAlone.textOf (alone : StandsAlone text kind) :
    Piece.textOf kind text.toList = text := by
  rw [Piece.textOf, if_neg alone.1, String.ofList_toList]

/-- A single space before a word is a gap of its own. -/
theorem StandsAlone.split_space (alone : StandsAlone text kind) :
    Piece.split (' ' :: (text.toList ++ behind)) =
      ⟨none, [' ']⟩ :: Piece.split (text.toList ++ behind) := by
  rcases alone with ⟨_, first, rest, spelled, reads⟩
  have notBlank : isBlank first = false := by
    rw [← Bool.not_eq_true]
    intro blank
    have read := reads [] (.inl rfl)
    rw [read_eq, Opening.of_blank blank] at read
    cases read
  rw [spelled, List.cons_append, Piece.split]
  have noMore : (first :: (rest ++ behind)).takeWhile isBlank = [] := by
    rw [List.takeWhile_cons_of_neg (by simp [notBlank])]
  simp only [read_eq, (by decide : Opening.of ' ' = .blank), noMore, Lexeme.gap, List.length_nil,
    List.take_zero, List.drop_zero]

end Alone

/-- Tokens that have some words as their texts, each of which stands alone. -/
def Spelled (tokens : List Token) (words : List String) : Prop :=
  List.Forall₂ (fun token word => token.text = word ∧ StandsAlone word token.kind) tokens words

/-- Some words with a space before each of them. -/
def spaced (words : List String) : List Char := words.flatMap (' ' :: ·.toList)

theorem toList_intercalate_cons (word : String) (words : List String) :
    (" ".intercalate (word :: words)).toList = word.toList ++ spaced words := by
  induction words generalizing word with
  | nil => simp [spaced]
  | cons next rest ih =>
      rw [String.intercalate_cons_cons, String.toList_append, String.toList_append, ih next]
      simp [spaced]

theorem separated_spaced (words : List String) : Separated (spaced words) := by
  cases words with
  | nil => exact .inl rfl
  | cons word rest => exact .inr rfl

theorem spelled_spaced {words : List String}
    (alone : ∀ word ∈ words, ∃ kind, StandsAlone word kind) (position : Position) :
    Spelled (Piece.locate position (Piece.split (spaced words))) words := by
  induction words generalizing position with
  | nil =>
      rw [spaced, List.flatMap_nil, Piece.split]
      exact .nil
  | cons word rest ih =>
      rcases List.forall_mem_cons.mp alone with ⟨⟨kind, wordAlone⟩, restAlone⟩
      have cut : spaced (word :: rest) = ' ' :: (word.toList ++ spaced rest) := rfl
      rw [cut, wordAlone.split_space, wordAlone.split (separated_spaced rest)]
      exact .cons ⟨wordAlone.textOf, wordAlone⟩ (ih restAlone _)

/-- Words that stand alone and have single spaces between them are read one by one. -/
theorem spelled_tokenize {words : List String}
    (alone : ∀ word ∈ words, ∃ kind, StandsAlone word kind) :
    Spelled (tokenize (" ".intercalate words)) words := by
  rw [tokenize]
  cases words with
  | nil =>
      rw [String.intercalate_nil, String.toList_empty, Piece.split]
      exact .nil
  | cons word rest =>
      rcases List.forall_mem_cons.mp alone with ⟨⟨kind, wordAlone⟩, restAlone⟩
      rw [toList_intercalate_cons, wordAlone.split (separated_spaced rest)]
      exact .cons ⟨wordAlone.textOf, wordAlone⟩ (spelled_spaced restAlone _)

end Lexical

end Tuplet
