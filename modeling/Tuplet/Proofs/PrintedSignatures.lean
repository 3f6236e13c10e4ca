import Tuplet.Proofs.Layout
import Tuplet.Proofs.ReadingBack
import Tuplet.Syntax.Outline

/-!
# Printed signatures are read back

A signature is printed without a space before a parenthesis or a comma, so its words are
not all set apart by white space. They are still read one by one. A parenthesis or a comma
is a token whatever follows it, and a name ends before each of them, because none is part
of a name.

A text is tied to the words that it holds from its end to its start: each rule puts a word
or a space before a text whose words are known. What is printed for a part of a signature
then holds the words of that part, in front of any text before which a name would end.
-/

namespace Tuplet

namespace Lexical

/-- A name ends before this text. -/
def EndsName (behind : List Char) : Prop :=
  ∀ char ∈ behind.head?, isNamePart char = false ∧ char ≠ '\''

/-- A text of names and marks of one character, with spaces between some of them. -/
inductive Holds : List Char → List String → Prop
  | none : Holds [] []
  | space {text : List Char} {words : List String} (others : Holds text words) :
      Holds (' ' :: text) words
  | mark {text : List Char} {words : List String} (char : Char) (mark : String) (kind : TokenKind)
      (listed : (mark, kind) ∈ fixedTexts) (spelled : mark.toList = [char])
      (opens : Opening.of char = .mark) (others : Holds text words) :
      Holds (char :: text) (mark :: words)
  | name {text : List Char} {words : List String} {name : String} {kind : TokenKind}
      (valid : isValidName name = true) (alone : StandsAlone name kind) (ends : EndsName text)
      (others : Holds text words) : Holds (name.toList ++ text) (name :: words)

section Names

variable {char : Char} {rest behind : List Char} {name : String} {kind : TokenKind}

theorem endsName_nil : EndsName [] := by
  rintro _ ⟨⟩

theorem endsName_cons (stops : isNamePart char = false ∧ char ≠ '\'') :
    EndsName (char :: behind) := by
  rintro _ ⟨⟩
  exact stops

theorem nameTail_of_endsName (parts : ∀ char ∈ rest, isNamePart char = true)
    (ends : EndsName behind) : nameTail (rest ++ behind) = rest := by
  rw [nameTail, List.takeWhile_append_of_pos parts, List.dropWhile_append_of_pos parts]
  cases behind with
  | nil => simp
  | cons char behind =>
      rcases ends char rfl with ⟨notPart, notMark⟩
      simp [notPart, notMark]

/-- A name is read as what it is read as alone, wherever it ends. -/
theorem split_name (valid : isValidName name = true) (alone : StandsAlone name kind)
    (ends : EndsName behind) :
    Piece.split (name.toList ++ behind) = ⟨some kind, name.toList⟩ :: Piece.split behind := by
  rcases alone with ⟨_, first, rest, spelled, reads⟩
  rw [isValidName, spelled] at valid
  rcases Bool.and_eq_true_iff.mp valid with ⟨starts, parts⟩
  rw [List.all_eq_true] at parts
  have opens : Opening.of first = .word := Opening.of_word starts
  have ofWord : Lexeme.ofWord (first :: rest) = kind := by
    have read := reads [] (.inl rfl)
    rw [read_eq, opens] at read
    dsimp only at read
    rw [word_eq, nameTail_of_endsName parts endsName_nil] at read
    exact Option.some.inj (Lexeme.mk.inj read).1
  have read : Lexeme.read first (rest ++ behind) = .token kind rest.length := by
    rw [read_eq, opens]
    dsimp only
    rw [word_eq, nameTail_of_endsName parts ends, ofWord]
  rw [spelled, List.cons_append, Piece.split, read]
  simp only [Lexeme.token, List.take_left, List.drop_left]

theorem split_mark {mark : String} (listed : (mark, kind) ∈ fixedTexts)
    (spelled : mark.toList = [char]) (opens : Opening.of char = .mark) :
    Piece.split (char :: behind) = ⟨some kind, mark.toList⟩ :: Piece.split behind := by
  have read : Lexeme.read char behind = .token kind 0 := by
    rw [read_eq, opens]
    exact (mark_of_fixed behind listed spelled opens).1
  rw [Piece.split, read, spelled]
  rfl

end Names

/-- The tokens of a text are spelled with the words that it holds. -/
theorem Holds.spelled {text : List Char} {words : List String} (holds : Holds text words)
    (position : Position) : Spelled (Piece.locate position (Piece.split text)) words := by
  induction holds generalizing position with
  | none =>
      rw [Piece.split]
      exact .nil
  | @space text words _ ih =>
      have skipped := @skipped_blank ' ' (by decide) position text
      rw [List.singleton_append] at skipped
      rw [skipped]
      exact ih _
  | mark _ _ _ listed spelled opens _ ih =>
      have alone := standsAlone_fixed listed
      rw [split_mark listed spelled opens]
      exact .cons ⟨alone.textOf, alone⟩ (ih _)
  | name valid alone ends _ ih =>
      rw [split_name valid alone ends]
      exact .cons ⟨alone.textOf, alone⟩ (ih _)

/-- A text that holds some words, in front of any text before which a name would end. -/
def Prints (text : String) (words : List String) : Prop :=
  ∀ behind others, EndsName behind → Holds behind others →
    Holds (text.toList ++ behind) (words ++ others)

namespace Prints

variable {text : String} {words : List String}

theorem spelled (prints : Prints text words) : Spelled (tokenize text) words := by
  have holds := prints [] [] endsName_nil .none
  rw [List.append_nil, List.append_nil] at holds
  exact holds.spelled .start

theorem plainName (plain : isPlainName text = true) : Prints text [text] := by
  intro behind others ends holds
  have valid := (Bool.and_eq_true_iff.mp plain).1
  exact .name valid (standsAlone_plainName plain) ends holds

theorem keyword (kind : TokenKind) (listed : (text, kind) ∈ fixedTexts)
    (valid : isValidName text = true) : Prints text [text] := by
  intro behind others ends holds
  exact .name valid (standsAlone_fixed listed) ends holds

theorem plainType (plain : isPlainType text = true) : Prints text [text] := by
  simp only [isPlainType, Bool.or_eq_true, List.contains_eq_mem, decide_eq_true_eq, List.mem_cons,
    List.not_mem_nil, or_false] at plain
  rcases plain with (rfl | rfl | rfl) | plain
  · exact keyword (.primitive .int) (by decide) (by decide)
  · exact keyword (.primitive .float) (by decide) (by decide)
  · exact keyword (.primitive .string) (by decide) (by decide)
  · exact plainName plain

theorem empty : Prints "" [] := by
  intro behind others _ holds
  exact holds

theorem append {more : String} {others : List String} (char : Char) (first : Prints text words)
    (second : Prints more others) (starts : more.toList.head? = some char)
    (stops : isNamePart char = false ∧ char ≠ '\'') : Prints (text ++ more) (words ++ others) := by
  intro behind left ends holds
  rcases List.head?_eq_some_iff.mp starts with ⟨tail, spelled⟩
  have held := second behind left ends holds
  rw [spelled, List.cons_append] at held
  rw [String.toList_append, List.append_assoc, List.append_assoc, spelled, List.cons_append]
  exact first _ _ (endsName_cons stops) held

theorem append_space {more : String} {others : List String} (first : Prints text words)
    (second : Prints more others) : Prints (text ++ " " ++ more) (words ++ others) := by
  have spaced : Prints (" " ++ more) others := by
    intro behind left ends holds
    rw [String.toList_append, List.append_assoc]
    exact .space (second behind left ends holds)
  rw [String.append_assoc]
  exact append ' ' first spaced (by simp) (by decide)

theorem parenthesised (prints : Prints text words) :
    Prints ("(" ++ text ++ ")") ("(" :: (words ++ [")"])) := by
  intro behind others _ holds
  have closed := Holds.mark ')' ")" .parenClose (by decide) rfl (by decide) holds
  have inner := prints _ _ (endsName_cons (by decide)) closed
  have opened := Holds.mark '(' "(" .parenOpen (by decide) rfl (by decide) inner
  simpa using opened

/-- What is printed with commas between its parts holds the words of each, with commas between. -/
theorem listed {α : Type} {render : α → String} {wordsOf : α → List String} {parts : List α}
    (each : ∀ part ∈ parts, Prints (render part) (wordsOf part)) :
    Prints (", ".intercalate (parts.map render)) ([","].intercalate (parts.map wordsOf)) := by
  induction parts with
  | nil => exact empty
  | cons part rest ih =>
      rcases List.forall_mem_cons.mp each with ⟨first, others⟩
      cases rest with
      | nil => simpa using first
      | cons next rest =>
          intro behind left ends holds
          have spaced := Holds.space (ih others behind left ends holds)
          have comma := Holds.mark ',' "," .comma (by decide) rfl (by decide) spaced
          have held := first _ _ (endsName_cons (by decide)) comma
          simpa [List.intercalate_cons_cons] using held

end Prints

end Lexical

namespace Signature

open Lexical

theorem prints_param {param : Parameter} (writable : param.isWritable = true) :
    Prints param.render param.words := by
  rcases Bool.and_eq_true_iff.mp writable with ⟨plainType, plainName⟩
  exact (Prints.plainType plainType).append_space (Prints.plainName plainName)

/-- The three forms of the return types hold the words of the same form. -/
theorem prints_returns {returns : List String}
    (plain : ∀ type ∈ returns, isPlainType type = true) :
    Prints (renderReturns returns) (returnWords returns) := by
  match returns, plain with
  | [], _ => exact .keyword (.primitive .void) (by decide) (by decide)
  | [type], plain => exact .plainType (plain type (List.mem_singleton_self type))
  | first :: second :: rest, plain =>
      have each : ∀ type ∈ first :: second :: rest, Prints (id type) [type] := by
        intro type returned
        exact .plainType (plain type returned)
      have printed := (Prints.listed each).parenthesised
      rw [List.map_id] at printed
      exact printed

theorem prints_render {signature : Signature} (writable : signature.isWritable = true) :
    Prints signature.render signature.words := by
  simp only [isWritable, Bool.and_eq_true, List.all_eq_true] at writable
  rcases writable with ⟨⟨plainReturns, plainName⟩, writableParams⟩
  have params := (Prints.listed fun param listed =>
    prints_param (writableParams param listed)).parenthesised
  have named := Prints.append '(' (Prints.plainName plainName) params (by simp) (by decide)
  have printed := (prints_returns plainReturns).append_space named
  simpa [render, words, String.append_assoc] using printed

/--
A signature whose names and types can be written is read back from what is printed for it,
to the end of the text and without a diagnostic.
-/
theorem signature_tokenize_render (signature : Signature) (writable : signature.isWritable = true) :
    (Grammar.signature (tokenize signature.render)).result = .ok signature ∧
      (Grammar.signature (tokenize signature.render)).rest = [] ∧
      ∀ stop, (Grammar.signature (tokenize signature.render)).diagnostics stop = [] := by
  rcases (writes_signature writable).reads _ (prints_render writable).spelled with
    ⟨derivation, derived, isHeader⟩
  have reads : (Grammar.signature (tokenize signature.render)).Reads signature [] :=
    Grammar.reads_signature.mpr ⟨derivation, by rw [derived, List.append_nil], isHeader⟩
  rcases Reading.reads_iff.mp reads with ⟨stopped, succeeded⟩
  refine ⟨succeeded, stopped, ?_⟩
  intro stop
  rw [Reading.diagnostics, (Grammar.candid_signature _).log_eq_nil reads]
  rfl

/-- Several return types, one of them a name, and two parameters of one name. -/
def splitHeader : Signature :=
  ⟨"split", ["int", "money", "string"], [⟨"int", "a"⟩, ⟨"float_", "a"⟩]⟩

theorem signature_tokenize_render_splitHeader :
    splitHeader.render = "(int, money, string) split(int a, float_ a)" ∧
      splitHeader.isWritable = true ∧
      (Grammar.signature (tokenize splitHeader.render)).result = .ok splitHeader := by
  have writable : splitHeader.isWritable = true := by decide
  exact ⟨by decide, writable, (signature_tokenize_render splitHeader writable).1⟩

end Signature

end Tuplet
