import Tuplet.Proofs.Layout
import Tuplet.Syntax.Name

/-!
# Telling texts apart

Texts that are put together from words, numbers, separators and lists can be taken apart again, as
long as it shows where each part ends. Two parts that stand at the same place of one text are
compared here, together with all that is behind them. A word goes on up to the next delimiter. An
element of a list is followed by a comma, or by what closes the list.

Texts may come from different places and be written in different ways. So what follows from their
being the same is left open.
-/

namespace Tuplet.Text

/-- No word has one of these characters. -/
def delimiters : List Char := [' ', ',', ':', '(', ')', '\n']

/-- A text without delimiters. -/
def IsWord (text : String) : Prop := ∀ char ∈ text.toList, char ∉ delimiters

instance (text : String) : Decidable (IsWord text) :=
  decidable_of_iff (text.toList.all fun char => !delimiters.contains char) (by simp [IsWord])

/-- A word that stands before this does not go on here. -/
def EndsWord (rest : List Char) : Prop := ∀ char ∈ rest.head?, char ∈ delimiters

@[simp]
theorem endsWord_cons {char : Char} {rest : List Char} :
    EndsWord (char :: rest) ↔ char ∈ delimiters := by
  simp [EndsWord]

/-- Two texts that stand before what ends them agree only if something holds, and only if what is
behind them agrees as well. -/
def TellsApart (Ends : List Char → Prop) (one other : String) (same : Prop) : Prop :=
  ∀ rest left : List Char, Ends rest → Ends left →
    one.toList ++ rest = other.toList ++ left → same ∧ rest = left

variable {Ends Behind : List Char → Prop} {one other next another : String} {same more : Prop}

namespace TellsApart

theorem imp (told : TellsApart Ends one other same) (implies : same → more) :
    TellsApart Ends one other more := by
  intro rest left ends endsToo agree
  exact (told rest left ends endsToo agree).imp_left implies

theorem symm (told : TellsApart Ends one other same) : TellsApart Ends other one same := by
  intro rest left ends endsToo agree
  exact (told left rest endsToo ends agree.symm).imp_right Eq.symm

theorem narrow (told : TellsApart Ends one other same)
    (implies : ∀ rest, Behind rest → Ends rest) : TellsApart Behind one other same := by
  intro rest left ends endsToo agree
  exact told rest left (implies rest ends) (implies left endsToo) agree

theorem lead (text : String) (told : TellsApart Ends one other same) :
    TellsApart Ends (text ++ one) (text ++ other) same := by
  intro rest left ends endsToo agree
  simp only [String.toList_append, List.append_assoc, List.append_cancel_left_eq] at agree
  exact told rest left ends endsToo agree

theorem append (first : TellsApart Ends one other same)
    (ends : ∀ rest, Behind rest → Ends (next.toList ++ rest))
    (endsToo : ∀ rest, Behind rest → Ends (another.toList ++ rest))
    (second : same → TellsApart Behind next another more) :
    TellsApart Behind (one ++ next) (other ++ another) (same ∧ more) := by
  intro rest left behind behindToo agree
  simp only [String.toList_append, List.append_assoc] at agree
  rcases first _ _ (ends rest behind) (endsToo left behindToo) agree with ⟨holds, agree⟩
  rcases second holds rest left behind behindToo agree with ⟨holdsToo, agree⟩
  exact ⟨⟨holds, holdsToo⟩, agree⟩

/-- Texts with the same separator between their parts. -/
theorem separated (separator : String) (ends : ∀ rest, Ends (separator.toList ++ rest))
    (first : TellsApart Ends one other same)
    (second : same → TellsApart Behind next another more) :
    TellsApart Behind (one ++ separator ++ next) (other ++ separator ++ another) (same ∧ more) := by
  have separates (text : String) (rest : List Char) :
      Ends ((separator ++ text).toList ++ rest) := by
    rw [String.toList_append, List.append_assoc]
    exact ends _
  rw [String.append_assoc, String.append_assoc]
  exact first.append (fun rest _ => separates next rest) (fun rest _ => separates another rest)
    fun holds => (second holds).lead separator

/-- Texts that are closed in the same way may be followed by anything. -/
theorem closed (close : String) (ends : ∀ rest, Ends (close.toList ++ rest))
    (told : TellsApart Ends one other same) :
    TellsApart Behind (one ++ close) (other ++ close) same := by
  intro rest left _ _ agree
  simp only [String.toList_append, List.append_assoc] at agree
  rcases told _ _ (ends rest) (ends left) agree with ⟨holds, agree⟩
  exact ⟨holds, List.append_cancel_left agree⟩

end TellsApart

theorem tellsApart_self (text : String) : TellsApart Ends text text True := by
  intro rest left _ _ agree
  exact ⟨trivial, List.append_cancel_left agree⟩

theorem tellsApart_of_head_ne {char : Char} (starts : one.toList.head? = some char)
    (startsToo : ∃ first ≠ char, other.toList.head? = some first) :
    TellsApart Ends one other same := by
  rcases startsToo with ⟨first, different, startsToo⟩
  intro rest left _ _ agree
  have heads := congrArg List.head? agree
  rw [List.head?_append, List.head?_append, starts, startsToo] at heads
  exact absurd (Option.some.inj heads).symm different

theorem starts_append {char : Char} (starts : ∃ first ≠ char, one.toList.head? = some first)
    (behind : String) : ∃ first ≠ char, (one ++ behind).toList.head? = some first := by
  rcases starts with ⟨first, different, starts⟩
  refine ⟨first, different, ?_⟩
  rw [String.toList_append, List.head?_append, starts]
  rfl

theorem append_inj_of_endsWord {word letters rest left : List Char}
    (isWord : ∀ char ∈ word, char ∉ delimiters) (isWordToo : ∀ char ∈ letters, char ∉ delimiters)
    (ends : EndsWord rest) (endsToo : EndsWord left) (agree : word ++ rest = letters ++ left) :
    word = letters ∧ rest = left := by
  induction word generalizing letters with
  | nil =>
      cases letters with
      | nil => exact ⟨rfl, agree⟩
      | cons letter letters =>
          rw [List.nil_append, List.cons_append] at agree
          rw [agree, endsWord_cons] at ends
          exact absurd ends (isWordToo letter List.mem_cons_self)
  | cons char word ih =>
      cases letters with
      | nil =>
          rw [List.nil_append, List.cons_append] at agree
          rw [← agree, endsWord_cons] at endsToo
          exact absurd endsToo (isWord char List.mem_cons_self)
      | cons letter letters =>
          rw [List.forall_mem_cons] at isWord isWordToo
          rcases List.cons.inj agree with ⟨rfl, agreeBehind⟩
          rcases ih isWord.2 isWordToo.2 agreeBehind with ⟨rfl, behind⟩
          exact ⟨rfl, behind⟩

theorem IsWord.tellsApart (isWord : IsWord one) (isWordToo : IsWord other) :
    TellsApart EndsWord one other (one = other) := by
  intro rest left ends endsToo agree
  exact (append_inj_of_endsWord isWord isWordToo ends endsToo agree).imp_left String.toList_inj.mp

/-- A character that is known to be none of the delimiters by what can be decided about it. -/
theorem notMem_delimiters {holds : Char → Bool} (none : delimiters.any holds = false)
    {char : Char} (holdsHere : holds char = true) : char ∉ delimiters := by
  intro here
  exact absurd holdsHere (List.any_eq_false.mp none char here)

/-- A valid name has a first letter, and is a word. -/
theorem exists_of_isValidName {name : String} (valid : isValidName name = true) :
    ∃ first rest, name.toList = first :: rest ∧ isNameStart first = true ∧
      ∀ char ∈ rest, isNamePart char = true := by
  unfold isValidName at valid
  split at valid
  · cases valid
  · rename_i first rest letters
    rw [Bool.and_eq_true, List.all_eq_true] at valid
    exact ⟨first, rest, letters, valid⟩

theorem isWord_of_isValidName {name : String} (valid : isValidName name = true) : IsWord name := by
  rcases exists_of_isValidName valid with ⟨first, rest, letters, starts, parts⟩
  have isPart := Lexical.isNamePart_of_isNameStart starts
  have allParts : ∀ char ∈ name.toList, isNamePart char = true := by
    rw [letters]
    exact List.forall_mem_cons.mpr ⟨isPart, parts⟩
  intro char here
  exact notMem_delimiters (by decide) (allParts char here)

theorem isDigit_of_mem_toString {number : Nat} {char : Char}
    (here : char ∈ (toString number).toList) : char.isDigit = true := by
  rw [Nat.toString_eq_repr, Nat.toList_repr] at here
  exact Nat.isDigit_of_mem_toDigits (by decide) (by decide) here

theorem isWord_natToString (number : Nat) : IsWord (toString number) := by
  intro char here
  exact notMem_delimiters (by decide) (isDigit_of_mem_toString here)

theorem natToString_inj {number other : Nat} (same : toString number = toString other) :
    number = other := by
  have digits := congrArg String.toList same
  rw [Nat.toString_eq_repr, Nat.toString_eq_repr, Nat.toList_repr, Nat.toList_repr] at digits
  calc number
    _ = Nat.ofDigitChars 10 (Nat.toDigits 10 number) 0 := Nat.ofDigitChars_ten_toDigits.symm
    _ = Nat.ofDigitChars 10 (Nat.toDigits 10 other) 0 := by rw [digits]
    _ = other := Nat.ofDigitChars_ten_toDigits

theorem tellsApart_nat (number other : Nat) :
    TellsApart EndsWord (toString number) (toString other) (number = other) :=
  ((isWord_natToString number).tellsApart (isWord_natToString other)).imp natToString_inj

theorem starts_natToString (number : Nat) {char : Char} (noDigit : char.isDigit = false) :
    ∃ first ≠ char, (toString number).toList.head? = some first := by
  cases digits : (toString number).toList with
  | nil =>
      rw [Nat.toString_eq_repr, Nat.toList_repr] at digits
      exact absurd digits Nat.toDigits_ne_nil
  | cons first rest =>
      refine ⟨first, ?_, rfl⟩
      rintro rfl
      have isDigit : first.isDigit = true :=
        isDigit_of_mem_toString (digits ▸ List.mem_cons_self)
      rw [noDigit] at isDigit
      cases isDigit

theorem starts_intToString (number : Int) {char : Char} (noDigit : char.isDigit = false)
    (noSign : char ≠ '-') : ∃ first ≠ char, (toString number).toList.head? = some first := by
  rw [Int.toString_eq_repr, Int.repr_eq_if]
  split
  · exact starts_natToString _ noDigit
  · exact ⟨'-', noSign.symm, by simp⟩

/-- Integers are told apart by their signs, and then as natural numbers. -/
theorem tellsApart_int (number other : Int) :
    TellsApart EndsWord (toString number) (toString other) (number = other) := by
  have signed (number : Nat) : ("-" ++ toString number).toList.head? = some '-' := by simp
  have noDigit : '-'.isDigit = false := by decide
  simp only [Int.toString_eq_repr, Int.repr_eq_if, ← Nat.toString_eq_repr]
  split
  · split
    · exact (tellsApart_nat _ _).imp (by omega)
    · exact (tellsApart_of_head_ne (signed _) (starts_natToString _ noDigit)).symm
  · split
    · exact tellsApart_of_head_ne (signed _) (starts_natToString _ noDigit)
    · exact ((tellsApart_nat _ _).lead "-").imp (by omega)

theorem not_isDigit_of_isNameStart {char : Char} (starts : isNameStart char = true) :
    char.isDigit = false := by
  rw [← Bool.not_eq_true]
  intro isDigit
  have opens := Lexical.Opening.of_word starts
  rw [Lexical.Opening.of_digit isDigit] at opens
  cases opens

theorem tellsApart_name_nat {name : String} (valid : isValidName name = true) (number : Nat) :
    TellsApart Ends name (toString number) same := by
  rcases exists_of_isValidName valid with ⟨first, rest, letters, starts, _⟩
  refine tellsApart_of_head_ne ?_ (starts_natToString number (not_isDigit_of_isNameStart starts))
  rw [letters, List.head?_cons]

/-- What a list goes on with behind its first element. -/
def further (texts : List String) : List Char := texts.flatMap fun text => ',' :: ' ' :: text.toList

theorem further_cons (text : String) (texts : List String) :
    further (text :: texts) = ',' :: ' ' :: (text.toList ++ further texts) := rfl

theorem toList_intercalate_cons (text : String) (texts : List String) :
    (", ".intercalate (text :: texts)).toList = text.toList ++ further texts := by
  induction texts generalizing text with
  | nil => simp [further]
  | cons next texts ih =>
      rw [String.intercalate_cons_cons, String.toList_append, ih, String.toList_append]
      simp [further]

section Lists

variable {α : Type} {write rewrite : α → String} {elements others : List α} {closer : Char}

/-- Behind an element of a list, there is a comma or the list is closed. -/
theorem endsWord_further (closes : closer ∈ delimiters) (texts : List String) (rest : List Char) :
    EndsWord (further texts ++ closer :: rest) := by
  cases texts with
  | nil => simpa [further] using closes
  | cons text texts => simp [further, delimiters]

theorem further_inj (closes : closer ∈ delimiters) (noComma : closer ≠ ',')
    {rest left : List Char}
    (told : ∀ element ∈ elements, ∀ another ∈ others,
      TellsApart EndsWord (write element) (rewrite another) (element = another))
    (agree : further (elements.map write) ++ closer :: rest =
      further (others.map rewrite) ++ closer :: left) : elements = others ∧ rest = left := by
  induction elements generalizing others with
  | nil =>
      cases others with
      | nil => exact ⟨rfl, (List.cons.inj agree).2⟩
      | cons another others => exact absurd (List.cons.inj agree).1 noComma
  | cons element elements ih =>
      cases others with
      | nil => exact absurd (List.cons.inj agree).1.symm noComma
      | cons another others =>
          simp only [List.map_cons, further_cons, List.append_assoc, List.cons_append,
            List.cons.injEq, true_and] at agree
          rcases told element List.mem_cons_self another List.mem_cons_self _ _
            (endsWord_further closes _ _) (endsWord_further closes _ _) agree
            with ⟨rfl, agreeBehind⟩
          have toldBehind (element) (here : element ∈ elements) (another)
              (there : another ∈ others) :=
            told element (List.mem_cons_of_mem _ here) another (List.mem_cons_of_mem _ there)
          rcases ih toldBehind agreeBehind with ⟨rfl, behind⟩
          exact ⟨rfl, behind⟩

/-- Lists in which no element starts like what closes the list. -/
theorem tellsApart_list {close : String} (starts : close.toList.head? = some closer)
    (closes : closer ∈ delimiters) (noComma : closer ≠ ',')
    (told : ∀ element ∈ elements, ∀ another ∈ others,
      TellsApart EndsWord (write element) (rewrite another) (element = another))
    (opens : ∀ element ∈ elements, ∃ first ≠ closer, (write element).toList.head? = some first)
    (opensToo : ∀ another ∈ others, ∃ first ≠ closer, (rewrite another).toList.head? = some first) :
    TellsApart Ends (", ".intercalate (elements.map write) ++ close)
      (", ".intercalate (others.map rewrite) ++ close) (elements = others) := by
  have opened {text : String} (texts : List String)
      (starts : ∃ first ≠ closer, text.toList.head? = some first) :
      ∃ first ≠ closer, (", ".intercalate (text :: texts) ++ close).toList.head? = some first := by
    rcases starts with ⟨first, different, starts⟩
    refine ⟨first, different, ?_⟩
    rw [String.toList_append, toList_intercalate_cons, List.head?_append, List.head?_append, starts]
    rfl
  have empty : (", ".intercalate [] ++ close).toList.head? = some closer := starts
  rcases List.head?_eq_some_iff.mp starts with ⟨tail, closing⟩
  cases elements with
  | nil =>
      cases others with
      | nil => exact (tellsApart_self _).imp fun _ => rfl
      | cons another others =>
          exact tellsApart_of_head_ne empty (opened _ (opensToo another List.mem_cons_self))
  | cons element elements =>
      cases others with
      | nil =>
          exact (tellsApart_of_head_ne empty (opened _ (opens element List.mem_cons_self))).symm
      | cons another others =>
          intro rest left _ _ agree
          simp only [List.map_cons, String.toList_append, toList_intercalate_cons, closing,
            List.append_assoc, List.cons_append] at agree
          have separated : further ((element :: elements).map write) ++ closer :: (tail ++ rest) =
              further ((another :: others).map rewrite) ++ closer :: (tail ++ left) := by
            simp only [List.map_cons, further_cons, List.cons_append, List.append_assoc, agree]
          rcases further_inj closes noComma told separated with ⟨alike, behind⟩
          exact ⟨alike, List.append_cancel_left behind⟩

/-- Texts one after the other, all of which start with a character that is not behind them. -/
theorem tellsApart_join {initial : Char} {alike : α → α → Prop}
    (told : ∀ element ∈ elements, ∀ another ∈ others,
      TellsApart (fun _ => True) (write element) (rewrite another) (alike element another))
    (opens : ∀ element ∈ elements, (write element).toList.head? = some initial)
    (opensToo : ∀ another ∈ others, (rewrite another).toList.head? = some initial) :
    TellsApart (fun rest => rest.head? ≠ some initial) (String.join (elements.map write))
      (String.join (others.map rewrite)) (List.Forall₂ alike elements others) := by
  have opened {text : String} (texts : List String) (rest : List Char)
      (starts : text.toList.head? = some initial) :
      ((String.join (text :: texts)).toList ++ rest).head? = some initial := by
    rw [String.join_cons, String.toList_append, List.head?_append, List.head?_append, starts]
    rfl
  intro rest left ends endsToo agree
  induction elements generalizing others with
  | nil =>
      cases others with
      | nil => exact ⟨.nil, agree⟩
      | cons another others =>
          rw [List.map_nil, String.join_nil, String.toList_empty, List.nil_append] at agree
          exact absurd (agree ▸ opened _ _ (opensToo another List.mem_cons_self)) ends
  | cons element elements ih =>
      cases others with
      | nil =>
          rw [List.map_nil, String.join_nil, String.toList_empty, List.nil_append] at agree
          exact absurd (agree ▸ opened _ _ (opens element List.mem_cons_self)) endsToo
      | cons another others =>
          simp only [List.map_cons, String.join_cons, String.toList_append, List.append_assoc]
            at agree
          have first := told element List.mem_cons_self another List.mem_cons_self
            _ _ trivial trivial agree
          have behind := ih (fun element here another there =>
            told element (List.mem_cons_of_mem _ here) another (List.mem_cons_of_mem _ there))
            (fun element here => opens element (List.mem_cons_of_mem _ here))
            (fun another there => opensToo another (List.mem_cons_of_mem _ there)) first.2
          exact ⟨.cons first.1 behind.1, behind.2⟩

end Lists

end Tuplet.Text
