import Tuplet.Proofs.AcceptedGrammar
import Tuplet.Proofs.Writing

/-!
# Trees that come from a source

Trees made by hand can have any node anywhere and any text for a name. The trees that are read
from a source are of one kind only. Values, statements and items each stand where they belong,
names are names of the language, and numbers have no sign.

Some of this is never checked when a tree is read. That a name is not a keyword is due to the
lexical rules, which pick the keyword where both could be picked, and so is that there is no sign.
A tree is read by a derivation, so it is enough to look at derivations of tokens that the rules
have picked.
-/

namespace Tuplet

theorem isValidName_of_isPlainName {name : String} (plain : isPlainName name = true) :
    isValidName name = true :=
  (Bool.and_eq_true_iff.mp plain).1

namespace Node

/-- A value that comes from a source. -/
inductive SourceValue : Node → Prop
  | literal {value : Int32} (unsigned : 0 ≤ value.toInt) (bounded : value.toInt ≤ 2147483647) :
      SourceValue (.literal value)
  | var {use : Variable} (writable : use.isWritable = true) : SourceValue (.var use)
  | binary {op : Operator} {left right : Node} (isLeft : left.SourceValue)
      (isRight : right.SourceValue) : SourceValue (.binary op left right)
  | call {name : String} {args : List Node} (plain : isPlainName name = true)
      (areArgs : ∀ arg ∈ args, arg.SourceValue) : SourceValue (.call name args)
  | group {inner : Node} (isInner : inner.SourceValue) : SourceValue (.group inner)

/-- A statement that comes from a source. -/
inductive SourceStatement : Node → Prop
  | decl {declaration : Declaration} (writable : declaration.isWritable = true) :
      SourceStatement (.decl declaration)
  | assign {target : Target} {value : Node} (writable : target.isWritable = true)
      (isValue : value.SourceValue) : SourceStatement (.assign target value)
  | call {name : String} {args : List Node} (plain : isPlainName name = true)
      (areArgs : ∀ arg ∈ args, arg.SourceValue) : SourceStatement (.call name args)
  | ret {values : List Node} (areValues : ∀ value ∈ values, value.SourceValue) :
      SourceStatement (.ret values)

/-- An item that comes from a source. -/
inductive SourceItem : Node → Prop
  | signature {header : Signature} (writable : header.isWritable = true) :
      SourceItem (.signature header)
  | function {header : Signature} {body : List Node} (writable : header.isWritable = true)
      (areStatements : ∀ node ∈ body, node.SourceStatement) : SourceItem (.function header body)

theorem sourceValue_ofChain {first : Node} {links : List (Operator × Node)}
    (isFirst : first.SourceValue) (areLinks : ∀ link ∈ links, link.2.SourceValue) :
    (first.ofChain links).SourceValue := by
  fun_induction ofChain first links with
  | case1 first => exact isFirst
  | case2 first op right => exact .binary isFirst (areLinks (op, right) List.mem_cons_self)
  | case3 first op right next operand rest falls ih =>
      rw [List.forall_mem_cons] at areLinks
      exact ih (.binary isFirst areLinks.1) areLinks.2
  | case4 first op right next operand rest rises ih =>
      rw [List.forall_mem_cons] at areLinks
      exact .binary (ih areLinks.1 areLinks.2) isFirst

end Node

namespace Lexical

/-- A token that the lexical rules have picked, with the text that was picked. -/
def Scanned (token : Token) : Prop :=
  ∃ slice behind, Picks slice behind (some token.kind) ∧ Spells token slice

theorem Scans.scanned {before source : List Char} {tokens : List Token}
    (scans : Scans before source tokens) : ∀ token ∈ tokens, Scanned token := by
  induction scans with
  | done => exact List.forall_mem_nil _
  | token skips nonempty picks spells positioned others ih =>
      exact List.forall_mem_cons.mpr ⟨⟨_, _, picks, spells⟩, ih⟩

theorem scanned_tokenize (source : String) : ∀ token ∈ tokenize source, Scanned token :=
  (scans_locate_split [] source.toList).scanned

theorem Rule.eq_name {rule : Rule} (isName : rule.kind = some .name) : rule = .name := by
  cases rule with
  | name => rfl
  | fixed text kind listed =>
      have others : ∀ entry ∈ fixedTexts, entry.2 ≠ .name := by decide
      exact absurd (Option.some.inj isName) (others (text, kind) listed)
  | _ => cases isName

theorem Rule.eq_int {rule : Rule} (isInt : rule.kind = some .intLiteral) : rule = .int := by
  cases rule with
  | int => rfl
  | fixed text kind listed =>
      have others : ∀ entry ∈ fixedTexts, entry.2 ≠ .intLiteral := by decide
      exact absurd (Option.some.inj isInt) (others (text, kind) listed)
  | _ => cases isInt

namespace Scanned

variable {token : Token}

theorem picks (scanned : Scanned token) (notString : token.kind ≠ .stringLiteral) :
    ∃ behind, Picks token.text.toList behind (some token.kind) := by
  rcases scanned with ⟨slice, behind, picks, spells⟩
  rw [Spells, if_neg notString] at spells
  rw [spells] at picks
  exact ⟨behind, picks⟩

/-- Where a keyword is written, the keyword is picked and not a name. -/
theorem notMem_fixedTexts (scanned : Scanned token) (isName : token.kind = .name)
    (kind : TokenKind) : (token.text, kind) ∉ fixedTexts := by
  intro listed
  rcases scanned.picks (by simp [isName]) with ⟨behind, rule, ruleKind, _, first⟩
  obtain rfl : rule = .name := Rule.eq_name (ruleKind.trans (congrArg some isName))
  -- Both rules match the same text, and the one for a fixed text ranks first.
  have matched : (Rule.fixed token.text kind listed).Matches token.text.toList behind :=
    .of_mem rfl rfl
  rcases first _ _ _ rfl matched with shorter | ⟨_, ranked⟩
  · exact absurd shorter (Nat.lt_irrefl _)
  · exact absurd ranked (Nat.not_succ_le_zero 0)

/-- A name without the marker of references has the shape of a name. -/
theorem isValidName (scanned : Scanned token) (isName : token.IsName) :
    isValidName token.text = true := by
  rcases isName with ⟨isName, noReference⟩
  rcases scanned.picks (by simp [isName]) with ⟨behind, rule, ruleKind, matched, _⟩
  obtain rfl : rule = .name := Rule.eq_name (ruleKind.trans (congrArg some isName))
  rcases Rule.mem_name.mp matched.1 with ⟨first, body, mark, spelled, starts, parts, rfl | rfl⟩
  · rw [List.append_nil] at spelled
    simp only [Tuplet.isValidName, spelled, starts, Bool.true_and]
    exact List.all_eq_true.mpr parts
  · simp [isReferenceName, spelled] at noReference

/-- A name without the marker of references is a plain one. -/
theorem isPlainName (scanned : Scanned token) (isName : token.IsName) :
    isPlainName token.text = true := by
  rw [Tuplet.isPlainName, scanned.isValidName isName, Bool.true_and, Bool.not_eq_true',
    ← Bool.not_eq_true, List.contains_iff_mem]
  intro isKeyword
  have fixed : ∀ word ∈ ["return", "void", "int", "float", "string"],
      word ∈ fixedTexts.map Prod.fst := by decide
  rcases List.mem_map.mp (fixed token.text isKeyword) with ⟨⟨_, kind⟩, listed, rfl⟩
  exact scanned.notMem_fixedTexts isName.1 kind listed

theorem unsigned (scanned : Scanned token) (isLiteral : token.kind = .intLiteral) {value : Int32}
    (fits : intLiteral? token.text = some value) :
    0 ≤ value.toInt ∧ value.toInt ≤ 2147483647 := by
  rcases scanned.picks (by simp [isLiteral]) with ⟨behind, rule, ruleKind, matched, _⟩
  obtain rfl : rule = .int := Rule.eq_int (ruleKind.trans (congrArg some isLiteral))
  rcases mem_run.mp matched.1 with ⟨nonempty, digits⟩
  rw [intLiteral?_of_digits nonempty digits, toInt32?_eq_some_iff] at fits
  rcases fits with ⟨within, exactly⟩
  rw [exactly]
  exact ⟨Int.natCast_nonneg _, within.2⟩

theorem isPlainType (scanned : Scanned token) (isType : token.IsType) :
    isPlainType token.typeName = true := by
  rcases isType with isInt | isFloat | isString | isValid
  · simp [Token.typeName, isInt, Primitive.name, Tuplet.isPlainType]
  · simp [Token.typeName, isFloat, Primitive.name, Tuplet.isPlainType]
  · simp [Token.typeName, isString, Primitive.name, Tuplet.isPlainType]
  · have plain := scanned.isPlainName isValid.isName
    simp [Token.typeName, isValid.1, Tuplet.isPlainType, plain]

end Scanned

end Lexical

namespace Derivation

open Lexical (Scanned)

theorem isWritable_use {name : String} (plain : isPlainName name = true) :
    (Variable.mk name none).isWritable = true := by
  simp [Variable.isWritable, plain]

theorem isWritable_declared {type name : Token} (scannedType : Scanned type) (isType : type.IsType)
    (scannedName : Scanned name) (isName : name.IsName) :
    (Declaration.mk name.text type.typeName).isWritable = true := by
  simp [Declaration.isWritable, scannedType.isPlainType isType, scannedName.isPlainName isName]

mutual

theorem Operand.sourceValue : ∀ operand : Operand, (∀ token ∈ operand.tokens, Scanned token) →
    operand.tree.SourceValue
  | .literal literal, scanned => by
      have bounds := (scanned literal.token (by simp [Operand.tokens])).unsigned literal.isLiteral
        literal.fits
      exact .literal bounds.1 bounds.2
  | .group opening inner closing, scanned => by
      simp only [Operand.tokens, List.forall_mem_cons, List.forall_mem_append] at scanned
      exact .group (inner.sourceValue scanned.2.1)
  | .var name, scanned => by
      rw [Operand.tokens, List.forall_mem_singleton] at scanned
      exact .var (isWritable_use (scanned.isPlainName name.property))
  | .emptyCall name opening closing, scanned => by
      rw [Operand.tokens, List.forall_mem_cons] at scanned
      exact .call (scanned.1.isPlainName name.property) (List.forall_mem_nil _)
  | .call name opening args closing, scanned => by
      simp only [Operand.tokens, List.forall_mem_cons, List.forall_mem_append] at scanned
      exact .call (scanned.1.isPlainName name.property) (args.sourceValues scanned.2.2.1)

theorem Expression.sourceValue : ∀ expression : Expression,
    (∀ token ∈ expression.tokens, Scanned token) → expression.tree.SourceValue
  | .chain first links, scanned => by
      rw [Expression.tokens, List.forall_mem_append] at scanned
      rw [Expression.tree, ← Node.ofChain_eq_ofLeastRise]
      exact Node.sourceValue_ofChain (first.sourceValue scanned.1) (links.sourceValues scanned.2)

theorem Links.sourceValues : ∀ links : Links, (∀ token ∈ links.tokens, Scanned token) →
    ∀ link ∈ links.links, link.2.SourceValue
  | .nil, _ => List.forall_mem_nil _
  | .cons op sign operand others, scanned => by
      simp only [Links.tokens, List.forall_mem_cons, List.forall_mem_append] at scanned
      exact List.forall_mem_cons.mpr
        ⟨operand.sourceValue scanned.2.1, others.sourceValues scanned.2.2⟩

theorem Values.sourceValues : ∀ values : Values, (∀ token ∈ values.tokens, Scanned token) →
    ∀ value ∈ values.trees, value.SourceValue
  | .last value, scanned => List.forall_mem_singleton.mpr (value.sourceValue scanned)
  | .more value comma others, scanned => by
      simp only [Values.tokens, List.forall_mem_cons, List.forall_mem_append] at scanned
      exact List.forall_mem_cons.mpr
        ⟨value.sourceValue scanned.1, others.sourceValues scanned.2.2⟩

end

theorem Statement.sourceStatement (statement : Statement)
    (scanned : ∀ token ∈ statement.tokens, Scanned token) : statement.tree.SourceStatement := by
  cases statement with
  | emptyReturn => exact .ret (List.forall_mem_nil _)
  | ret word values =>
      simp only [tokens, List.forall_mem_cons, List.forall_mem_append] at scanned
      exact .ret (values.sourceValues scanned.2.1)
  | emptyCall name =>
      rw [tokens, List.forall_mem_cons] at scanned
      exact .call (scanned.1.isPlainName name.property.isName) (List.forall_mem_nil _)
  | call name opening args =>
      simp only [tokens, List.forall_mem_cons, List.forall_mem_append] at scanned
      exact .call (scanned.1.isPlainName name.property.isName) (args.sourceValues scanned.2.2.1)
  | decl type name =>
      simp only [tokens, List.forall_mem_cons] at scanned
      exact .decl (isWritable_declared scanned.1 type.property scanned.2.1 name.property)
  | initialise type name sign value =>
      simp only [tokens, List.forall_mem_cons, List.forall_mem_append] at scanned
      exact .assign (isWritable_declared scanned.1 type.property scanned.2.1 name.property)
        (value.sourceValue scanned.2.2.2.1)
  | assign name sign value =>
      simp only [tokens, List.forall_mem_cons, List.forall_mem_append] at scanned
      exact .assign (isWritable_use (scanned.1.isPlainName name.property.isName))
        (value.sourceValue scanned.2.2.1)

theorem Types.isPlainType (types : Types) (scanned : ∀ token ∈ types.tokens, Scanned token) :
    ∀ name ∈ types.names, isPlainType name = true := by
  induction types with
  | last type =>
      rw [tokens, List.forall_mem_singleton] at scanned
      exact List.forall_mem_singleton.mpr (scanned.isPlainType type.property)
  | more type comma others ih =>
      simp only [tokens, List.forall_mem_cons] at scanned
      exact List.forall_mem_cons.mpr ⟨scanned.1.isPlainType type.property, ih scanned.2.2⟩

theorem Returns.isPlainType (returns : Returns)
    (scanned : ∀ token ∈ returns.tokens, Scanned token) :
    ∀ name ∈ returns.names, isPlainType name = true := by
  cases returns with
  | void => exact List.forall_mem_nil _
  | bare type =>
      rw [tokens, List.forall_mem_singleton] at scanned
      exact List.forall_mem_singleton.mpr (scanned.isPlainType type.property)
  | listed opening types =>
      simp only [tokens, List.forall_mem_cons, List.forall_mem_append] at scanned
      exact types.isPlainType scanned.2.1

theorem Parameters.isWritable (params : Parameters)
    (scanned : ∀ token ∈ params.tokens, Scanned token) :
    ∀ param ∈ params.params, param.isWritable = true := by
  have writable : ∀ (type : TypeName) (name : ValidName), Scanned type.val → Scanned name.val →
      (Parameter.mk type.val.typeName name.val.text).isWritable = true := by
    intro type name scannedType scannedName
    simp [Parameter.isWritable, scannedType.isPlainType type.property,
      scannedName.isPlainName name.property.isName]
  induction params with
  | last type name =>
      simp only [tokens, List.forall_mem_cons] at scanned
      exact List.forall_mem_singleton.mpr (writable type name scanned.1 scanned.2.1)
  | more type name comma others ih =>
      simp only [tokens, List.forall_mem_cons] at scanned
      exact List.forall_mem_cons.mpr
        ⟨writable type name scanned.1 scanned.2.1, ih scanned.2.2.2⟩

theorem Signature.isWritable (signature : Signature)
    (scanned : ∀ token ∈ signature.tokens, Scanned token) :
    signature.header.isWritable = true := by
  simp only [tokens, List.forall_mem_append, List.forall_mem_cons] at scanned
  have plain := scanned.2.1.isPlainName signature.name.property.isName
  have returns := signature.returns.isPlainType scanned.1
  have params : ∀ param ∈ signature.header.params, param.isWritable = true := by
    have scannedParams := scanned.2.2.2.1
    rw [header]
    cases params? : signature.params with
    | none => exact List.forall_mem_nil _
    | some params =>
        rw [params?] at scannedParams
        exact params.isWritable scannedParams
  rw [Tuplet.Signature.isWritable, Bool.and_eq_true, Bool.and_eq_true, List.all_eq_true,
    List.all_eq_true]
  exact ⟨⟨returns, plain⟩, params⟩

theorem Item.sourceItem (item : Item) (scanned : ∀ token ∈ item.tokens, Scanned token) :
    item.tree.SourceItem := by
  cases item with
  | definition signature opening body =>
      simp only [tokens, List.forall_mem_append, List.forall_mem_cons, List.forall_mem_flatMap]
        at scanned
      refine .function (signature.isWritable scanned.1) (List.forall_mem_map.mpr ?_)
      intro statement isStatement
      exact statement.sourceStatement (scanned.2.2.1 statement isStatement)
  | declaration signature =>
      rw [tokens, List.forall_mem_append] at scanned
      exact .signature (signature.isWritable scanned.1)

end Derivation

namespace Grammar

open Reading

/-- Whatever becomes of a program, the items that were read come from derivations. -/
theorem exists_item_of_mem_program {tokens : List Token} {node : Node}
    (isRead : node ∈ (program tokens).items) :
    ∃ item : Derivation.Item, item.tree = node ∧ item.tokens ⊆ tokens := by
  fun_induction program tokens with
  | case1 tokens ended => cases isRead
  | case2 tokens notEnded error rest log failed => cases isRead
  | case3 tokens notEnded first rest shorter log reads reading ih =>
      have read : (function tokens).Reads first rest := reads_inside.mp ⟨shorter, log, reads⟩
      rcases exists_item_of_reads read with ⟨item, rfl, rfl⟩
      rcases List.mem_cons.mp isRead with rfl | isRead
      · exact ⟨item, rfl, List.subset_append_left _ _⟩
      · rcases ih isRead with ⟨other, isTree, among⟩
        exact ⟨other, isTree, List.Subset.trans among (List.subset_append_right _ _)⟩

/-- The items that are read from a source, up to the first that cannot be, come from a source. -/
theorem sourceItem_of_mem_program {source : String} {node : Node}
    (isRead : node ∈ (program (tokenize source)).items) : node.SourceItem := by
  rcases exists_item_of_mem_program isRead with ⟨item, rfl, among⟩
  exact item.sourceItem fun token isToken => Lexical.scanned_tokenize source token (among isToken)

end Grammar

end Tuplet
