import Tuplet.Syntax.Name
import Tuplet.Syntax.Node

/-!
# The grammar as derivations

The grammar said without reading anything. There is a type for each nonterminal, and
its values are the derivations from it: what stands in a derivation are tokens that
are known to be of the right class, and further derivations. Each derivation has the
tokens that it derives and the syntax tree that it stands for.

```
program    = item*
item       = signature ('{' statement* '}' | [';'])
signature  = returns validName '(' [parameter (',' parameter)*] ')'
returns    = 'void' | type | '(' type (',' type)* ')'
parameter  = type validName
type       = 'int' | 'float' | 'string' | validName
statement  = 'return' [values] ';' | validName '(' [values] ')' ';'
           | type name ['=' expression] ';' | validName '=' expression ';'
values     = expression (',' expression)*
expression = operand (operator operand)*
operand    = int literal | '(' expression ')' | name | name '(' [values] ')'
```

The tree of an expression is found by looking for the first operator that binds weaker
than the one behind it.
-/

namespace Tuplet

namespace Node

/-- The operands of a chain put together from the left. -/
def leftFold (first : Node) (links : List (Operator × Node)) : Node :=
  links.foldl (fun left link => .binary link.1 left link.2) first

/-- Where the first operator of a chain stands that binds weaker than the one behind it. -/
def firstRise? (links : List (Operator × Node)) : Option Nat :=
  (links.zip links.tail).findIdx? fun pair => pair.1.1.precedence < pair.2.1.precedence

theorem firstRise?_lt {links : List (Operator × Node)} {rise : Nat}
    (found : firstRise? links = some rise) : rise < links.length := by
  have bounded := (List.findIdx?_eq_some_iff_findIdx_eq.mp found).1
  simp only [List.length_zip] at bounded
  omega

/--
The tree of a chain of operators. Where no operator binds weaker than the one behind
it, the chain is put together from the left. The first one that does has the tree of
all that stands behind it on its left, and what stands before it on its right.
-/
def ofLeastRise (first : Node) (links : List (Operator × Node)) : Node :=
  match found : firstRise? links with
  | none => leftFold first links
  | some rise =>
      have bounded := firstRise?_lt found
      .binary links[rise].1 (ofLeastRise links[rise].2 (links.drop (rise + 1)))
        (leftFold first (links.take rise))
termination_by links.length
decreasing_by simp only [List.length_drop]; omega

end Node

namespace Token

/-- The token can be used as the name of a variable or a function. -/
def IsName (token : Token) : Prop :=
  token.kind = .name ∧ isReferenceName token.text = false

/-- The token is a name of the language's own shape. -/
def IsValidName (token : Token) : Prop :=
  token.kind = .name ∧ isValidName token.text = true

/-- The token names a type that values have. -/
def IsType (token : Token) : Prop :=
  token.kind = .primitive .int ∨ token.kind = .primitive .float ∨
    token.kind = .primitive .string ∨ token.IsValidName

theorem IsType.kind_ne {token : Token} (isType : token.IsType) {kind : TokenKind}
    (notType : kind ∉ [.primitive .int, .primitive .float, .primitive .string, .name]) :
    token.kind ≠ kind := by
  rintro rfl
  rcases isType with isInt | isFloat | isString | isValid
  · simp [isInt] at notType
  · simp [isFloat] at notType
  · simp [isString] at notType
  · simp [isValid.1] at notType

end Token

namespace Derivation

/-- A token of a kind. -/
abbrev Mark (kind : TokenKind) := { token : Token // token.kind = kind }

abbrev Name := { token : Token // token.IsName }

abbrev ValidName := { token : Token // token.IsValidName }

abbrev TypeName := { token : Token // token.IsType }

/-- An integer literal within 32 bits. -/
structure Literal where
  token : Token
  value : Int32
  isLiteral : token.kind = .intLiteral
  fits : intLiteral? token.text = some value

mutual

inductive Operand where
  | literal (literal : Literal)
  | group (opening : Mark .parenOpen) (inner : Expression) (closing : Mark .parenClose)
  | var (name : Name)
  | emptyCall (name : Name) (opening : Mark .parenOpen) (closing : Mark .parenClose)
  | call (name : Name) (opening : Mark .parenOpen) (args : Values) (closing : Mark .parenClose)

/-- An operand, and operators with an operand each. -/
inductive Expression where
  | chain (first : Operand) (links : Links)

inductive Links where
  | nil
  | cons (op : Operator) (sign : Mark (.operator op)) (operand : Operand) (others : Links)

/-- One or more expressions with commas between them. -/
inductive Values where
  | last (value : Expression)
  | more (value : Expression) (comma : Mark .comma) (others : Values)

end

mutual

/-- The tokens of an operand. -/
def Operand.tokens : Operand → List Token
  | .literal literal => [literal.token]
  | .group opening inner closing => opening.val :: (inner.tokens ++ [closing.val])
  | .var name => [name.val]
  | .emptyCall name opening closing => [name.val, opening.val, closing.val]
  | .call name opening args closing =>
      name.val :: opening.val :: (args.tokens ++ [closing.val])

def Expression.tokens : Expression → List Token
  | .chain first links => first.tokens ++ links.tokens

def Links.tokens : Links → List Token
  | .nil => []
  | .cons _ sign operand others => sign.val :: (operand.tokens ++ others.tokens)

def Values.tokens : Values → List Token
  | .last value => value.tokens
  | .more value comma others => value.tokens ++ comma.val :: others.tokens

end

mutual

/-- The tree of an operand. -/
def Operand.tree : Operand → Node
  | .literal literal => .literal literal.value
  | .group _ inner _ => .group inner.tree
  | .var name => .var ⟨name.val.text, none⟩
  | .emptyCall name _ _ => .call name.val.text []
  | .call name _ args _ => .call name.val.text args.trees

def Expression.tree : Expression → Node
  | .chain first links => first.tree.ofLeastRise links.links

/-- The operators of a chain with the trees of their operands. -/
def Links.links : Links → List (Operator × Node)
  | .nil => []
  | .cons op _ operand others => (op, operand.tree) :: others.links

def Values.trees : Values → List Node
  | .last value => [value.tree]
  | .more value _ others => value.tree :: others.trees

end

inductive Statement where
  | emptyReturn (word : Mark .returnWord) (semicolon : Mark .semicolon)
  | ret (word : Mark .returnWord) (values : Values) (semicolon : Mark .semicolon)
  | emptyCall (name : ValidName) (opening : Mark .parenOpen) (closing : Mark .parenClose)
      (semicolon : Mark .semicolon)
  | call (name : ValidName) (opening : Mark .parenOpen) (args : Values)
      (closing : Mark .parenClose) (semicolon : Mark .semicolon)
  | decl (type : TypeName) (name : Name) (semicolon : Mark .semicolon)
  | initialise (type : TypeName) (name : Name) (sign : Mark .assign) (value : Expression)
      (semicolon : Mark .semicolon)
  | assign (name : ValidName) (sign : Mark .assign) (value : Expression)
      (semicolon : Mark .semicolon)

namespace Statement

def tokens : Statement → List Token
  | .emptyReturn word semicolon => [word.val, semicolon.val]
  | .ret word values semicolon => word.val :: (values.tokens ++ [semicolon.val])
  | .emptyCall name opening closing semicolon =>
      [name.val, opening.val, closing.val, semicolon.val]
  | .call name opening args closing semicolon =>
      name.val :: opening.val :: (args.tokens ++ [closing.val, semicolon.val])
  | .decl type name semicolon => [type.val, name.val, semicolon.val]
  | .initialise type name sign value semicolon =>
      type.val :: name.val :: sign.val :: (value.tokens ++ [semicolon.val])
  | .assign name sign value semicolon =>
      name.val :: sign.val :: (value.tokens ++ [semicolon.val])

def tree : Statement → Node
  | .emptyReturn _ _ => .ret []
  | .ret _ values _ => .ret values.trees
  | .emptyCall name _ _ _ => .call name.val.text []
  | .call name _ args _ _ => .call name.val.text args.trees
  | .decl type name _ => .decl ⟨name.val.text, type.val.typeName⟩
  | .initialise type name _ value _ =>
      .assign (.decl ⟨name.val.text, type.val.typeName⟩) value.tree
  | .assign name _ value _ => .assign (.var ⟨name.val.text, none⟩) value.tree

end Statement

/-- One or more types with commas between them. -/
inductive Types where
  | last (type : TypeName)
  | more (type : TypeName) (comma : Mark .comma) (others : Types)

namespace Types

def tokens : Types → List Token
  | .last type => [type.val]
  | .more type comma others => type.val :: comma.val :: others.tokens

def names : Types → List String
  | .last type => [type.val.typeName]
  | .more type _ others => type.val.typeName :: others.names

end Types

inductive Returns where
  | void (word : Mark (.primitive .void))
  | bare (type : TypeName)
  | listed (opening : Mark .parenOpen) (types : Types) (closing : Mark .parenClose)

namespace Returns

def tokens : Returns → List Token
  | .void word => [word.val]
  | .bare type => [type.val]
  | .listed opening types closing => opening.val :: (types.tokens ++ [closing.val])

def names : Returns → List String
  | .void _ => []
  | .bare type => [type.val.typeName]
  | .listed _ types _ => types.names

end Returns

/-- One or more parameters with commas between them. -/
inductive Parameters where
  | last (type : TypeName) (name : ValidName)
  | more (type : TypeName) (name : ValidName) (comma : Mark .comma) (others : Parameters)

namespace Parameters

def tokens : Parameters → List Token
  | .last type name => [type.val, name.val]
  | .more type name comma others => type.val :: name.val :: comma.val :: others.tokens

def params : Parameters → List Parameter
  | .last type name => [⟨type.val.typeName, name.val.text⟩]
  | .more type name _ others => ⟨type.val.typeName, name.val.text⟩ :: others.params

end Parameters

structure Signature where
  returns : Returns
  name : ValidName
  opening : Mark .parenOpen
  params : Option Parameters
  closing : Mark .parenClose

namespace Signature

def tokens (signature : Signature) : List Token :=
  signature.returns.tokens ++ signature.name.val :: signature.opening.val ::
    ((signature.params.elim [] Parameters.tokens) ++ [signature.closing.val])

def header (signature : Signature) : Tuplet.Signature :=
  ⟨signature.name.val.text, signature.returns.names, signature.params.elim [] Parameters.params⟩

end Signature

inductive Item where
  | definition (signature : Signature) (opening : Mark .braceOpen) (body : List Statement)
      (closing : Mark .braceClose)
  | declaration (signature : Signature) (semicolon : Option (Mark .semicolon))

namespace Item

def tokens : Item → List Token
  | .definition signature opening body closing =>
      signature.tokens ++ opening.val :: (body.flatMap Statement.tokens ++ [closing.val])
  | .declaration signature semicolon => signature.tokens ++ semicolon.elim [] ([·.val])

def tree : Item → Node
  | .definition signature _ body _ => .function signature.header (body.map Statement.tree)
  | .declaration signature _ => .signature signature.header

end Item

abbrev Program := List Item

namespace Program

/-- The tokens that a derivation of a program derives. -/
def tokens (program : Program) : List Token := program.flatMap Item.tokens

/-- The trees of the items of a program. -/
def trees (program : Program) : List Node := program.map Item.tree

end Program

end Derivation

end Tuplet
