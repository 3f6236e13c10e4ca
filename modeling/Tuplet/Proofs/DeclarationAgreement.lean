import Tuplet.Proofs.Acceptance

/-!
# Definitions and their declarations

A function may be declared before it is defined. The first well-formed header of
its name settles the types that it has in the module, and a definition that comes
later is lowered against those. Whether the definition says the same is looked at
in part only. The number of parameters has to agree, and their types have to,
because verification compares each parameter with the slot it is stored to. The
types that the definition says it returns are compared with nothing: what its
returns are verified against is what has been declared. So a definition can be
accepted although it announces other results than its function has.

`Lowering.agrees_iff_declaration_agrees` says when an accepted definition is in
agreement with its function: always in its parameters, and in its results exactly
if no earlier header has declared others.
-/

namespace Tuplet

open Ir (Function ValueType)

namespace Node

/-- The header of an item. -/
def header? : Node → Option Signature
  | .signature header | .function header _ => some header
  | _ => none

end Node

/-- The header that settles the types of a function: the first well-formed one of its name. -/
def declaration? (items : List Node) (name : String) : Option Signature :=
  (items.filterMap Node.header?).find? fun header => header.name = name ∧ header.WellFormed

namespace Signature

/-- A function has parameters of the types that a header names, in this order. -/
def ParamsAgree (header : Signature) (function : Function) : Prop :=
  header.params.map (scalar? ·.type) = function.params.map (some ·.type)

/-- A function returns nothing, or one aggregate, just as the types say that a header names. -/
def ReturnsAgree (header : Signature) (function : Function) : Prop :=
  ∃ types, header.returns.map scalar? = types.map some ∧ function.returns = .ofReturns types

end Signature

theorem Ir.ValueType.ofReturns_injective {types others : List ValueType}
    (same : ofReturns types = ofReturns others) : types = others := by
  cases types <;> cases others <;> simp_all [ofReturns]

theorem scalar?_injective {name other : String} {type : ValueType}
    (known : scalar? name = some type) (alsoKnown : scalar? other = some type) : name = other := by
  unfold scalar? at known alsoKnown
  repeat' split at known
  all_goals repeat' split at alsoKnown
  all_goals grind

/-- Lists of type names that stand for the same types are the same. -/
theorem map_scalar?_injective {names others : List String}
    (known : ∀ name ∈ others, (scalar? name).isSome = true)
    (same : names.map scalar? = others.map scalar?) : names = others := by
  induction names generalizing others with
  | nil =>
      cases others with
      | nil => rfl
      | cons other others => simp at same
  | cons name names ih =>
      cases others with
      | nil => simp at same
      | cons other others =>
          simp only [List.map_cons, List.cons.injEq] at same
          simp only [List.forall_mem_cons] at known
          rcases Option.isSome_iff_exists.mp known.1 with ⟨type, otherKnown⟩
          have first := scalar?_injective (same.1.trans otherKnown) otherKnown
          rw [first, ih known.2 same.2]

/-- Known types are resolved without any being left out. -/
theorem map_scalar?_eq {names : List String}
    (known : ∀ name ∈ names, (scalar? name).isSome = true) :
    names.map scalar? = (names.filterMap scalar?).map some := by
  induction names with
  | nil => rfl
  | cons name names ih =>
      simp only [List.forall_mem_cons] at known
      rcases Option.isSome_iff_exists.mp known.1 with ⟨type, found⟩
      simp [found, ih known.2]

namespace FunctionTable

variable {table : FunctionTable} {header : Signature} {name : String}

/-- A table goes on from another one: its functions stay where they are and keep their types. -/
def Continues (later earlier : FunctionTable) : Prop :=
  ∀ (index : Nat) (known : Known), earlier[index]? = some known →
    ∃ same, later[index]? = some same ∧ same.toProfile = known.toProfile

theorem Continues.refl (table : FunctionTable) : table.Continues table := by
  intro index known listed
  exact ⟨known, listed, rfl⟩

theorem Continues.trans {later middle earlier : FunctionTable} (second : later.Continues middle)
    (first : middle.Continues earlier) : later.Continues earlier := by
  intro index known listed
  rcases first index known listed with ⟨between, listedBetween, sameBetween⟩
  rcases second index between listedBetween with ⟨last, listedLast, sameLast⟩
  exact ⟨last, listedLast, sameLast.trans sameBetween⟩

theorem continues_declare (table : FunctionTable) (header : Signature) :
    (table.declare header).Continues table := by
  unfold declare
  split
  · intro index known listed
    have bounded : index < table.length := (List.getElem?_eq_some_iff.mp listed).1
    exact ⟨known, by rw [List.getElem?_append_left bounded, listed], rfl⟩
  · exact .refl table

theorem continues_giveBody (table : FunctionTable) (name : String) :
    (table.giveBody name).Continues table := by
  intro index known listed
  simp only [giveBody, List.getElem?_map, listed, Option.map_some]
  split
  · exact ⟨_, rfl, rfl⟩
  · exact ⟨_, rfl, rfl⟩

theorem continues_after (table : FunctionTable) (node : Node) :
    (table.after node).Continues table := by
  cases node with
  | signature header => exact continues_declare table header
  | function header body =>
      simp only [after]
      split
      · exact (continues_giveBody _ _).trans (continues_declare table header)
      · exact .refl table
  | _ => exact .refl table

theorem continues_foldl (table : FunctionTable) (nodes : List Node) :
    (nodes.foldl after table).Continues table := by
  induction nodes generalizing table with
  | nil => exact .refl table
  | cons node rest ih => exact (ih (table.after node)).trans (continues_after table node)

theorem profile?_append (table others : FunctionTable) (name : String) :
    profile? (table ++ others) name = (table.profile? name).or (profile? others name) := by
  simp only [profile?, known?, List.find?_append, Option.map_or]

theorem profile?_giveBody (table : FunctionTable) (given name : String) :
    (table.giveBody given).profile? name = table.profile? name := by
  simp only [profile?, known?, giveBody, List.find?_map, Option.map_map]
  congr 1
  · funext known
    simp only [Function.comp]
    split <;> rfl
  · congr 1
    funext known
    simp only [Function.comp]
    split <;> rfl

/-- What a header settles about the function of a name that is not known yet. -/
def settled (header : Signature) (name : String) : Option Profile :=
  if header.name = name ∧ header.WellFormed then some header.known.toProfile else none

theorem settled_eq_some_iff {profile : Profile} :
    settled header name = some profile ↔
      (header.name = name ∧ header.WellFormed) ∧ header.known.toProfile = profile := by
  simp [settled]

theorem or_settled_of_known (known : (table.known? header.name).isSome = true) (name : String) :
    (table.profile? name).or (settled header name) = table.profile? name := by
  by_cases same : header.name = name
  · subst same
    rcases Option.isSome_iff_exists.mp known with ⟨found, known⟩
    simp [profile?, known]
  · simp [settled, same]

theorem profile?_declare (table : FunctionTable) (header : Signature) (name : String) :
    (table.declare header).profile? name = (table.profile? name).or (settled header name) := by
  cases known : table.known? header.name with
  | some found =>
      have isKnown : (table.known? header.name).isSome = true := by simp [known]
      rw [declare_of_known isKnown, or_settled_of_known isKnown]
  | none =>
      by_cases wellFormed : header.WellFormed
      · rw [declare_of_unknown known wellFormed, profile?_append]
        by_cases same : header.name = name
        · simp [settled, profile?, known?, Signature.known, same, wellFormed]
        · simp [settled, profile?, known?, Signature.known, same]
      · simp [declare, settled, wellFormed]

theorem profile?_after (table : FunctionTable) (node : Node) (name : String) :
    (table.after node).profile? name =
      (table.profile? name).or (node.header?.bind (settled · name)) := by
  cases node with
  | signature header => exact profile?_declare table header name
  | function header body =>
      simp only [after, Node.header?, Option.bind_some]
      split
      · rw [profile?_giveBody, profile?_declare]
      · rename_i closed
        -- A body is refused where its function is known, or cannot be declared.
        cases known : table.known? header.name with
        | some found => rw [or_settled_of_known (by simp [known])]
        | none =>
            have illFormed : ¬ header.WellFormed := by simpa [Opens, known] using closed
            simp [settled, illFormed]
  | _ => simp [after, Node.header?]

/-- What is known of a function is what the first well-formed header of its name says. -/
theorem profile?_foldl (table : FunctionTable) (nodes : List Node) (name : String) :
    (nodes.foldl after table).profile? name =
      (table.profile? name).or ((declaration? nodes name).map (·.known.toProfile)) := by
  induction nodes generalizing table with
  | nil => simp [declaration?]
  | cons node rest ih =>
      rw [List.foldl_cons, ih, profile?_after, Option.or_assoc]
      congr 1
      cases header? : node.header? with
      | none => simp [declaration?, header?]
      | some header =>
          by_cases settles : header.name = name ∧ header.WellFormed
          · simp [declaration?, header?, settled, settles]
          · simp [declaration?, header?, settled, settles]

end FunctionTable

namespace Lowering

open FunctionTable

theorem getElem?_of_described {table : FunctionTable} {functions : List Function} {known : Known}
    {index : Nat}
    (described : List.Forall₂ Known.Describes table functions)
    (listed : table[index]? = some known) :
    ∃ function, functions[index]? = some function ∧ known.Describes function :=
  Lookup.getElem?_of_forall₂ described.flip listed

/-- What has been accepted as a definition fits what is known of its function in the end. -/
theorem exists_known_of_accepted {moduleName : String} {before rest : List Node}
    {header : Signature} {body : List Node} {index : Nat}
    (accepted : (items (.new (.new moduleName))
      (before ++ .function header body :: rest)).1[before.length]? = some (.ok index)) :
    ∃ function known, (items (.new (.new moduleName))
          (before ++ .function header body :: rest)).2.builder.module.functions[index]? =
        some function ∧
      known.toProfile.Fits function ∧
      ((before.foldl after []).declare header).known? header.name = some known ∧
      header.params.map (scalar? ·.type) = known.params.map some := by
  have describes := describes_items (describes_new moduleName) before
  rw [getElem?_items] at accepted
  cases lowered : item (.function header body) (items (.new (.new moduleName)) before).2 with
  | error failure state => simp [lowered, outcome] at accepted
  | ok found state =>
      have same : found = index := by simpa [lowered, outcome] using accepted
      subst found
      rw [item, inside_eq_ok_iff] at lowered
      rcases function_cases describes header body with
        ⟨opens, known, _, function, declared, _, ready, completing⟩ | ⟨_, failure, failed⟩
      · have isBody := (ready.completing_ok_iff body).mp ⟨index, state, completing ▸ lowered⟩
        rcases Site.completing_eq_ok_iff.mp (completing.symm.trans lowered) with
          ⟨_, _, _, here, _⟩
        have listed : ((before.foldl after []).declare header)[index]? = some known :=
          here ▸ ready.listed
        -- The function stays where it is, and keeps its types, whatever is lowered afterwards.
        have continues := (continues_foldl
          ((before.foldl after []).after (.function header body)) rest).trans
            (by simpa only [after, if_pos opens] using continues_giveBody _ header.name)
        rcases continues index known listed with ⟨last, listedLast, sameProfile⟩
        have final := describes_items (describes_new moduleName)
          (before ++ .function header body :: rest)
        rw [List.foldl_append, List.foldl_cons] at final
        rcases getElem?_of_described final.functions listedLast with ⟨target, present, described⟩
        exact ⟨target, known, present, sameProfile ▸ described.fits, ready.known?,
          isBody.paramTypes⟩
      · simp [failed] at lowered

/--
An accepted definition agrees with its function in all its parameters. It agrees in
what it returns exactly if it repeats what the first header of its name has said, if
there is one before it.
-/
theorem agrees_iff_declaration_agrees (moduleName : String) (before rest : List Node)
    (header : Signature) (body : List Node) (index : Nat)
    (accepted : (items (.new (.new moduleName))
      (before ++ .function header body :: rest)).1[before.length]? = some (.ok index)) :
    ∃ function, (items (.new (.new moduleName))
          (before ++ .function header body :: rest)).2.builder.module.functions[index]? =
        some function ∧
      header.ParamsAgree function ∧
      (header.ReturnsAgree function ↔ ∀ declaration,
        declaration? before header.name = some declaration →
          header.returns = declaration.returns) := by
  rcases exists_known_of_accepted accepted with
    ⟨function, known, present, fits, known?, paramTypes⟩
  refine ⟨function, present, ?_, ?_⟩
  · rw [Signature.ParamsAgree, paramTypes, ← fits.params, List.map_map]
    rfl
  have agree : header.ReturnsAgree function ↔
      header.returns.map scalar? = known.returns.map some := by
    constructor
    · rintro ⟨types, named, returns⟩
      rw [named, Ir.ValueType.ofReturns_injective (returns.symm.trans fits.returns)]
    · intro named
      exact ⟨known.returns, named, fits.returns⟩
  have profile : ((before.foldl after []).declare header).profile? header.name =
      some known.toProfile := by simp [profile?, known?]
  rw [profile?_declare, profile?_foldl] at profile
  rw [agree]
  cases declared : declaration? before header.name with
  | none =>
      -- The definition is its own declaration.
      have settles : settled header header.name = some known.toProfile := by
        simpa [declared, profile?, FunctionTable.known?] using profile
      rcases settled_eq_some_iff.mp settles with ⟨⟨_, wellFormed⟩, same⟩
      have named := map_scalar?_eq wellFormed.2.2
      simp [named, ← same, Signature.known]
  | some declaration =>
      have same : declaration.known.toProfile = known.toProfile := by
        simpa [declared, profile?, FunctionTable.known?] using profile
      have settles : declaration.name = header.name ∧ declaration.WellFormed := by
        simpa using List.find?_some declared
      have named := map_scalar?_eq settles.2.2.2
      have returns : known.returns.map some = declaration.returns.map scalar? := by
        rw [named, ← same]
        rfl
      simp only [returns, Option.some.injEq, forall_eq']
      constructor
      · exact map_scalar?_injective settles.2.2.2
      · intro repeated
        rw [repeated]

def scale : Signature := ⟨"scale", ["int"], [⟨"int", "a"⟩, ⟨"float", "b"⟩]⟩

def renamedScale : Signature := ⟨"scale", ["int"], [⟨"int", "x"⟩, ⟨"float", "y"⟩]⟩

/-- A definition that repeats its declaration under other parameter names. -/
def repeating : List Node :=
  [.signature scale] ++ .function renamedScale [.ret [.var ⟨"x", none⟩]] :: []

theorem agrees_iff_declaration_agrees_repeating :
    (items (.new (.new "m")) repeating).1[1]? = some (.ok 0) ∧
      ∃ function,
        (items (.new (.new "m")) repeating).2.builder.module.functions[0]? = some function ∧
          renamedScale.ParamsAgree function ∧ renamedScale.ReturnsAgree function := by
  have kept : (items (.new (.new "m")) repeating).1[1]?.bind Except.toOption = some 0 := by
    decide +kernel
  have accepted : (items (.new (.new "m")) repeating).1[1]? = some (.ok 0) := by
    rcases Option.bind_eq_some_iff.mp kept with ⟨_ | id, stands, isOk⟩
    · cases isOk
    · rw [stands, ← Option.some.inj isOk]
  have repeated : declaration? [.signature scale] renamedScale.name = some scale := by
    decide +kernel
  unfold repeating at accepted ⊢
  rcases agrees_iff_declaration_agrees "m" [.signature scale] [] renamedScale
      [.ret [.var ⟨"x", none⟩]] 0 accepted with ⟨function, present, params, returns⟩
  have agree : renamedScale.ReturnsAgree function := by
    apply returns.mpr
    intro declaration declared
    have same : scale = declaration := Option.some.inj (repeated.symm.trans declared)
    rw [← same]
    rfl
  exact ⟨accepted, function, present, params, agree⟩

/-- A function that is declared without a result, and defined as if it had one. -/
def contradicting : List Node :=
  [.signature ⟨"f", [], []⟩, .function ⟨"f", ["int"], []⟩ [.ret []]]

theorem accepted_although_contradicting :
    (items (.new (.new "m")) contradicting).1[1]? = some (.ok 0) ∧
      ∃ function,
        (items (.new (.new "m")) contradicting).2.builder.module.functions[0]? = some function ∧
          ¬ Signature.ReturnsAgree ⟨"f", ["int"], []⟩ function := by
  refine ⟨rfl, _, rfl, ?_⟩
  rintro ⟨types, named, returns⟩
  have noTypes : types = [] := (Ir.ValueType.ofReturns_injective returns).symm
  simp [noTypes] at named

end Lowering

end Tuplet
