import SemanticChecker.Proofs.Alias.Resolving

/-! Aliases are transparent. Where no alias leads back to itself and every target can be given a meaning, resolving the
aliases reports nothing, in whatever order they are needed, and each of them keeps the type that unfolding it without
any memory gives. A written type then has the same meaning as one that spells its aliases out. -/
namespace SemanticChecker

open Relation TypeExpr

namespace Declarations

mutual

/-- Whether an expression, where names stand for what `near` tells, is another one, where they stand for what `far`
tells, with some of its aliases spelled out. -/
inductive SpellsOut (declared : Declarations) :
    (near far : String → Option TypeHead) → TypeExpr → TypeExpr → Prop
  | named {near far : String → Option TypeHead} {head : TypeHead} {name other : String} {arguments others : List TypeExpr}
    {span place : Span} (left : near name = some head) (right : far other = some head)
    (inside : SpellOutAll declared near far arguments others) :
    SpellsOut declared near far ⟨.named name arguments, span⟩ ⟨.named other others, place⟩
  /-- An alias is spelled out by what spells out its target in the module of the alias. -/
  | unfolded {near far : String → Option TypeHead} {name qualified : String} {type written : TypeExpr} {path : ModulePath}
    {span : Span} (found : far name = some (.typeAlias qualified))
    (target : declared.aliases.find? qualified = some (.pending (.expression written path)))
    (spelled : SpellsOut declared near (declared.table.heads path []) type written) :
    SpellsOut declared near far type ⟨.named name [], span⟩
  | tuple {near far : String → Option TypeHead} {elements others : List TypeExpr} {span place : Span}
    (inside : SpellOutAll declared near far elements others) :
    SpellsOut declared near far ⟨.tuple elements, span⟩ ⟨.tuple others, place⟩
  | repeated {near far : String → Option TypeHead} {element other : TypeExpr} {arity : Nat} {span place : Span}
    (inside : SpellsOut declared near far element other) :
    SpellsOut declared near far ⟨.repeated element arity, span⟩ ⟨.repeated other arity, place⟩
  | function {near far : String → Option TypeHead} {parameters others returns results : List TypeExpr} {span place : Span}
    (left : SpellOutAll declared near far parameters others) (right : SpellOutAll declared near far returns results) :
    SpellsOut declared near far ⟨.function parameters returns, span⟩ ⟨.function others results, place⟩

inductive SpellOutAll (declared : Declarations) :
    (near far : String → Option TypeHead) → List TypeExpr → List TypeExpr → Prop
  | nil {near far : String → Option TypeHead} : SpellOutAll declared near far [] []
  | cons {near far : String → Option TypeHead} {type other : TypeExpr} {rest others : List TypeExpr}
    (first : SpellsOut declared near far type other) (more : SpellOutAll declared near far rest others) :
    SpellOutAll declared near far (type :: rest) (other :: others)

end

/-- What it means that aliases with these entries are transparent: each has the type that unfolding it gives, so
lowering an expression is the same as lowering it by unfolding, and the same as lowering it spelled out. -/
structure Transparent (declared : Declarations) (aliases : AliasTable) : Prop where
  cached : ∀ source ∈ declared.table.aliases, ∃ t, aliases.type? source.name = some t ∧
    ∀ depth s, declared.table.aliases.length ≤ depth →
      ((declared.unfoldAlias depth source.name).run.run s).1 = .ok t
  lowered : ∀ (module : ModulePath) (parameters : List Ty) (type : TypeExpr) (depth : Nat) (s other : Lowering) (t : Ty),
    declared.table.aliases.length ≤ depth →
      (((type.lower ({ declared with aliases }.scope module parameters)).run.run s).1 = .ok t ↔
        ((type.lower { declared.scope module parameters with aliasOf := declared.unfoldAlias depth }).run.run other).1 =
          .ok t)
  spelled : ∀ (module place : ModulePath) (parameters locals : List Ty) (spelled type : TypeExpr) (s other : Lowering)
    (t : Ty), declared.SpellsOut (declared.table.heads module parameters) (declared.table.heads place locals) spelled type →
      (((spelled.lower ({ declared with aliases }.scope module parameters)).run.run s).1 = .ok t ↔
        ((type.lower ({ declared with aliases }.scope place locals)).run.run other).1 = .ok t)

structure Unfoldable (declared : Declarations) : Prop where
  entered : declared.EnteredAliases
  grounded : declared.Grounded (· ∈ declared.aliasNames)

namespace Unfoldable

variable {declared : Declarations}

mutual

/-- Spelling aliases out changes neither whether an expression has a meaning nor which. -/
theorem spellsOut_meaning (h : declared.Unfoldable) {near far : String → Option TypeHead} {spelled type : TypeExpr} :
    declared.SpellsOut near far spelled type →
      (spelled.Resolves near ↔ type.Resolves far) ∧
        spelled.meaning near declared.aliasType = type.meaning far declared.aliasType
  | .named left right inside => by
    obtain ⟨length, resolves, same⟩ := spellOutAll_meanings h inside
    simp [Resolves, TypeExprKind.Resolves, meaning, TypeExprKind.meaning, left, right, length,
      resolves, same]
  | .unfolded found target inside => by
    have mem := mem_aliasNames.2 (h.entered.pending _ _ target)
    obtain ⟨resolves, same⟩ := spellsOut_meaning h inside
    obtain ⟨_, _, declaredAs, targetResolves⟩ := h.grounded.targets _ mem
    rw [target] at declaredAs
    cases declaredAs
    rw [resolves, same, ← h.grounded.aliasType_eq mem target]
    simp [Resolves, TypeExprKind.Resolves, ResolveAll, meaning, TypeExprKind.meaning,
      TypeHead.applied, TypeHead.arity, found, targetResolves]
  | .tuple inside => by
    obtain ⟨_, resolves, same⟩ := spellOutAll_meanings h inside
    simp [Resolves, TypeExprKind.Resolves, meaning, TypeExprKind.meaning, resolves, same]
  | .repeated inside => by
    obtain ⟨resolves, same⟩ := spellsOut_meaning h inside
    simp [Resolves, TypeExprKind.Resolves, meaning, TypeExprKind.meaning, resolves, same]
  | .function left right => by
    obtain ⟨_, resolves, same⟩ := spellOutAll_meanings h left
    obtain ⟨_, resolves', same'⟩ := spellOutAll_meanings h right
    simp [Resolves, TypeExprKind.Resolves, meaning, TypeExprKind.meaning, resolves, same, resolves',
      same']

theorem spellOutAll_meanings (h : declared.Unfoldable) {near far : String → Option TypeHead}
    {spelled types : List TypeExpr} :
    declared.SpellOutAll near far spelled types → spelled.length = types.length ∧
      (ResolveAll near spelled ↔ ResolveAll far types) ∧
        meanings near declared.aliasType spelled = meanings far declared.aliasType types
  | .nil => by simp [ResolveAll, meanings]
  | .cons first more => by
    obtain ⟨resolves, same⟩ := spellsOut_meaning h first
    obtain ⟨length, others, sames⟩ := spellOutAll_meanings h more
    simp [ResolveAll, meanings, length, resolves, same, others, sames]

end

variable (h : declared.Unfoldable)

include h

theorem lower_iff {aliasOf : String → LowerM Ty} {module : ModulePath} {parameters : List Ty}
    (each : ∀ name ∈ declared.aliasNames, Gives (fun _ => True) (aliasOf name) (declared.aliasType name) [])
    (type : TypeExpr) (s : Lowering) (t : Ty) :
    ((type.lower { table := declared.table, aliasOf, module, parameters }).run.run s).1 = .ok t ↔
      type.Resolves (declared.table.heads module parameters) ∧
        type.meaning (declared.table.heads module parameters) declared.aliasType = t := by
  refine lower_eq_ok (fun name mem => each name ?_) s t
  have named : name ∈ type.aliases (declared.table.heads module parameters) := mem
  exact h.entered.mem_of_aliases named

theorem transparent {aliases : AliasTable} (each : ∀ source ∈ declared.table.aliases,
      aliases.find? source.name = some (.resolved (declared.aliasType source.name))) : declared.Transparent aliases := by
  have unfolds : ∀ depth, declared.table.aliases.length ≤ depth → ∀ name ∈ declared.aliasNames,
      Gives (fun _ => True) (declared.unfoldAlias depth name) (declared.aliasType name) [] := by
    intro depth deep name mem
    have few := declared.card_aliasNames_le
    have low := h.grounded.rank_lt_card mem
    exact h.grounded.unfoldAlias_gives mem (by omega)
  have cached : ∀ module parameters, ∀ name ∈ declared.aliasNames,
      Gives (fun _ => True) (({ declared with aliases }.scope module parameters).aliasOf name)
        (declared.aliasType name) [] := by
    intro module parameters name mem
    obtain ⟨source, isOne, rfl⟩ := mem_aliasNames.1 mem
    simp only [scope, AliasTable.type?, each source isOne]
    exact .pure _
  constructor
  · intro source isOne
    refine ⟨declared.aliasType source.name, by simp [AliasTable.type?, each source isOne, AliasEntry.type?], ?_⟩
    intro depth s deep
    obtain ⟨later, ran, _⟩ := unfolds depth deep source.name (mem_aliasNames.2 ⟨source, isOne, rfl⟩) s trivial
    rw [ran]
  · intro module parameters type depth s other t deep
    exact (h.lower_iff (cached module parameters) type s t).trans (h.lower_iff (unfolds depth deep) type other t).symm
  · intro module place parameters locals spelled type s other t spells
    obtain ⟨resolves, same⟩ := h.spellsOut_meaning spells
    refine (h.lower_iff (cached module parameters) spelled s t).trans (Iff.trans ?_
      (h.lower_iff (cached place locals) type other t).symm)
    rw [resolves, same]

end Unfoldable

/-- Aliases are transparent. If no alias leads back to itself, and every target has a meaning for some meaning of the
aliases in it, then resolving all aliases reports nothing, and so does resolving them in any other order. Each alias has
the type that its target unfolds to, and written types mean the same with their aliases spelled out. -/
theorem aliases_transparent {units : List SourceUnit} {declared : Declarations}
    (isDeclared : (Declarations.declareUnits {} units).1 = declared)
    (acyclic : ∀ name, ¬ TransGen declared.Refers name name)
    (lowers : ∀ name target, declared.aliases.find? name = some (.pending target) →
      ∃ aliasOf s t, ((target.lower declared.table aliasOf).run.run s).1 = .ok t) :
    declared.resolveAliases.2.diagnostics = [] ∧ declared.Transparent declared.resolveAliases.1.aliases ∧
      ∀ uses : List AliasSource, (∀ source, source ∈ uses ↔ source ∈ declared.table.aliases) →
        (declared.resolveEach uses { aliases := declared.aliases }).2 = [] ∧
          declared.Transparent (declared.resolveEach uses { aliases := declared.aliases }).1.aliases := by
  have entered : declared.EnteredAliases := isDeclared ▸ EnteredAliases.empty.declareUnits units
  have unfoldable : declared.Unfoldable :=
    { entered
      grounded :=
        { names := fun _ mem => mem
          refers := fun _ _ _ refers => entered.mem_of_refers refers
          acyclic := fun name _ => acyclic name
          full := fun _ mem _ _ _ _ _ => mem
          targets := fun name mem => by
            obtain ⟨written, path, found⟩ := entered.target mem
            obtain ⟨aliasOf, s, t, done⟩ := lowers name _ found
            have resolves : written.Resolves (TypeScope.head? ⟨declared.table, aliasOf, path, []⟩) :=
              resolves_of_lower done
            exact ⟨written, path, found, resolves⟩ } }
  have each : ∀ uses : List AliasSource, (∀ source, source ∈ uses ↔ source ∈ declared.table.aliases) →
      (declared.resolveEach uses { aliases := declared.aliases }).2 = [] ∧
        declared.Transparent (declared.resolveEach uses { aliases := declared.aliases }).1.aliases := by
    intro uses same
    have start : declared.Settles (· ∈ declared.aliasNames) ∅ ({ aliases := declared.aliases } : Lowering).aliases :=
      .initial _ _
    obtain ⟨settled, _, all, silent⟩ := unfoldable.grounded.resolveEach_settles entered (fun source => (same source).1) start
    have named : ∀ source ∈ declared.table.aliases, source.name ∈ declared.aliasNames :=
      fun source mem => mem_aliasNames.2 ⟨source, mem, rfl⟩
    refine ⟨(silent fun name mem bad => (bad mem).elim).2 fun source mem => named source ((same source).1 mem), ?_⟩
    refine unfoldable.transparent fun source mem => ?_
    obtain ⟨t, has⟩ := all source ((same source).2 mem)
    rcases settled.outcome entered (named source mem) has with ⟨_, rfl⟩ | ⟨bad, _⟩
    · exact has
    · exact (bad (named source mem)).elim
  obtain ⟨silent, transparent⟩ := each declared.table.aliases fun _ => Iff.rfl
  exact ⟨silent, transparent, each⟩

def aliasLinks (declared : Declarations) : List (String × String) :=
  declared.aliases.entries.flatMap fun (name, entry) =>
    match entry with
    | .pending (.expression written path) => (written.aliases (declared.table.heads path [])).map (name, ·)
    | _ => []

theorem mem_aliasLinks {declared : Declarations} {name other : String} (refers : declared.Refers name other) :
    (name, other) ∈ declared.aliasLinks := by
  obtain ⟨written, path, found, mem⟩ := refers
  refine List.mem_flatMap.2 ⟨_, mem_of_lookup found, ?_⟩
  simpa using mem

def aliasTargets (declared : Declarations) : List AliasTarget :=
  declared.aliases.entries.filterMap fun (_, entry) =>
    match entry with
    | .pending target => some target
    | _ => none

theorem mem_aliasTargets {declared : Declarations} {name : String} {target : AliasTarget}
    (found : declared.aliases.find? name = some (.pending target)) : target ∈ declared.aliasTargets :=
  List.mem_filterMap.2 ⟨_, mem_of_lookup found, rfl⟩

/-- A chain of aliases through two modules; `Table` needs `Row` before it is declared. -/
def tablesUnits : List SourceUnit :=
  let applied (name : String) (arguments : List TypeExpr) : TypeExpr := ⟨.named name arguments, {}⟩
  [ { id := ⟨0⟩, module := ⟨["base"]⟩
      declarations := [
        .typeAlias { name := "Table", target := applied "Dict" [applied "Key" [], applied "Row" []] },
        .typeAlias { name := "Row", target := applied "List" [applied "int" []] },
        .typeAlias { name := "Key", target := applied "string" [] }] },
    { id := ⟨1⟩, module := ⟨["app"]⟩
      declarations := [
        .typeAlias { name := "Index", target := ⟨.repeated (applied "base.Table" []) 2, {}⟩ }] } ]

/-- `app.Index`, written in the module `base`, is `(Dict[string, List[int]]: 2)`, written in the module `app`. -/
theorem aliases_transparent_tables :
    let declared := (Declarations.declareUnits {} tablesUnits).1
    let resolved := declared.resolveAliases.1
    let table : Ty := .dict (.primitive .str) (.list (.primitive .int64))
    let applied (name : String) (arguments : List TypeExpr) : TypeExpr := ⟨.named name arguments, {}⟩
    let spelled : TypeExpr := ⟨.repeated (applied "Dict" [applied "string" [], applied "List" [applied "int" []]]) 2, {}⟩
    (∀ name, ¬ TransGen declared.Refers name name) ∧ declared.resolveAliases.2.diagnostics = [] ∧
      resolved.aliases.type? "app.Index" = some (.tuple [table, table]) ∧
      ∀ s other t, ((spelled.lower (resolved.scope ⟨["app"]⟩ [.parameter "T"])).run.run s).1 = .ok t ↔
        (((applied "app.Index" []).lower (resolved.scope ⟨["base"]⟩ [])).run.run other).1 = .ok t := by
  intro declared resolved table applied spelled
  have acyclic : ∀ name, ¬ TransGen declared.Refers name name := by
    let order := ["base.Key", "base.Row", "base.Table", "app.Index"]
    have links : ∀ link ∈ declared.aliasLinks, order.idxOf link.2 < order.idxOf link.1 := by decide +kernel
    have descends : ∀ {a b}, TransGen declared.Refers a b → order.idxOf b < order.idxOf a := by
      intro a b way
      induction way with
      | single step => exact links _ (mem_aliasLinks step)
      | tail _ step ih => exact Nat.lt_trans (links _ (mem_aliasLinks step)) ih
    exact fun name loop => Nat.lt_irrefl _ (descends loop)
  have lowers : ∀ name target, declared.aliases.find? name = some (.pending target) →
      ∃ aliasOf s t, ((target.lower declared.table aliasOf).run.run s).1 = .ok t := by
    intro name target found
    have succeed : ∀ target ∈ declared.aliasTargets,
        (((target.lower declared.table fun _ => pure .error).run.run {}).1).isOk = true := by decide +kernel
    have succeeds := succeed target (mem_aliasTargets found)
    refine ⟨fun _ => pure .error, {}, ?_⟩
    cases done : ((target.lower declared.table fun _ => pure .error).run.run {}).1 with
    | ok t => exact ⟨t, rfl⟩
    | error e =>
      rw [done] at succeeds
      cases succeeds
  obtain ⟨silent, transparent, _⟩ := aliases_transparent rfl acyclic lowers
  have unfolds : ((declared.unfoldAlias 4 "app.Index").run.run {}).1 = .ok (.tuple [table, table]) := by
    rfl
  have isOne : (⟨"app.Index", ⟨1⟩, {}⟩ : AliasSource) ∈ declared.table.aliases :=
    List.mem_of_getElem? (show declared.table.aliases[3]? = some _ from rfl)
  have spells : declared.SpellsOut (declared.table.heads ⟨["app"]⟩ [.parameter "T"])
      (declared.table.heads ⟨["base"]⟩ []) spelled (applied "app.Index" []) := by
    refine .unfolded rfl rfl (.repeated (.unfolded rfl rfl (.named rfl rfl (.cons ?_ (.cons ?_ .nil)))))
    · exact .unfolded rfl rfl (.named rfl rfl .nil)
    · exact .unfolded rfl rfl (.named rfl rfl (.cons (.named rfl rfl .nil) .nil))
  obtain ⟨t, cached, same⟩ := transparent.cached _ isOne
  have answer := (same 4 {} (by decide +kernel)).symm.trans unfolds
  cases answer
  exact ⟨acyclic, silent, cached, fun s other t => transparent.spelled _ _ _ _ _ _ s other t spells⟩

end Declarations

end SemanticChecker
