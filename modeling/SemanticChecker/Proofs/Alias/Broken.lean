import SemanticChecker.Proofs.Alias.Resolving

/-! Aliases that are broken: they lead back into themselves, or to a name that stands for nothing. All the others come to
a type, in whatever order they are needed. A broken one comes to the error type, or to a type that is built around what
the aliases in its target came to before; that takes a target which is more than a name. -/
namespace SemanticChecker

open Relation

section Proper

variable {heads : String → Option TypeHead} {types : String → Ty}

theorem TypeExpr.length_meanings (written : List TypeExpr) :
    (TypeExpr.meanings heads types written).length = written.length := by
  induction written with
  | nil => rfl
  | cons _ rest ih => exact congrArg (· + 1) ih

theorem TypeHead.applied_ne_error {head : TypeHead} {arguments : List Ty} (count : arguments.length = head.arity)
    (proper : ∀ t, head = .type t → t ≠ .error) (each : ∀ name ∈ head.aliases, types name ≠ .error) :
    head.applied types arguments ≠ .error := by
  cases head with
  | type t => exact proper t rfl
  | list =>
    obtain ⟨element, rfl⟩ := List.length_eq_one_iff.1 count
    exact nofun
  | dict =>
    obtain ⟨key, value, rfl⟩ := List.length_eq_two.1 count
    exact nofun
  | struct id arity => exact nofun
  | typeAlias name => exact each name (by simp [aliases])

theorem TypeExpr.meaning_ne_error (proper : ∀ name t, heads name = some (.type t) → t ≠ .error) {type : TypeExpr}
    (resolves : type.Resolves heads) (each : ∀ name ∈ type.aliases heads, types name ≠ .error) :
    type.meaning heads types ≠ .error := by
  obtain ⟨kind, span⟩ := type
  cases kind with
  | named name arguments =>
    obtain ⟨⟨head, found, count⟩, _⟩ := resolves
    simp only [TypeExpr.aliases, TypeExprKind.aliases, found, Option.toList_some, List.flatMap_singleton,
      List.forall_mem_append] at each
    simp only [TypeExpr.meaning, TypeExprKind.meaning, found]
    refine TypeHead.applied_ne_error ?_ (fun t same => proper name t (same ▸ found)) each.1
    rw [TypeExpr.length_meanings, count]
  | _ => rintro ⟨⟩

end Proper

theorem DeclTable.heads_ne_error {table : DeclTable} {module : ModulePath} {name : String} {t : Ty}
    (found : table.heads module [] name = some (.type t)) : t ≠ .error := by
  rintro rfl
  rw [DeclTable.heads, TypeScope.head?] at found
  split at found
  · rename_i isOne
    exact absurd isOne (by simp [TypeScope.parameter?])
  · split at found
    · cases found
    · split at found
      · cases found
      · split at found
        · cases found
        · split at found
          · rename_i qualified symbol _
            cases symbol <;> cases found
          · obtain ⟨_, _, same⟩ := Option.map_eq_some_iff.1 found
            cases same

namespace Declarations

/-- Whether an alias leads to one that leads back to itself, or to one whose target names what stands for nothing. -/
def Broken (declared : Declarations) (name : String) : Prop :=
  ∃ other, ReflTransGen declared.Refers name other ∧
    (TransGen declared.Refers other other ∨ ¬ declared.Resolvable other)

theorem Broken.of_refers {declared : Declarations} {name other : String} (refers : declared.Refers name other)
    (broken : declared.Broken other) : declared.Broken name :=
  broken.imp fun _ h => ⟨.head refers h.1, h.2⟩

theorem Broken.refers_or {declared : Declarations} {name : String} (broken : declared.Broken name) :
    (∃ other, declared.Refers name other ∧ declared.Broken other) ∨ ¬ declared.Resolvable name := by
  obtain ⟨last, way, cause⟩ := broken
  rcases way.cases_head with rfl | ⟨next, step, rest⟩
  · refine cause.imp_left fun loop => ?_
    obtain ⟨next, step, back⟩ := TransGen.head'_iff.1 loop
    exact ⟨next, step, next, .refl, .inl (.tail' back step)⟩
  · exact .inl ⟨next, step, last, rest, cause⟩

variable {declared : Declarations} {name : String}

theorem EnteredAliases.grounded (h : declared.EnteredAliases) :
    declared.Grounded fun name => name ∈ declared.aliasNames ∧ ¬ declared.Broken name where
  names _ good := good.1
  targets name good := by
    by_contra none
    exact good.2 ⟨name, .refl, .inr none⟩
  refers _ _ good refers := ⟨h.mem_of_refers refers, fun broken => good.2 (broken.of_refers refers)⟩
  acyclic name good loop := good.2 ⟨name, .refl, .inl loop⟩
  full name mem written path found resolves each := by
    refine ⟨mem, fun broken => ?_⟩
    rcases broken.refers_or with ⟨other, ⟨_, _, again, named⟩, isBroken⟩ | none
    · cases found.symm.trans again
      exact (each other named).2 isBroken
    · exact none ⟨written, path, found, resolves⟩

theorem Grounded.aliasType_ne_error {good : String → Prop} (h : declared.Grounded good) (isGood : good name) :
    declared.aliasType name ≠ .error := by
  induction rank : declared.rank name using Nat.strong_induction_on generalizing name with
  | h number ih =>
    obtain ⟨written, path, found, resolves⟩ := h.targets name isGood
    rw [h.aliasType_eq isGood found]
    refine TypeExpr.meaning_ne_error (fun _ _ => DeclTable.heads_ne_error) resolves fun other named => ?_
    have refers : declared.Refers name other := ⟨written, path, found, named⟩
    exact ih _ (rank ▸ h.rank_lt isGood refers) (h.refers _ _ isGood refers) rfl

structure ComesTo (declared : Declarations) (aliases : AliasTable) (name : String) (t : Ty) : Prop where
  type : aliases.type? name = some t
  meant : ¬ declared.Broken name → t = declared.aliasType name ∧ t ≠ .error
  broken : declared.Broken name → t = .error ∨ declared.Nests name ∧ declared.Built aliases name t

/-- In whatever order aliases are needed, something is reported exactly if one of them is broken, and each comes to a
type. -/
theorem EnteredAliases.resolveEach_comesTo (h : declared.EnteredAliases) {uses : List AliasSource}
    (all : ∀ source, source ∈ uses ↔ source ∈ declared.table.aliases) :
    ((declared.resolveEach uses { aliases := declared.aliases }).2 = [] ↔
        ∀ name ∈ declared.aliasNames, ¬ declared.Broken name) ∧
      ∀ name ∈ declared.aliasNames, ∃ t,
        declared.ComesTo (declared.resolveEach uses { aliases := declared.aliases }).1.aliases name t := by
  have grounded := h.grounded
  have start : declared.Settles (fun name => name ∈ declared.aliasNames ∧ ¬ declared.Broken name) ∅
      ({ aliases := declared.aliases } : Lowering).aliases := .initial _ _
  have fresh : declared.Fresh (fun name => name ∈ declared.aliasNames ∧ ¬ declared.Broken name) declared.aliases := by
    intro name mem _ t has
    obtain ⟨written, path, found⟩ := h.target mem
    cases found.symm.trans has
  obtain ⟨settled, _, each, silent⟩ := grounded.resolveEach_settles h (fun source => (all source).1) start
  constructor
  · rw [silent fresh]
    constructor
    · intro good name mem
      obtain ⟨source, isOne, rfl⟩ := mem_aliasNames.1 mem
      exact (good source ((all source).2 isOne)).2
    · intro whole source isUse
      have mem := mem_aliasNames.2 ⟨source, (all source).1 isUse, rfl⟩
      exact ⟨mem, whole _ mem⟩
  · intro name mem
    obtain ⟨source, isOne, rfl⟩ := mem_aliasNames.1 mem
    obtain ⟨t, has⟩ := each source ((all source).2 isOne)
    rcases settled.outcome h mem has with ⟨good, rfl⟩ | ⟨bad, outcome⟩
    · exact ⟨_, has.type?, fun _ => ⟨rfl, grounded.aliasType_ne_error good⟩, fun broken => (good.2 broken).elim⟩
    · exact ⟨t, has.type?, fun whole => (bad ⟨mem, whole⟩).elim, fun _ => outcome⟩

end Declarations

end SemanticChecker
