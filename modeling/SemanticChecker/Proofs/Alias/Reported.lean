import SemanticChecker.Proofs.Alias.Broken

/-! What is reported of broken aliases. A cycle is put together while a failure goes back through the aliases that led to
it, and stops growing at the alias that closed it. Each alias on it is resolved from then on, so that it is on no other
cycle that is reported. -/
namespace SemanticChecker

namespace Declarations

/-- The failures of aliases that are resolved one after the other, each with the alias that was asked for. -/
def failures (declared : Declarations) : List AliasSource → Lowering → List (AliasSource × ResolveError)
  | [], _ => []
  | source :: rest, s =>
    match (declared.table.resolveAlias source.name).run.run s with
    | (.ok _, later) => declared.failures rest later
    | (.error error, later) => (source, error) :: declared.failures rest later

def failureReport (declared : Declarations) (failure : AliasSource × ResolveError) : Diagnostic :=
  let place := declared.anchor failure.1 failure.2
  (failure.2.diagnostic place.span).inSource place.unit

def cyclesIn (failures : List (AliasSource × ResolveError)) : List (List String) :=
  failures.filterMap fun failure =>
    match failure.2 with
    | .aliasCycle members => some members
    | _ => none

/-- A path of declared aliases, each of which names the next one, that comes back to its start and meets no other alias
twice. -/
def IsCycle (declared : Declarations) (members : List String) : Prop :=
  ∃ first rest, members = first :: rest ++ [first] ∧ (first :: rest).Nodup ∧
    (∀ name ∈ first :: rest, name ∈ declared.aliasNames) ∧ members.IsChain declared.Refers

variable {declared : Declarations}

theorem resolveEach_failures (declared : Declarations) (uses : List AliasSource) (s : Lowering) :
    (declared.resolveEach uses s).2 = (declared.failures uses s).map declared.failureReport := by
  induction uses generalizing s with
  | nil => rfl
  | cons source rest ih =>
    rw [resolveEach, failures]
    cases (declared.table.resolveAlias source.name).run.run s with
    | mk result later => cases result <;> simp [ih, failureReport]

/-- A cycle in which every alias was resolved in between. -/
structure ReportedCycle (declared : Declarations) (before after : AliasTable) (members : List String) : Prop where
  isCycle : declared.IsCycle members
  isNew : ∀ name ∈ members, (∀ t, ¬ before.Has name t) ∧ ∃ t, after.Has name t

theorem Traced.reported {name last : String} {before after : AliasTable} {inner : List String}
    (h : declared.Traced ∅ name before after inner last) : declared.ReportedCycle before after (inner ++ [last]) := by
  have back : inner.head? = some last := h.ends.resolve_right fun isOpen => by simp at isOpen
  obtain ⟨rest, rfl⟩ := List.head?_eq_some_iff.1 back
  refine ⟨⟨last, rest, rfl, h.distinct, fun name mem => (h.fresh name mem).1, h.chain⟩, fun name mem => ?_⟩
  have isInner : name ∈ last :: rest := by grind
  exact (h.fresh name isInner).2.2

theorem ReportedCycle.mono {before earlier after later : AliasTable} {members : List String}
    (h : declared.ReportedCycle before after members) (first : earlier.Kept before) (second : after.Kept later) :
    declared.ReportedCycle earlier later members :=
  ⟨h.isCycle, fun name mem =>
    ⟨fun t has => (h.isNew name mem).1 t (first name t has), (h.isNew name mem).2.imp fun t => second name t⟩⟩

/-- By induction on the aliases that are asked for. A later cycle has no alias that is resolved already. -/
theorem EnteredAliases.cyclesIn_failures (h : declared.EnteredAliases) {uses : List AliasSource}
    (each : ∀ source ∈ uses, source ∈ declared.table.aliases) {s : Lowering}
    (settles : declared.Settles (fun name => name ∈ declared.aliasNames ∧ ¬ declared.Broken name) ∅ s.aliases) :
    (∀ cycle ∈ cyclesIn (declared.failures uses s),
        declared.ReportedCycle s.aliases (declared.resolveEach uses s).1.aliases cycle) ∧
      (cyclesIn (declared.failures uses s)).Pairwise List.Disjoint := by
  induction uses generalizing s with
  | nil => exact ⟨by simp [failures, cyclesIn], .nil⟩
  | cons source rest ih =>
    obtain ⟨isOne, others⟩ := List.forall_mem_cons.1 each
    have asked := h.grounded.resolve_asked h (mem_aliasNames.2 ⟨source, isOne, rfl⟩) settles
    obtain ⟨_, kept, _⟩ := h.grounded.resolveEach_settles h others asked.settles
    obtain ⟨cycles, apart⟩ := ih others asked.settles
    have after := fun cycle mem => (cycles cycle mem).mono asked.advances.kept fun _ _ has => has
    rw [resolveEach_cons, failures]
    cases ran : (declared.table.resolveAlias source.name).run.run s with
    | mk result later =>
      rw [ran] at asked kept cycles apart after
      cases result with
      | ok t => exact ⟨after, apart⟩
      | error error =>
        cases error with
        | aliasCycle members =>
          obtain ⟨inner, last, rfl, traced⟩ := asked.traced members rfl
          refine ⟨List.forall_mem_cons.2 ⟨traced.reported.mono (.refl _) kept, after⟩, List.pairwise_cons.2 ⟨?_, apart⟩⟩
          intro cycle mem name isHere isThere
          obtain ⟨t, has⟩ := (traced.reported.isNew name isHere).2
          exact ((cycles cycle mem).isNew name isThere).1 t has
        | _ => exact ⟨after, apart⟩

theorem not_broken_of_unfoldAlias {depth : Nat} {name : String} {s : Lowering} {t : Ty}
    (mem : name ∈ declared.aliasNames) (h : declared.EnteredAliases)
    (done : ((declared.unfoldAlias depth name).run.run s).1 = .ok t) : ¬ declared.Broken name := by
  induction depth generalizing name s t with
  | zero => cases done
  | succ depth ih =>
    obtain ⟨written, path, found⟩ := h.target mem
    have moves : Moves (fun _ => True) (fun _ _ => True) (fun _ _ _ => True)
        ((AliasTarget.expression written path).lower declared.table (declared.unfoldAlias depth))
        fun _ => written.Answered (declared.table.heads path []) fun other _ => ¬ declared.Broken other := by
      refine written.lower_moves ⟨fun _ => trivial, fun _ _ => trivial, fun _ _ => ⟨trivial, trivial⟩, fun _ _ => trivial,
        fun _ _ => trivial⟩ (fun _ _ _ _ _ whole => whole) fun other named now _ => ⟨fun t answer => ?_, fun _ _ => trivial⟩
      exact ⟨trivial, trivial, ih (h.mem_of_refers ⟨written, path, found, named⟩) answer⟩
    rw [unfoldAlias, found] at done
    obtain ⟨_, _, answered⟩ := (moves s trivial).1 t done
    intro broken
    rcases broken.refers_or with ⟨other, ⟨_, _, again, named⟩, isBroken⟩ | none
    · cases found.symm.trans again
      obtain ⟨_, whole⟩ := answered.calls other named
      exact whole isBroken
    · exact none ⟨written, path, found, answered.resolves⟩

theorem EnteredAliases.not_broken_iff (h : declared.EnteredAliases) {name : String} (mem : name ∈ declared.aliasNames) :
    ¬ declared.Broken name ↔ ∃ depth t, ((declared.unfoldAlias depth name).run.run {}).1 = .ok t := by
  constructor
  · intro whole
    have deep := h.grounded.rank_lt_card ⟨mem, whole⟩
    obtain ⟨later, ran, _⟩ := h.grounded.unfoldAlias_gives ⟨mem, whole⟩ deep {} trivial
    exact ⟨_, _, congrArg Prod.fst ran⟩
  · rintro ⟨depth, t, done⟩
    exact not_broken_of_unfoldAlias mem h done

/-- Whatever is declared, every alias comes to a type. Nothing is reported exactly if all of them can be unfolded. Every
cycle that is reported is one, and no alias is on two of them. -/
theorem alias_cycles_reported_once (units : List SourceUnit) :
    let declared := (Declarations.declareUnits {} units).1
    let failures := declared.failures declared.table.aliases { aliases := declared.aliases }
    (∀ source ∈ declared.table.aliases, ∃ t, declared.resolveAliases.1.aliases.find? source.name = some (.resolved t)) ∧
      (declared.resolveAliases.2.diagnostics = [] ↔ ∀ source ∈ declared.table.aliases,
        ∃ depth t, ((declared.unfoldAlias depth source.name).run.run {}).1 = .ok t) ∧
      declared.resolveAliases.2.diagnostics = failures.map declared.failureReport ∧
      (∀ cycle ∈ cyclesIn failures, declared.IsCycle cycle) ∧ (cyclesIn failures).Pairwise List.Disjoint := by
  intro declared failures
  have entered : declared.EnteredAliases := EnteredAliases.empty.declareUnits units
  have start : declared.Settles (fun name => name ∈ declared.aliasNames ∧ ¬ declared.Broken name) ∅
      ({ aliases := declared.aliases } : Lowering).aliases := .initial _ _
  have named : ∀ source ∈ declared.table.aliases, source.name ∈ declared.aliasNames :=
    fun source mem => mem_aliasNames.2 ⟨source, mem, rfl⟩
  obtain ⟨_, _, each, _⟩ := entered.grounded.resolveEach_settles entered (fun _ mem => mem) start
  obtain ⟨silent, _⟩ := entered.resolveEach_comesTo fun _ => Iff.rfl
  obtain ⟨cycles, apart⟩ := entered.cyclesIn_failures (fun _ mem => mem) start
  refine ⟨each, silent.trans ⟨fun whole source mem => ?_, fun unfolds name mem => ?_⟩, ?_,
    fun cycle mem => (cycles cycle mem).isCycle, apart⟩
  · exact (entered.not_broken_iff (named source mem)).1 (whole _ (named source mem))
  · obtain ⟨source, isOne, rfl⟩ := mem_aliasNames.1 mem
    exact (entered.not_broken_iff mem).2 (unfolds source isOne)
  · exact declared.resolveEach_failures _ _

end Declarations

end SemanticChecker
