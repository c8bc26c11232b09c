import Mathlib.Data.Finset.Card
import Mathlib.Logic.Relation
import SemanticChecker.Proofs.Alias.Meaning
import SemanticChecker.Proofs.Soundness.Declared

/-! Unfolding aliases without any memory. An alias that leads neither back to itself nor to a name without a meaning
leads to fewer aliases than those that name it do. That number bounds how deep it unfolds. -/
namespace SemanticChecker

open List

open Relation

/-- What names stand for inside a module, where some type parameters are in scope. -/
def DeclTable.heads (table : DeclTable) (module : ModulePath) (parameters : List Ty) : String → Option TypeHead :=
  TypeScope.head? { table, aliasOf := fun name => throw (.unresolved name), module, parameters }

namespace Declarations

/-- Whether the target of an alias names another alias, at any depth. -/
def Refers (declared : Declarations) (name other : String) : Prop :=
  ∃ written path, declared.aliases.find? name = some (.pending (.expression written path)) ∧
    other ∈ written.aliases (declared.table.heads path [])

/-- The type of an alias, found by lowering its target again each time it is needed. The number bounds how many targets
are open at once. -/
def unfoldAlias (declared : Declarations) : Nat → String → LowerM Ty
  | 0, name => throw (.unresolved name)
  | depth + 1, name =>
    match declared.aliases.find? name with
    | some (.pending target) => target.lower declared.table (declared.unfoldAlias depth)
    | some (.resolved t) => pure t
    | _ => throw (.unresolved name)

def aliasNames (declared : Declarations) : Finset String :=
  (declared.table.aliases.map AliasSource.name).toFinset

theorem mem_aliasNames {declared : Declarations} {name : String} :
    name ∈ declared.aliasNames ↔ ∃ source ∈ declared.table.aliases, source.name = name := by
  simp [aliasNames]

theorem card_aliasNames_le (declared : Declarations) : declared.aliasNames.card ≤ declared.table.aliases.length := by
  simpa [aliasNames] using toFinset_card_le (declared.table.aliases.map AliasSource.name)

open Classical in
/-- How many aliases an alias leads to. -/
noncomputable def rank (declared : Declarations) (name : String) : Nat :=
  (declared.aliasNames.filter (TransGen declared.Refers name)).card

def unfolded (declared : Declarations) : Nat → String → Ty
  | 0, _ => .error
  | depth + 1, name =>
    match declared.aliases.find? name with
    | some (.pending (.expression written path)) =>
      written.meaning (declared.table.heads path []) (declared.unfolded depth)
    | _ => .error

def aliasType (declared : Declarations) (name : String) : Ty :=
  declared.unfolded declared.aliasNames.card name

def applications (declared : Declarations) (name : String) : List PendingBound :=
  match declared.aliases.find? name with
  | some (.pending (.expression written path)) =>
    written.applications (declared.table.heads path []) declared.aliasType
  | _ => []

end Declarations

theorem DeclTable.lookup_of_heads {table : DeclTable} {module : ModulePath} {parameters : List Ty}
    {name qualified : String} (found : table.heads module parameters name = some (.typeAlias qualified)) :
    table.lookup qualified = some .typeAlias := by
  rw [DeclTable.heads, TypeScope.head?] at found
  split at found
  · cases found
  · split at found
    · cases found
    · split at found
      · cases found
      · split at found
        · cases found
        · split at found
          · rename_i other symbol resolved
            obtain ⟨candidate, _, looked⟩ := exists_of_findSome?_eq_some resolved
            obtain ⟨same, looked, pair⟩ := Option.map_eq_some_iff.1 looked
            cases pair
            cases symbol with
            | typeAlias =>
              cases found
              exact looked
            | _ => cases found
          · simp at found

namespace Declarations

/-- What entering names keeps true of the aliases: the names that stand for aliases are those that were declared, and
their targets are the only ones that are not resolved. -/
structure EnteredAliases (declared : Declarations) : Prop where
  sources : ∀ name, declared.table.lookup name = some .typeAlias →
    ∃ source ∈ declared.table.aliases, source.name = name
  targets : ∀ source ∈ declared.table.aliases, ∃ written path,
    declared.aliases.find? source.name = some (.pending (.expression written path))
  pending : ∀ name target, declared.aliases.find? name = some (.pending target) →
    ∃ source ∈ declared.table.aliases, source.name = name

namespace EnteredAliases

theorem lookup_concat {table more : DeclTable} {name other : String} {symbol found : Symbol}
    (symbols : more.symbols = table.symbols ++ [(name, symbol)]) (looked : more.lookup other = some found) :
    table.lookup other = some found ∨ other = name ∧ found = symbol := by
  rw [DeclTable.lookup, symbols, List.lookup_append, Option.or_eq_some_iff] at looked
  rcases looked with looked | ⟨_, looked⟩
  · exact .inl looked
  · refine .inr ?_
    by_cases same : other = name
    · simpa [same, eq_comm] using looked
    · have differ : (other == name) = false := by simpa using same
      simp [lookup_cons, differ] at looked

theorem enter {declared : Declarations} (h : declared.EnteredAliases) (unit : SourceUnit) (name : String)
    (declaration : Declaration) : (declared.enter unit name declaration).EnteredAliases := by
  cases declaration with
  | typeAlias decl =>
    refine ⟨fun other looked => ?_, fun source mem => ?_, fun other target found => ?_⟩
    · rcases lookup_concat rfl looked with looked | ⟨rfl, _⟩
      · obtain ⟨source, mem, same⟩ := h.sources other looked
        exact ⟨source, mem_append_left _ mem, same⟩
      · exact ⟨_, mem_append_right _ (mem_singleton.2 rfl), rfl⟩
    · simp only [Declarations.enter, AliasTable.find?_set]
      split
      · exact ⟨_, _, rfl⟩
      · rename_i differ
        rcases mem_append.1 mem with mem | mem
        · exact h.targets source mem
        · rw [mem_singleton.1 mem] at differ
          exact (differ rfl).elim
    · by_cases same : other = name
      · exact ⟨_, mem_append_right _ (mem_singleton.2 rfl), same.symm⟩
      · obtain ⟨source, mem, named⟩ := h.pending other target (by simpa [Declarations.enter, same] using found)
        exact ⟨source, mem_append_left _ mem, named⟩
  | _ =>
    refine ⟨fun other looked => ?_, h.targets, h.pending⟩
    rcases lookup_concat rfl looked with looked | ⟨_, impossible⟩
    · exact h.sources other looked
    · cases impossible

theorem declareUnits (units : List SourceUnit) {declared : Declarations} (h : declared.EnteredAliases) :
    (declared.declareUnits units).1.EnteredAliases :=
  declareUnits_keeps (fun _ _ h => { h with }) (fun _ unit name declaration _ h => h.enter unit name declaration) units
    declared h

theorem empty : EnteredAliases {} where
  sources _ looked := by cases looked
  targets _ mem := by cases mem
  pending name target found := by
    have resolved : ∀ entry ∈ AliasTable.standard.entries, ∃ t, entry.2 = .resolved t := by
      simp [AliasTable.standard, builtinAlias?]
    obtain ⟨t, same⟩ := resolved _ (mem_of_lookup found)
    cases same

end EnteredAliases

variable {declared : Declarations} {name : String}

theorem EnteredAliases.mem_of_aliases (h : declared.EnteredAliases) {module : ModulePath} {parameters : List Ty}
    {type : TypeExpr} (mem : name ∈ type.aliases (declared.table.heads module parameters)) :
    name ∈ declared.aliasNames := by
  obtain ⟨_, found⟩ := type.head_of_alias mem
  exact mem_aliasNames.2 (h.sources name (DeclTable.lookup_of_heads found))

theorem EnteredAliases.mem_of_refers (h : declared.EnteredAliases) {other : String}
    (refers : declared.Refers name other) : other ∈ declared.aliasNames := by
  obtain ⟨written, path, _, mem⟩ := refers
  exact h.mem_of_aliases mem

theorem EnteredAliases.target (h : declared.EnteredAliases) (mem : name ∈ declared.aliasNames) :
    ∃ written path, declared.aliases.find? name = some (.pending (.expression written path)) := by
  obtain ⟨source, isOne, rfl⟩ := mem_aliasNames.1 mem
  exact h.targets source isOne

/-- The aliases that have a meaning: all names in their targets stand for something, and the aliases there are such
aliases again. None of them leads back to itself. -/
structure Grounded (declared : Declarations) (good : String → Prop) : Prop where
  names : ∀ name, good name → name ∈ declared.aliasNames
  targets : ∀ name, good name → ∃ written path,
    declared.aliases.find? name = some (.pending (.expression written path)) ∧
      written.Resolves (declared.table.heads path [])
  refers : ∀ name other, good name → declared.Refers name other → good other
  acyclic : ∀ name, good name → ¬ TransGen declared.Refers name name
  full : ∀ name ∈ declared.aliasNames, ∀ written path,
    declared.aliases.find? name = some (.pending (.expression written path)) →
      written.Resolves (declared.table.heads path []) →
        (∀ other ∈ written.aliases (declared.table.heads path []), good other) → good name

namespace Grounded

variable {declared : Declarations} {good : String → Prop} (h : declared.Grounded good) {name other : String}

include h

theorem rank_lt (isGood : good name) (refers : declared.Refers name other) :
    declared.rank other < declared.rank name := by
  classical
  have inside := h.refers name other isGood refers
  refine Finset.card_lt_card ((Finset.ssubset_iff_of_subset fun last mem => ?_).2 ⟨other, ?_, ?_⟩)
  · rw [Finset.mem_filter] at mem ⊢
    exact ⟨mem.1, .head refers mem.2⟩
  · exact Finset.mem_filter.2 ⟨h.names other inside, .single refers⟩
  · simp [h.acyclic other inside]

theorem rank_lt_card (isGood : good name) : declared.rank name < declared.aliasNames.card := by
  classical
  exact Finset.card_lt_card (Finset.filter_ssubset.2 ⟨name, h.names name isGood, h.acyclic name isGood⟩)

variable {depth : Nat} {written : TypeExpr} {path : ModulePath}

/-- An alias unfolds to the same type at every depth beyond its rank. -/
theorem unfolded_eq {further : Nat} (isGood : good name) (deep : declared.rank name < depth)
    (alsoDeep : declared.rank name < further) : declared.unfolded depth name = declared.unfolded further name := by
  induction depth generalizing further name with
  | zero => omega
  | succ depth ih =>
    obtain ⟨further, rfl⟩ : ∃ less, further = less + 1 := ⟨further - 1, by omega⟩
    rw [unfolded, unfolded]
    split
    · rename_i written path found
      refine written.meaning_congr fun next mem => ?_
      have refers : declared.Refers name next := ⟨written, path, found, mem⟩
      have lower := h.rank_lt isGood refers
      exact ih (h.refers _ _ isGood refers) (by omega) (by omega)
    · rfl

theorem aliasType_eq (isGood : good name)
    (found : declared.aliases.find? name = some (.pending (.expression written path))) :
    declared.aliasType name = written.meaning (declared.table.heads path []) declared.aliasType := by
  have deep := h.rank_lt_card isGood
  rw [aliasType, h.unfolded_eq isGood deep (Nat.lt_succ_of_lt deep), unfolded, found]
  rfl

theorem lower_target {known : Lowering → Prop} {aliasOf : String → LowerM Ty} (isGood : good name)
    (found : declared.aliases.find? name = some (.pending (.expression written path)))
    (each : ∀ other, declared.Refers name other → Gives known (aliasOf other) (declared.aliasType other) [])
    (stable : ∀ bound ∈ declared.applications name, ∀ s, known s → known { s with pending := s.pending ++ [bound] }) :
    Gives known ((AliasTarget.expression written path).lower declared.table aliasOf) (declared.aliasType name)
      (declared.applications name) := by
  obtain ⟨_, _, same, resolves⟩ := h.targets name isGood
  rw [found] at same
  cases same
  simp only [applications, found] at stable ⊢
  rw [h.aliasType_eq isGood found]
  exact written.lower_gives resolves (fun other named => each other ⟨written, path, found, named⟩) stable

theorem unfoldAlias_gives (isGood : good name) (deep : declared.rank name < depth) :
    Gives (fun _ => True) (declared.unfoldAlias depth name) (declared.aliasType name) [] := by
  induction depth generalizing name with
  | zero => omega
  | succ depth ih =>
    obtain ⟨written, path, found, _⟩ := h.targets name isGood
    rw [unfoldAlias, found]
    refine (h.lower_target isGood found (fun other refers => ih (h.refers _ _ isGood refers) ?_)
      fun _ _ _ _ => trivial).mono (nil_subset _)
    have lower := h.rank_lt isGood refers
    omega

end Grounded

end Declarations

end SemanticChecker
