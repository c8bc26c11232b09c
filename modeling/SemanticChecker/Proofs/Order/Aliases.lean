import Mathlib
import SemanticChecker.Check.Query
import SemanticChecker.Proofs.Alias.Broken
import SemanticChecker.Proofs.Order.Lowering
import SemanticChecker.Proofs.Soundness.Report

/-! Aliases in another order. The same aliases are broken, and those that are not come to the same types under other
numbers. What a broken alias comes to may depend on the order, if its target is more than a name. -/
namespace SemanticChecker

open List

open Relation

theorem Ty.isError_iff {t : Ty} : t.isError = true ↔ t = .error := by
  cases t <;> simp [isError]

namespace Declarations

/-- Whether the same was declared under other numbers, and no alias is resolved yet. -/
structure Restates (ρ : Renaming) (declared others : Declarations) : Prop where
  table : declared.table.Renames ρ others.table
  targets : ∀ name, others.aliases.find? name = declared.aliases.find? name

namespace Restates

variable {ρ : Renaming} {declared others : Declarations} (h : declared.Restates ρ others)

include h

theorem heads (module : ModulePath) :
    HeadsRename ρ (declared.table.heads module []) (others.table.heads module []) :=
  TypeScope.head?_rename h.table rfl rfl

theorem refers_iff {name other : String} : others.Refers name other ↔ declared.Refers name other := by
  have same : ∀ path (written : TypeExpr), written.aliases (others.table.heads path []) =
      written.aliases (declared.table.heads path []) := fun path => TypeExpr.aliases_rename (h.heads path)
  simp only [Refers, h.targets, same]

theorem resolvable_iff {name : String} : others.Resolvable name ↔ declared.Resolvable name := by
  have same : ∀ path (written : TypeExpr), written.Resolves (others.table.heads path []) ↔
      written.Resolves (declared.table.heads path []) := fun path => TypeExpr.resolves_rename (h.heads path)
  simp only [Resolvable, h.targets, same]

theorem forwards_iff {name other : String} : others.Forwards name other ↔ declared.Forwards name other := by
  have same : ∀ path spelling, others.table.heads path [] spelling = some (.typeAlias other) ↔
      declared.table.heads path [] spelling = some (.typeAlias other) := by
    intro path spelling
    rw [h.heads path spelling]
    cases declared.table.heads path [] spelling with
    | none => rfl
    | some head => cases head <;> simp [TypeHead.rename]
  simp only [Forwards, h.targets, same]

theorem broken_iff {name : String} : others.Broken name ↔ declared.Broken name := by
  have same : others.Refers = declared.Refers := funext₂ fun _ _ => propext h.refers_iff
  simp only [Broken, same, h.resolvable_iff]

theorem nests_iff {name : String} : others.Nests name ↔ declared.Nests name := by
  have same : others.Forwards = declared.Forwards := funext₂ fun _ _ => propext h.forwards_iff
  simp only [Nests, same, h.resolvable_iff]

theorem aliasNames_eq : others.aliasNames = declared.aliasNames :=
  toFinset_eq_of_perm _ _ (h.table.aliases.map _)

theorem unfolded_rename (depth : Nat) (name : String) :
    others.unfolded depth name = (declared.unfolded depth name).rename ρ := by
  induction depth generalizing name with
  | zero => rfl
  | succ depth ih =>
    rw [unfolded, unfolded, h.targets]
    split
    · exact TypeExpr.meaning_rename (h.heads _) ih _
    · rfl

theorem aliasType_rename (name : String) : others.aliasType name = (declared.aliasType name).rename ρ := by
  rw [aliasType, aliasType, h.aliasNames_eq]
  exact h.unfolded_rename _ name

end Restates

theorem resolveEach_eq_nil {declared : Declarations} {uses : List AliasSource} {s : Lowering}
    (harmless : Harmless (declared.resolveEach uses s).2) : (declared.resolveEach uses s).2 = [] := by
  induction uses generalizing s with
  | nil => rfl
  | cons source rest ih =>
    rw [resolveEach] at harmless ⊢
    cases ran : (declared.table.resolveAlias source.name).run.run s with
    | mk result later =>
      rw [ran] at harmless
      cases result with
      | ok t => exact ih harmless
      | error error => exact absurd (harmless _ (mem_cons_self ..)) (by cases error <;> rintro ⟨⟩)

end Declarations

/-- In another order the same is declared under other numbers. -/
theorem Reordered.restates {units others : List SourceUnit} (h : Reordered units others)
    (distinct : Harmless (Declarations.declareUnits {} units).2.flatten) : ∃ ρ : Renaming, ∀ shift,
      (Collected.named units).Restates (ρ.shiftedBy shift) (Collected.named others) := by
  obtain ⟨ρ, renames⟩ := h.named_renames distinct
  exact ⟨ρ, fun shift => ⟨renames shift, h.named_aliases distinct⟩⟩

namespace Collected

theorem named_alias_free (units : List SourceUnit) :
    ∀ source ∈ (named units).table.aliases, Primitive.ofName? source.name = none := by
  refine Declarations.declareUnits_keeps
    (P := fun declared => ∀ source ∈ declared.table.aliases, Primitive.ofName? source.name = none)
    (fun _ _ h => h) (fun declared unit name declaration free h => ?_) units {} fun _ mem => by cases mem
  cases declaration with
  | typeAlias decl =>
    exact forall_mem_append.2 ⟨h, forall_mem_singleton.2 (Declarations.clash?_eq_none.1 free).2.2⟩
  | _ => exact h

theorem named_enteredAliases (units : List SourceUnit) : (named units).EnteredAliases :=
  Declarations.EnteredAliases.empty.declareUnits units

end Collected

namespace CheckReport

variable (options : CheckOptions) (units : List SourceUnit)

theorem resolveType_alias {name : String} (mem : name ∈ (Collected.named units).aliasNames) {t : Ty}
    (found : (Collected.resolved units).aliases.type? name = some t) :
    (ofUnits options units).resolveType name = if t.isError then .error (.unresolved name) else .ok t := by
  obtain ⟨source, isOne, rfl⟩ := Declarations.mem_aliasNames.1 mem
  have looked : (ofUnits options units).table.lookup source.name = some .typeAlias := by
    have entered := ((Collected.named_indexed units).aliases source.name).2 ⟨source, isOne, rfl⟩
    exact (Collected.lookup_ofUnits .standard units source.name).trans entered
  have aliases : (ofUnits options units).context.declared.aliases = (Collected.resolved units).aliases :=
    Collected.aliases_ofUnits .standard units
  have contains : (Collected.resolved units).aliases.contains source.name = true := by
    rw [AliasTable.contains]
    cases entry : (Collected.resolved units).aliases.find? source.name with
    | none => simp [AliasTable.type?, entry] at found
    | some entry => rfl
  have named : (ofUnits options units).namedType source.name = .ok t := by
    rw [namedType, Collected.named_alias_free units source isOne, looked]
    simp [aliasedType, aliases, contains, found]
  rw [resolveType, named]
  change (if t.isError then _ else _) = _
  split <;> rfl

/-- What is answered about an alias. One that is broken stands for nothing, unless it is nested in a target whose other
aliases came to something before. -/
structure AnswersAlias (report : CheckReport) (declared : Declarations) (name : String) : Prop where
  whole : ¬ declared.Broken name → report.resolveType name = .ok (declared.aliasType name)
  broken : declared.Broken name → report.resolveType name = .error (.unresolved name) ∨
    declared.Nests name ∧ ∃ t, report.resolveType name = .ok t ∧ declared.Built report.context.declared.aliases name t

theorem answersAlias {name : String} (mem : name ∈ (Collected.named units).aliasNames) :
    (ofUnits options units).AnswersAlias (Collected.named units) name := by
  have entered := Collected.named_enteredAliases units
  obtain ⟨t, comes⟩ := (entered.resolveEach_comesTo fun _ => Iff.rfl).2 name mem
  have answer := resolveType_alias options units mem comes.type
  have aliases : (ofUnits options units).context.declared.aliases = (Collected.resolved units).aliases :=
    Collected.aliases_ofUnits .standard units
  refine ⟨fun whole => ?_, fun broken => ?_⟩
  · obtain ⟨rfl, proper⟩ := comes.meant whole
    rw [answer, if_neg (mt Ty.isError_iff.1 proper)]
  · by_cases isError : t.isError = true
    · exact .inl (answer.trans (if_pos isError))
    · rcases comes.broken broken with rfl | ⟨nests, built⟩
      · exact (isError rfl).elim
      · rw [aliases]
        exact .inr ⟨nests, t, answer.trans (if_neg isError), built⟩

theorem not_eligible_of_broken {name : String} (mem : name ∈ (Collected.named units).aliasNames)
    (broken : (Collected.named units).Broken name) : (ofUnits options units).isEligible = false := by
  by_contra eligible
  have noErrors : (unguarded options units).log.hasErrors = false := by
    simp only [isEligible, Bool.not_eq_false, Bool.and_eq_true, Bool.not_eq_true'] at eligible
    have checked := eligible.1
    rw [ofUnits, hasErrors_guard, Bool.or_eq_false_iff] at checked
    exact checked.1
  obtain ⟨collected, _⟩ := (unguarded_hasErrors_eq_false options units).1 noErrors
  have aliases : Harmless (Collected.named units).resolveAliases.2.diagnostics :=
    (harmless_append.1 (harmless_append.1 collected).1).2
  have silent := Declarations.resolveEach_eq_nil aliases
  exact ((Collected.named_enteredAliases units).resolveEach_comesTo fun _ => Iff.rfl).1.1 silent name mem broken

/-- An alias that is not broken always stands for its type. A broken one stands for nothing, except that it may stand for
a type built around the error type, where it nests; then something is reported all the same. In another order the same
aliases are broken and nest, and the same have an answer, unless they are broken and nest. -/
theorem broken_aliases_answered (options : CheckOptions) (units : List SourceUnit) :
    let declared := Collected.named units
    let report := ofUnits options units
    (∀ name ∈ declared.aliasNames, report.AnswersAlias declared name) ∧
    (declared.resolveAliases.2.diagnostics = [] ↔ ∀ name ∈ declared.aliasNames, ¬ declared.Broken name) ∧
    (∀ name ∈ declared.aliasNames, declared.Broken name → report.isEligible = false) ∧
    ∀ others, Reordered units others → Harmless (Declarations.declareUnits {} units).2.flatten →
      let declared' := Collected.named others
      declared'.aliasNames = declared.aliasNames ∧
      (∀ name, (declared'.Broken name ↔ declared.Broken name) ∧ (declared'.Nests name ↔ declared.Nests name)) ∧
      ∀ name ∈ declared.aliasNames, ¬ (declared.Broken name ∧ declared.Nests name) →
        ((∃ t, report.resolveType name = .ok t) ↔ ∃ t, (ofUnits options others).resolveType name = .ok t) := by
  intro declared report
  refine ⟨fun name mem => answersAlias options units mem, ?_, fun name mem broken => ?_, ?_⟩
  · exact ((Collected.named_enteredAliases units).resolveEach_comesTo fun _ => Iff.rfl).1
  · exact not_eligible_of_broken options units mem broken
  · intro others reordered distinct declared'
    obtain ⟨ρ, restates⟩ := reordered.restates distinct
    have restated := restates 0
    have names : declared'.aliasNames = declared.aliasNames := restated.aliasNames_eq
    refine ⟨names, fun name => ⟨restated.broken_iff, restated.nests_iff⟩, fun name mem settled => ?_⟩
    have here := answersAlias options units mem
    have there := answersAlias options others (names ▸ mem)
    by_cases broken : declared.Broken name
    · have flat : ¬ declared.Nests name := fun nests => settled ⟨broken, nests⟩
      have mine := (here.broken broken).resolve_right fun built => flat built.1
      have yours := (there.broken (restated.broken_iff.2 broken)).resolve_right fun built =>
        flat (restated.nests_iff.1 built.1)
      simp [report, mine, yours]
    · have mine := here.whole broken
      have yours := there.whole fun isBroken => broken (restated.broken_iff.1 isBroken)
      simp [report, mine, yours]

/-- The aliases `Loop`, for itself, `Other`, for `Loop`, `Loops`, for `List[Loop]`, and `Plain`, for `List[int]`. -/
def loopDeclarations : List Declaration :=
  let applied (name : String) (arguments : List TypeExpr) : TypeExpr := ⟨.named name arguments, {}⟩
  [.typeAlias { name := "Loop", target := applied "Loop" [] },
    .typeAlias { name := "Other", target := applied "Loop" [] },
    .typeAlias { name := "Loops", target := applied "List" [applied "Loop" []] },
    .typeAlias { name := "Plain", target := applied "List" [applied "int" []] }]

def loopUnit (declarations : List Declaration) : SourceUnit :=
  { id := ⟨0⟩, declarations }

/-- `Other` has no answer in either order, and `Plain` has one in both. -/
theorem broken_aliases_answered_loops :
    let units := [loopUnit loopDeclarations]
    let others := [loopUnit loopDeclarations.reverse]
    let declared := Collected.named units
    Reordered units others ∧ Harmless (Declarations.declareUnits {} units).2.flatten ∧
    declared.Broken "Other" ∧ ¬ declared.Nests "Other" ∧ ¬ declared.Broken "Plain" ∧
    (ofUnits {} others).AnswersAlias (Collected.named others) "Other" ∧
    ∀ name ∈ ["Other", "Plain"],
      ((∃ t, (ofUnits {} units).resolveType name = .ok t) ↔ ∃ t, (ofUnits {} others).resolveType name = .ok t) := by
  intro units others declared
  have reordered : Reordered units others :=
    ⟨others, .cons ⟨rfl, rfl, (reverse_perm _).symm⟩ .nil, .refl _⟩
  have distinct : Harmless (Declarations.declareUnits {} units).2.flatten := by
    rw [show (Declarations.declareUnits {} units).2.flatten = [] from rfl]
    exact harmless_nil
  have other : declared.Forwards "Other" "Loop" := ⟨_, _, _, rfl, rfl⟩
  have loop : declared.Forwards "Loop" "Loop" := ⟨_, _, _, rfl, rfl⟩
  have onlyLoop : ∀ name, name = "Other" ∨ name = "Loop" → ∀ next, declared.Forwards name next → next = "Loop" := by
    rintro name (rfl | rfl) next ⟨_, _, _, found, head⟩ <;> cases found <;> cases head <;> rfl
  have reaches : ∀ last, ReflTransGen declared.Forwards "Other" last → last = "Other" ∨ last = "Loop" := by
    intro last way
    induction way with
    | refl => exact .inl rfl
    | tail _ step ih => exact .inr (onlyLoop _ ih _ step)
  have flat : ¬ declared.Nests "Other" := by
    rintro ⟨last, way, _, none⟩
    rcases reaches last way with rfl | rfl
    · exact none "Loop" other
    · exact none "Loop" loop
  have broken : declared.Broken "Other" :=
    ⟨"Loop", .single ⟨_, _, rfl, mem_singleton.2 rfl⟩, .inl (.single ⟨_, _, rfl, mem_singleton.2 rfl⟩)⟩
  have alone : ∀ next, ¬ declared.Refers "Plain" next := by
    rintro next ⟨_, _, found, mem⟩
    cases found
    cases mem
  have plain : ¬ declared.Broken "Plain" := by
    intro isBroken
    rcases isBroken.refers_or with ⟨next, refers, _⟩ | none
    · exact alone next refers
    · exact none ⟨_, _, rfl, ⟨_, rfl, rfl⟩, ⟨⟨_, rfl, rfl⟩, trivial⟩, trivial⟩
  obtain ⟨_, _, _, swapped⟩ := broken_aliases_answered {} units
  obtain ⟨names, _, same⟩ := swapped others reordered distinct
  have mem : ∀ name ∈ ["Other", "Plain"], name ∈ declared.aliasNames := by
    have listed : ∀ name ∈ ["Other", "Plain"], name ∈ declared.table.aliases.map AliasSource.name := by decide
    exact fun name isOne => mem_toFinset.2 (listed name isOne)
  refine ⟨reordered, distinct, broken, flat, plain, ?_, fun name isOne => ?_⟩
  · exact (broken_aliases_answered {} others).1 "Other" (names ▸ mem "Other" (by simp))
  · refine same name (mem name isOne) ?_
    rcases mem_pair.1 isOne with rfl | rfl
    · exact fun both => flat both.2
    · exact fun both => plain both.1

/-- `Loops` is broken and nests. After `Loop` it stands for a list of the error type; before `Loop` it has no answer. -/
theorem nested_alias_by_order :
    (Collected.named [loopUnit loopDeclarations]).Broken "Loops" ∧
    (ofUnits {} [loopUnit loopDeclarations]).resolveType "Loops" = .ok (.list .error) ∧
    (ofUnits {} [loopUnit loopDeclarations.reverse]).resolveType "Loops" = .error (.unresolved "Loops") := by
  have loops : (Collected.named [loopUnit loopDeclarations]).Refers "Loops" "Loop" :=
    ⟨_, _, rfl, mem_singleton.2 rfl⟩
  have loop : (Collected.named [loopUnit loopDeclarations]).Refers "Loop" "Loop" :=
    ⟨_, _, rfl, mem_singleton.2 rfl⟩
  have broken : (Collected.named [loopUnit loopDeclarations]).Broken "Loops" :=
    ⟨"Loop", .single loops, .inl (.single loop)⟩
  have mem : ∀ declarations, ∀ name ∈ (Collected.named [loopUnit declarations]).table.aliases.map AliasSource.name,
      name ∈ (Collected.named [loopUnit declarations]).aliasNames := fun _ _ => mem_toFinset.2
  have after := resolveType_alias {} [loopUnit loopDeclarations] (mem _ "Loops" (by decide)) (t := .list .error) (by decide +kernel)
  have before := resolveType_alias {} [loopUnit loopDeclarations.reverse] (mem _ "Loops" (by decide)) (t := .error) (by decide +kernel)
  exact ⟨broken, after, before⟩

end CheckReport

end SemanticChecker
