import SemanticChecker.Proofs.Alias.Broken
import SemanticChecker.Proofs.Order.Aliases

/-! The declarations of a program in another order, with their meaning. Where collecting a program reports no error,
collecting it in another order reports none either. Every declaration has the same meaning under other numbers, and the
same bounds are left to be checked. -/
namespace SemanticChecker

open List

namespace Declarations

namespace Restates

variable {ρ : Renaming} {declared others : Declarations} (h : declared.Restates ρ others)

include h

theorem applications_rename (name : String) :
    others.applications name = (declared.applications name).map (PendingBound.rename ρ) := by
  rw [applications, applications, h.targets]
  split
  · exact TypeExpr.applications_rename (h.heads _) h.aliasType_rename _
  · rfl

variable (entered : declared.EnteredAliases) (entered' : others.EnteredAliases)
  (whole : ∀ name ∈ declared.aliasNames, ¬ declared.Broken name)

include entered entered' whole

theorem resolveAliases_renames : declared.resolveAliases.1.Renames ρ others.resolveAliases.1 where
  table := h.table
  aliases name isAlias := by
    have mem : name ∈ declared.aliasNames := mem_aliasNames.2 (entered.sources name isAlias)
    obtain ⟨t, comes⟩ := (entered.resolveEach_comesTo fun _ => Iff.rfl).2 name mem
    obtain ⟨t', comes'⟩ := (entered'.resolveEach_comesTo fun _ => Iff.rfl).2 name (h.aliasNames_eq ▸ mem)
    obtain ⟨rfl, _⟩ := comes.meant (whole name mem)
    obtain ⟨rfl, _⟩ := comes'.meant fun broken => whole name mem (h.broken_iff.1 broken)
    refine comes'.type.trans ?_
    rw [h.aliasType_rename]
    exact (congrArg (Option.map (Ty.rename ρ)) comes.type).symm

theorem resolveAliases_pending {bound : PendingBound} (mem : bound ∈ others.resolveAliases.2.pending) :
    ∃ mine ∈ declared.resolveAliases.2.pending, bound = mine.rename ρ := by
  have grounded : declared.Grounded (· ∈ declared.aliasNames) := by
    have same : (fun name => name ∈ declared.aliasNames ∧ ¬ declared.Broken name) = (· ∈ declared.aliasNames) :=
      funext fun name => propext (and_iff_left_of_imp (whole name))
    exact same ▸ entered.grounded
  have grounded' : others.Grounded (· ∈ others.aliasNames) := by
    have same : (fun name => name ∈ others.aliasNames ∧ ¬ others.Broken name) = (· ∈ others.aliasNames) := by
      refine funext fun name => propext (and_iff_left_of_imp fun mem => ?_)
      rw [h.broken_iff]
      exact whole name (h.aliasNames_eq ▸ mem)
    exact same ▸ entered'.grounded
  obtain ⟨name, isAlias, isOne⟩ := (grounded'.mem_pending entered' (fun _ => Iff.rfl) bound).1 mem
  rw [h.applications_rename] at isOne
  obtain ⟨mine, isMine, rfl⟩ := mem_map.1 isOne
  exact ⟨mine, (grounded.mem_pending entered (fun _ => Iff.rfl) mine).2 ⟨name, h.aliasNames_eq ▸ isAlias, isMine⟩, rfl⟩

end Restates

namespace Renames

variable {ρ : Renaming} {declared others : Declarations} (h : declared.Renames ρ others) (bounds : BoundTable)

include h

theorem shapeOf_rename (own : StructDef) :
    others.shapeOf bounds (own.rename ρ) = (declared.shapeOf bounds own).rename ρ :=
  (h.lowerStruct_follows bounds own {} {} (.empty ρ)).1

theorem signatureOf_rename (own : FunctionDef) :
    others.signatureOf bounds (own.rename ρ) = (declared.signatureOf bounds own).rename ρ :=
  ((h.scope own.module []).lowerSignature_follows bounds own.decl {} {} (.empty ρ)).1

theorem definitionOf_rename (source : EnumSource) :
    others.definitionOf (source.rename ρ) = declared.definitionOf source :=
  (h.lowerEnum_follows source {} {} (.empty ρ)).1

theorem findings_alike {found : Findings} (mem : found ∈ others.findings bounds) :
    ∃ mine ∈ declared.findings bounds, Findings.Alike ρ mine found := by
  simp only [findings, mem_append, mem_map] at mem ⊢
  rcases mem with ⟨own, isOne, rfl⟩ | ⟨own, isOne, rfl⟩ | ⟨source, isOne, rfl⟩
  · obtain ⟨mine, isMine, rfl⟩ := mem_map.1 (h.table.structs.mem_iff.1 isOne)
    exact ⟨_, .inl ⟨mine, isMine, rfl⟩, (h.lowerStruct_follows bounds mine {} {} (.empty ρ)).2⟩
  · obtain ⟨mine, isMine, rfl⟩ := mem_map.1 (h.table.functions.mem_iff.1 isOne)
    exact ⟨_, .inr (.inl ⟨mine, isMine, rfl⟩),
      ((h.scope mine.module []).lowerSignature_follows bounds mine.decl {} {} (.empty ρ)).2⟩
  · obtain ⟨mine, isMine, rfl⟩ := mem_map.1 (h.table.enums.mem_iff.1 isOne)
    exact ⟨_, .inr (.inr ⟨mine, isMine, rfl⟩), (h.lowerEnum_follows mine {} {} (.empty ρ)).2⟩

end Renames

theorem declareUnits_allErrors (units : List SourceUnit) (declared : Declarations) :
    AllErrors (declared.declareUnits units).2.flatten := by
  refine declareUnits_each (R := fun _ _ _ reports => AllErrors reports) (fun _ _ mem => by cases mem)
    (fun first second => forall_mem_append.2 ⟨first, second⟩) (fun noted => noted) units
    (fun unit _ declared declaration => ?_) declared
  rw [declare]
  cases declared.clash? (unit.module.qualify declaration.name) with
  | none => exact fun _ mem => by cases mem
  | some clash => exact forall_mem_singleton.2 rfl

end Declarations

namespace Collected

variable (bounds : BoundTable) (units : List SourceUnit)

variable {bounds units}

theorem mem_pending {bound : PendingBound} : bound ∈ (ofUnits bounds units).pending ↔
    bound ∈ (named units).resolveAliases.2.pending ∨
      ∃ found ∈ (resolved units).findings bounds, bound ∈ found.pending := by
  let lowered := units.map fun unit => (resolved units).lowerUnit bounds unit.id
  have count : ((resolved units).installAll lowered).2.length = lowered.length := Declarations.length_installAll ..
  have firsts : (lowered.zip ((resolved units).installAll lowered).2).map Prod.fst = lowered :=
    map_fst_zip (Nat.le_of_eq count.symm)
  have parts : (ofUnits bounds units).pending =
      (named units).resolveAliases.2.pending ++ lowered.flatMap LoweredUnit.pending :=
    congrArg (_ ++ ·) ((flatMap_map Prod.fst LoweredUnit.pending _).symm.trans (congrArg _ firsts))
  rw [parts, mem_append,
    ← mem_findings bounds units Findings.pending (fun _ _ => rfl) fun _ _ => rfl]
  simp only [lowered, mem_flatMap, mem_map, exists_exists_and_eq_and, Declarations.lowerUnit_eq]

theorem diagnostics_eq_nil (harmless : Harmless (ofUnits bounds units).diagnostics)
    (found : ∀ found ∈ (resolved units).findings bounds, AllErrors found.diagnostics) :
    (ofUnits bounds units).diagnostics = [] := by
  have aliases : (named units).resolveAliases.2.diagnostics = [] :=
    Declarations.resolveEach_eq_nil (ofUnits_harmless.1 harmless).2.1
  refine AllErrors.eq_nil ((forall_mem_diagnostics fun d unit => by rw [Diagnostic.isError_inSource]).2
    ⟨Declarations.declareUnits_allErrors units {}, ?_, found, fun d mem => ?_⟩) harmless
  · rw [aliases]
    exact fun _ mem => by cases mem
  · obtain ⟨error, unit, rfl⟩ := Declarations.mem_installAll mem
    exact error.isError_diagnostic

structure Renames (ρ : Renaming) (collected others : Collected) : Prop where
  declared : collected.declared.Renames ρ others.declared
  enums : ∀ id, others.declared.enums.get? (ρ.enum id) = collected.declared.enums.get? id
  pending : ∀ bound ∈ others.pending, ∃ mine ∈ collected.pending, bound = mine.rename ρ

section Installed

variable (bounds units)

theorem names_ofUnits : (ofUnits bounds units).declared.table.names = (named units).table.names := by
  rw [DeclTable.names, DeclTable.names, TypeNames.mk.injEq]
  refine ⟨funext fun id => ?_, funext fun id => by rw [enum?_ofUnits]⟩
  rw [struct?_ofUnits]
  cases (named units).table.struct? id <;> rfl

theorem enums_ofUnits_eq_none {id : EnumId} (missing : (named units).table.enum? id = none) :
    (ofUnits bounds units).declared.enums.get? id = none := by
  have size : (ofUnits bounds units).declared.enums.size = (named units).table.enums.length :=
    (Declarations.installAll_harmless _ (resolved units)).1.trans (named_entered units).registry
  have outside : (ofUnits bounds units).declared.enums.entries[id.index]? = none := by
    rw [DeclTable.enum?, List.getElem?_eq_none_iff] at missing
    rw [List.getElem?_eq_none_iff]
    exact Nat.le_trans (Nat.le_of_eq size) missing
  rw [EnumRegistry.get?, outside]

variable {units}

theorem nodup_ofUnits (distinct : Harmless (Declarations.declareUnits {} units).2.flatten) :
    let table := (ofUnits bounds units).declared.table
    (table.structs.map StructDef.name).Nodup ∧ (table.functions.map FunctionDef.name).Nodup ∧
      (table.enums.map EnumSource.name).Nodup := by
  have lists := named_lists distinct
  have structs : (named units).table.structs.map StructDef.located = declaredIn Declaration.struct? units := lists.structs
  have functions : (named units).table.functions.map FunctionDef.located = declaredIn Declaration.function? units :=
    lists.functions
  have enums : (named units).table.enums.map EnumSource.located = declaredIn Declaration.enum? units := lists.enums
  refine ⟨?_, ?_, ?_⟩
  · have nodup := nodup_names Declaration.struct? distinct
    rw [← structs, map_map] at nodup
    rw [structs_ofUnits, map_map]
    exact nodup
  · have nodup := nodup_names Declaration.function? distinct
    rw [← functions, map_map] at nodup
    rw [functions_ofUnits, map_map]
    exact nodup
  · have nodup := nodup_names Declaration.enum? distinct
    rw [← enums, map_map] at nodup
    rw [table_ofUnits]
    exact nodup

end Installed

section Renamed

variable {ρ : Renaming} {others : List SourceUnit} (restates : (named units).Restates ρ (named others))
  (renames : (resolved units).Renames ρ (resolved others))

include restates renames

theorem table_renames : (ofUnits bounds units).declared.table.Renames ρ (ofUnits bounds others).declared.table := by
  have struct : ∀ own : StructDef,
      { own.rename ρ with shape := (resolved others).shapeOf bounds (own.rename ρ) } =
        StructDef.rename ρ { own with shape := (resolved units).shapeOf bounds own } := by
    intro own
    rw [renames.shapeOf_rename bounds own]
    rfl
  have function : ∀ own : FunctionDef,
      { own.rename ρ with signature := (resolved others).signatureOf bounds (own.rename ρ) } =
        FunctionDef.rename ρ { own with signature := (resolved units).signatureOf bounds own } := by
    intro own
    rw [renames.signatureOf_rename bounds own]
    rfl
  refine ⟨fun name => ?_, fun id => ?_, fun id => ?_, fun id => ?_, ?_, ?_, ?_, ?_, ?_⟩
  · rw [lookup_ofUnits, lookup_ofUnits, restates.table.lookup]
  · rw [struct?_ofUnits, struct?_ofUnits, restates.table.struct?, Option.map_map, Option.map_map]
    exact congrFun (congrArg Option.map (funext struct)) _
  · rw [function?_ofUnits, function?_ofUnits, restates.table.function?, Option.map_map, Option.map_map]
    exact congrFun (congrArg Option.map (funext function)) _
  · rw [enum?_ofUnits, enum?_ofUnits, restates.table.enum?]
  · rw [structs_ofUnits, structs_ofUnits]
    refine (restates.table.structs.map _).trans (.of_eq ?_)
    rw [map_map, map_map]
    exact congrFun (congrArg List.map (funext struct)) _
  · rw [functions_ofUnits, functions_ofUnits]
    refine (restates.table.functions.map _).trans (.of_eq ?_)
    rw [map_map, map_map]
    exact congrFun (congrArg List.map (funext function)) _
  · rw [table_ofUnits, table_ofUnits]
    exact restates.table.enums
  · rw [table_ofUnits, table_ofUnits]
    exact restates.table.aliases
  · rw [names_ofUnits, names_ofUnits]
    exact restates.table.names

theorem enums_renames (id : EnumId) : (ofUnits bounds others).declared.enums.get? (ρ.enum id) =
    (ofUnits bounds units).declared.enums.get? id := by
  have there := restates.table.enum? id
  cases here : (named units).table.enum? id with
  | none =>
    rw [here] at there
    rw [enums_ofUnits_eq_none bounds units here, enums_ofUnits_eq_none bounds others there]
  | some source =>
    rw [here] at there
    rw [enums_ofUnits bounds units here, enums_ofUnits bounds others there, renames.definitionOf_rename]

end Renamed

end Collected

open Collected in
/-- Collecting a program without errors in another order gives the same under other numbers, and nothing is reported. -/
theorem Reordered.collected {bounds : BoundTable} {units others : List SourceUnit} (h : Reordered units others)
    (silent : Harmless (ofUnits bounds units).diagnostics) : (ofUnits bounds others).diagnostics = [] ∧
      ∃ ρ : Renaming, ∀ shift, (ofUnits bounds units).Renames (ρ.shiftedBy shift) (ofUnits bounds others) := by
  obtain ⟨distinct, aliases, found, defined⟩ := ofUnits_harmless.1 silent
  have entered := named_enteredAliases units
  have entered' := named_enteredAliases others
  have whole := (entered.resolveEach_comesTo fun _ => Iff.rfl).1.1 (Declarations.resolveEach_eq_nil aliases)
  obtain ⟨ρ, restates⟩ := h.restates distinct
  have renames : ∀ shift, (resolved units).Renames (ρ.shiftedBy shift) (resolved others) :=
    fun shift => (restates shift).resolveAliases_renames entered entered' whole
  refine ⟨diagnostics_eq_nil (ofUnits_harmless.2
      ⟨h.harmless distinct, ?_, fun other mem => ?_, fun source mem read isRead => ?_⟩) fun other mem => ?_,
    ρ, fun shift => ⟨⟨?_, ?_⟩, ?_, fun bound mem => ?_⟩⟩
  · have none : ∀ name ∈ (named others).aliasNames, ¬ (named others).Broken name := fun name mem broken =>
      whole name ((restates 0).aliasNames_eq ▸ mem) ((restates 0).broken_iff.1 broken)
    have quiet := (entered'.resolveEach_comesTo fun _ => Iff.rfl).1.2 none
    exact (show (named others).resolveAliases.2.diagnostics = [] from quiet) ▸ harmless_nil
  · obtain ⟨mine, isMine, alike⟩ := (renames 0).findings_alike bounds mem
    rw [alike.diagnostics.eq_nil (found mine isMine)]
    exact harmless_nil
  · obtain ⟨mine, isMine, rfl⟩ := mem_map.1 ((restates 0).table.enums.mem_iff.1 mem)
    rw [(renames 0).definitionOf_rename] at isRead
    exact defined mine isMine read isRead
  · obtain ⟨mine, isMine, alike⟩ := (renames 0).findings_alike bounds mem
    exact alike.diagnostics.allErrors
  · exact table_renames (restates shift) (renames shift)
  · intro name isAlias
    rw [aliases_ofUnits, aliases_ofUnits]
    exact (renames shift).aliases name ((lookup_ofUnits bounds units name).symm.trans isAlias)
  · exact enums_renames (restates shift) (renames shift)
  · rcases mem_pending.1 mem with mem | ⟨other, isFound, mem⟩
    · obtain ⟨mine, isMine, same⟩ := (restates shift).resolveAliases_pending entered entered' whole mem
      exact ⟨mine, mem_pending.2 (.inl isMine), same⟩
    · obtain ⟨mine, isMine, alike⟩ := (renames shift).findings_alike bounds isFound
      rw [alike.pending] at mem
      obtain ⟨pending, isPending, same⟩ := mem_map.1 mem
      exact ⟨pending, mem_pending.2 (.inr ⟨mine, isMine, isPending⟩), same.symm⟩

end SemanticChecker
