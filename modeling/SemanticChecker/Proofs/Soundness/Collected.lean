import SemanticChecker.Proofs.Composition.Regular

/-! What collecting the declarations of a program leaves behind, beside types that fit: structs have the methods that
they declare, and without an error every number stands for an enum that was accepted. -/
namespace SemanticChecker

open List

namespace Collected

variable (bounds : BoundTable) (units : List SourceUnit)

theorem ofUnits_external : External (ofUnits bounds units).diagnostics := by
  have aliases : (resolved units).aliases.Fits (((resolved units).table.arities bounds).within True fun _ => False) :=
    resolved_aliases (.inl trivial)
  have refused := Declarations.resolveEach_fits (named_entered units).named
    (show (((named units).table.arities bounds).within True fun _ => True).arities = _ from rfl) (named units).table.aliases
  refine (forall_mem_diagnostics fun _ _ => Iff.rfl).2 ⟨?_, ?_, fun found mem => ?_, fun d mem => ?_⟩
  · exact (Declarations.Entered.declareUnits units (fun _ h => mem_map_of_mem h)
      (Declarations.entered_empty _)).2
  · exact (refused _).1
  · simp only [Declarations.findings, mem_append, mem_map] at mem
    rcases mem with ⟨own, _, rfl⟩ | ⟨own, _, rfl⟩ | ⟨source, _, rfl⟩
    · exact (Declarations.lowerStruct_regular (resolved_named units) aliases own).1.fresh.1
    · exact (Declarations.lowerFunction_regular (resolved_named units) aliases own).1.fresh.1
    · exact ((resolved units).lowerEnum_ensures source).fresh.1
  · obtain ⟨error, unit, rfl⟩ := Declarations.mem_installAll mem
    exact error.code_ne_internal

theorem ofUnits_methods (id : StructId) (own : StructDef)
    (found : (ofUnits bounds units).declared.table.struct? id = some own) :
    own.shape.methods.map MethodDef.name = own.decl.methods.map FunctionDecl.name := by
  rw [struct?_ofUnits] at found
  obtain ⟨before, here, rfl⟩ := Option.map_eq_some_iff.1 found
  exact (shapeOf_regular (.inl trivial : True ∨ _) (mem_of_getElem? here)).2.2

theorem ofUnits_enums (harmless : Harmless (ofUnits bounds units).diagnostics) (id : EnumId)
    (inside : id.index < (ofUnits bounds units).declared.table.enums.length) :
    ∃ info, (ofUnits bounds units).declared.enums.get? id = some info := by
  obtain ⟨_, _, silent, defined⟩ := ofUnits_harmless.1 harmless
  rw [table_ofUnits] at inside
  have here : (named units).table.enum? id = some (named units).table.enums[id.index] := getElem?_eq_getElem inside
  have isOne := getElem_mem inside
  have finding : (resolved units).definitionFindings (named units).table.enums[id.index] ∈
      (resolved units).findings bounds :=
    mem_append_right _ (mem_append_right _ (mem_map_of_mem isOne))
  obtain ⟨read, isRead⟩ := ((resolved units).lowerEnum_ensures _).fresh.2 (silent _ finding)
  obtain ⟨info, rfl⟩ := defined _ isOne read isRead
  exact ⟨info, (enums_ofUnits bounds units here).trans (congrArg (Option.bind · Except.toOption) isRead)⟩

end Collected

end SemanticChecker
