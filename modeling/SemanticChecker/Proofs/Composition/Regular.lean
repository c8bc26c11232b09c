import SemanticChecker.Proofs.Composition.Groups
import SemanticChecker.Proofs.Declared.Listing

/-! What holds of the structs of every program that is collected, whatever is reported on the way: they are
numbered by their position, what they compose are declared structs that are applied to as many arguments as they
have type parameters, and no type parameter is mentioned where it is not in scope. -/
namespace SemanticChecker

open List

theorem Ty.Fits.names {place : Place} {t : Ty} (h : t.Fits place) : ∀ name ∈ t.names, place.parameter name := by
  induction t using byParts (Q := fun ts => FitAll place ts → ∀ name ∈ namesAll ts, place.parameter name) <;>
    grind [Fits, FitAll, Ty.names, namesAll]

/-- What a struct names in its composition list applies a declared struct to as many arguments as it has type
parameters. The arguments mention the type parameters of the struct that composes. -/
structure ComposedParent.Applies (table : DeclTable) (own : StructDef) (parent : ComposedParent)
    (arguments : List Ty) (other : StructDef) : Prop where
  type : parent.type = .struct parent.id arguments
  declared : table.struct? parent.id = some other
  count : (Ty.namesOf other.typeParameters).length = arguments.length
  names : Ty.namesAll arguments ⊆ Ty.namesOf own.typeParameters

namespace ComposedParent.Applies

variable {table : DeclTable} {own other : StructDef} {parent : ComposedParent} {arguments : List Ty}

theorem parentInstantiation (h : parent.Applies table own arguments other) :
    Merge.parentInstantiation table parent.type = other.instantiation arguments := by
  rw [h.type, Merge.parentInstantiation, h.declared]

theorem composes (h : parent.Applies table own arguments other) {id : StructId} (found : table.struct? id = some own)
    (mem : parent ∈ own.shape.composes) : table.Composes id parent.id :=
  ⟨own, found, mem_map_of_mem mem, by rw [h.declared]; rfl⟩

end ComposedParent.Applies

/-- A table whose structs are numbered by their position, have the type parameters they are declared with and
compose declared structs as they are declared, and whose methods mention no type parameters but their own and those
of the struct. -/
structure DeclTable.Regular (table : DeclTable) : Prop where
  numbered : table.Numbered
  arity : ∀ id own, table.struct? id = some own →
    (Ty.namesOf own.typeParameters).length = own.decl.typeParameters.length
  composes : ∀ id own, table.struct? id = some own → ∀ parent ∈ own.shape.composes,
    ∃ arguments other, parent.Applies table own arguments other
  methods : ∀ id own, table.struct? id = some own → ∀ method ∈ own.shape.methods,
    ∀ name ∈ method.signature.type.names,
      name ∈ Ty.namesOf method.signature.typeParameters ∨ name ∈ Ty.namesOf own.typeParameters

/-- A table all whose types fit where they stand: structs are numbered by their position and have the type parameters
they are declared with, and nothing mentions type parameters that are not in scope. -/
structure DeclTable.Formed (error : Prop) (bounds : BoundTable) (table : DeclTable) : Prop where
  named : table.Named
  numbered : table.Numbered
  arity : ∀ id own, table.struct? id = some own → own.typeParameters.length = own.decl.typeParameters.length
  structs : ∀ id own, table.struct? id = some own → own.shape.Regular error (table.arities bounds)
  functions : ∀ own ∈ table.functions, own.signature.Regular error (table.arities bounds) fun _ => False

theorem Ensures.fresh {α : Type} {work : FindM α} {Q : α → Prop} (h : Ensures work Q) :
    External (work.run {}).2.diagnostics ∧ (Harmless (work.run {}).2.diagnostics → Q (work.run {}).1) := by
  obtain ⟨new, added, external, answer⟩ := h {}
  rw [show (work.run {}).2.diagnostics = new from added.trans (nil_append new)]
  exact ⟨external, answer⟩

theorem Yields.fresh {α : Type} {always : Prop} {work : FindM α} {Q : α → Prop} (h : Yields always work Q)
    (quiet : always ∨ Harmless (work.run {}).2.diagnostics) : Q (work.run {}).1 :=
  quiet.elim (fun on => h.2 on {}) h.1.fresh.2

theorem Collected.resolved_named (units : List SourceUnit) : (resolved units).table.Named :=
  (named_entered units).named

namespace Collected

variable {bounds : BoundTable} {units : List SourceUnit} {error : Prop}
  (quiet : error ∨ Harmless (ofUnits bounds units).diagnostics)
include quiet

theorem resolved_aliases :
    (resolved units).aliases.Fits (((resolved units).table.arities bounds).within error fun _ => False) :=
  (Declarations.resolveEach_fits (named_entered units).named rfl _ _).2
    (quiet.imp_right fun harmless => (ofUnits_harmless.1 harmless).2.1)
    ((named_entered units).aliases _ fun _ => trivial)

theorem shapeOf_regular {own : StructDef} (mem : own ∈ (named units).table.structs) :
    ((resolved units).shapeOf bounds own).Regular error ((resolved units).table.arities bounds) ∧
      ((resolved units).shapeOf bounds own).typeParameters.length = own.decl.typeParameters.length ∧
      ((resolved units).shapeOf bounds own).methods.map MethodDef.name = own.decl.methods.map FunctionDecl.name := by
  refine (Declarations.lowerStruct_regular (resolved_named units) (resolved_aliases quiet) own).fresh
    (quiet.imp_right fun harmless => (ofUnits_harmless.1 harmless).2.2.1 _ ?_)
  exact mem_append_left _ (mem_map_of_mem mem)

theorem signatureOf_regular {own : FunctionDef} (mem : own ∈ (named units).table.functions) :
    ((resolved units).signatureOf bounds own).Regular error ((resolved units).table.arities bounds) fun _ => False := by
  refine (Declarations.lowerFunction_regular (resolved_named units) (resolved_aliases quiet) own).fresh
    (quiet.imp_right fun harmless => (ofUnits_harmless.1 harmless).2.2.1 _ ?_)
  exact mem_append_right _ (mem_append_left _ (mem_map_of_mem mem))

/-- All types of a program fit where they stand. Without errors the error type is none of them. -/
theorem ofUnits_formed : (ofUnits bounds units).declared.table.Formed error bounds := by
  have shapes : ∀ id own, (ofUnits bounds units).declared.table.struct? id = some own →
      ∃ before, (named units).table.struct? id = some before ∧
        { before with shape := (resolved units).shapeOf bounds before } = own := by
    intro id own found
    rw [struct?_ofUnits] at found
    exact Option.map_eq_some_iff.1 found
  refine ⟨ofUnits_named bounds units, fun id own found => ?_, fun id own found => ?_, fun id own found => ?_,
    fun own mem => ?_⟩
  · obtain ⟨before, here, rfl⟩ := shapes id own found
    exact ((named_entered units).structs id.index before here).1
  · obtain ⟨before, here, rfl⟩ := shapes id own found
    exact (shapeOf_regular quiet (mem_of_getElem? here)).2.1
  · obtain ⟨before, here, rfl⟩ := shapes id own found
    rw [arities_ofUnits]
    exact (shapeOf_regular quiet (mem_of_getElem? here)).1
  · rw [functions_ofUnits] at mem
    obtain ⟨before, isOne, rfl⟩ := mem_map.1 mem
    rw [arities_ofUnits]
    exact signatureOf_regular quiet isOne

end Collected

namespace DeclTable.Formed

variable {error : Prop} {bounds : BoundTable} {table : DeclTable} {id : StructId} {own : StructDef}

theorem length_names (h : table.Formed error bounds) (found : table.struct? id = some own) :
    (Ty.namesOf own.typeParameters).length = own.decl.typeParameters.length :=
  (Ty.length_namesOf (h.structs id own found).typeParameters).trans (h.arity id own found)

theorem applied (h : table.Formed error bounds) {place : Place} (same : place.arities = table.arities bounds)
    {arguments : List Ty} (fits : (Ty.struct id arguments).Fits place) :
    ∃ own, table.struct? id = some own ∧ (Ty.namesOf own.typeParameters).length = arguments.length := by
  have arity := fits.1
  rw [same] at arity
  obtain ⟨own, found, count⟩ := Option.map_eq_some_iff.1 arity
  exact ⟨own, found, (h.length_names found).trans count⟩

theorem regular (h : table.Formed error bounds) : table.Regular := by
  refine ⟨h.numbered, fun id own found => h.length_names found, fun id own found parent mem => ?_,
    fun id own found method mem name mentioned => ?_⟩
  · obtain ⟨⟨arguments, type⟩, fits⟩ := (h.structs id own found).composes parent mem
    rw [type] at fits
    obtain ⟨other, declared, count⟩ := h.applied rfl fits
    exact ⟨arguments, other, type, declared, count, Ty.Fits.names fits⟩
  · exact (((h.structs id own found).methods method mem).type.names name mentioned).symm

end DeclTable.Formed

/-- The table of a program is regular, whatever is reported while it is collected. -/
theorem Collected.ofUnits_regular (bounds : BoundTable) (units : List SourceUnit) :
    (ofUnits bounds units).declared.table.Regular :=
  (ofUnits_formed (.inl trivial)).regular

end SemanticChecker
