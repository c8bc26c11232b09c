import SemanticChecker.Proofs.Order.Tables

/-! Which declarations the table of a program holds. They are looked at in order, and the first to have a name is
registered under it, unless the name is built in. Every other is reported once and leaves no trace. A symbol stands for
the entry at its number, and giving the declarations their meaning moves and renames nothing. -/
namespace SemanticChecker

open List

/-- Declarations that were looked at in order: those that are registered, and those that are passed over. -/
structure Register where
  entered : List Placed := []
  refused : List Placed := []

namespace Register

/-- Whether a name is no primitive, no built-in alias and none of those that are registered. -/
def Free (register : Register) (name : String) : Prop :=
  Primitive.ofName? name = none ∧ AliasTable.standard.contains name = false ∧ name ∉ register.entered.map Placed.name

instance (register : Register) (name : String) : Decidable (register.Free name) :=
  inferInstanceAs (Decidable (_ ∧ _ ∧ _))

def add (register : Register) (place : Placed) : Register :=
  if register.Free place.name then { register with entered := register.entered ++ [place] }
  else { register with refused := register.refused ++ [place] }

def ofUnits (units : List SourceUnit) : Register :=
  (units.flatMap SourceUnit.placed).foldl add {}

/-- Whether declarations hold what is registered, and reports name what is passed over. -/
structure Describes (register : Register) (declared : Declarations) (reports : List Diagnostic) : Prop where
  lists : Declarations.Lists {} declared register.entered
  symbols : declared.table.symbols.map Prod.fst = register.entered.map Placed.name
  nodup : (register.entered.map Placed.name).Nodup
  free : ∀ name, declared.clash? name = none ↔ register.Free name
  reports : reports.map (fun d => (d.code, d.span, d.source)) = register.refused.map fun place =>
    (.duplicateDeclaration, some place.declaration.span, some place.unit)

theorem describes_empty : Describes {} {} [] where
  lists := .nil _
  symbols := rfl
  nodup := nodup_nil
  free name := by
    rw [Declarations.clash?_eq_none]
    simp [Free, AliasTable.contains, DeclTable.lookup, and_comm]
  reports := rfl

theorem Describes.declare {register : Register} {declared : Declarations} {reports : List Diagnostic}
    (h : register.Describes declared reports) (unit : SourceUnit) (declaration : Declaration) :
    (register.add ⟨unit.id, unit.module, declaration⟩).Describes (Declarations.declare unit declared declaration).1
      (reports ++ (Declarations.declare unit declared declaration).2) := by
  have same : _ ↔ register.Free (Placed.name ⟨unit.id, unit.module, declaration⟩) := h.free _
  rw [add, Declarations.declare]
  cases clash : declared.clash? (unit.module.qualify declaration.name) with
  | some _ =>
    rw [if_neg fun free => Option.some_ne_none _ (clash.symm.trans (same.2 free))]
    exact { h with reports := by rw [map_append, h.reports, map_append]; rfl }
  | none =>
    have free := same.1 clash
    rw [if_pos free, append_nil]
    refine ⟨h.lists.append (declared.enter_lists unit declaration), ?_, ?_, fun name => ?_, h.reports⟩
    · cases declaration <;> rw [Declarations.enter, map_append, h.symbols, map_append] <;> rfl
    · rw [map_append, nodup_append]
      refine ⟨h.nodup, nodup_singleton _, fun name isOne other isNew same => free.2.2 ?_⟩
      rwa [← mem_singleton.1 isNew, ← same]
    · rw [Declarations.clash?_enter, h.free, Free, Free, map_append, mem_append, not_or, and_assoc, and_assoc]
      simp [Placed.name]

theorem ofUnits_describes (units : List SourceUnit) :
    (ofUnits units).Describes (Declarations.declareUnits {} units).1 (Declarations.declareUnits {} units).2.flatten := by
  refine Declarations.declareUnits_each (R := fun before places after reports => ∀ (register : Register) found,
    register.Describes before found → (places.foldl add register).Describes after (found ++ reports))
    (fun _ _ found h => (append_nil found).symm ▸ h) (fun first second register found h => ?_)
    (fun noted register found h => noted register found { h with lists := { h.lists with } }) units
    (fun unit _ declared declaration _ _ h => h.declare unit declaration) {} {} [] describes_empty
  rw [foldl_append, ← append_assoc]
  exact second _ _ (first register found h)

end Register

/-- A table without the shapes and signatures, which are filled in last. -/
def DeclTable.bare (table : DeclTable) : DeclTable :=
  { table with
    structs := table.structs.map fun own => { own with shape := {} }
    functions := table.functions.map fun own => { own with signature := {} } }

theorem map_putAll {α ι β γ : Type} {index : ι → Nat} {put : β → α → α} {f : α → γ} (keeps : ∀ b x, f (put b x) = f x)
    (entries : List (ι × β)) (xs : List α) : (putAll index put entries xs).map f = xs.map f := by
  have modified : ∀ (ys : List α) (place : Nat) (b : β), (ys.modify place (put b)).map f = ys.map f := by
    intro ys place b
    refine ext_getElem? fun position => ?_
    rw [getElem?_map, getElem?_map, getElem?_modify]
    by_cases here : place = position <;> simp [here, Function.comp_def, keeps]
  induction entries generalizing xs with
  | nil => rfl
  | cons entry rest ih => exact (ih _).trans (modified ..)

namespace Declarations

theorem install_bare (declared : Declarations) (lowered : LoweredUnit) :
    (declared.install lowered).1.table.bare = declared.table.bare := by
  rw [install_table]
  dsimp only [DeclTable.bare]
  congr 1
  · exact map_putAll (by intros; rfl) _ _
  · exact map_putAll (by intros; rfl) _ _

theorem installAll_bare (lowered : List LoweredUnit) (declared : Declarations) :
    (declared.installAll lowered).1.table.bare = declared.table.bare := by
  induction lowered generalizing declared with
  | nil => rfl
  | cons first rest ih => exact (ih _).trans (declared.install_bare first)

open Collected in
/-- What is registered when units are declared one after the other: see `Register.add`. The table lists it by kind, in
order; for everything else there is one report. There is one symbol for each registered name, and it stands for the
entry of that name at its number. Resolving aliases and entering what units mean changes neither symbols nor numbers,
names, units and modules. -/
theorem registration (bounds : BoundTable) (units : List SourceUnit) :
    let collected := ofUnits bounds units
    let declared := (declareUnits {} units).1
    let register := Register.ofUnits units
    (Lists {} declared register.entered ∧
      collected.clashes.flatten.map (fun d => (d.code, d.span, d.source)) = register.refused.map fun place =>
        (.duplicateDeclaration, some place.declaration.span, some place.unit)) ∧
    (declared.table.symbols.map Prod.fst = register.entered.map Placed.name ∧
      (register.entered.map Placed.name).Nodup) ∧
    (∀ name id, declared.table.lookup name = some (.struct id) ↔
      ∃ own, declared.table.struct? id = some own ∧ own.id = id ∧ own.name = name) ∧
    (∀ name id, declared.table.lookup name = some (.function id) ↔
      ∃ own, declared.table.function? id = some own ∧ own.id = id ∧ own.name = name) ∧
    (∀ name id, declared.table.lookup name = some (.enum id) ↔
      ∃ source, declared.table.enum? id = some source ∧ source.id = id ∧ source.name = name) ∧
    declared.enums.size = declared.table.enums.length ∧
    (∀ name, declared.table.lookup name = some .typeAlias ↔ ∃ source ∈ declared.table.aliases, source.name = name) ∧
    (∀ before : Declarations, before.resolveAliases.1.table = before.table ∧
      before.resolveAliases.1.enums = before.enums ∧ ∀ lowered, (before.install lowered).1.table.bare = before.table.bare ∧
        (before.install lowered).1.enums.size = before.enums.size) ∧
    collected.declared.table.bare = declared.table.bare := by
  obtain ⟨lists, symbols, nodup, _, reports⟩ := Register.ofUnits_describes units
  have entered := named_entered units
  have indexed := named_indexed units
  refine ⟨⟨lists, reports⟩, ⟨symbols, nodup⟩, fun name id => ?_, fun name id => ?_, fun name id => ?_, entered.registry,
    indexed.aliases, fun before => ⟨rfl, rfl, fun lowered => ⟨before.install_bare lowered, ?_⟩⟩, installAll_bare _ _⟩
  · refine (indexed.structs name id.index).trans (exists_congr fun own => and_congr_right fun found => ?_)
    exact (and_iff_right (entered.structs _ own found).1).symm
  · refine (indexed.functions name id.index).trans (exists_congr fun own => and_congr_right fun found => ?_)
    exact (and_iff_right (entered.functions _ own found).1).symm
  · refine (indexed.enums name id.index).trans (exists_congr fun source => and_congr_right fun found => ?_)
    exact (and_iff_right (entered.enums _ source found).1).symm
  · exact installEnums_size lowered.unit lowered.enums before.enums

end Declarations

end SemanticChecker
