import SemanticChecker.Declared.Collect
import SemanticChecker.Proofs.Soundness.Lowering

/-! What collecting the declarations of a program without a report leaves behind: every name stands for
something, aliases have types that are complete, and shapes and signatures fit. -/
namespace SemanticChecker

open List

def AliasEntry.Holds (P : Ty → Prop) : AliasEntry → Prop
  | .pending (.type t) => P t
  | .resolved t => P t
  | .pending (.expression _ _) | .inProgress => True

def AliasTable.Holds (P : Ty → Prop) (table : AliasTable) : Prop :=
  ∀ entry ∈ table.entries, entry.2.Holds P

namespace AliasTable.Holds

variable {P : Ty → Prop} {table : AliasTable}

theorem set (h : table.Holds P) {name : String} {entry : AliasEntry} (holds : entry.Holds P) :
    (table.set name entry).Holds P :=
  forall_mem_cons.2 ⟨holds, h⟩

theorem find (h : table.Holds P) {name : String} {entry : AliasEntry}
    (found : table.find? name = some entry) : entry.Holds P :=
  h (name, entry) (mem_of_lookup found)

theorem type (h : table.Holds P) {name : String} {t : Ty} (found : table.type? name = some t) : P t := by
  obtain ⟨entry, looked, resolved⟩ := Option.bind_eq_some_iff.1 found
  cases entry with
  | resolved s =>
    cases resolved
    exact h.find looked
  | _ => cases resolved

end AliasTable.Holds

def AliasTable.Fits (place : Place) (table : AliasTable) : Prop :=
  table.Holds (Ty.Fits place)

theorem AliasTable.standard_holds {P : Ty → Prop} (primitive : ∀ kind, P (.primitive kind)) :
    AliasTable.standard.Holds P := by
  intro entry hm
  obtain ⟨name, _, found⟩ := mem_filterMap.1 hm
  obtain ⟨kind, _, rfl⟩ := Option.map_eq_some_iff.1 found
  exact primitive kind

section Aliases

variable {table : DeclTable} {bounds : BoundTable}

theorem AliasTarget.lower_lowers {place : Place} (arities : place.arities = table.arities bounds)
    (named : table.Named) {known : AliasTable → Prop} {careful : Prop} {aliasOf : String → LowerM Ty}
    (resolves : ∀ name, Lowers known careful (aliasOf name) fun t => t.Fits place) {target : AliasTarget}
    (fits : (AliasEntry.pending target).Holds (Ty.Fits place)) :
    Lowers known careful (target.lower table aliasOf) fun t => t.Fits place := by
  cases target with
  | type t => exact .pure fits
  | expression written path =>
    have suits : TypeScope.Fits bounds known careful place { table, aliasOf, module := path } :=
      ⟨arities, named, fun _ h => (by cases h), resolves⟩
    exact written.lower_fits suits

/-- An alias that can be resolved has a type that fits, and so have those resolved on the way. One that cannot be
resolved stands for the error type, which fits where that is admitted. -/
theorem resolveAlias_lowers {place : Place} {careful : Prop} (arities : place.arities = table.arities bounds)
    (named : table.Named) (admits : careful → place.error) : ∀ (depth : Nat) (name : String),
      Lowers (AliasTable.Fits place) careful (resolveAlias (AliasTarget.lower table) depth name)
        fun t => t.Fits place
  | 0, _ => .throw
  | depth + 1, name => by
    rw [resolveAlias]
    refine .get_bind fun s known => ?_
    cases found : s.aliases.find? name with
    | none => exact .throw
    | some entry =>
      cases entry with
      | resolved t => exact .pure (known.find found)
      | inProgress => exact .throw
      | pending target =>
        refine .bind (.setAlias fun _ h => h.set trivial) fun _ _ => ?_
        refine .lift_bind (AliasTarget.lower_lowers arities named
          (resolveAlias_lowers arities named admits depth) (known.find found)) (fun t fits => ?_) fun e s kept => ?_
        · refine .get_bind fun later _ => ?_
          rw [AliasTable.share_eq]
          exact .bind (.setAlias fun _ h => h.set fits) fun _ _ => .pure fits
        · exact ⟨nofun, fun isCareful => (kept isCareful).set (admits isCareful)⟩

theorem DeclTable.resolveAlias_lowers {place : Place} {careful : Prop}
    (arities : place.arities = table.arities bounds) (named : table.Named) (admits : careful → place.error)
    (name : String) : Lowers (AliasTable.Fits place) careful (table.resolveAlias name) fun t => t.Fits place :=
  .get_bind fun _ _ => SemanticChecker.resolveAlias_lowers arities named admits _ name

end Aliases

structure Placed where
  unit : UnitId
  module : ModulePath
  declaration : Declaration

def Placed.name (place : Placed) : String :=
  place.module.qualify place.declaration.name

def SourceUnit.placed (unit : SourceUnit) : List Placed :=
  unit.declarations.map fun declaration => ⟨unit.id, unit.module, declaration⟩

namespace Declarations

/-- Declarations are looked at one after the other. What holds of each, and of two parts in a row if it does of both, holds
of all. -/
theorem declareUnits_each {R : Declarations → List Placed → Declarations → List Diagnostic → Prop}
    (nil : ∀ declared, R declared [] declared [])
    (append : ∀ {first second third places more reports others}, R first places second reports →
      R second more third others → R first (places ++ more) third (reports ++ others))
    (noted : ∀ {declared ids places after reports},
      R { declared with table := { declared.table with units := ids } } places after reports →
        R declared places after reports)
    (units : List SourceUnit)
    (each : ∀ unit ∈ units, ∀ declared declaration, R declared [⟨unit.id, unit.module, declaration⟩]
      (declare unit declared declaration).1 (declare unit declared declaration).2) (declared : Declarations) :
    R declared (units.flatMap SourceUnit.placed) (declared.declareUnits units).1
      (declared.declareUnits units).2.flatten := by
  induction units generalizing declared with
  | nil => exact nil declared
  | cons unit rest ih =>
    obtain ⟨first, others⟩ := forall_mem_cons.1 each
    have all : ∀ declarations declared,
        R declared (declarations.map fun declaration => ⟨unit.id, unit.module, declaration⟩)
          (declareAll unit declared declarations).1 (declareAll unit declared declarations).2 := by
      intro declarations
      induction declarations with
      | nil => exact nil
      | cons declaration rest ih => exact fun declared => append (first declared declaration) (ih _)
    exact append (noted (all unit.declarations _)) (ih others _)

theorem declareUnits_keeps {P : Declarations → Prop}
    (noted : ∀ (declared : Declarations) (ids : List UnitId), P declared →
      P { declared with table := { declared.table with units := ids } })
    (enter : ∀ (declared : Declarations) (unit : SourceUnit) (name : String) (declaration : Declaration),
      declared.clash? name = none → P declared → P (declared.enter unit name declaration))
    (units : List SourceUnit) (declared : Declarations) : P declared → P (declared.declareUnits units).1 := by
  refine declareUnits_each (R := fun before _ after _ => P before → P after) (fun _ h => h)
    (fun first second h => second (first h)) (fun after h => after (noted _ _ h)) units
    (fun unit _ declared declaration h => ?_) declared
  unfold declare
  dsimp only
  split
  · exact h
  · exact enter declared unit _ declaration ‹_› h

end Declarations

/-- What entering names keeps true: everything is numbered by its position and comes from one of the
units, every name stands for something that is there, and no alias is resolved yet. -/
structure Declarations.Entered (units : List UnitId) (declared : Declarations) : Prop where
  structs : ∀ (index : Nat) (own : StructDef), declared.table.structs[index]? = some own →
    own.id = ⟨index⟩ ∧ own.unit ∈ units
  functions : ∀ (index : Nat) (own : FunctionDef), declared.table.functions[index]? = some own →
    own.id = ⟨index⟩ ∧ own.unit ∈ units
  enums : ∀ (index : Nat) (source : EnumSource), declared.table.enums[index]? = some source →
    source.id = ⟨index⟩ ∧ source.unit ∈ units
  registry : declared.enums.size = declared.table.enums.length
  named : declared.table.Named
  aliases : ∀ P : Ty → Prop, (∀ kind, P (.primitive kind)) → declared.aliases.Holds P

theorem Symbol.IsIn.mono {table more : DeclTable} {symbol : Symbol} (h : symbol.IsIn table)
    (structs : table.structs.length ≤ more.structs.length) (enums : table.enums.length ≤ more.enums.length)
    (functions : table.functions.length ≤ more.functions.length) : symbol.IsIn more := by
  cases symbol with
  | struct id => exact Nat.lt_of_lt_of_le h structs
  | enum id => exact Nat.lt_of_lt_of_le h enums
  | function id => exact Nat.lt_of_lt_of_le h functions
  | typeAlias => trivial

theorem forall_getElem?_concat {α : Type} {entries : List α} {last : α} {P : Nat → α → Prop}
    (h : ∀ index entry, entries[index]? = some entry → P index entry) (new : P entries.length last) :
    ∀ index entry, (entries ++ [last])[index]? = some entry → P index entry := by
  intro index entry found
  rw [getElem?_append] at found
  split at found
  · exact h index entry found
  · obtain ⟨low, rfl⟩ := List.getElem?_eq_some_iff.1 found
    have position : index = entries.length := by
      rw [length_singleton] at low
      omega
    subst position
    simpa using new

namespace Declarations

theorem Named.concat {table more : DeclTable} (h : table.Named) {name : String} {symbol : Symbol}
    (symbols : more.symbols = table.symbols ++ [(name, symbol)])
    (structs : table.structs.length ≤ more.structs.length) (enums : table.enums.length ≤ more.enums.length)
    (functions : table.functions.length ≤ more.functions.length) (isIn : symbol.IsIn more) : more.Named := by
  intro other found looked
  rw [DeclTable.lookup, symbols, List.lookup_append, Option.or_eq_some_iff] at looked
  rcases looked with looked | ⟨_, looked⟩
  · exact (h other found looked).mono structs enums functions
  · rw [lookup_cons] at looked
    split at looked
    · cases looked
      exact isIn
    · cases looked

theorem Entered.enter {ids : List UnitId} {declared : Declarations} (h : declared.Entered ids)
    {unit : SourceUnit} (isOne : unit.id ∈ ids) (name : String) (declaration : Declaration) :
    (declared.enter unit name declaration).Entered ids := by
  have named : (declared.enter unit name declaration).table.Named := by
    cases declaration <;> refine Named.concat h.named rfl ?_ ?_ ?_ ?_ <;>
      simp [Declarations.enter, Symbol.IsIn, EnumRegistry.reserve, h.registry]
  cases declaration with
  | struct decl => exact { h with structs := forall_getElem?_concat h.structs ⟨rfl, isOne⟩, named }
  | enum decl =>
    exact
      { h with
        enums := forall_getElem?_concat h.enums ⟨congrArg EnumId.mk h.registry, isOne⟩
        registry := by simpa [Declarations.enter, EnumRegistry.reserve, EnumRegistry.size] using h.registry
        named }
  | function decl => exact { h with functions := forall_getElem?_concat h.functions ⟨rfl, isOne⟩, named }
  | typeAlias decl => exact { h with named, aliases := fun P primitive => (h.aliases P primitive).set trivial }

theorem Entered.declare {ids : List UnitId} {declared : Declarations} (h : declared.Entered ids)
    {unit : SourceUnit} (isOne : unit.id ∈ ids) (declaration : Declaration) :
    (declare unit declared declaration).1.Entered ids ∧ External (declare unit declared declaration).2 := by
  rw [Declarations.declare]
  split
  · refine ⟨h, fun d hd => ?_⟩
    rw [mem_singleton.1 hd]
    nofun
  · exact ⟨h.enter isOne _ declaration, external_nil⟩

theorem Entered.declareUnits {ids : List UnitId} (units : List SourceUnit) {declared : Declarations}
    (known : ∀ unit ∈ units, unit.id ∈ ids) (h : declared.Entered ids) :
    (declared.declareUnits units).1.Entered ids ∧ External (declared.declareUnits units).2.flatten := by
  refine declareUnits_each (R := fun before _ after reports => before.Entered ids → after.Entered ids ∧ External reports)
    (fun _ h => ⟨h, external_nil⟩) (fun first second h => ?_) (fun noted h => noted { h with }) units
    (fun unit mem declared declaration h => h.declare (known unit mem) declaration) declared h
  obtain ⟨entered, external⟩ := first h
  obtain ⟨last, more⟩ := second entered
  exact ⟨last, external_append.2 ⟨external, more⟩⟩

theorem entered_empty (ids : List UnitId) : Entered ids {} where
  structs _ _ found := by cases found
  functions _ _ found := by cases found
  enums _ _ found := by cases found
  registry := rfl
  named _ _ found := by cases found
  aliases _ := AliasTable.standard_holds

/-- Aliases that are resolved without a report fit, and where the error type is admitted, they do in any case. -/
theorem resolveEach_fits {declared : Declarations} (named : declared.table.Named) {bounds : BoundTable}
    {place : Place} (arities : place.arities = declared.table.arities bounds) (sources : List AliasSource)
    (s : Lowering) : External (declared.resolveEach sources s).2 ∧
      (place.error ∨ Harmless (declared.resolveEach sources s).2 → s.aliases.Fits place →
        (declared.resolveEach sources s).1.aliases.Fits place) := by
  induction sources generalizing s with
  | nil => exact ⟨external_nil, fun _ h => h⟩
  | cons source rest ih =>
    have resolves := declared.table.resolveAlias_lowers arities named (fun h => h) source.name s
    rw [resolveEach]
    rcases found : (declared.table.resolveAlias source.name).run.run s with ⟨result, later⟩
    rw [found] at resolves
    obtain ⟨external, fit⟩ := ih later
    cases result with
    | ok t => exact ⟨external, fun quiet h => fit quiet ((resolves h).1 t rfl).1⟩
    | error e =>
      refine ⟨forall_mem_cons.2 ⟨e.code_ne_internal, external⟩, fun quiet h => ?_⟩
      rcases quiet with admits | harmless
      · exact fit (.inl admits) ((resolves h).2 admits)
      · have reported := (forall_mem_cons.1 harmless).1
        rw [Diagnostic.isError_inSource, e.isError_diagnostic] at reported
        cases reported

end Declarations

/-- Whether a shape mentions no type parameters but its own and, in a method, those of the method. -/
structure StructShape.Regular (error : Prop) (arities : Arities) (shape : StructShape) : Prop where
  typeParameters : ∀ t ∈ shape.typeParameters,
    t.IsParameter (arities.within error (· ∈ Ty.namesOf shape.typeParameters))
  composes : ∀ parent ∈ shape.composes, (∃ arguments, parent.type = .struct parent.id arguments) ∧
    parent.type.Fits (arities.within error (· ∈ Ty.namesOf shape.typeParameters))
  fields : ∀ field ∈ shape.fields, field.type.Fits (arities.within error (· ∈ Ty.namesOf shape.typeParameters))
  methods : ∀ method ∈ shape.methods, method.signature.Regular error arities (· ∈ Ty.namesOf shape.typeParameters)

namespace Declarations

section Members

variable {scope : TypeScope} {bounds : BoundTable} {place : Place}

theorem lowerParents_fits (h : scope.Suits bounds place) (table : DeclTable) (name : String)
    (parents : List TypeExpr) : Yields True (lowerParents table scope name parents) fun composed =>
      ∀ parent ∈ composed, (∃ arguments, parent.type = .struct parent.id arguments) ∧ parent.type.Fits place := by
  induction parents with
  | nil => exact .pure fun _ mem => by cases mem
  | cons parent rest ih =>
    rw [lowerParents]
    refine .after (FindM.reporting_yields (parent.lower_fits h) parent.span True) fun found fits => ?_
    cases found with
    | none => exact ih
    | some t =>
      cases t with
      | struct id arguments =>
        refine .after ih fun composed more => .pure (forall_mem_cons.2 ⟨?_, more⟩)
        exact ⟨⟨arguments, rfl⟩, fits.2 _ rfl⟩
      | _ =>
        refine .after (Q := fun _ => True) ⟨FindM.report_ensures ?_ ?_ _, fun _ _ => trivial⟩ fun _ _ => ih
        · rfl
        · nofun

theorem lowerFields_fits (h : scope.Suits bounds place) (decls : List FieldDecl) :
    Yields place.error (lowerFields scope decls) fun fields => ∀ field ∈ fields, field.type.Fits place := by
  induction decls with
  | nil => exact .pure fun _ mem => by cases mem
  | cons decl rest ih =>
    exact (TypeScope.lowerOrError_fits h decl.type).bind fun _ => ih.bind fun _ => .pure fun more first =>
      forall_mem_cons.2 ⟨first, more⟩

theorem lowerMethods_regular {error : Prop} {arities : Arities} {outer : String → Prop}
    (h : scope.Suits bounds (arities.within error outer)) (decls : List FunctionDecl) :
    Yields error (lowerMethods bounds scope decls) fun methods =>
      methods.map MethodDef.name = decls.map FunctionDecl.name ∧
        ∀ method ∈ methods, method.signature.Regular error arities outer := by
  induction decls with
  | nil => exact .pure ⟨rfl, fun _ mem => by cases mem⟩
  | cons decl rest ih =>
    refine (TypeScope.lowerSignature_regular h decl).bind fun _ => ih.bind fun _ => .pure ?_
    rintro ⟨names, more⟩ first
    exact ⟨congrArg (decl.name :: ·) names, forall_mem_cons.2 ⟨first, more⟩⟩

end Members

section Within

variable {declared : Declarations} {bounds : BoundTable} {error : Prop} (named : declared.table.Named)
  (aliases : declared.aliases.Fits ((declared.table.arities bounds).within error fun _ => False))
include named aliases

theorem scope_within (module : ModulePath) {parameters : List Ty} {known : String → Prop}
    (fit : ∀ t ∈ parameters, t.Fits ((declared.table.arities bounds).within error known)) :
    (declared.scope module parameters).Suits bounds ((declared.table.arities bounds).within error known) where
  arities := rfl
  named := named
  parameters := fit
  aliasOf name := by
    dsimp only [Declarations.scope]
    split
    · exact .pure ((aliases.type ‹_›).within fun _ => False.elim)
    · exact .throw

theorem lowerStruct_regular (own : StructDef) : Yields error (declared.lowerStruct bounds own) fun shape =>
    shape.Regular error (declared.table.arities bounds) ∧
      shape.typeParameters.length = own.decl.typeParameters.length ∧
      shape.methods.map MethodDef.name = own.decl.methods.map FunctionDecl.name := by
  have outer : (declared.scope own.module []).Suits bounds
      ((declared.table.arities bounds).within error fun _ => False) :=
    scope_within named aliases own.module fun _ mem => by cases mem
  refine .after (TypeScope.declareParameters_within outer own.decl.typeParameters) fun ts parameters => ?_
  simp only [false_or] at parameters
  have inner : ((declared.scope own.module []).extend ts).Suits bounds
      ((declared.table.arities bounds).within error (· ∈ Ty.namesOf ts)) :=
    scope_within named aliases own.module fun t mem =>
      (parameters.1 t mem).within fun _ named => Ty.mem_namesOf.2 ⟨t, mem, named⟩
  refine .after (lowerParents_fits inner _ own.name own.decl.composes) fun composes parents => ?_
  refine (lowerFields_fits inner own.decl.fields).bind fun fields => ?_
  refine (lowerMethods_regular inner own.decl.methods).bind fun methods => .pure ?_
  rintro ⟨names, regular⟩ fit
  exact ⟨⟨parameters.1, parents, fit, regular⟩, parameters.2, names⟩

theorem lowerFunction_regular (own : FunctionDef) :
    Yields error ((declared.scope own.module []).lowerSignature bounds own.decl)
      (Signature.Regular error (declared.table.arities bounds) fun _ => False) :=
  TypeScope.lowerSignature_regular (scope_within named aliases own.module fun _ mem => by cases mem) own.decl

end Within

theorem lowerEnum_ensures (declared : Declarations) (source : EnumSource) :
    Ensures (declared.lowerEnum source) fun read => ∃ result, read = some result := by
  rw [lowerEnum]
  refine (Ensures.silent (Q := fun _ => True) (fun _ => rfl) fun _ => trivial).bind fun s => ?_
  refine (TypeScope.lowerReported_yields .standard _ source.decl.backing False).1.bind fun backing => ?_
  refine (Ensures.silent (Q := fun _ => True) (fun _ => rfl) fun _ => trivial).bind fun _ => ?_
  match backing with
  | none => exact .pure fun _ found => (found.1 rfl).elim
  | some (.primitive kind) => exact .pure fun _ _ _ => ⟨_, rfl⟩
  | some (.struct _ _) | some (.tuple _) | some (.list _) | some (.dict _ _) | some (.enum _)
  | some (.function _ _) | some (.parameter _) | some (.bounded _ _ _) | some (.slot _) | some .error =>
    refine (FindM.report_ensures ?_ ?_ fun _ => False).bind fun _ => .pure fun impossible => impossible.elim
    · rfl
    · nofun

end Declarations

end SemanticChecker
