import SemanticChecker.Proofs.Composition.Methods

/-! Which methods a struct has, which of them have bodies, and what is reported of them, by way of its parents. A method
that a struct declares counts if it is the first of its name and no field has the name. Otherwise the struct has the
method that its parents have, with a body if one of them has a body for it. -/
namespace SemanticChecker

open List Merge StructDef

open Relation (ReflTransGen TransGen)

namespace Layout

/-- Whether there is a method of the name. -/
def Has (layout : Layout) (name : String) : Prop :=
  ∃ method ∈ layout.methods, method.name = name

/-- Whether there is a method of the name that has a body. -/
def Implements (layout : Layout) (name : String) : Prop :=
  ∃ method ∈ layout.methods, method.name = name ∧ method.hasBody = true

variable {layout : Layout} {name : String}

theorem has_iff : layout.Has name ↔ (layout.method? name).isSome := by
  rw [method?, find?_isSome]
  simp only [beq_iff_eq, Has]

theorem implements_iff (names : (layout.methods.map (·.name)).Nodup) :
    layout.Implements name ↔ ∃ method ∈ layout.method? name, method.hasBody = true := by
  constructor
  · rintro ⟨method, mem, rfl, body⟩
    exact ⟨method, find?_of_nodup names mem, body⟩
  · rintro ⟨method, found, body⟩
    exact ⟨method, mem_of_find?_eq_some found, by simpa using find?_some found, body⟩

theorem hasBody_iff (names : (layout.methods.map (·.name)).Nodup) {method : ResolvedMethod}
    (mem : method ∈ layout.methods) : method.hasBody = true ↔ layout.Implements method.name := by
  rw [implements_iff names, method?, find?_of_nodup names mem]
  simp

theorem forall_hasBody (names : (layout.methods.map (·.name)).Nodup) :
    (∀ method ∈ layout.methods, method.hasBody = true) ↔ ∀ name, layout.Has name → layout.Implements name := by
  constructor
  · rintro all _ ⟨method, mem, rfl⟩
    exact ⟨method, mem, rfl, all method mem⟩
  · exact fun all method mem => (hasBody_iff names mem).2 (all _ ⟨method, mem, rfl⟩)

end Layout

/-- The inherited methods of a struct that are still without a body. -/
def StructDef.unmet (own : StructDef) (layout : Layout) : List ResolvedMethod :=
  layout.methods.filter fun method => !method.hasBody && (own.accepted? layout.fields method.name).isNone

/-- Every struct has the number of its place, and every parent is declared. -/
structure DeclTable.Linked (table : DeclTable) : Prop where
  numbered : table.Numbered
  declared : ∀ id own, table.struct? id = some own → ∀ parent ∈ own.shape.composes, (table.struct? parent.id).isSome

theorem DeclTable.Regular.linked {table : DeclTable} (regular : table.Regular) : table.Linked := by
  refine ⟨regular.numbered, fun id own found parent mem => ?_⟩
  obtain ⟨_, _, applies⟩ := regular.composes id own found parent mem
  rw [applies.declared]
  rfl

section Compose

variable (table : DeclTable) (own : StructDef) (parents : List (Ty × Layout)) (tainted : Bool)

theorem StructDef.compose_fst : (own.compose table parents tainted).1 =
    if (own.mergeMembers table parents).unmet table.names own.id = [] then
      .resolved (own.compose table parents tainted).1.layout
    else .missingOverride (own.compose table parents tainted).1.layout
      ((own.mergeMembers table parents).unmet table.names own.id) := by
  rw [compose]
  split
  · rename_i none
    rw [if_pos none]
    rfl
  · rename_i some
    rw [if_neg some]
    rfl

theorem StructDef.concrete_compose : (own.compose table parents tainted).1.isConcrete =
    (!tainted && (own.mergeMembers table parents).methods.all fun method => method.hasBody) := by
  rw [compose]
  split <;> rfl

end Compose

namespace Compositions

variable {table : DeclTable}

/-- The method is the one of its name that counts in its origin, but for its signature. -/
def AcceptedIn (table : DeclTable) (method : ResolvedMethod) : Prop :=
  ∃ own layout base, table.struct? method.origin = some own ∧ (ofTable table).layout? method.origin = some layout ∧
    own.accepted? layout.fields method.name = some base ∧ base.hasBody = method.hasBody

/-- Whether the layout of some parent of a struct is as asked for. -/
def SomeParent (table : DeclTable) (own : StructDef) (asked : Layout → Prop) : Prop :=
  ∃ parent ∈ own.shape.composes, ∃ top ∈ (ofTable table).layout? parent.id, asked top

theorem exists_inherited {own : StructDef} (asked : String → Bool → StructId → Prop) :
    (∃ method ∈ inherited table (parentsOf table own), asked method.name method.hasBody method.origin) ↔
      SomeParent table own fun top => ∃ method ∈ top.methods, asked method.name method.hasBody method.origin := by
  constructor
  · rintro ⟨_, mem, holds⟩
    obtain ⟨parent, isParent, top, looked, base, isBase, rfl⟩ := mem_inherited.1 mem
    exact ⟨parent, isParent, top, looked, base, isBase, holds⟩
  · rintro ⟨parent, isParent, top, looked, base, isBase, holds⟩
    exact ⟨_, mem_inherited.2 ⟨parent, isParent, top, looked, base, isBase, rfl⟩, holds⟩

/-- A struct and its layout, in a table where no struct composes itself. -/
structure Laid (table : DeclTable) (id : StructId) (own : StructDef) (layout : Layout) : Prop where
  acyclic : table.Acyclic
  linked : table.Linked
  found : table.struct? id = some own
  looked : (ofTable table).layout? id = some layout

variable {id : StructId} {own : StructDef} {layout : Layout}

theorem flatten_eq_merged (acyclic : table.Acyclic) (linked : table.Linked) (found : table.struct? id = some own) :
    table.flatten acyclic id = own.compose table (parentsOf table own) false := by
  have all : (own.shape.composes.any fun parent => (table.struct? parent.id).isNone) = false := by
    refine any_eq_false.2 fun parent mem => ?_
    rw [Bool.not_eq_true, Option.isNone_eq_false_iff]
    exact linked.declared id own found parent mem
  rw [flatten_eq_compose acyclic linked.numbered found, all]

/-- Methods come from structs above a struct, and are what counts there. -/
structure Inherits (table : DeclTable) (id : StructId) (methods : List ResolvedMethod) : Prop where
  traced : ∀ method ∈ methods, TransGen table.Composes id method.origin ∧ AcceptedIn table method
  same : SameBody methods

theorem inherited_of_above (linked : table.Linked) (found : table.struct? id = some own)
    (each : ∀ above, table.Composes id above → ∀ other top, table.struct? above = some other →
      (ofTable table).layout? above = some top → ∀ method ∈ top.methods,
        ReflTransGen table.Composes above method.origin ∧ AcceptedIn table method) :
    Inherits table id (inherited table (parentsOf table own)) := by
  have traced : ∀ method ∈ inherited table (parentsOf table own),
      TransGen table.Composes id method.origin ∧ AcceptedIn table method := by
    intro method mem
    obtain ⟨parent, isParent, top, here, base, isBase, rfl⟩ := mem_inherited.1 mem
    have declared := linked.declared id own found parent isParent
    obtain ⟨other, above⟩ := Option.isSome_iff_exists.1 declared
    have step : table.Composes id parent.id := ⟨own, found, mem_map_of_mem isParent, declared⟩
    obtain ⟨way, accepted⟩ := each parent.id step other top above here base isBase
    exact ⟨.head' step way, accepted⟩
  refine ⟨traced, fun a isA b isB name origin => ?_⟩
  obtain ⟨own, layout, base, found, looked, accepted, body⟩ := (traced a isA).2
  obtain ⟨_, _, _, again, lookedAgain, acceptedAgain, bodyAgain⟩ := (traced b isB).2
  rw [← origin] at again lookedAgain
  cases found.symm.trans again
  cases looked.symm.trans lookedAgain
  rw [← name] at acceptedAgain
  cases accepted.symm.trans acceptedAgain
  exact body.symm.trans bodyAgain

namespace Laid

variable (h : Laid table id own layout)
include h

theorem find?_eq_merged : (ofTable table).find? id = some (own.compose table (parentsOf table own) false).1 ∧
    (own.compose table (parentsOf table own) false).1.layout = layout := by
  have whole : (ofTable table).find? id = some (own.compose table (parentsOf table own) false).1 := by
    rw [find?_eq_flatten h.acyclic h.linked.numbered (by rw [h.found]; rfl), flatten_eq_merged h.acyclic h.linked h.found]
  have looked := h.looked
  rw [layout?, whole, Option.map_some, Option.some.injEq] at looked
  exact ⟨whole, looked⟩

theorem members_eq_merged : layout.fields = (own.mergeMembers table (parentsOf table own)).fields ∧
    layout.methods = (own.mergeMembers table (parentsOf table own)).methods := by
  rw [← h.find?_eq_merged.2, fields_compose, methods_compose]
  exact ⟨rfl, rfl⟩

theorem kept_of_sameBody (same : SameBody (inherited table (parentsOf table own))) :
    (layout.methods.map (·.name)).Nodup ∧ ∀ name, layout.method? name =
      (own.accepted? layout.fields name).or (chosen? (inherited table (parentsOf table own)) name) := by
  obtain ⟨fields, methods⟩ := h.members_eq_merged
  refine ⟨methods ▸ (mergeMembers_view same "").1, fun name => ?_⟩
  rw [Layout.method?, methods, fields]
  exact (mergeMembers_view same name).2.1

theorem methods_traced : ∀ method ∈ layout.methods,
    ReflTransGen table.Composes id method.origin ∧ AcceptedIn table method := by
  induction id using h.acyclic.wellFounded.induction generalizing own layout with
  | _ id ih =>
    obtain ⟨traced, same⟩ := inherited_of_above h.linked h.found fun above step other top found looked =>
      ih above step ⟨h.acyclic, h.linked, found, looked⟩
    obtain ⟨names, kept⟩ := h.kept_of_sameBody same
    intro method mem
    have here := kept method.name
    rw [Layout.method?, find?_of_nodup names mem] at here
    rcases Option.or_eq_some_iff.1 here.symm with mine | ⟨_, chosen⟩
    · have origin : method.origin = id := (of_accepted? mine).1.trans (h.linked.numbered id own h.found)
      refine ⟨origin ▸ .refl, own, layout, method, ?_, ?_, mine, rfl⟩ <;> rw [origin]
      · exact h.found
      · exact h.looked
    · exact (traced method (of_chosen? chosen).1).imp_left TransGen.to_reflTransGen

theorem inherited_traced : Inherits table id (inherited table (parentsOf table own)) :=
  inherited_of_above h.linked h.found fun _ _ _ _ found looked => methods_traced ⟨h.acyclic, h.linked, found, looked⟩

theorem methods_kept : (layout.methods.map (·.name)).Nodup ∧ ∀ name, layout.method? name =
    (own.accepted? layout.fields name).or (chosen? (inherited table (parentsOf table own)) name) :=
  h.kept_of_sameBody h.inherited_traced.same

theorem has_iff {name : String} :
    layout.Has name ↔ (own.accepted? layout.fields name).isSome ∨ SomeParent table own (·.Has name) := by
  rw [Layout.has_iff, h.methods_kept.2, Option.isSome_or, Bool.or_eq_true,
    isSome_chosen?, exists_inherited fun other _ _ => other = name]
  rfl

theorem implements_iff {name : String} : layout.Implements name ↔
    (∃ method ∈ own.accepted? layout.fields name, method.hasBody = true) ∨
      own.accepted? layout.fields name = none ∧ SomeParent table own (·.Implements name) := by
  obtain ⟨names, kept⟩ := h.methods_kept
  rw [Layout.implements_iff names, kept]
  cases own.accepted? layout.fields name with
  | some method => simp
  | none =>
    rw [Option.none_or, chosen?_hasBody, exists_inherited fun other body _ => other = name ∧ body = true]
    simp [Layout.Implements]

theorem accepted?_eq_none_iff {method : ResolvedMethod} (mem : method ∈ layout.methods) :
    own.accepted? layout.fields method.name = none ↔ method.origin ≠ own.id := by
  obtain ⟨names, kept⟩ := h.methods_kept
  have here := kept method.name
  rw [Layout.method?, find?_of_nodup names mem] at here
  rcases Option.or_eq_some_iff.1 here.symm with mine | ⟨none, chosen⟩
  · simp [mine, (of_accepted? mine).1]
  · have way := (h.inherited_traced.traced method (of_chosen? chosen).1).1
    refine ⟨fun _ same => ?_, fun _ => none⟩
    rw [same, h.linked.numbered id own h.found] at way
    exact h.acyclic id way

theorem find?_eq_unmet : (ofTable table).find? id = some (if own.unmet layout = [] then .resolved layout
    else .missingOverride layout ((own.unmet layout).map fun method => method.signature.render table.names method.name)) := by
  have unmet : (own.mergeMembers table (parentsOf table own)).unmet table.names own.id =
      (own.unmet layout).map fun method => method.signature.render table.names method.name := by
    rw [Merge.unmet, ← h.members_eq_merged.2, StructDef.unmet]
    refine congrArg (List.map _) (filter_congr fun method mem => ?_)
    rw [Bool.eq_iff_iff]
    simp [Option.isNone_iff_eq_none, h.accepted?_eq_none_iff mem]
  rw [h.find?_eq_merged.1, own.compose_fst, h.find?_eq_merged.2, unmet]
  simp only [map_eq_nil_iff]

theorem isConcrete_iff : (ofTable table).isConcrete id = true ↔ ∀ method ∈ layout.methods, method.hasBody = true := by
  rw [isConcrete, h.find?_eq_merged.1, ← h.find?_eq_merged.2, methods_compose, ← all_eq_true]
  dsimp only
  rw [own.concrete_compose, Bool.not_false, Bool.true_and]

theorem mem_fieldNames {name : String} : name ∈ layout.fields.map (·.name) ↔
    name ∈ own.ownFields.map (·.name) ∨ SomeParent table own fun top => name ∈ top.fields.map (·.name) := by
  rw [h.members_eq_merged.1, (own.mergeMembers_names table _).mem, map_append,
    mem_append, or_comm]
  refine or_congr Iff.rfl ⟨fun mem => ?_, ?_⟩
  · obtain ⟨_, isOne, rfl⟩ := mem_map.1 mem
    obtain ⟨parent, isParent, top, looked, base, isBase, rfl⟩ := mem_inheritedFields.1 isOne
    exact ⟨parent, isParent, top, looked, mem_map.2 ⟨base, isBase, rfl⟩⟩
  · rintro ⟨parent, isParent, top, looked, mem⟩
    obtain ⟨base, isBase, rfl⟩ := mem_map.1 mem
    exact mem_map.2 ⟨_, mem_inheritedFields.2 ⟨parent, isParent, top, looked, base, isBase, rfl⟩, rfl⟩

theorem mem_unmet {name : String} : name ∈ (own.unmet layout).map (·.name) ↔
    layout.Has name ∧ ¬ layout.Implements name ∧ own.accepted? layout.fields name = none := by
  obtain ⟨names, _⟩ := h.methods_kept
  constructor
  · intro mem
    obtain ⟨method, isOne, rfl⟩ := mem_map.1 mem
    obtain ⟨inside, holds⟩ := mem_filter.1 isOne
    rw [Bool.and_eq_true, Bool.not_eq_true', Option.isNone_iff_eq_none, ← Bool.not_eq_true,
      Layout.hasBody_iff names inside] at holds
    exact ⟨⟨method, inside, rfl⟩, holds⟩
  · rintro ⟨⟨method, inside, rfl⟩, holds⟩
    refine mem_map_of_mem (mem_filter.2 ⟨inside, ?_⟩)
    rwa [Bool.and_eq_true, Bool.not_eq_true', Option.isNone_iff_eq_none, ← Bool.not_eq_true,
      Layout.hasBody_iff names inside]

end Laid

end Compositions

def StructDef.withParents (own : StructDef) (composes : List ComposedParent) : StructDef :=
  { own with shape := { own.shape with composes } }

theorem StructDef.accepted?_congr {own : StructDef} {fields others : List ResolvedField} {name : String}
    (same : name ∈ fields.map (·.name) ↔ name ∈ others.map (·.name)) (composes : List ComposedParent) :
    (own.withParents composes).accepted? fields name = own.accepted? others name := by
  have any : (fields.any fun field => field.name == name) = others.any fun field => field.name == name := by
    rw [Bool.eq_iff_iff]
    simpa using same
  rw [accepted?, accepted?, any]
  rfl

namespace DeclTable

/-- The structs name their parents in another order. -/
def reorder (table : DeclTable) (order : StructDef → List ComposedParent) : DeclTable :=
  { table with structs := table.structs.map fun own => own.withParents (order own) }

variable {table : DeclTable} {order : StructDef → List ComposedParent}

theorem struct?_reorder {id : StructId} :
    (table.reorder order).struct? id = (table.struct? id).map fun own => own.withParents (order own) :=
  getElem?_map ..

variable (perm : ∀ own ∈ table.structs, (order own).Perm own.shape.composes)
include perm

theorem Composes.of_reorder {a b : StructId} (h : (table.reorder order).Composes a b) : table.Composes a b := by
  obtain ⟨_, found, named, declared⟩ := h
  rw [struct?_reorder] at found declared
  obtain ⟨own, here, rfl⟩ := Option.map_eq_some_iff.1 found
  rw [Option.isSome_map] at declared
  exact ⟨own, here, ((perm own (mem_of_getElem? here)).map _).mem_iff.1 named, declared⟩

theorem Acyclic.reorder (acyclic : table.Acyclic) : (table.reorder order).Acyclic :=
  fun id loop => acyclic id (TransGen.lift (fun a => a) (fun _ _ => Composes.of_reorder perm) _ _ loop)

theorem Linked.reorder (linked : table.Linked) : (table.reorder order).Linked := by
  refine ⟨fun id again found => ?_, fun id again found parent mem => ?_⟩ <;> rw [struct?_reorder] at found <;>
    obtain ⟨own, here, rfl⟩ := Option.map_eq_some_iff.1 found
  · exact linked.numbered id own here
  · rw [struct?_reorder, Option.isSome_map]
    exact linked.declared id own here parent ((perm own (mem_of_getElem? here)).mem_iff.1 mem)

end DeclTable

namespace Compositions

variable {table : DeclTable} {order : StructDef → List ComposedParent} {id : StructId} {own : StructDef}

theorem exists_laid (acyclic : table.Acyclic) (linked : table.Linked) (found : table.struct? id = some own) :
    ∃ layout, Laid table id own layout := by
  obtain ⟨layout, looked⟩ := layout?_isSome linked.numbered (by rw [found]; rfl)
  exact ⟨layout, acyclic, linked, found, looked⟩

/-- Whether two layouts have a name for the same kinds of members. -/
def AlikeIn (name : String) (layout other : Layout) : Prop :=
  (name ∈ other.fields.map (·.name) ↔ name ∈ layout.fields.map (·.name)) ∧
    (other.Has name ↔ layout.Has name) ∧ (other.Implements name ↔ layout.Implements name)

variable (perm : ∀ own ∈ table.structs, (order own).Perm own.shape.composes) {layout other : Layout}
  (h : Laid table id own layout)
include perm h

theorem Laid.reorder : ∃ other, Laid (table.reorder order) id (own.withParents (order own)) other :=
  exists_laid (h.acyclic.reorder perm) (h.linked.reorder perm) (by rw [DeclTable.struct?_reorder, h.found, Option.map_some])

/-- By induction up the composition lists: every name means the same to a struct whatever the order of parents. -/
theorem Laid.alike (again : Laid (table.reorder order) id (own.withParents (order own)) other) (name : String) :
    AlikeIn name layout other := by
  induction id using h.acyclic.wellFounded.induction generalizing own layout other with
  | _ id ih =>
    have listed := perm own (mem_of_getElem? h.found)
    have parents : ∀ asked : Layout → Prop, (∀ top other, AlikeIn name top other → (asked other ↔ asked top)) →
        (SomeParent (table.reorder order) (own.withParents (order own)) asked ↔ SomeParent table own asked) := by
      intro asked each
      have above : ∀ parent ∈ own.shape.composes, ∃ top other, (ofTable table).layout? parent.id = some top ∧
          (ofTable (table.reorder order)).layout? parent.id = some other ∧ (asked other ↔ asked top) := by
        intro parent mem
        have declared := h.linked.declared id own h.found parent mem
        obtain ⟨upper, found⟩ := Option.isSome_iff_exists.1 declared
        obtain ⟨top, laid⟩ := exists_laid h.acyclic h.linked found
        obtain ⟨other, laidAgain⟩ := laid.reorder perm
        have step : table.Composes id parent.id := ⟨own, h.found, mem_map_of_mem mem, declared⟩
        exact ⟨top, other, laid.looked, laidAgain.looked, each top other (ih parent.id step laid laidAgain)⟩
      constructor
      · rintro ⟨parent, isParent, other, looked, holds⟩
        have mem := listed.mem_iff.1 isParent
        obtain ⟨top, _, here, there, same⟩ := above parent mem
        cases there.symm.trans looked
        exact ⟨parent, mem, top, here, same.1 holds⟩
      · rintro ⟨parent, mem, top, looked, holds⟩
        obtain ⟨_, other, here, there, same⟩ := above parent mem
        cases here.symm.trans looked
        exact ⟨parent, listed.mem_iff.2 mem, other, there, same.2 holds⟩
    have fields : name ∈ other.fields.map (·.name) ↔ name ∈ layout.fields.map (·.name) := by
      rw [again.mem_fieldNames, h.mem_fieldNames]
      exact or_congr Iff.rfl (parents _ fun _ _ alike => alike.1)
    refine ⟨fields, ?_, ?_⟩
    · rw [again.has_iff, h.has_iff, accepted?_congr fields]
      exact or_congr Iff.rfl (parents _ fun _ _ alike => alike.2.1)
    · rw [again.implements_iff, h.implements_iff, accepted?_congr fields]
      exact or_congr Iff.rfl (and_congr Iff.rfl (parents _ fun _ _ alike => alike.2.2))

omit perm h

theorem reported_perm (acyclic : table.Acyclic) (linked : table.Linked) (found : table.struct? id = some own)
    (name : String) :
    ((ofTable table).issues.filterMap (CompositionIssue.origins? id name)).Perm
      (((own.mergeMembers table (parentsOf table own)).noted name).map (·.2)) := by
  have each : ∀ other ∈ table.structs, (table.flatten acyclic other.id).2.filterMap (CompositionIssue.origins? id name) =
      if other.id = id then ((other.mergeMembers table (parentsOf table other)).noted name).map (·.2) else [] := by
    intro other mem
    obtain ⟨index, here⟩ := getElem?_of_mem mem
    have there : table.struct? other.id = some other := by
      rw [linked.numbered ⟨index⟩ other here]
      exact here
    rw [flatten_eq_merged acyclic linked there, other.origins_compose]
  obtain ⟨before, after, split⟩ := append_of_mem (mem_of_getElem? found)
  have unique := linked.numbered.nodup_ids
  rw [split, map_append, map_cons, nodup_middle, ← map_append, nodup_cons,
    linked.numbered id own found] at unique
  have others : ∀ other ∈ before ++ after, (if other.id = id then
      ((other.mergeMembers table (parentsOf table other)).noted name).map (·.2) else []) = [] :=
    fun other mem => if_neg fun same => unique.1 (mem_map.2 ⟨other, mem, same⟩)
  have all := (issues_perm acyclic linked.numbered).filterMap (CompositionIssue.origins? id name)
  rw [filterMap_flatMap, flatMap_congr each, split] at all
  have moved := all.trans (List.Perm.flatMap_right _ perm_middle)
  rwa [flatMap_cons, if_pos (linked.numbered id own found), flatMap_eq_nil_iff.2 others,
    append_nil] at moved

/-- Where no struct composes itself, every struct has the methods that it declares and that count, and the methods of
its parents. A method has a body if the one that counts has one, or if none counts and some parent has one with a body.
A struct is concrete if all its methods have bodies, and has to override those that have none and that it does not
declare. None of this depends on the order in which structs name their parents. -/
theorem methods_of_parents (table : DeclTable) (acyclic : table.Acyclic) (linked : table.Linked) :
    (∀ id own, table.struct? id = some own → ∃ layout,
      (ofTable table).find? id = some (if own.unmet layout = [] then .resolved layout else .missingOverride layout
        ((own.unmet layout).map fun method => method.signature.render table.names method.name)) ∧
      (layout.methods.map (·.name)).Nodup ∧
      (∀ name, layout.Has name ↔
        (own.accepted? layout.fields name).isSome ∨ SomeParent table own (·.Has name)) ∧
      (∀ name, layout.Implements name ↔ (∃ method ∈ own.accepted? layout.fields name, method.hasBody = true) ∨
        own.accepted? layout.fields name = none ∧ SomeParent table own (·.Implements name)) ∧
      ((ofTable table).isConcrete id = true ↔ ∀ method ∈ layout.methods, method.hasBody = true)) ∧
    ∀ order : StructDef → List ComposedParent, (∀ own ∈ table.structs, (order own).Perm own.shape.composes) →
      ∀ id own layout, table.struct? id = some own → (ofTable table).layout? id = some layout →
        ∃ other, (ofTable (table.reorder order)).layout? id = some other ∧
          (ofTable (table.reorder order)).isConcrete id = (ofTable table).isConcrete id ∧
          (∀ name, other.Has name ↔ layout.Has name) ∧
          (∀ name, other.Implements name ↔ layout.Implements name) ∧
          ∀ name, name ∈ ((own.withParents (order own)).unmet other).map (·.name) ↔
            name ∈ (own.unmet layout).map (·.name) := by
  refine ⟨fun id own found => ?_, fun order perm id own layout found looked => ?_⟩
  · obtain ⟨layout, h⟩ := exists_laid acyclic linked found
    exact ⟨layout, h.find?_eq_unmet, h.methods_kept.1, fun _ => h.has_iff, fun _ => h.implements_iff, h.isConcrete_iff⟩
  · have h : Laid table id own layout := ⟨acyclic, linked, found, looked⟩
    obtain ⟨other, again⟩ := h.reorder perm
    have alike := h.alike perm again
    refine ⟨other, again.looked, ?_, fun name => (alike name).2.1, fun name => (alike name).2.2, fun name => ?_⟩
    · rw [Bool.eq_iff_iff, again.isConcrete_iff, h.isConcrete_iff, Layout.forall_hasBody again.methods_kept.1,
        Layout.forall_hasBody h.methods_kept.1]
      exact forall_congr' fun name => imp_congr (alike name).2.1 (alike name).2.2
    · obtain ⟨fields, has, implements⟩ := alike name
      rw [again.mem_unmet, h.mem_unmet, accepted?_congr fields, has, implements]

/-- `Both` has two bodies for `show`, none for `area`, and `size` as a field and as a method. -/
def rooms : DeclTable :=
  (Collected.ofUnits .standard [{
    id := ⟨0⟩
    declarations := [
      .struct { name := "Left", methods := [{ name := "show", body := some [] }, { name := "size", body := some [] }] },
      .struct { name := "Right", methods := [{ name := "show", body := some [] }, { name := "area" }] },
      .struct {
        name := "Both"
        composes := [⟨.named "Left" [], {}⟩, ⟨.named "Right" [], {}⟩]
        fields := [{ name := "size", type := ⟨.named "int64" [], {}⟩ }] }] }]).declared.table

theorem rooms_sound : rooms.Acyclic ∧ rooms.Linked := by
  have regular : rooms.Regular := Collected.ofUnits_regular _ _
  exact ⟨acyclic_of_cycles_eq_nil regular.numbered (by decide +kernel), regular.linked⟩

theorem methods_of_parents_rooms :
    ∃ own ∈ rooms.struct? ⟨2⟩, ∃ layout ∈ (ofTable rooms).layout? ⟨2⟩, (own.unmet layout).map (·.name) = ["area"] ∧
      (layout.Implements "size" ↔ SomeParent rooms own (·.Implements "size")) ∧
      ∃ other, (ofTable (rooms.reorder fun own => own.shape.composes.reverse)).layout? ⟨2⟩ = some other ∧
        ∀ name, name ∈ ((own.withParents own.shape.composes.reverse).unmet other).map (·.name) ↔ name ∈ ["area"] := by
  obtain ⟨acyclic, linked⟩ := rooms_sound
  obtain ⟨each, reordered⟩ := methods_of_parents rooms acyclic linked
  have unmet : ∃ own ∈ rooms.struct? ⟨2⟩, ∃ layout ∈ (ofTable rooms).layout? ⟨2⟩,
      (own.unmet layout).map (·.name) = ["area"] ∧ own.accepted? layout.fields "size" = none := by decide +kernel
  obtain ⟨own, found, layout, looked, names, free⟩ := unmet
  obtain ⟨again, whole, _, _, implements, _⟩ := each ⟨2⟩ own found
  have same : again = layout := by
    rw [Option.mem_def, layout?, whole, Option.map_some] at looked
    split at looked <;> exact Option.some.inj looked
  have size := implements "size"
  rw [same, free] at size
  obtain ⟨other, lookedOther, _, _, _, alike⟩ :=
    reordered _ (fun own _ => reverse_perm own.shape.composes) ⟨2⟩ own layout found looked
  rw [names] at alike
  exact ⟨own, found, layout, looked, names, by simpa using size, other, lookedOther, alike⟩

/-- Where no struct composes itself, a method of a struct is reported as ambiguous exactly if the struct declares none
that counts and its parents have methods of the name with bodies from different structs. It is reported once, with all
the structs that those come from. -/
theorem ambiguous_iff_rivals (table : DeclTable) (acyclic : table.Acyclic) (linked : table.Linked) (id : StructId)
    (own : StructDef) (layout : Layout) (found : table.struct? id = some own)
    (looked : (ofTable table).layout? id = some layout) (name : String) :
    let reported := (ofTable table).issues.filterMap (CompositionIssue.origins? id name)
    let comesFrom (origin : StructId) := SomeParent table own fun top =>
      ∃ method ∈ top.methods, method.name = name ∧ method.hasBody = true ∧ method.origin = origin
    (reported ≠ [] ↔ own.accepted? layout.fields name = none ∧ ∃ a b, comesFrom a ∧ comesFrom b ∧ a ≠ b) ∧
      reported.length ≤ 1 ∧ ∀ origins ∈ reported, ∀ origin, origin ∈ origins ↔ comesFrom origin := by
  intro reported comesFrom
  have h : Laid table id own layout := ⟨acyclic, linked, found, looked⟩
  have listed : reported.Perm (((own.mergeMembers table (parentsOf table own)).noted name).map (·.2)) :=
    reported_perm acyclic linked found name
  have bodies : ∀ origin, (∃ method ∈ bodied (inherited table (parentsOf table own)) name,
      method.origin = origin) ↔ comesFrom origin := by
    intro origin
    refine Iff.trans ?_ (exists_inherited fun other body start => other = name ∧ body = true ∧ start = origin)
    simp only [mem_bodied, and_assoc]
  rw [(mergeMembers_view h.inherited_traced.same name).2.2, ← h.members_eq_merged.1] at listed
  obtain ⟨nonempty, single, all⟩ :=
    dispute_spec name (bodied (inherited table (parentsOf table own)) name)
  cases mine : own.accepted? layout.fields name with
  | some method =>
    rw [mine, Option.isSome_some, if_pos rfl] at listed
    have none : reported = [] := listed.eq_nil
    rw [none]
    simp
  | none =>
    rw [mine, Option.isSome_none, if_neg Bool.false_ne_true] at listed
    refine ⟨?_, ?_, fun origins mem origin => ?_⟩
    · rw [← length_pos_iff, listed.length_eq, length_map, length_pos_iff, nonempty]
      constructor
      · rintro ⟨a, isA, b, isB, different⟩
        exact ⟨rfl, a.origin, b.origin, (bodies _).1 ⟨a, isA, rfl⟩, (bodies _).1 ⟨b, isB, rfl⟩, different⟩
      · rintro ⟨_, _, _, isA, isB, different⟩
        obtain ⟨a, memA, rfl⟩ := (bodies _).2 isA
        obtain ⟨b, memB, rfl⟩ := (bodies _).2 isB
        exact ⟨a, memA, b, memB, different⟩
    · rw [listed.length_eq, length_map]
      exact single
    · obtain ⟨entry, isEntry, rfl⟩ := mem_map.1 (listed.mem_iff.1 mem)
      rw [all entry isEntry, bodies]

theorem ambiguous_iff_rivals_rooms :
    (ofTable rooms).issues.filterMap (CompositionIssue.origins? ⟨2⟩ "show") = [[⟨0⟩, ⟨1⟩]] ∧
      ∃ own, rooms.struct? ⟨2⟩ = some own ∧ ∀ origin : StructId, origin ∈ ([⟨0⟩, ⟨1⟩] : List StructId) ↔
        SomeParent rooms own fun top => ∃ method ∈ top.methods, method.name = "show" ∧ method.hasBody = true ∧
          method.origin = origin := by
  have reported : (ofTable rooms).issues.filterMap (CompositionIssue.origins? ⟨2⟩ "show") = [[⟨0⟩, ⟨1⟩]] := by
    decide +kernel
  obtain ⟨acyclic, linked⟩ := rooms_sound
  obtain ⟨own, found⟩ : ∃ own, rooms.struct? ⟨2⟩ = some own := Option.isSome_iff_exists.1 (by decide +kernel)
  obtain ⟨layout, looked⟩ := layout?_isSome linked.numbered (by rw [found]; rfl : (rooms.struct? ⟨2⟩).isSome)
  obtain ⟨_, _, all⟩ := ambiguous_iff_rivals rooms acyclic linked ⟨2⟩ own layout found looked "show"
  exact ⟨reported, own, found, all _ (reported ▸ mem_cons_self)⟩

/-- Where no cycle is reported, no two fields and no two methods of a struct have one name, whatever else is reported.
A field and a method have one exactly if a method of a parent is named like a field of the struct. That is not
reported: members are only compared with those of their kind, and methods that a struct declares with its fields. -/
theorem member_names_nodup (table : DeclTable) (linked : table.Linked) (none : (ofTable table).cycles = [])
    (id : StructId) (own : StructDef) (layout : Layout) (found : table.struct? id = some own)
    (looked : (ofTable table).layout? id = some layout) :
    (layout.fields.map (·.name)).Nodup ∧ (layout.methods.map (·.name)).Nodup ∧
      ((layout.fields.map (·.name) ++ layout.methods.map (·.name)).Nodup ↔
        ∀ field ∈ layout.fields, ¬ SomeParent table own (·.Has field.name)) := by
  have h : Laid table id own layout := ⟨acyclic_of_cycles_eq_nil linked.numbered none, linked, found, looked⟩
  have fields : (layout.fields.map (·.name)).Nodup := by
    rw [h.members_eq_merged.1]
    exact (own.mergeMembers_names table _).nodup
  have methods := h.methods_kept.1
  refine ⟨fields, methods, ?_⟩
  rw [nodup_append]
  constructor
  · rintro ⟨_, _, apart⟩ field mem some
    obtain ⟨method, isOne, same⟩ := h.has_iff.2 (.inr some)
    exact apart _ (mem_map_of_mem mem) _ (mem_map_of_mem isOne) same.symm
  · refine fun clear => ⟨fields, methods, fun _ isField _ isMethod same => ?_⟩
    obtain ⟨field, mem, rfl⟩ := mem_map.1 isField
    obtain ⟨method, isOne, rfl⟩ := mem_map.1 isMethod
    rcases h.has_iff.1 ⟨method, isOne, same.symm⟩ with mine | some
    · obtain ⟨_, accepted⟩ := Option.isSome_iff_exists.1 mine
      exact (of_accepted? accepted).2.2.2 field mem rfl
    · exact clear field mem some

/-- `size` is a field of `Both` and a method that it inherits, and nothing is reported of it. -/
theorem member_names_shared : ((ofTable rooms).issues.map fun issue => issue.code) = [.ambiguousMethod, .missingOverride] ∧
    ∃ own ∈ rooms.struct? ⟨2⟩, ∃ layout ∈ (ofTable rooms).layout? ⟨2⟩,
      layout.fields.map (·.name) ++ layout.methods.map (·.name) = ["size", "show", "size", "area"] ∧
      ∃ field ∈ layout.fields, SomeParent rooms own (·.Has field.name) := by
  obtain ⟨_, linked⟩ := rooms_sound
  have names : ∃ layout ∈ (ofTable rooms).layout? ⟨2⟩,
      layout.fields.map (·.name) ++ layout.methods.map (·.name) = ["size", "show", "size", "area"] := by decide +kernel
  obtain ⟨layout, looked, names⟩ := names
  obtain ⟨own, found⟩ : ∃ own, rooms.struct? ⟨2⟩ = some own := Option.isSome_iff_exists.1 (by decide +kernel)
  obtain ⟨_, _, iff⟩ := member_names_nodup rooms linked (by decide +kernel) ⟨2⟩ own layout found looked
  refine ⟨by decide +kernel, own, found, layout, looked, names, ?_⟩
  by_contra clear
  rw [names] at iff
  exact absurd (iff.2 fun field mem some => clear ⟨field, mem, some⟩) (by decide)

end Compositions

end SemanticChecker
