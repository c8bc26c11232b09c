import Mathlib.Data.List.Nodup
import Mathlib.Data.List.Perm.Basic
import SemanticChecker.Proofs.Declared.Listing
import SemanticChecker.Proofs.Order.Renaming

/-! The declarations of a program in another order. Whether names clash does not depend on the order. Where they do not,
the same declarations are entered under other numbers, and every name stands for the same declaration. -/
namespace SemanticChecker

open List

structure SourceUnit.Reorders (unit other : SourceUnit) : Prop where
  id : other.id = unit.id
  module : other.module = unit.module
  declarations : unit.declarations.Perm other.declarations

/-- Whether units are others in another order, each with its declarations in any order. -/
def Reordered (units others : List SourceUnit) : Prop :=
  ∃ middle, List.Forall₂ SourceUnit.Reorders units middle ∧ middle.Perm others

theorem SourceUnit.Reorders.placed {unit other : SourceUnit} (h : unit.Reorders other) : unit.placed.Perm other.placed := by
  rw [SourceUnit.placed, SourceUnit.placed, h.id, h.module]
  exact h.declarations.map _

theorem SourceUnit.Reorders.symm {unit other : SourceUnit} (h : unit.Reorders other) : other.Reorders unit :=
  ⟨h.id.symm, h.module.symm, h.declarations.symm⟩

namespace Reordered

theorem refl (units : List SourceUnit) : Reordered units units :=
  ⟨units, List.forall₂_same.2 fun _ _ => ⟨rfl, rfl, .refl _⟩, .refl _⟩

theorem symm {units others : List SourceUnit} (h : Reordered units others) : Reordered others units := by
  obtain ⟨middle, each, perm⟩ := h
  have back : List.Forall₂ SourceUnit.Reorders middle units := each.flip.imp fun _ _ h => h.symm
  obtain ⟨first, forth, rest⟩ := List.perm_comp_forall₂ perm.symm back
  exact ⟨first, forth, rest⟩

theorem placed {units others : List SourceUnit} (h : Reordered units others) :
    (units.flatMap SourceUnit.placed).Perm (others.flatMap SourceUnit.placed) := by
  obtain ⟨middle, each, perm⟩ := h
  refine List.Perm.trans ?_ (perm.flatMap_right _)
  clear perm
  induction each with
  | nil => exact .refl _
  | cons first _ ih => exact first.placed.append ih

end Reordered

section Lists

variable {α β κ : Type}

theorem lookup_perm [BEq α] [LawfulBEq α] {entries others : List (α × β)} (perm : entries.Perm others)
    (nodup : (entries.map Prod.fst).Nodup) (key : α) : entries.lookup key = others.lookup key := by
  induction perm with
  | nil => rfl
  | cons entry _ ih => rw [lookup_cons, lookup_cons, ih (nodup_cons.1 nodup).2]
  | swap first second rest =>
    have differ : first.1 ≠ second.1 := by
      rintro same
      simp [same] at nodup
    rw [lookup_cons, lookup_cons, lookup_cons, lookup_cons]
    by_cases here : key = first.1
    · have there : (key == second.1) = false := by simpa [here] using differ
      rw [there]
    · have away : (key == first.1) = false := by simpa using here
      rw [away]
  | trans first _ ih ih' => exact (ih nodup).trans (ih' ((first.map _).nodup_iff.1 nodup))

open Classical in
theorem exists_positions {as bs : List κ} (perm : as.Perm bs) (nodup : as.Nodup) :
    ∃ f : Nat → Nat, Function.Injective f ∧ (∀ position, bs[f position]? = as[position]?) ∧
      ∀ position, as[position]? = none → f position = position := by
  let f (position : Nat) : Nat := (as[position]?).elim position bs.idxOf
  have inside : ∀ {position a}, as[position]? = some a → a ∈ bs := fun found => perm.subset (mem_of_getElem? found)
  have outside : ∀ {position}, as[position]? = none → bs.length ≤ position := fun none => by
    rw [← perm.length_eq]
    exact List.getElem?_eq_none_iff.1 none
  have at_some : ∀ {position a}, as[position]? = some a → f position = bs.idxOf a := fun found => by simp [f, found]
  have at_none : ∀ {position}, as[position]? = none → f position = position := fun none => by simp [f, none]
  refine ⟨f, fun first second same => ?_, fun position => ?_, fun _ => at_none⟩
  · cases here : as[first]? with
    | none =>
      cases there : as[second]? with
      | none => rwa [at_none here, at_none there] at same
      | some b =>
        rw [at_none here, at_some there] at same
        have low := idxOf_lt_length_of_mem (inside there)
        have high := outside here
        omega
    | some a =>
      cases there : as[second]? with
      | none =>
        rw [at_some here, at_none there] at same
        have low := idxOf_lt_length_of_mem (inside here)
        have high := outside there
        omega
      | some b =>
        rw [at_some here, at_some there] at same
        cases (idxOf_inj (inside here)).1 same
        exact (getElem?_inj (List.getElem?_eq_some_iff.1 here).1 nodup).1 (here.trans there.symm)
  · cases here : as[position]? with
    | none => rw [at_none here, List.getElem?_eq_none_iff.2 (outside here)]
    | some a =>
      rw [at_some here]
      exact getElem?_idxOf (inside here)

/-- Entries at other positions, if what is placed there decides what is to stand there. -/
theorem getElem?_moved {xs ys : List α} {place : α → κ} {f : Nat → Nat}
    (moved : ∀ position, (ys.map place)[f position]? = (xs.map place)[position]?) {put : α → α}
    (decides : ∀ position x y, xs[position]? = some x → ys[f position]? = some y → place y = place x → y = put x)
    (position : Nat) : ys[f position]? = (xs[position]?).map put := by
  have same := moved position
  rw [getElem?_map, getElem?_map] at same
  cases here : xs[position]? with
  | none =>
    rw [here] at same
    exact Option.map_eq_none_iff.1 same
  | some x =>
    rw [here] at same
    obtain ⟨y, there, placed⟩ := Option.map_eq_some_iff.1 same
    rw [there, decides position x y here there placed]
    rfl

theorem perm_moved {xs ys : List α} {place : α → κ} {f : Nat → Nat} (perm : (xs.map place).Perm (ys.map place))
    (nodup : (xs.map place).Nodup) {put : α → α} (moved : ∀ position, ys[f position]? = (xs[position]?).map put)
    (keeps : ∀ x, place (put x) = place x) : ys.Perm (xs.map put) := by
  have same : (xs.map put).map place = xs.map place := by
    rw [map_map]
    exact map_congr_left fun x _ => keeps x
  have distinct : (ys.map place).Nodup := perm.nodup_iff.1 nodup
  refine (perm_ext_iff_of_nodup distinct.of_map (same ▸ nodup : ((xs.map put).map place).Nodup).of_map).2 fun y =>
    ⟨fun mem => ?_, fun mem => ?_⟩
  · obtain ⟨x, isOne, placed⟩ := mem_map.1 (perm.symm.subset (mem_map_of_mem mem))
    obtain ⟨position, here⟩ := getElem?_of_mem isOne
    have there := moved position
    rw [here] at there
    refine mem_map.2 ⟨x, isOne, inj_on_of_nodup_map distinct (mem_of_getElem? there) mem ?_⟩
    rw [keeps, placed]
  · obtain ⟨x, isOne, rfl⟩ := mem_map.1 mem
    obtain ⟨position, here⟩ := getElem?_of_mem isOne
    have there := moved position
    rw [here] at there
    exact mem_of_getElem? there

end Lists

theorem DeclTable.lookup_append {table more : DeclTable} {name : String} {symbol : Symbol}
    (appended : more.symbols = table.symbols ++ [(name, symbol)]) (other : String) :
    more.lookup other = (table.lookup other).or (if other = name then some symbol else none) := by
  rw [DeclTable.lookup, appended, List.lookup_append, DeclTable.lookup, lookup_cons]
  by_cases same : other = name
  · simp [same]
  · have differ : (other == name) = false := by simpa using same
    simp [same, differ]

namespace Declarations

theorem clash?_eq_none {declared : Declarations} {name : String} : declared.clash? name = none ↔
    declared.table.lookup name = none ∧ declared.aliases.find? name = none ∧ Primitive.ofName? name = none := by
  grind [clash?, DeclTable.contains, AliasTable.contains, Option.isSome_eq_false_iff, Option.isNone_iff_eq_none]

theorem clash?_enter (declared : Declarations) (unit : SourceUnit) (name : String) (declaration : Declaration)
    (other : String) : (declared.enter unit name declaration).clash? other = none ↔
      declared.clash? other = none ∧ other ≠ name := by
  have looked : ∃ symbol, (declared.enter unit name declaration).table.lookup other =
      (declared.table.lookup other).or (if other = name then some symbol else none) := by
    cases declaration with
    | _ => exact ⟨_, DeclTable.lookup_append rfl other⟩
  obtain ⟨symbol, looked⟩ := looked
  have aliases : (declared.enter unit name declaration).aliases.find? other = declared.aliases.find? other ∨
      other = name := by
    cases declaration with
    | typeAlias decl =>
      rw [Declarations.enter, AliasTable.find?_set]
      by_cases same : other = name
      · exact .inr same
      · exact .inl (if_neg same)
    | _ => exact .inl rfl
  rw [clash?_eq_none, clash?_eq_none, looked]
  by_cases same : other = name
  · simp [same]
  · rw [aliases.resolve_right same]
    simp [same]

/-- The qualified names that units declare, in order. -/
def namesOf (units : List SourceUnit) : List String :=
  (units.flatMap SourceUnit.placed).map Placed.name

theorem declare_harmless (unit : SourceUnit) (declared : Declarations) (declaration : Declaration) :
    (Harmless (declare unit declared declaration).2 ↔
      declared.clash? (unit.module.qualify declaration.name) = none) ∧
    (Harmless (declare unit declared declaration).2 → ∀ other, (declare unit declared declaration).1.clash? other = none ↔
      declared.clash? other = none ∧ other ≠ unit.module.qualify declaration.name) := by
  refine ⟨⟨fun harmless => (declare_eq_enter harmless).1, fun free => ?_⟩, fun harmless other => ?_⟩
  · rw [declare, free]
    exact fun _ mem => by cases mem
  · rw [(declare_eq_enter harmless).2, clash?_enter]

theorem declareUnits_harmless (units : List SourceUnit) (declared : Declarations) :
    Harmless (declared.declareUnits units).2.flatten ↔
      (namesOf units).Nodup ∧ ∀ name ∈ namesOf units, declared.clash? name = none := by
  -- After declarations that do not clash, names are taken that were taken before and those of the declarations.
  refine And.left (declareUnits_each (R := fun before places after reports =>
    (Harmless reports ↔ (places.map Placed.name).Nodup ∧ ∀ name ∈ places.map Placed.name, before.clash? name = none) ∧
      (Harmless reports → ∀ other, after.clash? other = none ↔ before.clash? other = none ∧ other ∉ places.map Placed.name))
    (fun _ => by simp) ?_ (fun noted => noted) units (fun unit _ declared declaration => ?_) declared)
  · rintro first second third places more reports others ⟨here, after⟩ ⟨there, last⟩
    rw [harmless_append, map_append, nodup_append]
    refine ⟨⟨?_, ?_⟩, ?_⟩
    · rintro ⟨left, right⟩
      obtain ⟨mine, free⟩ := here.1 left
      obtain ⟨distinct, others⟩ := there.1 right
      have later := fun name mem => (after left name).1 (others name mem)
      refine ⟨⟨mine, distinct, fun a isFirst b isLater same => (later b isLater).2 (same ▸ isFirst)⟩, fun name mem => ?_⟩
      exact (mem_append.1 mem).elim (free name) fun isLater => (later name isLater).1
    · rintro ⟨⟨mine, distinct, apart⟩, free⟩
      have left := here.2 ⟨mine, fun name mem => free name (mem_append_left _ mem)⟩
      exact ⟨left, there.2 ⟨distinct, fun name mem => (after left name).2
        ⟨free name (mem_append_right _ mem), fun isFirst => apart name isFirst name mem rfl⟩⟩⟩
    · rintro ⟨left, right⟩ other
      rw [last right, after left, mem_append, not_or, and_assoc]
  · simpa [Placed.name] using declare_harmless unit declared declaration

end Declarations

theorem Reordered.harmless {units others : List SourceUnit} (h : Reordered units others)
    (harmless : Harmless (Declarations.declareUnits {} units).2.flatten) : Harmless (Declarations.declareUnits {} others).2.flatten := by
  have perm : (Declarations.namesOf units).Perm (Declarations.namesOf others) := h.placed.map _
  rw [Declarations.declareUnits_harmless] at harmless ⊢
  exact ⟨perm.nodup_iff.1 harmless.1, fun name mem => harmless.2 name (perm.symm.subset mem)⟩


section Indexing

variable {α : Type} {table more : DeclTable} {fresh : String} {symbol : Symbol} {entries : List α} {nameOf : α → String}
  {make : Nat → Symbol}

/-- Whether the names that stand for what is listed are the names of what is listed. -/
def DeclTable.NamesEach (table : DeclTable) (make : Nat → Symbol) (nameOf : α → String) (entries : List α) : Prop :=
  ∀ name position, table.lookup name = some (make position) ↔
    ∃ entry, entries[position]? = some entry ∧ nameOf entry = name

namespace DeclTable.NamesEach

variable (h : table.NamesEach make nameOf entries) (free : table.lookup fresh = none)
  (looked : ∀ other, more.lookup other = if other = fresh then some symbol else table.lookup other)

include h free looked

theorem same (differs : ∀ position, symbol ≠ make position) : more.NamesEach make nameOf entries := by
  intro name position
  rw [looked]
  split
  · rename_i isFresh
    refine ⟨fun found => (differs position (Option.some.inj found)).elim, fun listed => ?_⟩
    have found := (h name position).2 listed
    rw [isFresh, free] at found
    cases found
  · exact h name position

theorem concat (injective : Function.Injective make) {entry : α} (named : nameOf entry = fresh)
    (isLast : symbol = make entries.length) : more.NamesEach make nameOf (entries ++ [entry]) := by
  intro name position
  rw [looked]
  have apart : ∀ other, entries[position]? = some other → nameOf other ≠ fresh := by
    intro other found same
    have taken := (h fresh position).2 ⟨other, found, same⟩
    rw [free] at taken
    cases taken
  split
  · rename_i isFresh
    subst isFresh
    rw [Option.some_inj, isLast, injective.eq_iff]
    constructor
    · rintro rfl
      exact ⟨entry, getElem?_concat_length, named⟩
    · rintro ⟨other, found, same⟩
      rw [getElem?_append] at found
      split at found
      · exact (apart other found same).elim
      · obtain ⟨low, _⟩ := List.getElem?_eq_some_iff.1 found
        rw [length_singleton] at low
        omega
  · rename_i differ
    rw [h name position]
    constructor
    · rintro ⟨other, found, same⟩
      exact ⟨other, getElem?_append_left (List.getElem?_eq_some_iff.1 found).1 ▸ found, same⟩
    · rintro ⟨other, found, same⟩
      rw [getElem?_append] at found
      split at found
      · exact ⟨other, found, same⟩
      · have isNew := mem_singleton.1 (mem_of_getElem? found)
        exact (differ (by rw [← same, isNew, named])).elim

omit h free looked

variable {others : DeclTable} {ys : List α} {put : α → α} (first : table.NamesEach make nameOf entries)
  (second : others.NamesEach make nameOf ys)

include first second

theorem moves {f : Nat → Nat} (moved : ∀ position, ys[f position]? = (entries[position]?).map put)
    (keeps : ∀ x, nameOf (put x) = nameOf x) {name : String} {position : Nat}
    (found : table.lookup name = some (make position)) : others.lookup name = some (make (f position)) := by
  obtain ⟨x, here, named⟩ := (first name position).1 found
  refine (second name (f position)).2 ⟨put x, ?_, (keeps x).trans named⟩
  rw [moved, here]
  rfl

theorem stems (perm : ys.Perm (entries.map put)) (keeps : ∀ x, nameOf (put x) = nameOf x) {name : String}
    {position : Nat} (found : others.lookup name = some (make position)) : (table.lookup name).isSome := by
  obtain ⟨_, here, named⟩ := (second name position).1 found
  obtain ⟨x, isOne, rfl⟩ := mem_map.1 (perm.subset (mem_of_getElem? here))
  obtain ⟨place, there⟩ := getElem?_of_mem isOne
  rw [(first name place).2 ⟨x, there, (keeps x).symm.trans named⟩]
  rfl

end DeclTable.NamesEach

end Indexing

structure DeclTable.Indexed (table : DeclTable) : Prop where
  structs : table.NamesEach (fun position => .struct ⟨position⟩) StructDef.name table.structs
  functions : table.NamesEach (fun position => .function ⟨position⟩) FunctionDef.name table.functions
  enums : table.NamesEach (fun position => .enum ⟨position⟩) EnumSource.name table.enums
  aliases : ∀ name, table.lookup name = some .typeAlias ↔ ∃ source ∈ table.aliases, source.name = name

namespace Declarations

theorem indexed_enter {declared : Declarations} (h : declared.table.Indexed)
    (registry : declared.enums.size = declared.table.enums.length) {unit : SourceUnit} {name : String}
    {declaration : Declaration} (free : declared.clash? name = none) :
    (declared.enter unit name declaration).table.Indexed := by
  have unused := (clash?_eq_none.1 free).1
  have looked : ∀ (symbol : Symbol) (more : DeclTable), more.symbols = declared.table.symbols ++ [(name, symbol)] →
      ∀ other, more.lookup other = if other = name then some symbol else declared.table.lookup other := by
    intro symbol more appended other
    rw [DeclTable.lookup_append appended]
    split
    · rename_i same
      rw [same, unused]
      rfl
    · rw [Option.or_none]
  have others : ∀ (symbol : Symbol) (more : DeclTable),
      more.symbols = declared.table.symbols ++ [(name, symbol)] → symbol ≠ .typeAlias → ∀ other,
      more.lookup other = some .typeAlias ↔ ∃ source ∈ declared.table.aliases, source.name = other := by
    intro symbol more appended differs other
    rw [looked symbol more appended, ← h.aliases]
    split
    · rename_i same
      rw [same, unused]
      simp [differs]
    · rfl
  cases declaration with
  | struct decl =>
    exact ⟨h.structs.concat unused (looked _ _ rfl) (fun _ _ same => by cases same; rfl) rfl rfl,
      h.functions.same unused (looked _ _ rfl) nofun, h.enums.same unused (looked _ _ rfl) nofun,
      others _ _ rfl nofun⟩
  | function decl =>
    exact ⟨h.structs.same unused (looked _ _ rfl) nofun,
      h.functions.concat unused (looked _ _ rfl) (fun _ _ same => by cases same; rfl) rfl rfl,
      h.enums.same unused (looked _ _ rfl) nofun, others _ _ rfl nofun⟩
  | enum decl =>
    exact ⟨h.structs.same unused (looked _ _ rfl) nofun, h.functions.same unused (looked _ _ rfl) nofun,
      h.enums.concat unused (looked _ _ rfl) (fun _ _ same => by cases same; rfl) rfl
        (congrArg (fun size => Symbol.enum ⟨size⟩) registry), others _ _ rfl nofun⟩
  | typeAlias decl =>
    refine ⟨h.structs.same unused (looked _ _ rfl) nofun, h.functions.same unused (looked _ _ rfl) nofun,
      h.enums.same unused (looked _ _ rfl) nofun, fun other => ?_⟩
    rw [looked .typeAlias _ rfl]
    simp only [Declarations.enter, mem_append, mem_singleton, or_and_right, exists_or, exists_eq_left]
    split
    · rename_i same
      exact ⟨fun _ => .inr same.symm, fun _ => rfl⟩
    · rename_i differ
      rw [h.aliases, or_iff_left (Ne.symm differ)]

end Declarations

theorem Collected.named_indexed (units : List SourceUnit) : (named units).table.Indexed := by
  refine (Declarations.declareUnits_keeps
    (P := fun declared => declared.table.Indexed ∧ declared.enums.size = declared.table.enums.length)
    (fun _ _ h => ⟨⟨h.1.structs, h.1.functions, h.1.enums, h.1.aliases⟩, h.2⟩)
    (fun declared unit name declaration free h => ⟨Declarations.indexed_enter h.1 h.2 free, ?_⟩) units {}
    ⟨⟨fun _ _ => by simp [DeclTable.lookup], fun _ _ => by simp [DeclTable.lookup], fun _ _ => by simp [DeclTable.lookup],
      fun _ => by simp [DeclTable.lookup]⟩, rfl⟩).1
  cases declaration with
  | enum decl => simp [Declarations.enter, EnumRegistry.reserve, EnumRegistry.size, ← h.2]
  | _ => exact h.2

namespace Collected

theorem named_bare (units : List SourceUnit) : (∀ own ∈ (named units).table.structs, own.shape = {}) ∧
    ∀ own ∈ (named units).table.functions, own.signature = {} := by
  refine Declarations.declareUnits_keeps
    (P := fun declared => (∀ own ∈ declared.table.structs, own.shape = {}) ∧
      ∀ own ∈ declared.table.functions, own.signature = {})
    (fun _ _ h => h) (fun declared unit name declaration _ h => ?_) units {}
    ⟨fun _ mem => (by cases mem), fun _ mem => by cases mem⟩
  cases declaration with
  | struct decl => exact ⟨forall_mem_append.2 ⟨h.1, forall_mem_singleton.2 rfl⟩, h.2⟩
  | function decl => exact ⟨h.1, forall_mem_append.2 ⟨h.2, forall_mem_singleton.2 rfl⟩⟩
  | _ => exact h

theorem sublist_names {α : Type} (pick : Declaration → Option α) (places : List Placed) :
    ((places.filterMap (Placed.locate pick)).map Located.name).Sublist (places.map Placed.name) := by
  induction places with
  | nil => exact .slnil
  | cons place rest ih =>
    rw [filterMap_cons, map_cons]
    cases picked : pick place.declaration with
    | none => simpa [Placed.locate, picked] using ih.cons _
    | some decl => simpa [Placed.locate, picked] using ih.cons_cons place.name

theorem nodup_names {α : Type} (pick : Declaration → Option α) {units : List SourceUnit}
    (harmless : Harmless (Declarations.declareUnits {} units).2.flatten) :
    ((declaredIn pick units).map Located.name).Nodup :=
  (sublist_names pick _).nodup ((Declarations.declareUnits_harmless units {}).1 harmless).1

end Collected

/-- Whether two tables hold the same under different numbers, and every name stands for the same. -/
structure DeclTable.Renames (ρ : Renaming) (table others : DeclTable) : Prop where
  lookup : ∀ name, others.lookup name = (table.lookup name).map (Symbol.rename ρ)
  struct? : ∀ id, others.struct? (ρ.struct id) = (table.struct? id).map (StructDef.rename ρ)
  function? : ∀ id, others.function? (ρ.function id) = (table.function? id).map (FunctionDef.rename ρ)
  enum? : ∀ id, others.enum? (ρ.enum id) = (table.enum? id).map (EnumSource.rename ρ)
  structs : others.structs.Perm (table.structs.map (StructDef.rename ρ))
  functions : others.functions.Perm (table.functions.map (FunctionDef.rename ρ))
  enums : others.enums.Perm (table.enums.map (EnumSource.rename ρ))
  aliases : others.aliases.Perm table.aliases
  names : table.names.Keeps ρ others.names

structure Moved {α : Type} (f : Nat → Nat) (put : α → α) (mine yours : List α) : Prop where
  at_position : ∀ position, yours[f position]? = (mine[position]?).map put
  perm : yours.Perm (mine.map put)

namespace DeclTable

variable {ρ : Renaming} {table others : DeclTable}

/-- Tables all whose lists are moved are the same under other numbers, if numbers that are not in use stay as they are. -/
theorem Renames.of_moved (indexed : table.Indexed) (indexed' : others.Indexed)
    (structs : Moved (fun position => (ρ.struct ⟨position⟩).index) (StructDef.rename ρ) table.structs others.structs)
    (functions : Moved (fun position => (ρ.function ⟨position⟩).index) (FunctionDef.rename ρ) table.functions
      others.functions)
    (enums : Moved (fun position => (ρ.enum ⟨position⟩).index) (EnumSource.rename ρ) table.enums others.enums)
    (aliases : others.aliases.Perm table.aliases) (structIds : ∀ id, table.struct? id = none → ρ.struct id = id)
    (enumIds : ∀ id, table.enum? id = none → ρ.enum id = id) : table.Renames ρ others where
  struct? id := structs.at_position id.index
  function? id := functions.at_position id.index
  enum? id := enums.at_position id.index
  structs := structs.perm
  functions := functions.perm
  enums := enums.perm
  aliases := aliases
  lookup name := by
    cases found : table.lookup name with
    | some symbol =>
      cases symbol with
      | struct id => exact indexed.structs.moves indexed'.structs structs.at_position (fun _ => rfl) found
      | function id => exact indexed.functions.moves indexed'.functions functions.at_position (fun _ => rfl) found
      | enum id => exact indexed.enums.moves indexed'.enums enums.at_position (fun _ => rfl) found
      | typeAlias =>
        obtain ⟨source, mem, named⟩ := (indexed.aliases name).1 found
        exact (indexed'.aliases name).2 ⟨source, aliases.symm.subset mem, named⟩
    | none =>
      refine Option.eq_none_iff_forall_ne_some.2 fun symbol looked => ?_
      have taken : (table.lookup name).isSome := by
        cases symbol with
        | struct id => exact indexed.structs.stems indexed'.structs structs.perm (fun _ => rfl) looked
        | function id => exact indexed.functions.stems indexed'.functions functions.perm (fun _ => rfl) looked
        | enum id => exact indexed.enums.stems indexed'.enums enums.perm (fun _ => rfl) looked
        | typeAlias =>
          obtain ⟨source, mem, named⟩ := (indexed'.aliases name).1 looked
          rw [(indexed.aliases name).2 ⟨source, aliases.subset mem, named⟩]
          rfl
      rw [found] at taken
      cases taken
  names := by
    refine ⟨fun id => ?_, fun id => ?_⟩
    · have moved : others.struct? (ρ.struct id) = (table.struct? id).map _ := structs.at_position id.index
      simp only [DeclTable.names, moved]
      cases here : table.struct? id with
      | none => rw [structIds id here]; rfl
      | some own => rfl
    · have moved : others.enum? (ρ.enum id) = (table.enum? id).map _ := enums.at_position id.index
      simp only [DeclTable.names, moved]
      cases here : table.enum? id with
      | none => rw [enumIds id here]; rfl
      | some source => rfl

end DeclTable

section Reordering

open Collected

variable {units others : List SourceUnit} (h : Reordered units others)
  (harmless : Harmless (Declarations.declareUnits {} units).2.flatten)

include h harmless

/-- What is declared in another order has other numbers. Where a declaration stands, and its number, decide what is
listed. -/
theorem Reordered.exists_moved {α ι : Type} {pick : Declaration → Option α} {mine yours : List ι}
    {located : ι → Located α} (first : mine.map located = declaredIn pick units)
    (second : yours.map located = declaredIn pick others) :
    ∃ f : Nat → Nat, Function.Injective f ∧ (∀ position, mine[position]? = none → f position = position) ∧
      ∀ put : ι → ι, (∀ x, located (put x) = located x) →
        (∀ position x y, mine[position]? = some x → yours[f position]? = some y → located y = located x → y = put x) →
          Moved f put mine yours := by
  have perm : (mine.map located).Perm (yours.map located) := by
    rw [first, second]
    exact h.placed.filterMap _
  have nodup : (mine.map located).Nodup := by
    rw [first]
    exact (nodup_names pick harmless).of_map
  obtain ⟨f, injective, moved, fixed⟩ := exists_positions perm nodup
  refine ⟨f, injective, fun position none => fixed position (by rw [getElem?_map, none]; rfl), ?_⟩
  intro put keeps decides
  have at_position := getElem?_moved moved decides
  exact ⟨at_position, perm_moved perm nodup at_position keeps⟩

theorem Reordered.named_renames :
    ∃ ρ : Renaming, ∀ shift, (named units).table.Renames (ρ.shiftedBy shift) (named others).table := by
  have lists := named_lists harmless
  have lists' := named_lists (h.harmless harmless)
  have entered := named_entered units
  have entered' := named_entered others
  have bare := named_bare units
  have bare' := named_bare others
  obtain ⟨structs, injectiveS, fixedS, movedS⟩ := h.exists_moved harmless lists.structs lists'.structs
  obtain ⟨functions, _, _, movedF⟩ := h.exists_moved harmless lists.functions lists'.functions
  obtain ⟨enums, injectiveE, fixedE, movedE⟩ := h.exists_moved harmless lists.enums lists'.enums
  let ρ : Renaming :=
    { struct := fun id => ⟨structs id.index⟩
      enum := fun id => ⟨enums id.index⟩
      function := fun id => ⟨functions id.index⟩
      shift := 0
      struct_injective := fun a b same => congrArg StructId.mk (injectiveS (StructId.mk.inj same))
      enum_injective := fun a b same => congrArg EnumId.mk (injectiveE (EnumId.mk.inj same)) }
  refine ⟨ρ, fun shift => .of_moved (named_indexed units) (named_indexed others)
    (movedS _ (fun _ => rfl) fun position own other here there same => ?_)
    (movedF _ (fun _ => rfl) fun position own other here there same => ?_)
    (movedE _ (fun _ => rfl) fun position source other here there same => ?_) ?_
    (fun id none => congrArg StructId.mk (fixedS _ none)) fun id none => congrArg EnumId.mk (fixedE _ none)⟩
  · obtain ⟨id, name, unit, module, decl, shape⟩ := own
    obtain ⟨id', name', unit', module', decl', shape'⟩ := other
    cases same
    cases (entered.structs _ _ here).1
    cases (entered'.structs _ _ there).1
    cases bare.1 _ (mem_of_getElem? here)
    cases bare'.1 _ (mem_of_getElem? there)
    rfl
  · obtain ⟨id, name, unit, module, decl, signature⟩ := own
    obtain ⟨id', name', unit', module', decl', signature'⟩ := other
    cases same
    cases (entered.functions _ _ here).1
    cases (entered'.functions _ _ there).1
    cases bare.2 _ (mem_of_getElem? here)
    cases bare'.2 _ (mem_of_getElem? there)
    rfl
  · obtain ⟨id, name, unit, module, decl⟩ := source
    obtain ⟨id', name', unit', module', decl'⟩ := other
    cases same
    cases (entered.enums _ _ here).1
    cases (entered'.enums _ _ there).1
    rfl
  · rw [lists.aliases, lists'.aliases]
    exact (h.placed.symm.filterMap _).map _

end Reordering

theorem Reordered.named_aliases {units others : List SourceUnit} (h : Reordered units others)
    (harmless : Harmless (Declarations.declareUnits {} units).2.flatten) (name : String) :
    (Collected.named others).aliases.find? name = (Collected.named units).aliases.find? name := by
  have entries : ∀ {units}, Harmless (Declarations.declareUnits {} units).2.flatten →
      (Collected.named units).aliases.entries =
        (declaredIn Declaration.typeAlias? units).reverse.map Located.aliasEntry ++ AliasTable.standard.entries :=
    fun harmless => (Collected.named_lists harmless).entries
  have perm : ((declaredIn Declaration.typeAlias? units).reverse.map Located.aliasEntry).Perm
      ((declaredIn Declaration.typeAlias? others).reverse.map Located.aliasEntry) :=
    (((reverse_perm _).trans (h.placed.filterMap _)).trans (reverse_perm _).symm).map _
  have nodup : (((declaredIn Declaration.typeAlias? units).reverse.map Located.aliasEntry).map Prod.fst).Nodup := by
    rw [map_map, map_reverse, nodup_reverse]
    exact Collected.nodup_names _ harmless
  rw [AliasTable.find?, AliasTable.find?, entries harmless, entries (h.harmless harmless), List.lookup_append,
    List.lookup_append, lookup_perm perm nodup]

end SemanticChecker
