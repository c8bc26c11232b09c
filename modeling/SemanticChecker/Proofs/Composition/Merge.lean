import Mathlib.Data.List.Nodup
import SemanticChecker.Composition.Merge

/-! What merging the members of a struct comes to. -/
namespace SemanticChecker

open List

namespace Merge

/-- What a step reports goes after what was reported before: members that are there more than once, and methods of
another type than the one of their name. -/
def Adds (m later : Merge) : Prop :=
  ∃ more, later.issues = m.issues ++ more ∧ ∀ issue ∈ more, issue.code = .duplicateField ∨ issue.code = .typeMismatch

namespace Adds

variable {m later : Merge}

theorem of_eq (same : later.issues = m.issues) : m.Adds later :=
  ⟨[], by rw [same, append_nil], fun _ mem => by cases mem⟩

theorem trans {last : Merge} (first : m.Adds later) (second : later.Adds last) : m.Adds last := by
  obtain ⟨more, same, codes⟩ := first
  obtain ⟨further, last, others⟩ := second
  exact ⟨more ++ further, by rw [last, same, List.append_assoc], forall_mem_append.2 ⟨codes, others⟩⟩

theorem duplicate {owner : StructId} {name : String} {span : Span} :
    m.Adds (m.report (.duplicateField owner name span)) :=
  ⟨[_], rfl, forall_mem_singleton.2 (.inl rfl)⟩

theorem foldl {α : Type} {step : Merge → α → Merge} (each : ∀ m a, Merge.Adds m (step m a)) (items : List α)
    (m : Merge) : m.Adds (items.foldl step m) := by
  induction items generalizing m with
  | nil => exact of_eq rfl
  | cons item rest ih => exact (each m item).trans (ih (step m item))

theorem issues_nil (h : m.Adds later) (none : later.issues = []) : m.issues = [] := by
  obtain ⟨more, same, _⟩ := h
  exact (append_eq_nil_iff.1 (same.symm.trans none)).1

end Adds

theorem addAncestor_adds (m : Merge) (ancestor : Ty) : m.Adds (m.addAncestor ancestor) := by
  rw [addAncestor]
  split
  · exact .of_eq rfl
  · exact .of_eq rfl

theorem inheritField_adds (owner : StructId) (span : Span) (m : Merge) (field : ResolvedField) :
    m.Adds (m.inheritField owner span field) := by
  rw [inheritField]
  split
  · exact .of_eq rfl
  · split
    · exact .of_eq rfl
    · exact .duplicate

/-- What becomes of a method that comes in: it is added, or takes the place of the one of its name, or is dropped.
Their types are compared unless the one that is there is excused. -/
structure Places (excused : ResolvedMethod → Prop) (m : Merge) (method : ResolvedMethod) (later : Merge) : Prop where
  adds : m.Adds later
  fields : later.fields = m.fields
  ancestors : later.ancestors = m.ancestors
  methods : (∀ other ∈ m.methods, other.name ≠ method.name) ∧ later.methods = m.methods ++ [method] ∨
    ∃ existing ∈ m.methods, existing.name = method.name ∧
      (later.methods = m.methods ∨ later.methods = (m.replaceMethod method).methods) ∧
      (later.issues = [] → existing.signature.type = method.signature.type ∨ excused existing)

namespace Places

variable {excused : ResolvedMethod → Prop} {m later : Merge} {method existing : ResolvedMethod}

theorem add (missing : m.methods.find? (fun other => other.name == method.name) = none)
    (issues : later.issues = m.issues) (fields : later.fields = m.fields) (ancestors : later.ancestors = m.ancestors)
    (methods : later.methods = m.methods ++ [method]) : Places excused m method later :=
  ⟨.of_eq issues, fields, ancestors,
    .inl ⟨fun other mem => by simpa using find?_eq_none.1 missing other mem, methods⟩⟩

variable (found : m.methods.find? (fun other => other.name == method.name) = some existing)
include found

theorem keep (issues : later.issues = m.issues) (fields : later.fields = m.fields)
    (ancestors : later.ancestors = m.ancestors)
    (methods : later.methods = m.methods ∨ later.methods = (m.replaceMethod method).methods)
    (excuse : existing.signature.type = method.signature.type ∨ excused existing) : Places excused m method later :=
  ⟨.of_eq issues, fields, ancestors, .inr ⟨existing, mem_of_find?_eq_some found,
    by simpa using find?_some found, methods, fun _ => excuse⟩⟩

theorem mismatch {owner : StructId} {expected actual : Ty} {span : Span}
    (issues : later.issues = m.issues ++ [.overrideMismatch owner method.name expected actual span])
    (fields : later.fields = m.fields) (ancestors : later.ancestors = m.ancestors)
    (methods : later.methods = m.methods ∨ later.methods = (m.replaceMethod method).methods) :
    Places excused m method later := by
  refine ⟨⟨_, issues, forall_mem_singleton.2 (.inr rfl)⟩, fields, ancestors, .inr ⟨existing,
    mem_of_find?_eq_some found, by simpa using find?_some found, methods, fun quiet => ?_⟩⟩
  exact absurd (issues.symm.trans quiet) (append_ne_nil_of_right_ne_nil _ (cons_ne_nil _ _))

end Places

theorem inheritMethod_places (owner : StructId) (span : Span) (m : Merge) (incoming : ResolvedMethod) :
    Places (fun existing => existing.origin = incoming.origin ∨ existing.hasBody = incoming.hasBody) m incoming
      (m.inheritMethod owner span incoming) := by
  rw [inheritMethod]
  split
  · exact .add ‹_› rfl rfl rfl rfl
  · rename_i existing found
    split
    · exact .keep found rfl rfl rfl (.inl rfl) (.inr (.inl ‹_›))
    · split
      · exact .keep found rfl rfl rfl (.inl rfl) (.inr (.inr (by simp [*])))
      · rw [addOrigin]
        split <;> exact .keep found rfl rfl rfl (.inl rfl) (.inr (.inr (by simp [*])))
      · dsimp only
        split <;> split
        · exact .keep found rfl rfl rfl (.inr rfl) (.inl ‹_›)
        · exact .mismatch found rfl rfl rfl (.inr rfl)
        · exact .keep found rfl rfl rfl (.inl rfl) (.inl ‹_›)
        · exact .mismatch found rfl rfl rfl (.inl rfl)

def seen (table : DeclTable) (parent : Ty × Layout) (method : ResolvedMethod) : ResolvedMethod :=
  { method with signature := method.signature.instantiate (parentInstantiation table parent.1) }

def inheritOthers (table : DeclTable) (own : StructDef) (m : Merge) (parent : Ty × Layout) : Merge :=
  parent.2.fields.foldl (fun m field => m.inheritField own.id (parentSpan own parent.1)
      { field with type := field.type.instantiate (parentInstantiation table parent.1) })
    (parent.2.ancestors.foldl
      (fun m ancestor => m.addAncestor (ancestor.instantiate (parentInstantiation table parent.1)))
      (m.addAncestor parent.1))

theorem inherit_eq (table : DeclTable) (own : StructDef) (m : Merge) (parent : Ty × Layout) :
    inherit table own m parent = (parent.2.methods.map (seen table parent)).foldl
      (inheritMethod own.id (parentSpan own parent.1)) (inheritOthers table own m parent) :=
  foldl_map.symm

theorem inheritOthers_adds (table : DeclTable) (own : StructDef) (m : Merge) (parent : Ty × Layout) :
    m.Adds (inheritOthers table own m parent) :=
  ((addAncestor_adds m parent.1).trans (.foldl (fun m _ => addAncestor_adds m _) _ _)).trans
    (.foldl (fun m _ => inheritField_adds _ _ m _) _ _)

theorem inherit_adds (table : DeclTable) (own : StructDef) (m : Merge) (parent : Ty × Layout) :
    m.Adds (inherit table own m parent) := by
  rw [inherit_eq]
  exact (inheritOthers_adds table own m parent).trans (.foldl (fun m _ => (inheritMethod_places _ _ m _).adds) _ _)

theorem addOwnField_adds (owner : StructId) (m : Merge) (field : ResolvedField) :
    m.Adds (m.addOwnField owner field) := by
  rw [addOwnField]
  split
  · exact .duplicate
  · exact .of_eq rfl

theorem overrideMethod_places (owner : StructId) (m : Merge) (method : ResolvedMethod) :
    Places (fun _ => False) m method (m.overrideMethod owner method) := by
  rw [overrideMethod]
  dsimp only
  split
  · exact .add ‹_› rfl rfl rfl rfl
  · rename_i existing found
    split
    · exact .keep found rfl rfl rfl (.inr rfl) (.inl ‹_›)
    · exact .mismatch found rfl rfl rfl (.inr rfl)

theorem addOwnMethods_adds (owner : StructId) : ∀ (methods : List ResolvedMethod) (declared : List String) (m : Merge),
    m.Adds (m.addOwnMethods owner declared methods)
  | [], _, _ => .of_eq rfl
  | method :: rest, declared, m => by
    rw [addOwnMethods]
    refine .trans ?_ (addOwnMethods_adds owner rest _ _)
    split
    · exact .duplicate
    · exact (overrideMethod_places owner m method).adds

theorem reportAmbiguous_eq (owner : StructId) (m : Merge) : m.reportAmbiguous owner =
    { m with issues := m.issues ++ m.ambiguous.map fun entry => .ambiguousMethod owner entry.1 entry.2 } := by
  have all : ∀ (entries : List (String × List StructId)) (m : Merge),
      entries.foldl (fun m entry => m.report (.ambiguousMethod owner entry.1 entry.2)) m =
        { m with issues := m.issues ++ entries.map fun entry => .ambiguousMethod owner entry.1 entry.2 } := by
    intro entries
    induction entries with
    | nil => simp
    | cons entry rest ih =>
      intro m
      rw [foldl_cons, ih]
      simp [report]
  exact all m.ambiguous m

end Merge

theorem StructDef.mergeMembers_adds (table : DeclTable) (own : StructDef) (parents : List (Ty × Layout)) :
    Merge.Adds {} ((own.ownFields.foldl (Merge.addOwnField own.id)
      (parents.foldl (Merge.inherit table own) {})).addOwnMethods own.id [] own.ownMethods) :=
  ((Merge.Adds.foldl (Merge.inherit_adds table own) parents {}).trans (.foldl (Merge.addOwnField_adds own.id) _ _)).trans
    (Merge.addOwnMethods_adds own.id _ _ _)

theorem StructDef.cycle_notMem_compose (table : DeclTable) (own : StructDef) (parents : List (Ty × Layout))
    (tainted : Bool) (members : List StructId) : .cycle members ∉ (own.compose table parents tainted).2 := by
  obtain ⟨more, same, codes⟩ := own.mergeMembers_adds table parents
  have reported : .cycle members ∉ (own.mergeMembers table parents).issues := by
    rw [mergeMembers, Merge.reportAmbiguous_eq, same]
    refine fun mem => (mem_append.1 mem).elim (fun mem => ?_) fun mem => ?_
    · rcases codes _ mem with code | code <;> cases code
    · obtain ⟨_, _, issue⟩ := mem_map.1 mem
      cases issue
  rw [compose]
  split
  · exact reported
  · exact fun mem => (mem_append.1 mem).elim reported fun mem => nomatch mem_singleton.1 mem

namespace Merge

/-! What is inherited. -/

variable {m : Merge} {t : Ty} {α β : Type} {step : Merge → α → Merge} {items : List α} {P : List α → Merge → Prop}
  {table : DeclTable} {own : StructDef} {method : ResolvedMethod}

theorem mem_addAncestor {ancestor : Ty} : t ∈ (m.addAncestor ancestor).ancestors ↔ t ∈ m.ancestors ∨ t = ancestor := by
  rw [addAncestor]
  split
  · rename_i known
    exact ⟨.inl, fun either => either.elim id fun same => same ▸ known⟩
  · exact mem_append.trans (or_congr Iff.rfl mem_singleton)

theorem inheritField_eq (owner : StructId) (span : Span) (m : Merge) (field : ResolvedField) :
    ∃ fields issues, m.inheritField owner span field = { m with fields, issues } := by
  rw [inheritField]
  split
  · exact ⟨_, _, rfl⟩
  · split <;> exact ⟨_, _, rfl⟩

theorem foldl_eq (view : Merge → β) (each : ∀ m a, view (step m a) = view m) (items : List α) (m : Merge) :
    view (items.foldl step m) = view m := by
  induction items generalizing m with
  | nil => rfl
  | cons item rest ih => exact (ih (step m item)).trans (each m item)

/-- What holds of a merge and of what came in so far holds to the end, if every step keeps it for what comes in then. -/
theorem foldl_flatMap {step : Merge → β → Merge} {g : β → List α}
    (each : ∀ items m b, P items m → P (items ++ g b) (step m b)) (incoming : List β) (h : P items m) :
    P (items ++ incoming.flatMap g) (incoming.foldl step m) := by
  induction incoming generalizing items m with
  | nil => simpa using h
  | cons b rest ih =>
    have all := ih (each items m b h)
    rwa [List.append_assoc, ← flatMap_cons] at all

theorem foldl_append (each : ∀ items m a, P items m → P (items ++ [a]) (step m a)) (incoming : List α) (h : P items m) :
    P (items ++ incoming) (incoming.foldl step m) := by
  simpa using foldl_flatMap (g := fun a => [a]) each incoming h

theorem mem_ancestors_inherit {parent : Ty × Layout} :
    t ∈ (inherit table own m parent).ancestors ↔ t ∈ m.ancestors ∨ t = parent.1 ∨
      ∃ ancestor ∈ parent.2.ancestors, t = ancestor.instantiate (parentInstantiation table parent.1) := by
  have added : ∀ (ancestors : List Ty) (m : Merge),
      t ∈ (ancestors.foldl (fun m ancestor =>
        m.addAncestor (ancestor.instantiate (parentInstantiation table parent.1))) m).ancestors ↔
      t ∈ m.ancestors ∨ ∃ ancestor ∈ ancestors, t = ancestor.instantiate (parentInstantiation table parent.1) := by
    intro ancestors
    induction ancestors with
    | nil => simp
    | cons ancestor rest ih =>
      intro m
      simp [ih, mem_addAncestor, or_assoc]
  have fields : ∀ (owner : StructId) (span : Span) (m : Merge) (field : ResolvedField),
      (m.inheritField owner span field).ancestors = m.ancestors := by
    intro owner span m field
    obtain ⟨_, _, same⟩ := inheritField_eq owner span m field
    rw [same]
  rw [inherit, foldl_eq Merge.ancestors (fun m _ => (inheritMethod_places _ _ m _).ancestors),
    foldl_eq Merge.ancestors (fun m _ => fields _ _ m _), added, mem_addAncestor, or_assoc]

theorem inheritOthers_eq (table : DeclTable) (own : StructDef) (m : Merge) (parent : Ty × Layout) :
    (inheritOthers table own m parent).methods = m.methods ∧
      (inheritOthers table own m parent).ambiguous = m.ambiguous := by
  let view (m : Merge) := (m.methods, m.ambiguous)
  have ancestor : ∀ (m : Merge) (ancestor : Ty), view (m.addAncestor ancestor) = view m := by
    intro m ancestor
    rw [addAncestor]
    split <;> rfl
  have field : ∀ (m : Merge) (field : ResolvedField),
      view (m.inheritField own.id (parentSpan own parent.1) field) = view m := by
    intro m field
    obtain ⟨_, _, same⟩ := inheritField_eq own.id (parentSpan own parent.1) m field
    rw [same]
  refine Prod.mk.inj (?_ : view _ = view m)
  rw [inheritOthers, foldl_eq view (fun m _ => field m _), foldl_eq view (fun m _ => ancestor m _), ancestor]

theorem addOwnFields_eq (owner : StructId) (fields : List ResolvedField) (m : Merge) :
    (fields.foldl (addOwnField owner) m).methods = m.methods ∧
      (fields.foldl (addOwnField owner) m).ancestors = m.ancestors ∧
      (fields.foldl (addOwnField owner) m).ambiguous = m.ambiguous := by
  let view (m : Merge) := (m.methods, m.ancestors, m.ambiguous)
  have each : ∀ (m : Merge) (field : ResolvedField), view (m.addOwnField owner field) = view m := by
    intro m field
    rw [addOwnField]
    split <;> rfl
  obtain ⟨methods, others⟩ := Prod.mk.inj (foldl_eq view each fields m)
  exact ⟨methods, Prod.mk.inj others⟩

/-! Where methods come from. -/

theorem mem_replaceMethod {other : ResolvedMethod} (mem : other ∈ (m.replaceMethod method).methods) :
    other ∈ m.methods ∨ other = method :=
  mem_or_eq_of_mem_set mem

section Replace

variable {m : Merge} {method existing : ResolvedMethod} (mem : existing ∈ m.methods)
  (name : existing.name = method.name)
include mem name

theorem replaceMethod_index :
    ∃ other, m.methods[m.methods.findIdx fun other => other.name == method.name]? = some other ∧
      other.name = method.name := by
  have inside : m.methods.findIdx (fun other => other.name == method.name) < m.methods.length :=
    findIdx_lt_length_of_exists ⟨existing, mem, beq_iff_eq.2 name⟩
  exact ⟨_, getElem?_eq_getElem inside, by simpa using findIdx_getElem (w := inside)⟩

theorem names_replaceMethod : (m.replaceMethod method).methods.map (·.name) = m.methods.map (·.name) := by
  obtain ⟨other, found, same⟩ := replaceMethod_index mem name
  rw [replaceMethod, map_set]
  refine ext_getElem? fun position => ?_
  rw [getElem?_set]
  split
  · rename_i here
    rw [← here, getElem?_map, length_map, found, if_pos (List.getElem?_eq_some_iff.1 found).1,
      Option.map_some, same]
  · rfl

theorem mem_replaceMethod_self : method ∈ (m.replaceMethod method).methods := by
  obtain ⟨_, found, _⟩ := replaceMethod_index mem name
  exact mem_set (List.getElem?_eq_some_iff.1 found).1 _

theorem mem_replaceMethod_of_ne {other : ResolvedMethod} (isOne : other ∈ m.methods)
    (different : other.name ≠ method.name) : other ∈ (m.replaceMethod method).methods := by
  obtain ⟨replaced, found, same⟩ := replaceMethod_index mem name
  obtain ⟨position, here⟩ := getElem?_of_mem isOne
  refine mem_of_getElem? (i := position) ?_
  rw [replaceMethod, getElem?_set_ne]
  · exact here
  · rintro rfl
    cases found.symm.trans here
    exact different same

end Replace

namespace Places

variable {excused : ResolvedMethod → Prop} {m later : Merge} {method : ResolvedMethod}
  (h : Places excused m method later)
include h

theorem mem {other : ResolvedMethod} (mem : other ∈ later.methods) : other ∈ m.methods ∨ other = method := by
  rcases h.methods with ⟨_, same⟩ | ⟨_, _, _, same | same, _⟩ <;> rw [same] at mem
  · exact (mem_append.1 mem).imp_right mem_singleton.1
  · exact .inl mem
  · exact mem_replaceMethod mem

theorem nodup (names : (m.methods.map (·.name)).Nodup) : (later.methods.map (·.name)).Nodup := by
  rcases h.methods with ⟨new, same⟩ | ⟨existing, mem, name, same | same, _⟩ <;> rw [same]
  · rw [map_append, nodup_append]
    refine ⟨names, by simp, fun name mem other last same => ?_⟩
    obtain ⟨method, isOne, rfl⟩ := mem_map.1 mem
    rw [map_singleton, mem_singleton] at last
    exact new method isOne (same.trans last)
  · exact names
  · rwa [names_replaceMethod mem name]

end Places

def inherited (table : DeclTable) (parents : List (Ty × Layout)) : List ResolvedMethod :=
  parents.flatMap fun parent => parent.2.methods.map (seen table parent)

theorem mem_inheritMethods {owner : StructId} {span : Span} {method : ResolvedMethod} :
    ∀ (incoming : List ResolvedMethod) (m : Merge),
      method ∈ (incoming.foldl (inheritMethod owner span) m).methods → method ∈ m.methods ∨ method ∈ incoming
  | [], _, mem => .inl mem
  | first :: rest, m, mem => by
    rcases mem_inheritMethods rest _ mem with mem | mem
    · exact ((inheritMethod_places owner span m first).mem mem).imp_right fun same => by simp [same]
    · exact .inr (mem_cons_of_mem _ mem)

theorem mem_inheritAll {table : DeclTable} {own : StructDef} {method : ResolvedMethod} :
    ∀ (parents : List (Ty × Layout)) (m : Merge), method ∈ (parents.foldl (inherit table own) m).methods →
      method ∈ m.methods ∨ method ∈ inherited table parents
  | [], _, mem => .inl mem
  | parent :: rest, m, mem => by
    rcases mem_inheritAll rest _ mem with mem | mem
    · rw [inherit_eq] at mem
      refine (mem_inheritMethods _ _ mem).imp (fun mem => ?_) (mem_append_left _)
      rwa [(inheritOthers_eq _ _ _ _).1] at mem
    · exact .inr (mem_append_right _ mem)

theorem mem_addOwnMethods {owner : StructId} {method : ResolvedMethod} :
    ∀ (methods : List ResolvedMethod) (declared : List String) (m : Merge),
      method ∈ (m.addOwnMethods owner declared methods).methods → method ∈ m.methods ∨ method ∈ methods
  | [], _, _, mem => .inl mem
  | first :: rest, declared, m, mem => by
    rw [addOwnMethods] at mem
    rcases mem_addOwnMethods rest _ _ mem with mem | mem
    · split at mem
      · exact .inl mem
      · exact ((overrideMethod_places owner m first).mem mem).imp_right fun same => by simp [same]
    · exact .inr (mem_cons_of_mem _ mem)

theorem addOwnMethods_eq (owner : StructId) :
    ∀ (methods : List ResolvedMethod) (declared : List String) (m : Merge),
      (m.addOwnMethods owner declared methods).fields = m.fields ∧
        (m.addOwnMethods owner declared methods).ancestors = m.ancestors
  | [], _, _ => ⟨rfl, rfl⟩
  | method :: rest, declared, m => by
    obtain ⟨fields, ancestors⟩ := addOwnMethods_eq owner rest (method.name :: declared) _
    rw [addOwnMethods, fields, ancestors]
    split
    · exact ⟨rfl, rfl⟩
    · exact ⟨(overrideMethod_places owner m method).fields, (overrideMethod_places owner m method).ancestors⟩

theorem find?_of_nodup {α β : Type} [BEq β] [LawfulBEq β] {key : α → β} {items : List α} {item : α}
    (names : (items.map key).Nodup) (mem : item ∈ items) :
    items.find? (fun other => key other == key item) = some item := by
  cases found : items.find? fun other => key other == key item with
  | none => exact absurd (find?_eq_none.1 found item mem) (by simp)
  | some other =>
    rw [inj_on_of_nodup_map names (mem_of_find?_eq_some found) mem (by simpa using find?_some found)]

/-! Which methods are covered. -/

/-- The merge has one method for every name among some, of the type that all of that name have. -/
structure Covers (items : List ResolvedMethod) (m : Merge) : Prop where
  names : (m.methods.map (·.name)).Nodup
  only : ∀ method ∈ m.methods, method ∈ items
  all : ∀ item ∈ items, ∃ method ∈ m.methods, method.name = item.name ∧
    method.signature.type = item.signature.type

namespace Covers

variable {items : List ResolvedMethod} {m later : Merge} {incoming : ResolvedMethod}

theorem congr (h : m.Covers items) (same : later.methods = m.methods) : later.Covers items := by
  obtain ⟨names, only, all⟩ := h
  exact ⟨same ▸ names, same ▸ only, same ▸ all⟩

theorem eq_of_name (h : m.Covers items) {a b : ResolvedMethod} (first : a ∈ m.methods) (second : b ∈ m.methods)
    (name : a.name = b.name) : a = b :=
  inj_on_of_nodup_map h.names first second name

theorem place {excused : ResolvedMethod → Prop} (h : m.Covers items) (step : Places excused m incoming later)
    (quiet : later.issues = [])
    (agree : ∀ existing ∈ items, existing.name = incoming.name → excused existing →
      existing.signature.type = incoming.signature.type) : later.Covers (items ++ [incoming]) := by
  refine ⟨step.nodup h.names, fun method isOne => mem_append.2 ((step.mem isOne).imp (h.only method)
    mem_singleton.2), forall_mem_append.2 ?_⟩
  rcases step.methods with ⟨_, methods⟩ | ⟨existing, mem, name, methods, compared⟩
  · rw [methods]
    refine ⟨fun item isOne => ?_, forall_mem_singleton.2 ⟨incoming, by simp, rfl, rfl⟩⟩
    obtain ⟨method, here, same⟩ := h.all item isOne
    exact ⟨method, mem_append_left _ here, same⟩
  · have type : existing.signature.type = incoming.signature.type :=
      (compared quiet).elim id (agree existing (h.only existing mem) name)
    rcases methods with methods | methods <;> rw [methods]
    · exact ⟨h.all, forall_mem_singleton.2 ⟨existing, mem, name, type⟩⟩
    · have placed := mem_replaceMethod_self mem name
      refine ⟨fun item isOne => ?_, forall_mem_singleton.2 ⟨incoming, placed, rfl, rfl⟩⟩
      obtain ⟨method, here, sameName, sameType⟩ := h.all item isOne
      by_cases taken : method.name = incoming.name
      · cases h.eq_of_name here mem (taken.trans name.symm)
        exact ⟨incoming, placed, name.symm.trans sameName, type.symm.trans sameType⟩
      · exact ⟨method, mem_replaceMethod_of_ne mem name here taken, sameName, sameType⟩

end Covers

/-- Methods of one name have one type, at least where merging does not compare them. -/
def Agree (pool : List ResolvedMethod) : Prop :=
  ∀ a ∈ pool, ∀ b ∈ pool, a.name = b.name → a.origin = b.origin ∨ a.hasBody = b.hasBody →
    a.signature.type = b.signature.type

theorem Agree.mono {pool items : List ResolvedMethod} (agree : Agree pool) (inside : items ⊆ pool) : Agree items :=
  fun a isA b isB => agree a (inside isA) b (inside isB)

theorem Covers.inheritAll {parents : List (Ty × Layout)} (agree : Agree (inherited table parents))
    (quiet : (parents.foldl (Merge.inherit table own) {}).issues = []) :
    (parents.foldl (Merge.inherit table own) {}).Covers (inherited table parents) := by
  let P (items : List ResolvedMethod) (m : Merge) := Agree items → m.issues = [] → m.Covers items
  have step : ∀ span items m incoming, P items m → P (items ++ [incoming]) (inheritMethod own.id span m incoming) := by
    intro span items m incoming h agree quiet
    have placed := inheritMethod_places own.id span m incoming
    refine (h (agree.mono (subset_append_left _ _)) (placed.adds.issues_nil quiet)).place placed quiet ?_
    exact fun existing mem => agree existing (mem_append_left _ mem) incoming (by simp)
  have empty : P [] {} := fun _ _ => ⟨nodup_nil, fun _ mem => (by cases mem), fun _ mem => by cases mem⟩
  refine foldl_flatMap (P := P) (fun items m parent h => ?_) parents empty agree quiet
  rw [inherit_eq]
  refine foldl_append (step _) _ fun agree quiet => (h agree ?_).congr (inheritOthers_eq table own m parent).1
  exact (inheritOthers_adds table own m parent).issues_nil quiet

theorem Covers.addOwnMethods {owner : StructId} : ∀ (methods : List ResolvedMethod) (declared : List String)
    (items : List ResolvedMethod) (m : Merge), m.Covers items →
      (m.addOwnMethods owner declared methods).issues = [] →
      (m.addOwnMethods owner declared methods).Covers (items ++ methods)
  | [], _, items, m, h, _ => by
    rw [append_nil]
    exact h
  | method :: rest, declared, items, m, h, quiet => by
    rw [Merge.addOwnMethods] at quiet ⊢
    have before := (addOwnMethods_adds owner rest _ _).issues_nil quiet
    split at before
    · exact absurd before (append_ne_nil_of_right_ne_nil _ (cons_ne_nil _ _))
    · rename_i free
      rw [if_neg free] at quiet ⊢
      have next := h.place (overrideMethod_places owner m method) before fun _ _ _ => False.elim
      have all := Covers.addOwnMethods rest _ _ _ next quiet
      rwa [List.append_assoc] at all

end Merge

namespace StructDef

variable {table : DeclTable} {own : StructDef} {parents : List (Ty × Layout)}

theorem mem_methods_mergeMembers {method : ResolvedMethod} (mem : method ∈ (own.mergeMembers table parents).methods) :
    method ∈ own.ownMethods ∨ method ∈ Merge.inherited table parents := by
  rw [mergeMembers, Merge.reportAmbiguous_eq] at mem
  rcases Merge.mem_addOwnMethods _ _ _ mem with mem | mem
  · rw [(Merge.addOwnFields_eq _ _ _).1] at mem
    exact (Merge.mem_inheritAll parents {} mem).elim (fun mem => by cases mem) .inr
  · exact .inl mem

theorem mem_ancestors_mergeMembers {t : Ty} :
    t ∈ (own.mergeMembers table parents).ancestors ↔ ∃ parent ∈ parents, t = parent.1 ∨
      ∃ ancestor ∈ parent.2.ancestors, t = ancestor.instantiate (Merge.parentInstantiation table parent.1) := by
  have all : ∀ (parents : List (Ty × Layout)) (m : Merge),
      t ∈ (parents.foldl (Merge.inherit table own) m).ancestors ↔ t ∈ m.ancestors ∨ ∃ parent ∈ parents,
        t = parent.1 ∨ ∃ ancestor ∈ parent.2.ancestors,
          t = ancestor.instantiate (Merge.parentInstantiation table parent.1) := by
    intro parents
    induction parents with
    | nil => simp
    | cons parent rest ih =>
      intro m
      rw [foldl_cons, ih, Merge.mem_ancestors_inherit]
      simp [or_assoc]
  rw [mergeMembers, Merge.reportAmbiguous_eq]
  dsimp only
  rw [(Merge.addOwnMethods_eq _ _ _ _).2, (Merge.addOwnFields_eq _ _ _).2.1, all]
  simp

/-- Where nothing is reported, a struct has a method for every method of its parents, of the type that the
struct sees it with, and for every method it declares. -/
theorem mergeMembers_covers (quiet : (own.mergeMembers table parents).issues = [])
    (agree : Merge.Agree (Merge.inherited table parents)) :
    (own.mergeMembers table parents).Covers (Merge.inherited table parents ++ own.ownMethods) := by
  rw [mergeMembers, Merge.reportAmbiguous_eq] at quiet ⊢
  have methods := (append_eq_nil_iff.1 quiet).1
  have fields := (Merge.addOwnMethods_adds _ _ _ _).issues_nil methods
  have inherits := (Merge.Adds.foldl (Merge.addOwnField_adds _) _ _).issues_nil fields
  have covered := Merge.Covers.inheritAll agree inherits
  have same := (Merge.addOwnFields_eq own.id own.ownFields (parents.foldl (Merge.inherit table own) {})).1
  exact (Merge.Covers.addOwnMethods own.ownMethods [] _ _ (covered.congr same) methods).congr rfl

section Compose

variable (table : DeclTable) (own : StructDef) (parents : List (Ty × Layout)) (tainted : Bool)

theorem methods_compose :
    (own.compose table parents tainted).1.layout.methods = (own.mergeMembers table parents).methods := by
  rw [compose]
  split <;> rfl

theorem ancestors_compose :
    (own.compose table parents tainted).1.layout.ancestors = (own.mergeMembers table parents).ancestors := by
  rw [compose]
  split <;> rfl

theorem issues_mergeMembers_subset :
    (own.mergeMembers table parents).issues ⊆ (own.compose table parents tainted).2 := by
  rw [compose]
  split
  · exact List.Subset.refl _
  · exact subset_append_left _ _

end Compose

end StructDef

end SemanticChecker
