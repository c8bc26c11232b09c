import SemanticChecker.Proofs.Composition.Composed
import SemanticChecker.Proofs.Soundness.Context

/-! Members as they are seen from a type of their struct. They mention no type parameters but those in scope where the
type stands and, in a method, its own. There is one exception: a bound may find a method with type parameters of its own,
and these are then part of its answer. The error type is mentioned only where it is admitted. -/
namespace SemanticChecker

open List

/-- The place of what is called. Its own type parameters are going to be replaced, and what their bounds mention goes
with them. -/
def Arities.opening (arities : Arities) (error : Prop) (outer : String → Prop) (own : List String) : Place :=
  ⟨arities, fun name => outer name ∨ name ∈ own, fun name other => name ∈ own ∨ outer other, fun _ => False, error⟩

section Opening

variable {arities : Arities} {error : Prop} {outer : String → Prop} {own : List String} {t : Ty}

theorem Ty.Fits.opening (h : t.Fits (arities.within error outer)) (own : List String) :
    t.Fits (arities.opening error outer own) :=
  h.mono ⟨rfl, fun _ => .inl, fun _ _ _ => .inr, fun h => h⟩ fun _ => id

theorem Ty.Fits.opening_of_declaring (h : t.Fits (arities.declaring error outer own)) :
    t.Fits (arities.opening error outer own) :=
  h.mono ⟨rfl, fun _ h => h, fun _ _ _ h => h.elim .inr fun both => .inl both.1, fun h => h⟩ fun _ => id

theorem Ty.Fits.of_opening (h : t.Fits (arities.opening error outer own)) (known : ∀ name ∈ own, outer name)
    (inner : ∀ name ∈ own, ∀ other, outer other) : t.Fits (arities.within error outer) :=
  h.mono ⟨rfl, fun name => (·.elim id (known name)), fun name _ other => (·.elim (inner name · other) id), fun h => h⟩
    fun _ => id

theorem Ty.Fits.of_opening_nil (h : t.Fits (arities.opening error outer [])) : t.Fits (arities.within error outer) :=
  h.of_opening (fun _ mem => by cases mem) fun _ mem => by cases mem

/-- Arguments for type parameters lead to where they fit, past type parameters that are not replaced. -/
theorem Instantiation.leads_opening {place : Place} {parameters arguments : List Ty} (same : place.arities = arities)
    (closed : ∀ index, ¬ place.slot index) (admits : place.error → error)
    (count : (Ty.namesOf parameters).length = arguments.length)
    (known : ∀ name, place.parameter name → name ∈ Ty.namesOf parameters ∨ name ∈ own)
    (fit : ∀ t ∈ arguments, t.Fits (arities.within error outer)) :
    (ofArguments parameters arguments).Leads place (arities.opening error outer own) := by
  have left : ∀ name, place.parameter name → (ofArguments parameters arguments).get? name = none → name ∈ own := by
    intro name mentioned missing
    refine (known name mentioned).resolve_left fun mem => ?_
    obtain ⟨t, found⟩ := get?_of_mem count mem
    rw [missing] at found
    cases found
  exact
    { arities := same.symm
      named := fun _ t _ found => (fit t (of_mem_zip (mem_zip_of_get? found)).2).opening own
      kept := fun name mentioned missing => .inr (left name mentioned missing)
      slot := fun index isSlot => (closed index isSlot).elim
      inner := fun name mentioned missing _ _ => .inl (left name mentioned missing)
      error := admits }

theorem Ty.IsParameter.anywhere {known : String → Prop} (h : t.IsParameter (arities.within error known)) :
    t.IsParameter (arities.within error fun _ => True) := by
  cases t with
  | parameter => trivial
  | bounded => exact ⟨h.1, h.2.mono ⟨rfl, fun _ _ => trivial, fun _ _ _ _ => trivial, fun h => h⟩ fun _ => id⟩
  | _ => exact h.elim

end Opening

/-- Whether a signature mentions no type parameters but its own and some that are known. -/
structure Signature.Seen (error : Prop) (arities : Arities) (outer : String → Prop) (s : Signature) : Prop where
  typeParameters : ∀ t ∈ s.typeParameters, t.IsParameter (arities.within error fun _ => True)
  type : s.type.Fits (arities.opening error outer (Ty.namesOf s.typeParameters))

theorem Signature.Regular.seen {error : Prop} {arities : Arities} {outer more : String → Prop} {s : Signature}
    (h : s.Regular error arities outer) (wider : ∀ name, outer name → more name) : s.Seen error arities more := by
  refine ⟨fun t mem => (h.typeParameters t mem).anywhere, (h.type.mono ⟨rfl, ?_, ?_, fun h => h⟩
    fun _ => False.elim : s.type.Fits (arities.declaring error more _)).opening_of_declaring⟩
  · exact fun name => Or.imp_left (wider name)
  · exact fun _ _ other => Or.imp_left (wider other)

/-- Fields and methods that mention no type parameters but those known and, in a method, its own; what is composed are
structs. -/
def MemberRule.seen (error : Prop) (arities : Arities) (known : String → Prop) : MemberRule where
  field t := t.Fits (arities.within error known)
  method s := s.Seen error arities known
  ancestor t := ∃ id arguments, t = .struct id arguments

def DeclTable.Knows (table : DeclTable) (id : StructId) (name : String) : Prop :=
  ∃ own, table.struct? id = some own ∧ name ∈ Ty.namesOf own.typeParameters

namespace DeclTable.Formed

variable {error : Prop} {bounds : BoundTable} {table : DeclTable} {id : StructId} {own : StructDef}
  {known : String → Prop} (h : table.Formed error bounds) (found : table.struct? id = some own)
include h found

theorem leads {arguments : List Ty} (fits : (Ty.struct id arguments).Fits ((table.arities bounds).within error known))
    (names : List String) :
    (own.instantiation arguments).Leads ((table.arities bounds).opening error (table.Knows id) names)
      ((table.arities bounds).opening error known names) := by
  obtain ⟨other, again, count⟩ := h.applied rfl fits
  cases found.symm.trans again
  refine Instantiation.leads_opening rfl (fun _ => False.elim) (fun h => h) count (fun name mentioned => ?_)
    (Ty.fitAll_iff.1 fits.2)
  rcases mentioned with ⟨other, again, mem⟩ | mem
  · cases found.symm.trans again
    exact .inl mem
  · exact .inr mem

theorem carries {arguments : List Ty} (fits : (Ty.struct id arguments).Fits ((table.arities bounds).within error known)) :
    Merge.Carries (own.instantiation arguments) (.seen error (table.arities bounds) (table.Knows id))
      (.seen error (table.arities bounds) known) where
  field t inside := ((inside.opening []).instantiate (h.leads found fits [])).of_opening_nil
  method s inside := by
    refine ⟨inside.typeParameters, ?_⟩
    rw [Signature.type_instantiate]
    exact inside.type.instantiate (h.leads found fits (Ty.namesOf s.typeParameters))
  ancestor := by
    rintro _ ⟨ancestor, parts, rfl⟩
    exact ⟨ancestor, _, Ty.instantiate_eq_replace _ _⟩

theorem ownLayout_obeys : own.ownLayout.Obeys (.seen error (table.arities bounds) (table.Knows id)) := by
  have regular := h.structs id own found
  have knows : ∀ name ∈ Ty.namesOf own.typeParameters, table.Knows id name := fun name mem => ⟨own, found, mem⟩
  refine ⟨fun field mem => ?_, fun method mem => ?_, fun _ mem => by cases mem⟩
  · obtain ⟨source, isOne, rfl⟩ := mem_map.1 mem
    exact (regular.fields source isOne).within knows
  · obtain ⟨source, isOne, rfl⟩ := mem_map.1 mem
    exact (regular.methods source isOne).seen knows

omit found in
theorem layout_obeys {layout : Layout} (found : (Compositions.ofTable table).layout? id = some layout) :
    layout.Obeys (.seen error (table.arities bounds) (table.Knows id)) := by
  refine (Compositions.layout?_composed h.numbered found).obeys
    (fun id => .seen error (table.arities bounds) (table.Knows id)) (fun id own found => h.ownLayout_obeys found) ?_
  intro id own found parent mem
  obtain ⟨⟨arguments, same⟩, fits⟩ := (h.structs id own found).composes parent mem
  rw [same] at fits ⊢
  have mine := fits.within fun name mem => (⟨own, found, mem⟩ : table.Knows id name)
  obtain ⟨other, declared, _⟩ := h.applied rfl fits
  refine ⟨⟨_, _, rfl⟩, ?_⟩
  rw [Merge.parentInstantiation, declared]
  exact h.carries declared mine

end DeclTable.Formed

/-- The context of a program whose declarations fit. What they define is there, unless the error type is admitted. -/
structure CheckContext.Regular (error : Prop) (ctx : CheckContext) : Prop where
  bounds : ctx.bounds = .standard
  table : ctx.table.Formed error ctx.bounds
  aliases : ctx.declared.aliases.Fits (ctx.arities.within error fun _ => False)
  compositions : ctx.compositions = .ofTable ctx.table
  enums : error ∨ ∀ id : EnumId, id.index < ctx.table.enums.length → ∃ info, ctx.declared.enums.get? id = some info
  methods : error ∨ ∀ id own, ctx.table.struct? id = some own →
    own.shape.methods.map MethodDef.name = own.decl.methods.map FunctionDecl.name

namespace CheckContext.Regular

variable {error : Prop} {ctx : CheckContext} {known : String → Prop} {id : StructId} {arguments : List Ty} {name : String}
  (h : ctx.Regular error)
include h

theorem layout_obeys {layout : Layout} (found : ctx.layout? id = some layout) :
    layout.Obeys (.seen error ctx.arities (ctx.table.Knows id)) := by
  rw [layout?, h.compositions] at found
  exact h.table.layout_obeys found

theorem layout_exists {own : StructDef} (found : ctx.table.struct? id = some own) :
    ∃ layout, ctx.layout? id = some layout := by
  rw [layout?, h.compositions]
  exact Compositions.layout?_isSome h.table.numbered (by rw [found]; rfl)

section Struct

variable (fits : (Ty.struct id arguments).Fits (ctx.arities.within error known))
include fits

theorem exists_instantiation : ∃ own, ctx.table.struct? id = some own ∧
    (Ty.namesOf own.typeParameters).length = arguments.length ∧
    ctx.instantiation id arguments = own.instantiation arguments := by
  obtain ⟨own, found, count⟩ := h.table.applied rfl fits
  exact ⟨own, found, count, by rw [instantiation, found]⟩

theorem carries : Merge.Carries (ctx.instantiation id arguments) (.seen error ctx.arities (ctx.table.Knows id))
    (.seen error ctx.arities known) := by
  obtain ⟨own, found, _, same⟩ := h.exists_instantiation fits
  rw [same]
  exact h.table.carries found fits

theorem fieldType_fits {t : Ty} (found : ctx.fieldType? id arguments name = some t) :
    t.Fits (ctx.arities.within error known) := by
  obtain ⟨layout, laid, found⟩ := Option.bind_eq_some_iff.1 found
  obtain ⟨field, looked, same⟩ := Option.bind_eq_some_iff.1 found
  cases same
  exact (h.carries fits).field _ ((h.layout_obeys laid).fields field (mem_of_find?_eq_some looked))

theorem structMethod_seen {origin : StructId} {signature : Signature}
    (found : ctx.structMethod? id arguments name = some (origin, signature)) :
    signature.Seen error ctx.arities known := by
  obtain ⟨layout, laid, found⟩ := Option.bind_eq_some_iff.1 found
  obtain ⟨method, looked, same⟩ := Option.bind_eq_some_iff.1 found
  cases same
  exact (h.carries fits).method _ ((h.layout_obeys laid).methods method (mem_of_find?_eq_some looked))

theorem closedMethod_fits (closed : ctx.boundMethodsClosed = true) {layout : Layout} (laid : ctx.layout? id = some layout)
    {method : ResolvedMethod} (member : method ∈ layout.methods) (asked : ctx.bounds.asksFor method.name = true) :
    (method.signature.type.instantiate (ctx.instantiation id arguments)).Fits (ctx.arities.within error known) := by
  obtain ⟨own, found, count, same⟩ := h.exists_instantiation fits
  have mine := all_eq_true.1 closed own (mem_of_getElem? found)
  rw [h.table.numbered id own found, laid] at mine
  have only := all_eq_true.1 mine method member
  rw [asked] at only
  have type := ((h.layout_obeys laid).methods method member).type
  have foreign : method.signature.type.anyLeaf (Ty.isForeign (Ty.namesOf own.typeParameters)) = false := by
    simpa [Ty.mentionsOnly] using only
  rw [same]
  exact Ty.Fits.of_opening_nil ((type.restrict foreign).instantiate
    (Instantiation.leads_opening rfl (fun _ => False.elim) (fun h => h) count (fun _ => .inl) (Ty.fitAll_iff.1 fits.2)))

end Struct

theorem boundMethod_fits {parameter bound : String} (fits : (Ty.bounded parameter bound arguments).Fits
    (ctx.arities.within error known)) {method : Ty} (found : ctx.bounds.method? ⟨bound, arguments⟩ name = some method) :
    method.Fits (ctx.arities.within error known) := by
  rw [h.bounds] at found
  have arities : ctx.arities.bound = BoundTable.standard.parameterCount? := by
    rw [CheckContext.arities, h.bounds]
    rfl
  have applied : BoundRef.Fits (ctx.arities.within error known) ⟨bound, arguments⟩ := fits.2
  exact BoundTable.method_fits arities applied found

section Bounds

variable {t : Ty} (fits : t.Fits (ctx.arities.within error known))
  (closed : (∀ name, known name) ∨ ctx.boundMethodsClosed = true)
include fits closed

/-- What bounds are told about methods mentions what is known, if that is everything, or if the methods that bounds
ask for mention no type parameters of their own. -/
theorem methodLookup_fits (asked : ctx.bounds.asksFor name = true) {method : Ty}
    (found : ctx.methodLookup t name = some method) : method.Fits (ctx.arities.within error known) := by
  cases t with
  | struct id arguments =>
    obtain ⟨⟨origin, signature⟩, looked, rfl⟩ := Option.map_eq_some_iff.1 found
    rcases closed with all | closed
    · have seen := h.structMethod_seen fits looked
      exact seen.type.of_opening (fun name _ => all name) fun _ _ => all
    · obtain ⟨layout, laid, looked⟩ := Option.bind_eq_some_iff.1 looked
      obtain ⟨member, isOne, same⟩ := Option.bind_eq_some_iff.1 looked
      cases same
      have named : member.name = name := by simpa using find?_some isOne
      change (member.signature.instantiate (ctx.instantiation id arguments)).type.Fits _
      rw [Signature.type_instantiate]
      exact h.closedMethod_fits fits closed laid (mem_of_find?_eq_some isOne) (named ▸ asked)
  | bounded parameter bound arguments => exact h.boundMethod_fits fits found
  | _ => exact Ty.builtinMethod_fits fits found

theorem checkBound_fits {bound : BoundRef} {bindings : List Ty} (done : ctx.checkBound t bound = .ok bindings) :
    (∀ binding ∈ bindings, BoundTable.BindingFits (ctx.arities.within error known) binding) ∧
      ∀ pair ∈ bound.arguments.zip bindings, BoundTable.ArgumentAgrees pair.1 pair.2 := by
  obtain ⟨required, isBound, raw, compared⟩ := BoundTable.check_ok done
  refine ⟨?_, compared⟩
  rcases raw with ⟨_, rfl⟩ | ⟨index, rfl⟩ | ⟨parameter, own, arguments, rfl, raw⟩ | raw
  · exact fun _ mem => by cases mem
  · exact fits.elim
  · have applied : BoundRef.Fits (ctx.arities.within error known) ⟨own, arguments⟩ := fits.2
    exact BoundTable.entails_fits applied raw
  · refine BoundTable.satisfiedBy_fits (fun parameters asked isMethods one isOne method found => ?_) raw
    subst isMethods
    exact h.methodLookup_fits fits closed (BoundTable.asksFor_of_find isBound one isOne) found

end Bounds

end CheckContext.Regular

end SemanticChecker
