import SemanticChecker.Proofs.Hereditary
import SemanticChecker.Proofs.Substitution

/-! Types that fit a place. Such a type mentions nothing that the place does not admit: only parameters and slots
that are admitted there, and the error type only if it is; and what it applies has the number of arguments it asks
for. Instantiating types, filling their slots and unifying them keeps to the place. -/
namespace SemanticChecker

/-- How many arguments structs and bounds take; none if there is no such struct or bound. -/
structure Arities where
  struct : StructId → Option Nat
  bound : String → Option Nat

structure Place where
  arities : Arities
  parameter : String → Prop
  /-- The type parameters that may stand in the arguments of the bound on a type parameter. They are not part of
  the type that the bound restricts. -/
  inner : String → String → Prop
  slot : Nat → Prop
  error : Prop

/-- A place that admits some type parameters, these also in the arguments of bounds, and the error type if so told. -/
def Arities.within (arities : Arities) (error : Prop) (known : String → Prop) : Place :=
  ⟨arities, known, fun _ => known, fun _ => False, error⟩

def Place.inside (place : Place) (name : String) : Place :=
  { place with parameter := place.inner name, inner := fun _ => place.inner name, slot := fun _ => False }

def Place.withSlots (place : Place) : Place :=
  { place with slot := fun _ => True }

namespace Ty

mutual

def Fits (place : Place) : Ty → Prop
  | .primitive _ => True
  | .tuple slots => FitAll place slots
  | .list element => Fits place element
  | .dict key value => Fits place key ∧ Fits place value
  | .struct id arguments => place.arities.struct id = some arguments.length ∧ FitAll place arguments
  | .enum _ => True
  | .function parameters returns => FitAll place parameters ∧ FitAll place returns
  | .parameter name => place.parameter name
  | .bounded name bound arguments =>
    place.parameter name ∧ place.arities.bound bound = some arguments.length ∧ FitAll (place.inside name) arguments
  | .slot index => place.slot index
  | .error => place.error

def FitAll (place : Place) : List Ty → Prop
  | [] => True
  | t :: ts => Fits place t ∧ FitAll place ts

end

theorem fitAll_iff {place : Place} {ts : List Ty} : FitAll place ts ↔ ∀ t ∈ ts, t.Fits place := by
  induction ts with
  | nil => simp [FitAll]
  | cons t ts ih => simp [FitAll, ih]

theorem length_replaceAll (σ : Instantiation) (ts : List Ty) : (replaceAll σ ts).length = ts.length := by
  rw [replaceAll_eq_map, List.length_map]

theorem length_fillAll (value : Nat → Ty) (ts : List Ty) : (fillAll value ts).length = ts.length := by
  rw [fillAll_eq_map, List.length_map]

end Ty

structure Place.Widens (place next : Place) : Prop where
  arities : next.arities = place.arities
  parameter : ∀ name, place.parameter name → next.parameter name
  inner : ∀ name, place.parameter name → ∀ other, place.inner name other → next.inner name other
  error : place.error → next.error

/-- An instantiation leads from one place to another: what stands for a parameter fits there, and what
is left alone may be mentioned there. -/
structure Instantiation.Leads (σ : Instantiation) (place next : Place) : Prop where
  arities : next.arities = place.arities
  named : ∀ name t, place.parameter name → σ.get? name = some t → t.Fits next
  kept : ∀ name, place.parameter name → σ.get? name = none → next.parameter name
  slot : ∀ index, place.slot index → next.slot index
  inner : ∀ name, place.parameter name → σ.get? name = none → ∀ other, place.inner name other → next.inner name other
  error : place.error → next.error

namespace Ty

theorem Fits.mono {place wider : Place} {t : Ty} (h : t.Fits place) (widens : place.Widens wider)
    (slot : ∀ index, place.slot index → wider.slot index) : t.Fits wider := by
  induction t using byParts (Q := fun ts => ∀ place wider : Place, place.Widens wider →
      (∀ index, place.slot index → wider.slot index) → FitAll place ts → FitAll wider ts) generalizing place wider with
  | bounded name _ _ ih =>
    have inner := widens.inner name h.1
    refine ⟨widens.parameter name h.1, widens.arities ▸ h.2.1, ih (place.inside name) (wider.inside name) ?_ ?_ h.2.2⟩
    · exact ⟨widens.arities, inner, fun _ _ => inner, widens.error⟩
    · exact fun _ => id
  | struct _ _ ih => exact ⟨widens.arities ▸ h.1, ih place wider widens slot h.2⟩
  | parameter name => exact widens.parameter name h
  | error => exact widens.error h
  | _ => grind [Fits, FitAll]

theorem FitAll.mono {place wider : Place} {ts : List Ty} (h : FitAll place ts) (widens : place.Widens wider)
    (slot : ∀ index, place.slot index → wider.slot index) : FitAll wider ts :=
  fitAll_iff.2 fun t mem => (fitAll_iff.1 h t mem).mono widens slot

theorem Fits.replace {t : Ty} {place next : Place} {σ : Instantiation} (leads : σ.Leads place next) (h : t.Fits place) :
    (t.replace σ).Fits next := by
  have same := leads.arities
  induction t using byParts (Q := fun ts => FitAll place ts → FitAll next (replaceAll σ ts)) with
  | parameter name =>
    rw [Ty.replace]
    cases found : σ.get? name with
    | none => exact leads.kept name h found
    | some t => exact leads.named name t h found
  | bounded name bound arguments =>
    rw [Ty.replace]
    cases found : σ.get? name with
    | none =>
      have inner := leads.inner name h.1 found
      have wider : (place.inside name).Widens (next.inside name) := ⟨same, inner, fun _ _ => inner, leads.error⟩
      exact ⟨leads.kept name h.1 found, same ▸ h.2.1, h.2.2.mono wider fun _ => id⟩
    | some t => exact leads.named name t h.1 found
  | slot index => exact leads.slot index h
  | error => exact leads.error h
  | _ => simp_all [Ty.replace, replaceAll, Fits, FitAll, length_replaceAll]

theorem Fits.instantiate {place next : Place} {σ : Instantiation} (leads : σ.Leads place next) {t : Ty}
    (h : t.Fits place) : (t.instantiate σ).Fits next := by
  rw [instantiate_eq_replace]
  exact h.replace leads

theorem Fits.within {arities : Arities} {error : Prop} {known more : String → Prop} {t : Ty}
    (h : t.Fits (arities.within error known)) (wider : ∀ name, known name → more name) :
    t.Fits (arities.within error more) :=
  h.mono ⟨rfl, wider, fun _ _ => wider, fun h => h⟩ fun _ => id

theorem Place.widens_withSlots (place : Place) : place.Widens place.withSlots :=
  ⟨rfl, fun _ h => h, fun _ _ _ h => h, fun h => h⟩

theorem Fits.withSlots {place : Place} {t : Ty} (h : t.Fits place) : t.Fits place.withSlots :=
  h.mono (Place.widens_withSlots place) fun _ _ => trivial

theorem Fits.fill {place next : Place} (wider : place.Widens next) {value : Nat → Ty} {t : Ty} (h : t.Fits place)
    (values : ∀ index ∈ t.slots, (value index).Fits next) : (t.fill value).Fits next := by
  have same := wider.arities
  induction t using byParts (Q := fun ts => FitAll place ts → (∀ index ∈ slotsAll ts, (value index).Fits next) →
      FitAll next (fillAll value ts)) with
  | parameter name => exact wider.parameter name h
  | bounded name =>
    -- The arguments of a bound keep their slots, of which they have none.
    have inner := wider.inner name h.1
    exact ⟨wider.parameter name h.1, same ▸ h.2.1, h.2.2.mono ⟨same, inner, fun _ _ => inner, wider.error⟩ fun _ => id⟩
  | error => exact wider.error h
  | _ => simp_all [Ty.fill, fillAll, slots, slotsAll, Fits, FitAll, length_fillAll]

theorem Fits.closed {place : Place} {t : Ty} (h : t.Fits place.withSlots) (closed : t.hasSlot = false) :
    t.Fits place := by
  rw [hasSlot_eq_false_iff] at closed
  have unmentioned : ∀ index, index ∉ t.slots := fun index hi => by simp [closed] at hi
  have filled : (t.fill Ty.slot).Fits place := by
    have same : place.withSlots.Widens place := ⟨rfl, fun _ h => h, fun _ _ _ h => h, fun h => h⟩
    exact h.fill same fun index hi => (unmentioned index hi).elim
  rwa [fill_eq_self fun index hi => (unmentioned index hi).elim] at filled

theorem Fits.anyLeaf {place : Place} {p : Ty → Bool} (fails : ∀ t : Ty, t.Fits place → p t = false) {t : Ty}
    (h : t.Fits place) : t.anyLeaf p = false := by
  induction t using byParts (Q := fun ts => FitAll place ts → anyLeafAll p ts = false) with
  | nil => rfl
  | cons | tuple | list | dict | struct | function => simp_all [Fits, FitAll, Ty.anyLeaf, anyLeafAll]
  | _ => exact fails _ h

theorem Fits.hasSlot_eq_false {place : Place} (none : ∀ index, ¬ place.slot index) {t : Ty} (h : t.Fits place) :
    t.hasSlot = false := by
  refine h.anyLeaf fun t fits => ?_
  cases t with
  | slot index => exact absurd fits (none index)
  | _ => rfl

theorem Fits.hasSlot {arities : Arities} {error : Prop} {known : String → Prop} {t : Ty}
    (h : t.Fits (arities.within error known)) : t.hasSlot = false :=
  h.hasSlot_eq_false fun _ => id

/-- A type that fits a place where type parameters stand only if `generic` says so may reach code
generation. -/
theorem Fits.not_unresolved {arities : Arities} {known : String → Prop} {generic : Bool} {t : Ty}
    (h : t.Fits (arities.within False known)) (scope : ∀ name, known name → generic = true) :
    t.isUnresolved generic = false := by
  refine h.anyLeaf fun t fits => ?_
  cases t with
  | parameter name => simp [scope name fits]
  | bounded name _ _ => simp [scope name fits.1]
  | slot _ => exact fits.elim
  | error => exact fits.elim
  | _ => rfl

theorem fits_ofReturns {place : Place} : ∀ {ts : List Ty}, (∀ t ∈ ts, t.Fits place) →
    (ofReturns ts).Fits place
  | [], _ => trivial
  | [_], h => h _ List.mem_cons_self
  | _ :: _ :: _, h => fitAll_iff.2 h

theorem hereditary_fits (place : Place) : Hereditary (Fits place.withSlots) where
  slot _ := trivial
  tuple := fitAll_iff.1
  list h := h
  dict h := h
  struct h := fitAll_iff.1 h.2
  function h := h.imp fitAll_iff.1 fitAll_iff.1
  fill values h := h.fill ⟨rfl, fun _ h => h, fun _ _ _ h => h, fun h => h⟩ fun index _ => values index

end Ty

end SemanticChecker
