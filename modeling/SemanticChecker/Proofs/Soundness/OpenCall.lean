import SemanticChecker.Proofs.Composition.Assignability
import SemanticChecker.Proofs.Errorless
import SemanticChecker.Proofs.Soundness.Typing

/-! Calls whose type arguments are being found. Filling slots keeps a call in order and never takes back
what was found. Once every slot is filled, what would do for a parameter may be stored in it. -/
namespace SemanticChecker

open List

namespace Ty

theorem Fits.fill_replace {place : Place} (closed : ∀ index, ¬ place.slot index) {σ τ : Instantiation}
    {value : Nat → Ty} (same : ∀ name, τ.get? name = (σ.get? name).map (Ty.fill value)) {t : Ty} (h : t.Fits place) :
    (t.replace σ).fill value = t.replace τ := by
  induction t using byParts (Q := fun ts => FitAll place ts → fillAll value (replaceAll σ ts) = replaceAll τ ts) with
  | parameter name | bounded name =>
    rw [Ty.replace, Ty.replace, same]
    cases σ.get? name <;> rfl
  | _ => simp_all [Ty.replace, replaceAll, Ty.fill, fillAll, Fits, FitAll]

theorem fill_ofReturns (value : Nat → Ty) : ∀ ts : List Ty,
    (ofReturns ts).fill value = ofReturns (ts.map (fill value))
  | [] => rfl
  | [_] => rfl
  | _ :: _ :: _ => congrArg Ty.tuple (fillAll_eq_map value _)

theorem fill_closed {value : Nat → Ty} {t : Ty} (closed : t.hasSlot = false) : t.fill value = t := by
  refine fill_eq_self fun index mem => ?_
  rw [hasSlot_eq_false_iff.1 closed] at mem
  cases mem

end Ty

/-- Whether a place admits all that may be mentioned inside, some type parameters apart. Neither has slots. -/
structure Place.Opens (own : List String) (inside place : Place) : Prop where
  arities : place.arities = inside.arities
  kept : ∀ name, inside.parameter name → name ∉ own → place.parameter name
  inner : ∀ name, name ∉ own → ∀ other, inside.inner name other → place.inner name other
  error : inside.error → place.error
  closedInside : ∀ index, ¬ inside.slot index
  closed : ∀ index, ¬ place.slot index

theorem Place.Opens.leads {own : List String} {inside place next : Place} (h : Place.Opens own inside place)
    (widens : place.Widens next) {σ : Instantiation} (given : ∀ name ∈ own, ∃ t, σ.get? name = some t)
    (fit : ∀ name t, σ.get? name = some t → t.Fits next) : σ.Leads inside next := by
  have outside : ∀ name, σ.get? name = none → name ∉ own := by
    intro name missing mem
    obtain ⟨t, found⟩ := given name mem
    rw [missing] at found
    cases found
  exact
    { arities := widens.arities.trans h.arities
      named := fun name t _ => fit name t
      kept := fun name known missing => widens.parameter name (h.kept name known (outside name missing))
      slot := fun index isSlot => (h.closedInside index isSlot).elim
      inner := fun name known missing other mentioned => widens.inner name (h.kept name known (outside name missing))
        other (h.inner name (outside name missing) other mentioned)
      error := fun inside => widens.error (h.error inside) }

/-- Whether what a call is checked against mentions its own type parameters and what is known outside. -/
structure CallShape.Within (inside place : Place) (shape : CallShape) : Prop where
  opens : Place.Opens (Ty.namesOf shape.typeParameters) inside place
  params : ∀ t ∈ shape.params, t.Fits inside
  returns : ∀ t ∈ shape.returns, t.Fits inside

/-- Whether a unifier is settled, and some property holds of all that slots stand for. -/
structure Unifier.Sound (P : Ty → Prop) (u : Unifier) : Prop where
  holds : u.Holds P
  settled : u.Settled

/-- One unifier goes on from another: if that was sound it is so too, and stands for more. -/
def Unifier.Continues (P : Ty → Prop) (u later : Unifier) : Prop :=
  u.Sound P → later.Sound P ∧ u.Extends later

namespace Unifier.Continues

variable {P : Ty → Prop} {u v w : Unifier}

theorem refl : u.Continues P u :=
  fun h => ⟨h, .refl u⟩

theorem trans (first : u.Continues P v) (second : v.Continues P w) : u.Continues P w := by
  intro h
  obtain ⟨middle, extends'⟩ := first h
  obtain ⟨last, further⟩ := second middle
  exact ⟨last, extends'.trans further⟩

theorem unify (hereditary : Ty.Hereditary P) {expected found : Ty} (left : expected = .error ∨ P expected)
    (right : P found) : u.Continues P (u.unify expected found).unifier := by
  rcases left with rfl | left
  · have same : (u.unify .error found).unifier = u := by
      have asked : Ty.error.need (u.resolve found) = .nothing := by
        unfold Ty.need
        split <;> rfl
      rw [Unifier.unify, show u.resolve .error = .error by rw [resolve_eq_fill]; rfl, asked]
    rw [same]
    exact .refl
  · intro h
    obtain ⟨settled, extends', _⟩ := h.settled.unify expected found
    exact ⟨⟨h.holds.unify hereditary left right, settled⟩, extends'⟩

end Unifier.Continues

namespace OpenCall

variable {inside place : Place} {P : Ty → Prop} {ctx : CheckContext} {call later : OpenCall}

/-- Whether all that a call is checked against fits, and it has a slot for every type parameter of what is called. -/
structure Within (inside place : Place) (call : OpenCall) : Prop where
  shape : call.shape.Within inside place
  named : ∀ name t, call.slots.get? name = some t →
    name ∈ Ty.namesOf call.shape.typeParameters ∧ ∃ index, t = .slot index
  slots : ∀ name ∈ Ty.namesOf call.shape.typeParameters, ∃ t, call.slots.get? name = some t

structure Grows (P : Ty → Prop) (call later : OpenCall) : Prop where
  shape : later.shape = call.shape
  slots : later.slots = call.slots
  unifier : call.unifier.Continues P later.unifier

theorem Grows.refl : call.Grows P call :=
  ⟨rfl, rfl, .refl⟩

theorem Grows.trans {last : OpenCall} (first : call.Grows P later) (second : later.Grows P last) :
    call.Grows P last :=
  ⟨second.shape.trans first.shape, second.slots.trans first.slots, first.unifier.trans second.unifier⟩

theorem Grows.of_unifier {u : Unifier} (h : call.unifier.Continues P u) : call.Grows P { call with unifier := u } :=
  ⟨rfl, rfl, h⟩

theorem Within.grows (h : call.Within inside place) (grows : call.Grows P later) : later.Within inside place where
  shape := grows.shape ▸ h.shape
  named := by
    rw [grows.slots, grows.shape]
    exact h.named
  slots := by
    rw [grows.slots, grows.shape]
    exact h.slots

theorem within_start {shape : CallShape} (within : shape.Within inside place) {slots : List (String × Ty)}
    (names : slots.map Prod.fst = Ty.namesOf shape.typeParameters)
    (each : ∀ entry ∈ slots, ∃ index, entry.2 = .slot index) :
    Within inside place { shape, slots := .ofPairs slots } where
  shape := within
  named name t found := by
    have mem : (name, t) ∈ slots := mem_reverse.1 (mem_of_lookup found)
    exact ⟨names ▸ mem_map_of_mem (f := Prod.fst) mem, each _ mem⟩
  slots name known := by
    rw [← names] at known
    obtain ⟨⟨_, t⟩, mem, rfl⟩ := mem_map.1 known
    exact lookup_of_mem (mem_reverse.2 mem)

theorem sound_empty (hereditary : Ty.Hereditary P) : Unifier.Sound P {} :=
  ⟨hereditary.slot, Unifier.settled_empty⟩

theorem Within.instantiate (h : call.Within inside place) {t : Ty} (fits : t.Fits inside) :
    (t.instantiate call.slots).Fits place.withSlots := by
  refine fits.instantiate (h.shape.opens.leads (Ty.Place.widens_withSlots place) h.slots fun name t found => ?_)
  obtain ⟨_, index, rfl⟩ := h.named name t found
  trivial

theorem Within.params_fit (h : call.Within inside place) : ∀ t ∈ call.params, t.Fits place.withSlots :=
  forall_mem_map.2 fun t mem => h.instantiate (h.shape.params t mem)

theorem closed?_eq_some {t found : Ty} : call.closed? t = some found ↔
    (call.unifier.resolve t).hasSlot = false ∧ call.unifier.resolve t = found := by
  simp [closed?]

theorem closed?_fits (h : call.unifier.Holds (Ty.Fits place.withSlots)) {t found : Ty}
    (fits : t.Fits place.withSlots) (done : call.closed? t = some found) : found.Fits place := by
  obtain ⟨closed, rfl⟩ := closed?_eq_some.1 done
  exact Ty.Fits.closed (h.resolve (Ty.hereditary_fits place) fits) closed

theorem closed?_of_extends (ext : call.unifier.Extends later.unifier) {t found : Ty}
    (done : call.closed? t = some found) : later.closed? t = some found := by
  obtain ⟨closed, rfl⟩ := closed?_eq_some.1 done
  obtain ⟨value, filled⟩ := ext
  rw [closed?_eq_some, filled, Ty.fill_closed closed]
  exact ⟨closed, rfl⟩

/-- Whether a value of a type may be stored in a parameter, of which all is known. -/
def Admits (ctx : CheckContext) (call : OpenCall) (parameter t : Ty) : Prop :=
  ∃ stored, call.closed? parameter = some stored ∧ ctx.isAssignable stored t = true

theorem Admits.grows (sound : call.unifier.Sound P) (grows : call.Grows P later) {parameter t : Ty}
    (h : call.Admits ctx parameter t) : later.Admits ctx parameter t := by
  obtain ⟨stored, closed, assignable⟩ := h
  exact ⟨stored, closed?_of_extends (grows.unifier sound).2 closed, assignable⟩

/-- Types that agree are equal if none of them mentions the error type; then the one with slots is closed if the
other is. -/
theorem admits_of_agrees {parameter t : Ty} (closed : t.hasSlot = false)
    (left : (call.unifier.resolve parameter).Errorless) (right : t.Errorless)
    (agrees : Ty.Agrees (call.unifier.resolve parameter) (call.unifier.resolve t)) : call.Admits ctx parameter t := by
  rw [Unifier.resolve_eq_fill _ t, Ty.fill_closed closed] at agrees
  have same := agrees.eq_of_errorless left right
  exact ⟨t, closed?_eq_some.2 ⟨same ▸ closed, same⟩, CheckContext.isAssignable_self t⟩

/-- Whether types are those that the slots of the named type parameters stand for, all of them closed. -/
structure Finds (call : OpenCall) (names : List String) (found : List Ty) : Prop where
  count : names.length = found.length
  each : ∀ pair ∈ names.zip found, ∃ slot, call.slots.get? pair.1 = some slot ∧ call.closed? slot = some pair.2

section Closing

variable {found : List Ty} (h : call.Within inside place)
  (finds : call.Finds (Ty.namesOf call.shape.typeParameters) found)

include h finds

theorem Within.get?_instantiation (name : String) : (call.shape.instantiation found).get? name =
    (call.slots.get? name).map (Ty.fill call.unifier.value) := by
  cases known : call.slots.get? name with
  | none =>
    cases other : (call.shape.instantiation found).get? name with
    | none => rfl
    | some t =>
      obtain ⟨t, there⟩ := h.slots name (of_mem_zip (Instantiation.mem_zip_of_get? other)).1
      rw [known] at there
      cases there
  | some slot =>
    obtain ⟨t, other⟩ := Instantiation.get?_of_mem finds.count (h.named name slot known).1
    obtain ⟨same, there, closed⟩ := finds.each _ (Instantiation.mem_zip_of_get? other)
    cases known.symm.trans there
    rw [CallShape.instantiation, other, Option.map_some, ← Unifier.resolve_eq_fill, (closed?_eq_some.1 closed).2]

/-- Filling the slots of a call puts its type arguments in place of the type parameters. -/
theorem Within.resolve_instantiate {outer : Place} (closed : ∀ index, ¬ outer.slot index) {t : Ty}
    (fits : t.Fits outer) :
    call.unifier.resolve (t.instantiate call.slots) = t.instantiate (call.shape.instantiation found) := by
  rw [Unifier.resolve_eq_fill, Ty.instantiate_eq_replace, Ty.instantiate_eq_replace]
  exact fits.fill_replace closed (h.get?_instantiation finds)

theorem Within.stored_of_admits {parameter t : Ty} (member : parameter ∈ call.shape.params)
    (admits : call.Admits ctx (parameter.instantiate call.slots) t) :
    ctx.isAssignable (parameter.instantiate (call.shape.instantiation found)) t = true := by
  obtain ⟨stored, closed, assignable⟩ := admits
  rw [← h.resolve_instantiate finds h.shape.opens.closedInside (h.shape.params parameter member),
    (closed?_eq_some.1 closed).2]
  exact assignable

variable (fits : call.unifier.Holds (Ty.Fits place.withSlots))

include fits

theorem Within.found_fits : ∀ t ∈ found, t.Fits place := by
  intro t ht
  rw [← map_snd_zip (Nat.le_of_eq finds.count.symm)] at ht
  obtain ⟨⟨name, t⟩, mem, rfl⟩ := mem_map.1 ht
  obtain ⟨slot, known, closed⟩ := finds.each _ mem
  obtain ⟨_, index, rfl⟩ := h.named _ slot known
  exact closed?_fits fits (t := .slot index) trivial closed

theorem Within.instantiation_fits {t : Ty} (known : t.Fits inside) :
    (t.instantiate (call.shape.instantiation found)).Fits place := by
  refine known.instantiate (h.shape.opens.leads ⟨rfl, fun _ h => h, fun _ _ _ h => h, fun h => h⟩
    (fun name => Instantiation.get?_of_mem finds.count) fun name t found' => ?_)
  exact h.found_fits finds fits t (of_mem_zip (Instantiation.mem_zip_of_get? found')).2

theorem Within.returns_fits :
    (Ty.ofReturns (call.shape.returns.map (Ty.instantiate (call.shape.instantiation found)))).Fits place :=
  Ty.fits_ofReturns (forall_mem_map.2 fun t ht => h.instantiation_fits finds fits (h.shape.returns t ht))

theorem Within.closed?_returns : call.closed? (Ty.ofReturns (call.shape.returns.map (Ty.instantiate call.slots))) =
    some (Ty.ofReturns (call.shape.returns.map (Ty.instantiate (call.shape.instantiation found)))) := by
  have same : call.unifier.resolve (Ty.ofReturns (call.shape.returns.map (Ty.instantiate call.slots))) =
      Ty.ofReturns (call.shape.returns.map (Ty.instantiate (call.shape.instantiation found))) := by
    rw [Unifier.resolve_eq_fill, Ty.fill_ofReturns, map_map]
    refine congrArg Ty.ofReturns (map_congr_left fun t ht => ?_)
    rw [Function.comp_apply, ← Unifier.resolve_eq_fill]
    exact h.resolve_instantiate finds h.shape.opens.closedInside (h.shape.returns t ht)
  rw [closed?_eq_some, same]
  exact ⟨(h.returns_fits finds fits).hasSlot_eq_false h.shape.opens.closed, rfl⟩

end Closing

end OpenCall

end SemanticChecker
