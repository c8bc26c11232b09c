import SemanticChecker.Proofs.CallSoundness

/-! Completeness of the check of bounds at calls. A bound is checked as soon as its type parameter is found, and what it
takes by then is open as a whole or not at all. Then nothing is reported if there are types for the slots that meet all
bounds. Where only a part of an argument of a bound is open, even such a call may be refused. -/
namespace SemanticChecker

open List

/-- Whether a unifier binds what another does, and binds slots only to given types. -/
def Unifier.Follows (start : Unifier) (value : Nat → Ty) (u : Unifier) : Prop :=
  ∀ slot, u.value slot = value slot ∨ u.value slot = .slot slot ∧ start.value slot = .slot slot

namespace BodyContext.BoundGoal

/-- Whether each argument of a bound is a slot or has none that is open. -/
def IsFlat (call : OpenCall) (goal : BoundGoal) : Prop :=
  ∀ t ∈ goal.bound.arguments, (∃ slot, t.instantiate call.slots = .slot slot) ∨
    (call.unifier.resolve (t.instantiate call.slots)).hasSlot = false

/-- Whether a bound is satisfied if slots stand for given types. -/
def MetBy (ctx : CheckContext) (call : OpenCall) (value : Nat → Ty) (goal : BoundGoal) : Prop :=
  ∃ bindings, ctx.checkBound (goal.slot.fill value)
    ⟨goal.bound.name, goal.bound.arguments.map fun t => (t.instantiate call.slots).fill value⟩ = .ok bindings

end BodyContext.BoundGoal

variable {start u : Unifier} {value : Nat → Ty}

namespace Ty

theorem need_self (t : Ty) : t.need t = .nothing := by
  unfold need
  exact if_pos rfl

theorem need_slot {t : Ty} (closed : t.hasSlot = false) (proper : t ≠ .error) {slot : Nat} :
    (Ty.slot slot).need t = .bind slot t [] := by
  rw [hasSlot_eq_false_iff] at closed
  have isBind : UnifyNeed.ofSlot slot t = .bind slot t [] := if_neg fun mentions => by
    rw [mentions_iff, closed] at mentions
    cases mentions
  unfold need
  rw [if_neg fun same => by rw [← same] at closed; cases closed]
  split <;> simp_all

end Ty

namespace Unifier

variable (closed : ∀ slot, (value slot).hasSlot = false)

include closed

theorem Follows.fill_resolve (h : start.Follows value u) (t : Ty) : (u.resolve t).fill value = t.fill value := by
  rw [resolve_eq_fill, Ty.fill_fill]
  congr
  funext slot
  rcases h slot with same | ⟨same, _⟩ <;> rw [same]
  · exact Ty.fill_closed (closed slot)
  · rfl

theorem Follows.isFlat_resolve (h : start.Follows value u) {t : Ty}
    (flat : (∃ slot, t = .slot slot) ∨ (start.resolve t).hasSlot = false) :
    (∃ slot, u.resolve t = .slot slot) ∨ (u.resolve t).hasSlot = false := by
  rw [resolve_eq_fill] at flat ⊢
  rcases flat with ⟨slot, rfl⟩ | isClosed
  · rcases h slot with same | ⟨same, _⟩ <;> rw [Ty.fill, same]
    · exact .inr (closed slot)
    · exact .inl ⟨slot, rfl⟩
  · refine .inr ?_
    rw [Ty.hasSlot_eq_false_iff, Ty.slots_fill, flatMap_eq_nil_iff] at isClosed ⊢
    intro slot mem
    rcases h slot with same | ⟨_, isOpen⟩
    · rw [same, Ty.hasSlot_eq_false_iff.1 (closed slot)]
    · cases isOpen ▸ isClosed slot mem

theorem Follows.bind (h : start.Follows value u) (slot : Nat) : start.Follows value (u.bind slot (value slot)) := by
  intro other
  rw [value_bind]
  split
  · rename_i same
    exact .inl (same ▸ rfl)
  · rename_i differ
    refine (h other).imp (fun same => ?_) fun isOther => ⟨?_, isOther.2⟩
    · rw [same, Ty.fill_closed (closed other)]
    · rw [isOther.1, Ty.fill, Ty.only, if_neg differ]

/-- Where the types for slots agree with a binding, so does unification, and it binds nothing else. -/
theorem Follows.unify (h : start.Follows value u) {argument binding : Ty}
    (flat : (∃ slot, argument = .slot slot) ∨ argument.hasSlot = false)
    (agrees : argument = .error ∨ argument.fill value = binding) (proper : binding ≠ .error) :
    (u.unify argument binding).clash = none ∧ start.Follows value (u.unify argument binding).unifier := by
  have nothing : (u.resolve argument).need (u.resolve binding) = .nothing →
      (u.unify argument binding).clash = none ∧ start.Follows value (u.unify argument binding).unifier := by
    intro isNothing
    rw [Unifier.unify, isNothing]
    exact ⟨rfl, h⟩
  rcases agrees with rfl | rfl
  · refine nothing ?_
    rw [resolve_eq_fill, Ty.fill]
    unfold Ty.need
    split <;> rfl
  · rcases flat with ⟨slot, rfl⟩ | isClosed
    · have isSlot : u.resolve (.slot slot) = u.value slot := resolve_eq_fill u _
      have isValue : u.resolve (Ty.fill value (.slot slot)) = value slot :=
        (resolve_eq_fill u _).trans (Ty.fill_closed (closed slot))
      rw [isSlot, isValue] at nothing
      rcases h slot with bound | ⟨isOpen, _⟩
      · exact nothing (bound ▸ Ty.need_self _)
      · rw [Unifier.unify, isSlot, isValue, isOpen, Ty.need_slot (closed slot) proper]
        dsimp only
        rw [solve.eq_def]
        exact ⟨rfl, h.bind closed slot⟩
    · rw [Ty.fill_closed isClosed] at nothing ⊢
      exact nothing (Ty.need_self _)

end Unifier

/-- What agrees with a binding once slots are filled agrees with it before. -/
theorem BoundTable.ArgumentAgrees.of_fill (closed : ∀ slot, (value slot).hasSlot = false)
    (proper : ∀ slot, value slot ≠ .error) {argument binding : Ty}
    (flat : (∃ slot, argument = .slot slot) ∨ argument.hasSlot = false) (h : ArgumentAgrees (argument.fill value) binding) :
    ArgumentAgrees argument binding ∧ (binding = .error ∨ argument = .error ∨ argument.fill value = binding) := by
  rcases flat with ⟨slot, rfl⟩ | isClosed
  · refine ⟨.inl ⟨slot, rfl⟩, ?_⟩
    rcases h with ⟨index, isSlot⟩ | isError | same | isError
    · cases (isSlot ▸ closed slot : (Ty.slot index).hasSlot = false)
    · exact (proper slot isError).elim
    · exact .inr (.inr same)
    · exact .inl isError
  · rw [Ty.fill_closed isClosed] at h ⊢
    refine ⟨h, ?_⟩
    rcases h with ⟨index, rfl⟩ | isError | same | isError
    · cases isClosed
    · exact .inr (.inl isError)
    · exact .inr (.inr same)
    · exact .inl isError

namespace BodyContext

section Quiet

variable (body : BodyContext) (span : Span) (call : OpenCall)
  (closed : ∀ slot, (value slot).hasSlot = false) (proper : ∀ slot, value slot ≠ .error)

include closed in
theorem unifyBound_quiet (role : Role) {pairs : List (Ty × Ty)}
    (flat : ∀ pair ∈ pairs, (∃ slot, pair.1 = .slot slot) ∨ pair.1.hasSlot = false)
    (agrees : ∀ pair ∈ pairs, pair.2 = .error ∨ pair.1 = .error ∨ pair.1.fill value = pair.2)
    (h : start.Follows value u) :
    ∃ later, body.unifyBound role span u pairs = pure later ∧ start.Follows value later := by
  induction pairs generalizing u with
  | nil => exact ⟨u, rfl, h⟩
  | cons pair rest ih =>
    obtain ⟨first, flatRest⟩ := forall_mem_cons.1 flat
    obtain ⟨same, agreesRest⟩ := forall_mem_cons.1 agrees
    obtain ⟨argument, binding⟩ := pair
    rw [unifyBound]
    split
    · exact ih flatRest agreesRest h
    · rename_i isProper
      have isProper : binding ≠ .error := fun isError => isProper (isError ▸ rfl)
      obtain ⟨silent, next⟩ := h.unify closed first (same.resolve_left isProper) isProper
      obtain ⟨later, rest, last⟩ := ih flatRest agreesRest next
      refine ⟨later, ?_, last⟩
      rw [unify, silent]
      exact rest

include closed proper

theorem meetGoal_quiet {goal : BoundGoal} {candidate : Ty} (h : call.unifier.Follows value u)
    (flat : goal.IsFlat call) (met : goal.MetBy body.program call value)
    (found : OpenCall.closed? { call with unifier := u } goal.slot = some candidate) : ∃ later,
      body.meetGoal { call with unifier := u } goal candidate span = pure { call with unifier := later } ∧
        call.unifier.Follows value later := by
  obtain ⟨bindings, accepted⟩ := met
  obtain ⟨isClosed, same⟩ := OpenCall.closed?_eq_some.1 found
  have isCandidate : candidate = goal.slot.fill value := by
    rw [← same, ← h.fill_resolve closed, Ty.fill_closed isClosed]
  obtain ⟨satisfied, each⟩ := BoundTable.check_iff.1 accepted
  have alike : ∀ pair ∈ (goal.bound.arguments.map fun t => u.resolve (t.instantiate call.slots)).zip bindings,
      ((∃ slot, pair.1 = .slot slot) ∨ pair.1.hasSlot = false) ∧ BoundTable.ArgumentAgrees pair.1 pair.2 ∧
        (pair.2 = .error ∨ pair.1 = .error ∨ pair.1.fill value = pair.2) := by
    rw [zip_map_left] at each ⊢
    refine forall_mem_map.2 fun pair mem => ?_
    have agrees := forall_mem_map.1 each pair mem
    have isFlat := h.isFlat_resolve closed (flat pair.1 (of_mem_zip mem).1)
    dsimp only [Prod.map] at agrees
    rw [← h.fill_resolve closed] at agrees
    exact ⟨isFlat, agrees.of_fill closed proper isFlat⟩
  have accepted : body.program.checkBound candidate
      ⟨goal.bound.name, goal.bound.arguments.map fun t => u.resolve (t.instantiate call.slots)⟩ = .ok bindings :=
    BoundTable.check_iff.2 ⟨isCandidate ▸ satisfied, fun pair mem => (alike pair mem).2.1⟩
  obtain ⟨later, quiet, last⟩ := body.unifyBound_quiet span closed (Role.bound goal.bound.name goal.parameter)
    (fun pair mem => (alike pair mem).1) (fun pair mem => (alike pair mem).2.2) h
  refine ⟨later, ?_, last⟩
  rw [meetGoal]
  dsimp only
  rw [accepted]
  dsimp only
  rw [quiet]
  rfl

theorem boundPass_quiet {goals : List BoundGoal} (flat : ∀ goal ∈ goals, goal.IsFlat call)
    (met : ∀ goal ∈ goals, goal.MetBy body.program call value) (h : call.unifier.Follows value u) : ∃ later left,
      body.boundPass span { call with unifier := u } goals = pure ({ call with unifier := later }, left) ∧
        call.unifier.Follows value later ∧ left ⊆ goals := by
  induction goals generalizing u with
  | nil => exact ⟨u, [], rfl, h, List.Subset.refl _⟩
  | cons goal rest ih =>
    obtain ⟨flatOne, flatRest⟩ := forall_mem_cons.1 flat
    obtain ⟨metOne, metRest⟩ := forall_mem_cons.1 met
    rw [boundPass]
    split
    · obtain ⟨later, left, passed, last, sub⟩ := ih flatRest metRest h
      exact ⟨later, goal :: left, by rw [passed]; rfl, last, cons_subset_cons _ sub⟩
    · rename_i candidate found
      obtain ⟨next, done, after⟩ := body.meetGoal_quiet span call closed proper h flatOne metOne found
      obtain ⟨later, left, passed, last, sub⟩ := ih flatRest metRest after
      exact ⟨later, left, by rw [done, pure_bind, passed], last, subset_cons_of_subset _ sub⟩

theorem boundPasses_quiet (passes : Nat) {goals : List BoundGoal} (flat : ∀ goal ∈ goals, goal.IsFlat call)
    (met : ∀ goal ∈ goals, goal.MetBy body.program call value) (h : call.unifier.Follows value u) : ∃ later,
      body.boundPasses span passes { call with unifier := u } goals = pure { call with unifier := later } ∧
        call.unifier.Follows value later := by
  induction passes generalizing goals u with
  | zero => exact ⟨u, rfl, h⟩
  | succ passes ih =>
    obtain ⟨next, left, passed, after, sub⟩ := body.boundPass_quiet span call closed proper flat met h
    rw [boundPasses, passed, pure_bind]
    dsimp only
    split
    · exact ⟨next, rfl, after⟩
    · exact ih (fun goal mem => flat goal (sub mem)) (fun goal mem => met goal (sub mem)) after

/-- The check of the bounds of a call is complete, as far as their arguments are open as a whole or not at all. If types
for slots satisfy all bounds and are what is bound already, nothing is reported, and what is bound is still among them. -/
theorem bounds_complete (s : CheckState)
    (bound : ∀ slot, call.unifier.value slot = value slot ∨ call.unifier.value slot = .slot slot)
    (flat : ∀ goal ∈ boundGoals call, goal.IsFlat call)
    (met : ∀ goal ∈ boundGoals call, goal.MetBy body.program call value) : ∃ later,
      (body.boundPasses span ((boundGoals call).length + 1) call (boundGoals call)).run s =
        ({ call with unifier := later }, s) ∧ call.unifier.Follows value later := by
  have follows : call.unifier.Follows value call.unifier := fun slot => (bound slot).imp_right fun isOpen => ⟨isOpen, isOpen⟩
  obtain ⟨later, quiet, last⟩ := body.boundPasses_quiet span call closed proper ((boundGoals call).length + 1) flat met follows
  exact ⟨later, by rw [quiet]; rfl, last⟩

end Quiet

/-- `rows(names)` for `fn rows[I, C: Collection[element]](c: C)`, where `names` has the type `List[List[str]]`. -/
def rowsCall (element : Ty) : OpenCall where
  shape := ⟨"rows", [.parameter "I", .bounded "C" "Collection" [element]], [.parameter "C"], [], 1⟩
  slots := [("I", .slot 0), ("C", .slot 1)]
  unifier := ⟨[(1, .list (.list (.primitive .str)))]⟩

def rowsValue (element : Ty) (slot : Nat) : Ty :=
  if slot = 1 then .list (.list (.primitive .str)) else element

theorem bounds_complete_rows : ∃ later, (loopBody.boundPasses {} 2 (rowsCall (.parameter "I"))
    [⟨"C", .slot 1, "Collection", [.parameter "I"]⟩]).run {} = ({ rowsCall (.parameter "I") with unifier := later }, {}) := by
  have closed : ∀ slot, (rowsValue (.list (.primitive .str)) slot).hasSlot = false := fun slot => by
    unfold rowsValue
    split <;> rfl
  have proper : ∀ slot, rowsValue (.list (.primitive .str)) slot ≠ .error := fun slot => by
    unfold rowsValue
    split <;> simp
  have bound : ∀ slot, (rowsCall (.parameter "I")).unifier.value slot = rowsValue (.list (.primitive .str)) slot ∨
      (rowsCall (.parameter "I")).unifier.value slot = .slot slot := fun slot => by
    by_cases isRows : slot = 1
    · exact .inl (isRows ▸ rfl)
    · exact .inr (by simp [rowsCall, Unifier.value, List.lookup, beq_false_of_ne isRows])
  obtain ⟨later, quiet, _⟩ := bounds_complete loopBody {} (rowsCall (.parameter "I")) closed proper {} bound
    (forall_mem_singleton.2 (forall_mem_singleton.2 (.inl ⟨0, rfl⟩)))
    (forall_mem_singleton.2 ⟨[.list (.primitive .str)], rfl⟩)
  exact ⟨later, quiet⟩

/-- A call is refused although there are types for its slots, if a bound takes a type of which only a part is open. -/
theorem nested_bound_refused :
    (∀ goal ∈ boundGoals (rowsCall (.list (.parameter "I"))),
      goal.MetBy loopBody.program (rowsCall (.list (.parameter "I"))) (rowsValue (.primitive .str))) ∧
    ((loopBody.boundPasses {} 2 (rowsCall (.list (.parameter "I")))
      (boundGoals (rowsCall (.list (.parameter "I"))))).run {}).2.diagnostics.length = 1 :=
  ⟨forall_mem_singleton.2 ⟨[.list (.primitive .str)], rfl⟩, by decide +kernel⟩

end BodyContext

end SemanticChecker
