import SemanticChecker.Proofs.Errorless

/-! Completeness of unification. Types for slots satisfy a unifier if they make each bound slot equal to what it is
bound to. Whatever satisfies the bindings and makes two types equal also satisfies every binding that unifying the
two types makes, so unification binds no more than it has to and clashes only where no types for slots will do. -/
namespace SemanticChecker

open List

namespace Ty

variable {value : Nat → Ty} {index : Nat} {t : Ty}

/-- What stands for a slot is smaller than any other type that mentions the slot, once that is filled. -/
theorem eq_slot_or_sizeOf_lt (value : Nat → Ty) (h : index ∈ t.slots) :
    t = .slot index ∨ sizeOf (value index) < sizeOf (t.fill value) := by
  induction t using byParts (Q := fun ts => index ∈ slotsAll ts → sizeOf (value index) < sizeOf (fillAll value ts)) with
  | slot => exact .inl (congrArg Ty.slot (mem_singleton.1 h).symm)
  | _ => grind [fill, fillAll, slots, slotsAll, tuple.sizeOf_spec, list.sizeOf_spec, dict.sizeOf_spec, struct.sizeOf_spec,
      function.sizeOf_spec, List.cons.sizeOf_spec]

theorem not_mem_slots_of_fill_eq (differ : t ≠ .slot index) (equal : value index = t.fill value) : index ∉ t.slots := by
  intro mem
  rcases eq_slot_or_sizeOf_lt value mem with same | smaller
  · exact differ same
  · exact absurd smaller (equal ▸ Nat.lt_irrefl _)

theorem ctorIdx_fill (h : ∀ index, t ≠ .slot index) : (t.fill value).ctorIdx = t.ctorIdx := by
  cases t with
  | slot index => exact absurd rfl (h index)
  | _ => rfl

end Ty

namespace UnifyNeed

/-- Types for slots solve what is asked for: the slot equals its value, and what is left is equal. -/
def SolvedBy (value : Nat → Ty) : UnifyNeed → Prop
  | .nothing => True
  | .bind slot t rest => value slot = t.fill value ∧ ∀ pair ∈ rest, pair.1.fill value = pair.2.fill value
  | .clash _ => False

theorem SolvedBy.within {value : Nat → Ty} {need : UnifyNeed} (h : need.SolvedBy value) (expected found : Ty) :
    (need.within expected found).SolvedBy value := by
  cases need <;> exact h

theorem SolvedBy.andThen {value : Nat → Ty} {need : UnifyNeed} {left : List (Ty × Ty)} {next : Unit → UnifyNeed}
    (first : need.SolvedBy value) (middle : ∀ pair ∈ left, pair.1.fill value = pair.2.fill value)
    (second : (next ()).SolvedBy value) : (need.andThen left next).SolvedBy value := by
  cases need with
  | nothing => exact second
  | clash _ => exact first.elim
  | bind _ _ rest => exact ⟨first.1, forall_mem_append.2 ⟨first.2, middle⟩⟩

theorem solvedBy_ofSlot {value : Nat → Ty} {slot : Nat} {t : Ty} (differ : t ≠ .slot slot)
    (equal : value slot = t.fill value) : (ofSlot slot t).SolvedBy value := by
  rw [ofSlot, if_neg fun h => Ty.not_mem_slots_of_fill_eq differ equal (Ty.mentions_iff.1 h)]
  exact ⟨equal, forall_mem_nil _⟩

end UnifyNeed

namespace Ty

theorem length_eq_of_fillAll_eq {value : Nat → Ty} {as bs : List Ty} (h : fillAll value as = fillAll value bs) :
    as.length = bs.length := by
  simpa [fillAll_eq_map] using congrArg List.length h

theorem zip_of_fillAll_eq {value : Nat → Ty} {as bs : List Ty} (h : fillAll value as = fillAll value bs) :
    ∀ pair ∈ as.zip bs, pair.1.fill value = pair.2.fill value := by
  induction as generalizing bs with
  | nil => exact fun pair hp => by cases hp
  | cons a as ih =>
    cases bs with
    | nil => exact fun pair hp => by cases hp
    | cons b bs =>
      obtain ⟨head, tail⟩ := List.cons.inj h
      exact forall_mem_cons.2 ⟨head, ih tail⟩

mutual

theorem solvedBy_need (value : Nat → Ty) (a b : Ty) (h : a.fill value = b.fill value) :
    (a.need b).SolvedBy value := by
  unfold need
  split
  · trivial
  · rename_i differ
    split
    · trivial
    · trivial
    · exact UnifyNeed.solvedBy_ofSlot (Ne.symm differ) h
    · exact UnifyNeed.solvedBy_ofSlot differ h.symm
    · have parts := tuple.inj h
      rw [if_pos (length_eq_of_fillAll_eq parts)]
      exact (solvedBy_needAll value _ _ parts).within _ _
    · exact (solvedBy_need value _ _ (list.inj h)).within _ _
    · obtain ⟨key, entry⟩ := dict.inj h
      refine ((solvedBy_need value _ _ key).andThen ?_ (solvedBy_need value _ _ entry)).within _ _
      exact forall_mem_singleton.2 entry
    · obtain ⟨parameters, returns⟩ := function.inj h
      rw [if_pos ⟨length_eq_of_fillAll_eq parameters, length_eq_of_fillAll_eq returns⟩]
      exact ((solvedBy_needAll value _ _ parameters).andThen (zip_of_fillAll_eq returns)
        (solvedBy_needAll value _ _ returns)).within _ _
    · obtain ⟨same, arguments⟩ := struct.inj h
      rw [if_pos ⟨same, length_eq_of_fillAll_eq arguments⟩]
      exact (solvedBy_needAll value _ _ arguments).within _ _
    · -- Neither type is a slot here, so both have the form of what they are filled to.
      rename_i leftSlot _ rightSlot tuples lists dicts functions structs
      have form := congrArg Ty.ctorIdx h
      rw [ctorIdx_fill leftSlot, ctorIdx_fill rightSlot] at form
      cases a <;> cases b <;> cases form
      case tuple.tuple.refl => exact tuples _ _ rfl rfl
      case list.list.refl => exact lists _ _ rfl rfl
      case dict.dict.refl => exact dicts _ _ _ _ rfl rfl
      case function.function.refl => exact functions _ _ _ _ rfl rfl
      case struct.struct.refl => exact structs _ _ _ _ rfl rfl
      case slot.slot.refl => exact leftSlot _ rfl
      all_goals exact differ h
decreasing_by all_goals (subst_vars; simp +arith)

theorem solvedBy_needAll (value : Nat → Ty) : ∀ as bs : List Ty, fillAll value as = fillAll value bs →
    (needAll as bs).SolvedBy value
  | [], _, _ => trivial
  | _ :: _, [], _ => trivial
  | a :: as, b :: bs, h => by
    obtain ⟨head, tail⟩ := List.cons.inj h
    rw [needAll]
    exact (solvedBy_need value a b head).andThen (zip_of_fillAll_eq tail) (solvedBy_needAll value as bs tail)
decreasing_by all_goals simp +arith

end

end Ty

namespace Unifier

/-- Types for slots make each bound slot equal to what it is bound to. -/
def SatisfiedBy (u : Unifier) (value : Nat → Ty) : Prop :=
  ∀ slot t, u.bindings.lookup slot = some t → value slot = t.fill value

variable {u : Unifier} {value : Nat → Ty}

theorem SatisfiedBy.fill_resolve (h : u.SatisfiedBy value) (t : Ty) : (u.resolve t).fill value = t.fill value := by
  rw [resolve_eq_fill, Ty.fill_fill]
  congr
  funext slot
  rw [Unifier.value]
  cases found : u.bindings.lookup slot with
  | none => rfl
  | some s => exact (h slot s found).symm

theorem SatisfiedBy.bind {u : Unifier} {value : Nat → Ty} (h : u.SatisfiedBy value) {slot : Nat} {t : Ty}
    (equal : value slot = t.fill value) : (u.bind slot t).SatisfiedBy value := by
  intro index s found
  rw [lookup_bind] at found
  split at found
  · rename_i same
    rw [same, equal, Option.some.inj found]
  · obtain ⟨before, old, rfl⟩ := Option.map_eq_some_iff.1 found
    rw [Ty.fill_fill, h index before old]
    congr
    funext i
    rw [Ty.only]
    split
    · rename_i same
      rw [same, equal]
    · rfl

theorem SatisfiedBy.solvedBy_need {u : Unifier} {value : Nat → Ty} (h : u.SatisfiedBy value) {expected found : Ty}
    (equal : expected.fill value = found.fill value) :
    ((u.resolve expected).need (u.resolve found)).SolvedBy value := by
  refine Ty.solvedBy_need value _ _ ?_
  rw [h.fill_resolve, h.fill_resolve, equal]

theorem SatisfiedBy.solve {u : Unifier} {value : Nat → Ty} (h : u.SatisfiedBy value) (pairs : List (Ty × Ty))
    (resolved : List Ty) (equal : ∀ pair ∈ pairs, pair.1.fill value = pair.2.fill value) :
    (u.solve pairs resolved).agreed = true ∧ (u.solve pairs resolved).unifier.SatisfiedBy value := by
  fun_induction Unifier.solve u pairs resolved with
  | case1 u resolved => exact ⟨rfl, h⟩
  | case2 u resolved expected found rest left right asked ih =>
    exact ih h fun pair hp => equal pair (mem_cons_of_mem _ hp)
  | case3 u resolved expected found rest left right slot t more asked ih =>
    obtain ⟨first, others⟩ := forall_mem_cons.1 equal
    have need := h.solvedBy_need first
    rw [asked] at need
    exact ih (h.bind need.1) (forall_mem_append.2 ⟨need.2, others⟩)
  | case4 u resolved expected found rest left right error asked =>
    have need := h.solvedBy_need (forall_mem_cons.1 equal).1
    rw [asked] at need
    exact need.elim

/-- Whatever satisfies a unifier and makes two types equal satisfies it once they are unified, which does not
clash. -/
theorem SatisfiedBy.unify {u : Unifier} {value : Nat → Ty} (h : u.SatisfiedBy value) {expected found : Ty}
    (equal : expected.fill value = found.fill value) :
    (u.unify expected found).clash = none ∧ (u.unify expected found).unifier.SatisfiedBy value := by
  have need := h.solvedBy_need equal
  rw [Unifier.unify]
  cases asked : (u.resolve expected).need (u.resolve found) with
  | nothing => exact ⟨rfl, h⟩
  | clash error =>
    rw [asked] at need
    exact need.elim
  | bind slot t rest =>
    rw [asked] at need
    obtain ⟨agreed, satisfied⟩ := (h.bind need.1).solve rest [u.resolve found, u.resolve expected] need.2
    exact ⟨if_pos agreed, satisfied⟩

theorem SatisfiedBy.of_extends {later : Unifier} (settled : u.Settled) (ext : u.Extends later)
    (h : later.SatisfiedBy value) : u.SatisfiedBy value := by
  intro slot t found
  have resolved : u.resolve (.slot slot) = t := by
    rw [resolve_eq_fill, Ty.fill, Unifier.value, found, Option.getD_some]
  calc value slot = (later.resolve (.slot slot)).fill value := (h.fill_resolve (.slot slot)).symm
    _ = (later.resolve t).fill value := by rw [← ext.resolve_resolve settled (.slot slot), resolved]
    _ = t.fill value := h.fill_resolve t

theorem Settled.satisfiedBy_value (h : u.Settled) : u.SatisfiedBy u.value := by
  intro slot t found
  have bound : u.value slot = t := by rw [value, found, Option.getD_some]
  rw [bound, ← resolve_eq_fill]
  exact (resolve_of_unbound fun index hi => h slot index ⟨t, found, hi⟩).symm

theorem SatisfiedBy.fill_eq_of_unify (settled : u.Settled) (errorless : u.Errorless) {expected found : Ty}
    (left : expected.Errorless) (right : found.Errorless) (done : (u.unify expected found).clash = none)
    (h : (u.unify expected found).unifier.SatisfiedBy value) : expected.fill value = found.fill value := by
  have agrees := (settled.unify expected found).2.2 done
  have after := errorless_iff.1 (errorless.unify left right)
  have equal := agrees.eq_of_errorless (after.resolve Ty.hereditary_errorless left)
    (after.resolve Ty.hereditary_errorless right)
  rw [← h.fill_resolve expected, equal, h.fill_resolve found]

/-- After any sequence of pairs, whatever satisfies the bindings and makes two types equal lets them unify and
satisfies the bindings afterwards. Where no error type is mentioned, two types clash exactly if nothing satisfies
the bindings and makes them equal; and what satisfies the bindings afterwards is just what satisfied them before
and makes the types equal. -/
theorem unify_mostGeneral (before : List (Ty × Ty)) (expected found : Ty) :
    (∀ value, (run {} before).SatisfiedBy value → expected.fill value = found.fill value →
      ((run {} before).unify expected found).clash = none ∧
        ((run {} before).unify expected found).unifier.SatisfiedBy value) ∧
    ((run {} before).Errorless → expected.Errorless → found.Errorless →
      (((run {} before).unify expected found).clash = none ↔
        ∃ value, (run {} before).SatisfiedBy value ∧ expected.fill value = found.fill value) ∧
      (((run {} before).unify expected found).clash = none → ∀ value,
        ((run {} before).unify expected found).unifier.SatisfiedBy value ↔
          (run {} before).SatisfiedBy value ∧ expected.fill value = found.fill value)) := by
  have settled := (settled_empty.run before).1
  obtain ⟨after, ext, _⟩ := settled.unify expected found
  refine ⟨fun value h equal => h.unify equal, fun errorless left right => ?_⟩
  have back : ((run {} before).unify expected found).clash = none → ∀ value,
      ((run {} before).unify expected found).unifier.SatisfiedBy value →
        (run {} before).SatisfiedBy value ∧ expected.fill value = found.fill value :=
    fun done value h => ⟨h.of_extends settled ext, h.fill_eq_of_unify settled errorless left right done⟩
  refine ⟨⟨fun done => ⟨_, back done _ after.satisfiedBy_value⟩, ?_⟩, fun done value => ⟨back done value, ?_⟩⟩
  · rintro ⟨value, h, equal⟩
    exact (h.unify equal).1
  · rintro ⟨h, equal⟩
    exact (h.unify equal).2

theorem errorless_empty : Errorless {} := by
  intro _ _ found
  cases found

theorem satisfiedBy_empty (value : Nat → Ty) : SatisfiedBy {} value := by
  intro _ _ found
  cases found

/-- Once slot 0 stands for a list of slot 1, two pairs that share slots unify and leave slot 1 to be anything that
makes them equal, but slot 1 is not unified with slot 0. -/
theorem unify_mostGeneral_shared :
    (∀ value, ((run {} [(.slot 0, .list (.slot 1))]).unify (.tuple [.slot 0, .slot 2])
        (.tuple [.slot 2, .list (.primitive .str)])).unifier.SatisfiedBy value ↔
      (run {} [(.slot 0, .list (.slot 1))]).SatisfiedBy value ∧
        Ty.fill value (.tuple [.slot 0, .slot 2]) =
          Ty.fill value (.tuple [.slot 2, .list (.primitive .str)])) ∧
    ((run {} [(.slot 0, .list (.slot 1))]).unify (.slot 1) (.slot 0)).clash ≠ none := by
  have first : (unify {} (.slot 0) (.list (.slot 1))).clash = none ∧
      (run {} [(.slot 0, .list (.slot 1))]).SatisfiedBy fun slot =>
        if slot = 1 then .primitive .str else .list (.primitive .str) :=
    (satisfiedBy_empty _).unify rfl
  have errorless : (run {} [(.slot 0, .list (.slot 1))]).Errorless := errorless_empty.unify rfl rfl
  refine ⟨?_, fun done => ?_⟩
  · obtain ⟨complete, general⟩ := unify_mostGeneral [(.slot 0, .list (.slot 1))] (.tuple [.slot 0, .slot 2])
      (.tuple [.slot 2, .list (.primitive .str)])
    exact (general errorless rfl rfl).2 (complete _ first.2 rfl).1
  · obtain ⟨value, h, equal⟩ :=
      ((unify_mostGeneral [(.slot 0, .list (.slot 1))] (.slot 1) (.slot 0)).2 errorless rfl rfl).1.1 done
    have bound : Ty.fill value (.slot 0) = Ty.fill value (.list (.slot 1)) := by
      refine SatisfiedBy.fill_eq_of_unify settled_empty errorless_empty ?_ ?_ first.1 h <;> rfl
    exact Ty.not_mem_slots_of_fill_eq (t := .list (.slot 1)) Ty.noConfusion (equal.trans bound) (.head _)

end Unifier

end SemanticChecker
