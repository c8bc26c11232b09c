import SemanticChecker.Ty.Slots

/-! Unification. A unifier holds what slots stand for, every value already free of the slots that are
bound, so that one pass resolves a type. Unifying two types descends through equal constructors from
left to right and binds slots on the way; bindings made before a clash stay. It comes to an end because
no slot comes up again once it is bound. -/
namespace SemanticChecker

inductive UnifyError where
  | tupleArity (expected found : Ty)
  | mismatch (expected found : Ty)
  /-- Binding a slot would make a type contain itself. -/
  | occurs (expected found : Ty)
  deriving DecidableEq, Repr

namespace UnifyError

def expected : UnifyError → Ty
  | tupleArity expected _ | mismatch expected _ | occurs expected _ => expected

def found : UnifyError → Ty
  | tupleArity _ found | mismatch _ found | occurs _ found => found

def message : UnifyError → String
  | tupleArity _ _ => "tuple arity mismatch"
  | mismatch _ _ => "type mismatch"
  | occurs _ _ => "type would contain itself"

end UnifyError

/-- What has to be done to make two resolved types agree. -/
inductive UnifyNeed where
  | nothing
  /-- A slot has to be bound before the pairs that are left can be looked at. -/
  | bind (slot : Nat) (value : Ty) (rest : List (Ty × Ty))
  | clash (error : UnifyError)

namespace UnifyNeed

def ofSlot (slot : Nat) (value : Ty) : UnifyNeed :=
  if value.mentions slot then .clash (.occurs (.slot slot) value) else .bind slot value []

/-- What the parts of two types ask for; a clash of parts is one of the whole types. -/
def within (expected found : Ty) : UnifyNeed → UnifyNeed
  | .clash _ => .clash (.mismatch expected found)
  | need => need

/-- Whether all that is to be bound, and all that is left, mentions only the given slots; the slot to be
bound is one of them and not part of its value. -/
def IsWithin (slots : List Nat) : UnifyNeed → Prop
  | .bind slot value rest =>
    slot ∈ slots ∧ slot ∉ value.slots ∧ value.slots ⊆ slots ∧
      ∀ pair ∈ rest, pair.1.slots ++ pair.2.slots ⊆ slots
  | _ => True

theorem IsWithin.mono {slots more : List Nat} (h : slots ⊆ more) :
    ∀ {need : UnifyNeed}, need.IsWithin slots → need.IsWithin more
  | .nothing, _ => trivial
  | .clash _, _ => trivial
  | .bind _ _ _, ⟨mem, free, value, rest⟩ =>
    ⟨h mem, free, fun _ hi => h (value hi), fun pair hp _ hi => h (rest pair hp hi)⟩

theorem isWithin_within {slots : List Nat} (expected found : Ty) :
    ∀ {need : UnifyNeed}, need.IsWithin slots → (need.within expected found).IsWithin slots
  | .nothing, _ => trivial
  | .clash _, _ => trivial
  | .bind _ _ _, h => h

/-- Goes on with `next` where nothing is asked for; else `left` is left over too. -/
def andThen (need : UnifyNeed) (left : List (Ty × Ty)) (next : Unit → UnifyNeed) : UnifyNeed :=
  match need with
  | .nothing => next ()
  | .bind slot value rest => .bind slot value (rest ++ left)
  | .clash error => .clash error

theorem isWithin_andThen {slots : List Nat} {need : UnifyNeed} {left : List (Ty × Ty)}
    {next : Unit → UnifyNeed} (first : need.IsWithin slots)
    (middle : ∀ pair ∈ left, pair.1.slots ++ pair.2.slots ⊆ slots) (second : (next ()).IsWithin slots) :
    (need.andThen left next).IsWithin slots := by
  cases need with
  | nothing => exact second
  | clash _ => trivial
  | bind _ _ rest =>
    obtain ⟨mem, free, value, more⟩ := first
    exact ⟨mem, free, value, fun pair hp => (List.mem_append.1 hp).elim (more pair) (middle pair)⟩

theorem isWithin_ofSlot {slot : Nat} {value : Ty} {slots : List Nat} (mem : slot ∈ slots)
    (sub : value.slots ⊆ slots) : (ofSlot slot value).IsWithin slots := by
  rw [ofSlot]
  split
  · trivial
  · rename_i h
    exact ⟨mem, fun hi => h (Ty.mentions_iff.2 hi), sub, nofun⟩

end UnifyNeed

namespace Ty

mutual

/-- What two resolved types ask for, from left to right up to the first slot that has to be bound and
the first clash. The error type agrees with everything. -/
def need (expected found : Ty) : UnifyNeed :=
  if expected = found then .nothing
  else match expected, found with
    | .error, _ => .nothing
    | _, .error => .nothing
    | .slot index, value => .ofSlot index value
    | value, .slot index => .ofSlot index value
    | .tuple a, .tuple b =>
      if a.length = b.length then (needAll a b).within expected found
      else .clash (.tupleArity expected found)
    | .list a, .list b => (need a b).within expected found
    | .dict a b, .dict c d =>
      ((need a c).andThen [(b, d)] fun _ => need b d).within expected found
    | .function a b, .function c d =>
      if a.length = c.length ∧ b.length = d.length then
        ((needAll a c).andThen (b.zip d) fun _ => needAll b d).within expected found
      else .clash (.mismatch expected found)
    | .struct i a, .struct j b =>
      if i = j ∧ a.length = b.length then (needAll a b).within expected found
      else .clash (.mismatch expected found)
    | _, _ => .clash (.mismatch expected found)

def needAll : (expected found : List Ty) → UnifyNeed
  | a :: as, b :: bs => (need a b).andThen (as.zip bs) fun _ => needAll as bs
  | _, _ => .nothing

end

theorem slots_zip_subset {as bs : List Ty} :
    ∀ pair ∈ as.zip bs, pair.1.slots ++ pair.2.slots ⊆ slotsAll as ++ slotsAll bs := by
  rintro ⟨a, b⟩ h
  have h := List.of_mem_zip h
  exact List.append_subset.2
    ⟨fun _ hi => List.mem_append_left _ (slots_subset_slotsAll h.1 hi),
      fun _ hi => List.mem_append_right _ (slots_subset_slotsAll h.2 hi)⟩

mutual

/-- Two types ask for nothing but their slots. -/
theorem need_isWithin (expected found : Ty) :
    (expected.need found).IsWithin (expected.slots ++ found.slots) := by
  unfold need
  split
  · trivial
  · split
    · trivial
    · trivial
    · exact UnifyNeed.isWithin_ofSlot (by simp [slots]) (List.subset_append_right _ _)
    · exact UnifyNeed.isWithin_ofSlot (by simp [slots]) (List.subset_append_left _ _)
    · split
      · exact UnifyNeed.isWithin_within _ _ (needAll_isWithin _ _)
      · trivial
    · exact UnifyNeed.isWithin_within _ _ (need_isWithin _ _)
    · refine UnifyNeed.isWithin_within _ _ (UnifyNeed.isWithin_andThen
        ((need_isWithin _ _).mono ?_) ?_ ((need_isWithin _ _).mono ?_)) <;>
        intro i <;> grind [slots]
    · split
      · refine UnifyNeed.isWithin_within _ _ (UnifyNeed.isWithin_andThen
          ((needAll_isWithin _ _).mono ?_) ?_ ((needAll_isWithin _ _).mono ?_))
        · intro i
          grind [slots]
        · intro pair hp i hi
          have := slots_zip_subset pair hp hi
          grind [slots]
        · intro i
          grind [slots]
      · trivial
    · split
      · exact UnifyNeed.isWithin_within _ _ (needAll_isWithin _ _)
      · trivial
    · trivial
decreasing_by all_goals (subst_vars; simp +arith)

theorem needAll_isWithin : ∀ expected found : List Ty,
    (needAll expected found).IsWithin (slotsAll expected ++ slotsAll found)
  | a :: as, b :: bs => by
    rw [needAll]
    refine UnifyNeed.isWithin_andThen ((need_isWithin a b).mono ?_) ?_ ((needAll_isWithin as bs).mono ?_)
    · intro i
      grind [slotsAll]
    · intro pair hp i hi
      have := slots_zip_subset pair hp hi
      grind [slotsAll]
    · intro i
      grind [slotsAll]
  | [], _ => trivial
  | _ :: _, [] => trivial
decreasing_by all_goals simp +arith

end

end Ty

structure Unifier where
  bindings : List (Nat × Ty) := []

namespace Unifier

def value (u : Unifier) (slot : Nat) : Ty :=
  (u.bindings.lookup slot).getD (.slot slot)

def resolve (u : Unifier) (t : Ty) : Ty :=
  if u.bindings.isEmpty || !t.hasSlot then t else t.fill u.value

theorem resolve_eq_fill (u : Unifier) (t : Ty) : u.resolve t = t.fill u.value := by
  rw [resolve]
  split
  · rename_i h
    refine (Ty.fill_eq_self fun index hi => ?_).symm
    rcases Bool.or_eq_true_iff.1 h with h | h
    · rw [value, List.isEmpty_iff.1 h]
      rfl
    · rw [Bool.not_eq_true', Ty.hasSlot_eq_false_iff] at h
      rw [h] at hi
      cases hi
  · rfl

/-- Whether the type still mentions a slot that nothing is bound to. -/
def isUnbound (u : Unifier) (t : Ty) : Bool :=
  (u.resolve t).hasSlot

def bind (u : Unifier) (slot : Nat) (value : Ty) : Unifier :=
  ⟨(slot, value) :: u.bindings.map fun (index, t) => (index, t.fillOne slot value)⟩

theorem lookup_bind (u : Unifier) (slot : Nat) (v : Ty) (index : Nat) :
    (u.bind slot v).bindings.lookup index =
      if index = slot then some v else (u.bindings.lookup index).map (Ty.fill (Ty.only slot v)) := by
  have mapped : ∀ bindings : List (Nat × Ty),
      (bindings.map fun (index, t) => (index, t.fillOne slot v)).lookup index =
        (bindings.lookup index).map (Ty.fill (Ty.only slot v)) := by
    intro bindings
    induction bindings with
    | nil => rfl
    | cons b bindings ih =>
      obtain ⟨key, t⟩ := b
      simp only [List.map_cons, List.lookup_cons, ih]
      cases index == key
      · rfl
      · exact congrArg some (Ty.fillOne_eq_fill t slot v)
  rw [bind, List.lookup_cons, mapped]
  by_cases h : index = slot
  · simp [h]
  · simp [h, beq_false_of_ne h]

theorem value_bind (u : Unifier) (slot : Nat) (v : Ty) (index : Nat) :
    (u.bind slot v).value index =
      if index = slot then v else (u.value index).fill (Ty.only slot v) := by
  rw [value, lookup_bind, value]
  by_cases h : index = slot
  · simp [h]
  · rw [if_neg h, if_neg h]
    cases u.bindings.lookup index with
    | none => simp [Ty.fill, Ty.only, h]
    | some t => rfl

def mentioned (u : Unifier) (pairs : List (Ty × Ty)) : List Nat :=
  pairs.flatMap (fun pair => pair.1.slots ++ pair.2.slots) ++ u.bindings.flatMap (·.2.slots)

/-- The slots that can come up in resolved types while the pairs are unified. -/
def openSlots (u : Unifier) (pairs : List (Ty × Ty)) : List Nat :=
  (u.mentioned pairs).flatMap fun index => (u.value index).slots

theorem slots_value_subset {u : Unifier} {pairs : List (Ty × Ty)} {index : Nat}
    (h : index ∈ u.mentioned pairs) : (u.value index).slots ⊆ u.mentioned pairs := by
  intro i hi
  rw [value] at hi
  cases found : u.bindings.lookup index with
  | none =>
    rw [found] at hi
    simp only [Option.getD_none, Ty.slots, List.mem_singleton] at hi
    exact hi ▸ h
  | some t =>
    rw [found] at hi
    refine List.mem_append_right _ (List.mem_flatMap.2 ⟨(index, t), ?_, hi⟩)
    obtain ⟨before, after, split, _⟩ := List.lookup_eq_some_iff.1 found
    simp [split]

theorem openSlots_subset (u : Unifier) (pairs : List (Ty × Ty)) :
    u.openSlots pairs ⊆ u.mentioned pairs := by
  intro i hi
  obtain ⟨index, h, hi⟩ := List.mem_flatMap.1 hi
  exact slots_value_subset h hi

theorem openSlots_tail (u : Unifier) (pair : Ty × Ty) (rest : List (Ty × Ty)) :
    u.openSlots rest ⊆ u.openSlots (pair :: rest) := by
  intro i hi
  obtain ⟨index, h, hi⟩ := List.mem_flatMap.1 hi
  refine List.mem_flatMap.2 ⟨index, ?_, hi⟩
  rcases List.mem_append.1 h with h | h
  · exact List.mem_append_left _ (by simp only [List.flatMap_cons, List.mem_append]; exact .inr h)
  · exact List.mem_append_right _ h

/-- The slots of a resolved type of the first pair are open. -/
theorem slots_resolve_subset (u : Unifier) (expected found : Ty) (rest : List (Ty × Ty)) :
    (u.resolve expected).slots ++ (u.resolve found).slots ⊆ u.openSlots ((expected, found) :: rest) := by
  rw [resolve_eq_fill, resolve_eq_fill, Ty.slots_fill, Ty.slots_fill, ← List.flatMap_append]
  intro i hi
  obtain ⟨index, h, hi⟩ := List.mem_flatMap.1 hi
  refine List.mem_flatMap.2 ⟨index, List.mem_append_left _ ?_, hi⟩
  rw [List.flatMap_cons]
  exact List.mem_append_left _ h

/-- A slot that is bound is not open any more, and no slot is opened. -/
theorem openSlots_bind {u : Unifier} {slot : Nat} {v : Ty} {pair : Ty × Ty} {more rest : List (Ty × Ty)}
    (need : (UnifyNeed.bind slot v more).IsWithin (u.openSlots (pair :: rest))) :
    slot ∉ (u.bind slot v).openSlots (more ++ rest) ∧
      (u.bind slot v).openSlots (more ++ rest) ⊆ u.openSlots (pair :: rest) := by
  obtain ⟨_, free, values, left⟩ := need
  have inside := u.openSlots_subset (pair :: rest)
  have mentioned_bind : (u.bind slot v).mentioned (more ++ rest) ⊆ u.mentioned (pair :: rest) := by
    intro i hi
    rw [mentioned, bind, List.flatMap_append, List.flatMap_cons, List.mem_append, List.mem_append,
      List.mem_append] at hi
    rcases hi with (hi | hi) | hi | hi
    · obtain ⟨p, hp, hi⟩ := List.mem_flatMap.1 hi
      exact inside (left p hp hi)
    · exact List.mem_append_left _ (by rw [List.flatMap_cons]; exact List.mem_append_right _ hi)
    · exact inside (values hi)
    · obtain ⟨b, hb, hi⟩ := List.mem_flatMap.1 hi
      obtain ⟨⟨index, t⟩, hc, rfl⟩ := List.mem_map.1 hb
      change i ∈ (t.fillOne slot v).slots at hi
      rw [Ty.fillOne_eq_fill] at hi
      rcases (Ty.mem_slots_fill_only free hi).2 with hi | hi
      · exact List.mem_append_right _ (List.mem_flatMap.2 ⟨(index, t), hc, hi⟩)
      · exact inside (values hi)
  have opened : ∀ i ∈ (u.bind slot v).openSlots (more ++ rest),
      i ≠ slot ∧ i ∈ u.openSlots (pair :: rest) := by
    intro i hi
    obtain ⟨index, h, hi⟩ := List.mem_flatMap.1 hi
    rw [value_bind] at hi
    split at hi
    · exact ⟨fun e => free (e ▸ hi), values hi⟩
    · have h := mentioned_bind h
      obtain ⟨hne, hi⟩ := Ty.mem_slots_fill_only free hi
      exact ⟨hne, hi.elim (fun hi => List.mem_flatMap.2 ⟨index, h, hi⟩) fun hi => values hi⟩
  exact ⟨fun h => (opened slot h).1 rfl, fun i hi => (opened i hi).2⟩

/-- How far unification came: the bindings, the resolved pairs, the latest first, and whether the types
agree. -/
structure Progress where
  unifier : Unifier
  resolved : List Ty
  agreed : Bool

/-- Works through pairs from first to last and binds the slots that have to be bound on the way. -/
def solve (u : Unifier) (pairs : List (Ty × Ty)) (resolved : List Ty) : Progress :=
  match pairs with
  | [] => ⟨u, resolved, true⟩
  | (expected, found) :: rest =>
    let left := u.resolve expected
    let right := u.resolve found
    match _ : left.need right with
    | .nothing => solve u rest (right :: left :: resolved)
    | .bind slot value more => solve (u.bind slot value) (more ++ rest) (right :: left :: resolved)
    | .clash _ => ⟨u, right :: left :: resolved, false⟩
termination_by (distinctCount (u.openSlots pairs), pairs.length)
decreasing_by
  · rw [Prod.lex_def]
    rcases Nat.lt_or_eq_of_le (distinctCount_le (u.openSlots_tail (expected, found) rest)) with h | h
    · exact .inl h
    · exact .inr ⟨h, Nat.lt_succ_self _⟩
  · rename_i asked
    have need := ((u.resolve expected).need_isWithin (u.resolve found)).mono
      (u.slots_resolve_subset expected found rest)
    rw [asked] at need
    have bound := openSlots_bind need
    exact .left _ _ (distinctCount_lt bound.2 need.1 bound.1)

/-- The outcome of unifying two types: bindings, the types that were resolved, in order, and the clash
if any. -/
structure Outcome where
  unifier : Unifier
  resolved : List Ty
  clash : Option UnifyError

/-- Makes two types agree by binding slots. A clash inside the types is reported as a mismatch of the
whole types; the error type agrees with everything. -/
def unify (u : Unifier) (expected found : Ty) : Outcome :=
  let expected := u.resolve expected
  let found := u.resolve found
  match expected.need found with
  | .nothing => ⟨u, [expected, found], none⟩
  | .clash error => ⟨u, [expected, found], some error⟩
  | .bind slot value rest =>
    let progress := (u.bind slot value).solve rest [found, expected]
    ⟨progress.unifier, progress.resolved.reverse,
      if progress.agreed then none else some (.mismatch expected found)⟩

end Unifier

end SemanticChecker
