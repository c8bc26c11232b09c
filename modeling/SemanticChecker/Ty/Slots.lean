import SemanticChecker.Ty.Substitution

/-! The slots that types mention. Filling replaces the slots of a type by those of their values, and
leaves a type alone whose slots stand for themselves. -/
namespace SemanticChecker

namespace Ty

mutual

/-- The slots that a type mentions, left to right; those inside bounds apart. -/
def slots : Ty → List Nat
  | .tuple parts => slotsAll parts
  | .list element => slots element
  | .dict key value => slots key ++ slots value
  | .struct _ arguments => slotsAll arguments
  | .function parameters returns => slotsAll parameters ++ slotsAll returns
  | .slot index => [index]
  | _ => []

def slotsAll : List Ty → List Nat
  | [] => []
  | t :: ts => slots t ++ slotsAll ts

end

theorem slots_subset_slotsAll {t : Ty} {ts : List Ty} (h : t ∈ ts) : t.slots ⊆ slotsAll ts := by
  induction ts with
  | nil => cases h
  | cons s ts ih =>
    rcases List.mem_cons.1 h with rfl | h
    · exact List.subset_append_left _ _
    · exact fun i hi => List.mem_append_right _ (ih h hi)

theorem anyLeaf_isSlot (p : Nat → Bool) (t : Ty) : t.anyLeaf (isSlot p) = t.slots.any p := by
  induction t using byParts (Q := fun ts => anyLeafAll (isSlot p) ts = (slotsAll ts).any p) <;>
    simp_all [anyLeaf, anyLeafAll, slots, slotsAll, isSlot]

theorem mentions_iff {index : Nat} {t : Ty} : t.mentions index = true ↔ index ∈ t.slots := by
  simp [mentions, anyLeaf_isSlot]

theorem hasSlot_eq_false_iff {t : Ty} : t.hasSlot = false ↔ t.slots = [] := by
  simp [hasSlot, anyLeaf_isSlot, List.eq_nil_iff_forall_not_mem]

theorem slots_fill (value : Nat → Ty) (t : Ty) :
    (t.fill value).slots = t.slots.flatMap fun index => (value index).slots := by
  induction t using byParts (Q := fun ts => slotsAll (fillAll value ts) =
      (slotsAll ts).flatMap fun index => (value index).slots) <;>
    simp_all [fill, fillAll, slots, slotsAll]

/-- Where the slots of a type stand for themselves, nothing is filled. -/
theorem fill_eq_self {value : Nat → Ty} {t : Ty} (h : ∀ index ∈ t.slots, value index = .slot index) :
    t.fill value = t := by
  induction t using byParts (Q := fun ts => (∀ index ∈ slotsAll ts, value index = .slot index) → fillAll value ts = ts) <;>
    simp_all [fill, fillAll, slots, slotsAll]

def only (slot : Nat) (value : Ty) (index : Nat) : Ty :=
  if index = slot then value else .slot index

/-- Replaces one slot. A type that does not mention it stays as it is. -/
def fillOne (t : Ty) (slot : Nat) (value : Ty) : Ty :=
  if t.mentions slot then t.fill (only slot value) else t

theorem fillOne_eq_fill (t : Ty) (slot : Nat) (value : Ty) :
    t.fillOne slot value = t.fill (only slot value) := by
  rw [fillOne]
  split
  · rfl
  · rename_i h
    refine (fill_eq_self fun index hi => ?_).symm
    rw [only, if_neg]
    rintro rfl
    exact h (mentions_iff.2 hi)

/-- Replacing a slot by a type that does not mention it removes the slot, and brings in no slots but
those of the type. -/
theorem mem_slots_fill_only {slot index : Nat} {value t : Ty} (h : slot ∉ value.slots)
    (hi : index ∈ (t.fill (only slot value)).slots) :
    index ≠ slot ∧ (index ∈ t.slots ∨ index ∈ value.slots) := by
  rw [slots_fill, List.mem_flatMap] at hi
  obtain ⟨k, hk, hi⟩ := hi
  rw [only] at hi
  split at hi
  · exact ⟨fun e => h (e ▸ hi), .inr hi⟩
  · rename_i hne
    simp only [slots, List.mem_singleton] at hi
    exact ⟨hi ▸ hne, .inl (hi ▸ hk)⟩

end Ty

def distinctCount : List Nat → Nat
  | [] => 0
  | x :: xs => if x ∈ xs then distinctCount xs else distinctCount xs + 1

theorem distinctCount_le_filter (x : Nat) (xs : List Nat) :
    distinctCount xs ≤ distinctCount (xs.filter (· ≠ x)) + 1 := by
  induction xs with
  | nil => simp [distinctCount]
  | cons y ys ih =>
    by_cases hy : y = x
    · subst hy
      have heq : (y :: ys).filter (· ≠ y) = ys.filter (· ≠ y) := by simp
      rw [heq, distinctCount]
      split
      · exact ih
      · rename_i hmem
        have hall : ys.filter (· ≠ y) = ys :=
          List.filter_eq_self.2 fun z hz => by simpa using fun e : z = y => hmem (e ▸ hz)
        exact Nat.le_of_eq (by rw [hall])
    · have heq : (y :: ys).filter (· ≠ x) = y :: ys.filter (· ≠ x) := by simp [hy]
      have hiff : y ∈ ys.filter (· ≠ x) ↔ y ∈ ys := by simp [hy]
      rw [heq, distinctCount, distinctCount]
      by_cases hmem : y ∈ ys
      · rw [if_pos hmem, if_pos (hiff.2 hmem)]
        exact ih
      · rw [if_neg hmem, if_neg fun h => hmem (hiff.1 h)]
        exact Nat.succ_le_succ ih

theorem distinctCount_le {xs ys : List Nat} (h : xs ⊆ ys) : distinctCount xs ≤ distinctCount ys := by
  induction ys generalizing xs with
  | nil => exact Nat.le_of_eq (by rw [List.subset_nil.1 h])
  | cons y ys ih =>
    rw [distinctCount]
    split
    · rename_i hy
      exact ih fun x hx => (List.mem_cons.1 (h hx)).elim (fun e => e ▸ hy) id
    · have hsub : xs.filter (· ≠ y) ⊆ ys := fun x hx => by
        have hx := List.mem_filter.1 hx
        exact (List.mem_cons.1 (h hx.1)).resolve_left (by simpa using hx.2)
      exact Nat.le_trans (distinctCount_le_filter y xs) (Nat.succ_le_succ (ih hsub))

theorem distinctCount_lt {xs ys : List Nat} {y : Nat} (h : xs ⊆ ys) (hy : y ∈ ys) (hx : y ∉ xs) :
    distinctCount xs < distinctCount ys := by
  have hle : distinctCount (y :: xs) ≤ distinctCount ys := distinctCount_le (List.cons_subset.2 ⟨hy, h⟩)
  rw [distinctCount, if_neg hx] at hle
  exact hle

end SemanticChecker
