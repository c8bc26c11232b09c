import SemanticChecker.Proofs.Order.Renaming
import SemanticChecker.Ty.Unifier

/-! Unification under other numbers: it asks for the same, binds the same slots in the same order and clashes at the
same types. -/
namespace SemanticChecker

open List

def UnifyError.rename (ρ : Renaming) : UnifyError → UnifyError
  | .tupleArity expected found => .tupleArity (expected.rename ρ) (found.rename ρ)
  | .mismatch expected found => .mismatch (expected.rename ρ) (found.rename ρ)
  | .occurs expected found => .occurs (expected.rename ρ) (found.rename ρ)

def renamePairs (ρ : Renaming) (pairs : List (Ty × Ty)) : List (Ty × Ty) :=
  pairs.map fun (a, b) => (a.rename ρ, b.rename ρ)

theorem zip_map_rename (ρ : Renaming) (as bs : List Ty) :
    (as.map (Ty.rename ρ)).zip (bs.map (Ty.rename ρ)) = renamePairs ρ (as.zip bs) :=
  zip_map ..

namespace UnifyNeed

def rename (ρ : Renaming) : UnifyNeed → UnifyNeed
  | .nothing => .nothing
  | .bind slot value rest => .bind (slot + ρ.shift) (value.rename ρ) (renamePairs ρ rest)
  | .clash error => .clash (error.rename ρ)

variable (ρ : Renaming)

theorem rename_within (expected found : Ty) (need : UnifyNeed) :
    (need.within expected found).rename ρ = (need.rename ρ).within (expected.rename ρ) (found.rename ρ) := by
  cases need <;> rfl

theorem rename_andThen (need : UnifyNeed) (left : List (Ty × Ty)) (next : Unit → UnifyNeed) :
    (need.andThen left next).rename ρ = (need.rename ρ).andThen (renamePairs ρ left) fun _ => (next ()).rename ρ := by
  cases need with
  | nothing => rfl
  | bind slot value rest => simp [andThen, rename, renamePairs]
  | clash _ => rfl

theorem rename_ofSlot (slot : Nat) (value : Ty) :
    (ofSlot slot value).rename ρ = ofSlot (slot + ρ.shift) (value.rename ρ) := by
  rw [ofSlot, ofSlot, Ty.mentions_rename]
  split <;> rfl

end UnifyNeed

namespace Ty

variable (ρ : Renaming)

mutual

theorem need_rename (expected found : Ty) :
    (expected.rename ρ).need (found.rename ρ) = (expected.need found).rename ρ := by
  by_cases same : expected = found
  · rw [need.eq_def, need.eq_def expected, if_pos same, if_pos (congrArg _ same)]
    rfl
  have differ : expected.rename ρ ≠ found.rename ρ := fun h => same (rename_injective ρ h)
  rw [need.eq_def, need.eq_def expected, if_neg same, if_neg differ]
  cases expected with
  | error => rfl
  | slot index =>
    cases found with
    | error => rfl
    | _ =>
      symm
      exact UnifyNeed.rename_ofSlot ρ _ _
  | tuple as =>
    cases found with
    | error => rfl
    | slot index =>
      symm
      exact UnifyNeed.rename_ofSlot ρ _ _
    | tuple bs =>
      simp only [rename, renameAll_eq_map, length_map]
      split
      · rw [UnifyNeed.rename_within, ← needAll_rename as bs]
        simp only [rename, renameAll_eq_map]
      · simp [UnifyNeed.rename, UnifyError.rename, rename]
    | _ => rfl
  | list a =>
    cases found with
    | error => rfl
    | slot index =>
      symm
      exact UnifyNeed.rename_ofSlot ρ _ _
    | list b =>
      simp only [rename]
      rw [UnifyNeed.rename_within, ← need_rename a b]
      rfl
    | _ => rfl
  | dict a b =>
    cases found with
    | error => rfl
    | slot index =>
      symm
      exact UnifyNeed.rename_ofSlot ρ _ _
    | dict c d =>
      simp only [rename]
      rw [UnifyNeed.rename_within, UnifyNeed.rename_andThen, ← need_rename a c, ← need_rename b d]
      rfl
    | _ => rfl
  | function a b =>
    cases found with
    | error => rfl
    | slot index =>
      symm
      exact UnifyNeed.rename_ofSlot ρ _ _
    | function c d =>
      simp only [rename, renameAll_eq_map, length_map]
      split
      · rw [UnifyNeed.rename_within, UnifyNeed.rename_andThen, ← needAll_rename a c, ← needAll_rename b d,
          zip_map_rename]
        simp only [rename, renameAll_eq_map]
      · simp [UnifyNeed.rename, UnifyError.rename, rename]
    | _ => rfl
  | struct i a =>
    cases found with
    | error => rfl
    | slot index =>
      symm
      exact UnifyNeed.rename_ofSlot ρ _ _
    | struct j b =>
      simp only [rename, renameAll_eq_map, length_map, ρ.struct_injective.eq_iff]
      split
      · rw [UnifyNeed.rename_within, ← needAll_rename a b]
        simp only [rename, renameAll_eq_map]
      · simp [UnifyNeed.rename, UnifyError.rename, rename]
    | _ => rfl
  | _ =>
    cases found with
    | error => rfl
    | slot index =>
      symm
      exact UnifyNeed.rename_ofSlot ρ _ _
    | _ => rfl

theorem needAll_rename : ∀ expected found : List Ty,
    needAll (expected.map (rename ρ)) (found.map (rename ρ)) = (needAll expected found).rename ρ
  | a :: as, b :: bs => by
    rw [map_cons, map_cons, needAll, needAll, UnifyNeed.rename_andThen, need_rename a b,
      needAll_rename as bs, zip_map_rename]
  | [], _ => rfl
  | _ :: _, [] => rfl

end

theorem rename_fillOne (t : Ty) (slot : Nat) (value : Ty) :
    (t.fillOne slot value).rename ρ = (t.rename ρ).fillOne (slot + ρ.shift) (value.rename ρ) := by
  rw [fillOne_eq_fill, fillOne_eq_fill, rename_fill]
  intro index
  simp only [only, Nat.add_right_cancel_iff]
  split <;> rfl

end Ty

namespace Unifier

def rename (ρ : Renaming) (u : Unifier) : Unifier :=
  ⟨u.bindings.map fun (index, t) => (index + ρ.shift, t.rename ρ)⟩

variable (ρ : Renaming) (u : Unifier)

theorem value_rename (index : Nat) : (u.rename ρ).value (index + ρ.shift) = (u.value index).rename ρ := by
  have looked : (u.rename ρ).bindings.lookup (index + ρ.shift) = (u.bindings.lookup index).map (Ty.rename ρ) := by
    obtain ⟨bindings⟩ := u
    induction bindings with
    | nil => rfl
    | cons entry bindings ih =>
      obtain ⟨key, t⟩ := entry
      have same : (index + ρ.shift == key + ρ.shift) = (index == key) := by simp
      simp only [rename, map_cons, lookup_cons, same] at ih ⊢
      cases index == key
      · exact ih
      · rfl
  rw [value, value, looked]
  cases u.bindings.lookup index <;> rfl

@[simp] theorem resolve_rename (t : Ty) : (u.rename ρ).resolve (t.rename ρ) = (u.resolve t).rename ρ := by
  rw [resolve_eq_fill, resolve_eq_fill, Ty.rename_fill]
  exact u.value_rename ρ

theorem rename_bind (slot : Nat) (value : Ty) :
    (u.bind slot value).rename ρ = (u.rename ρ).bind (slot + ρ.shift) (value.rename ρ) := by
  simp [rename, bind, Ty.rename_fillOne]

def Progress.rename (progress : Progress) : Progress :=
  ⟨progress.unifier.rename ρ, progress.resolved.map (Ty.rename ρ), progress.agreed⟩

/-- The induction follows the work: the same pairs are left, and the same slots are bound. -/
theorem solve_rename (pairs : List (Ty × Ty)) (resolved : List Ty) :
    (u.rename ρ).solve (renamePairs ρ pairs) (resolved.map (Ty.rename ρ)) = (u.solve pairs resolved).rename ρ := by
  fun_induction Unifier.solve u pairs resolved with
  | case1 u resolved => rw [renamePairs, map_nil, solve]; rfl
  | case2 u resolved expected found rest left right asked ih =>
    rw [renamePairs, map_cons, solve]
    have asks : ((u.rename ρ).resolve (expected.rename ρ)).need ((u.rename ρ).resolve (found.rename ρ)) = .nothing := by
      rw [resolve_rename, resolve_rename, Ty.need_rename, asked]
      rfl
    split
    · rw [← ih, resolve_rename, resolve_rename]
      rfl
    · cases asks.symm.trans ‹_›
    · cases asks.symm.trans ‹_›
  | case3 u resolved expected found rest left right slot t more asked ih =>
    rw [renamePairs, map_cons, solve]
    have asks : ((u.rename ρ).resolve (expected.rename ρ)).need ((u.rename ρ).resolve (found.rename ρ)) =
        .bind (slot + ρ.shift) (t.rename ρ) (renamePairs ρ more) := by
      rw [resolve_rename, resolve_rename, Ty.need_rename, asked]
      rfl
    split
    · cases asks.symm.trans ‹_›
    · cases asks.symm.trans ‹_›
      rw [← ih, rename_bind, resolve_rename, resolve_rename, renamePairs, renamePairs, ← map_append]
      rfl
    · cases asks.symm.trans ‹_›
  | case4 u resolved expected found rest left right error asked =>
    rw [renamePairs, map_cons, solve]
    have asks : ((u.rename ρ).resolve (expected.rename ρ)).need ((u.rename ρ).resolve (found.rename ρ)) =
        .clash (error.rename ρ) := by
      rw [resolve_rename, resolve_rename, Ty.need_rename, asked]
      rfl
    split
    · cases asks.symm.trans ‹_›
    · cases asks.symm.trans ‹_›
    · rw [resolve_rename, resolve_rename]
      rfl

theorem unify_rename (expected found : Ty) :
    ((u.rename ρ).unify (expected.rename ρ) (found.rename ρ)).unifier = (u.unify expected found).unifier.rename ρ ∧
      ((u.rename ρ).unify (expected.rename ρ) (found.rename ρ)).clash =
        (u.unify expected found).clash.map (UnifyError.rename ρ) := by
  rw [unify, unify, resolve_rename, resolve_rename, Ty.need_rename]
  cases (u.resolve expected).need (u.resolve found) with
  | nothing => exact ⟨rfl, rfl⟩
  | clash error => exact ⟨rfl, rfl⟩
  | bind slot value rest =>
    have solved := (u.bind slot value).solve_rename ρ rest [u.resolve found, u.resolve expected]
    rw [rename_bind] at solved
    simp only [UnifyNeed.rename]
    simp only [map_cons, map_nil] at solved
    rw [solved]
    refine ⟨rfl, ?_⟩
    simp only [Progress.rename, apply_ite (Option.map (UnifyError.rename ρ))]
    rfl

end Unifier

end SemanticChecker
