import SemanticChecker.Proofs.Unification

/-! What unification keeps. A property that every slot has, that a type passes on to its parts and that filling slots
keeps holds of all that slots stand for after unifying types if it held before, and holds of the types. -/
namespace SemanticChecker

open List

/-- A property that every slot has, that a type passes on to its parts, arguments of bounds apart, and that filling
slots keeps. -/
structure Ty.Hereditary (P : Ty → Prop) : Prop where
  slot : ∀ index, P (.slot index)
  tuple : ∀ {parts}, P (.tuple parts) → ∀ t ∈ parts, P t
  list : ∀ {element}, P (.list element) → P element
  dict : ∀ {key value}, P (.dict key value) → P key ∧ P value
  struct : ∀ {id arguments}, P (.struct id arguments) → ∀ t ∈ arguments, P t
  function : ∀ {parameters returns}, P (.function parameters returns) →
    (∀ t ∈ parameters, P t) ∧ ∀ t ∈ returns, P t
  fill : ∀ {value : Nat → Ty} {t}, (∀ index, P (value index)) → P t → P (t.fill value)

theorem Ty.Hereditary.and {P Q : Ty → Prop} (first : Hereditary P) (second : Hereditary Q) :
    Hereditary fun t => P t ∧ Q t where
  slot index := ⟨first.slot index, second.slot index⟩
  tuple h t mem := ⟨first.tuple h.1 t mem, second.tuple h.2 t mem⟩
  list h := ⟨first.list h.1, second.list h.2⟩
  dict h := ⟨⟨(first.dict h.1).1, (second.dict h.2).1⟩, (first.dict h.1).2, (second.dict h.2).2⟩
  struct h t mem := ⟨first.struct h.1 t mem, second.struct h.2 t mem⟩
  function h := ⟨fun t mem => ⟨(first.function h.1).1 t mem, (second.function h.2).1 t mem⟩,
    fun t mem => ⟨(first.function h.1).2 t mem, (second.function h.2).2 t mem⟩⟩
  fill values h := ⟨first.fill (fun index => (values index).1) h.1, second.fill (fun index => (values index).2) h.2⟩

namespace UnifyNeed

variable {P : Ty → Prop}

def Holds (P : Ty → Prop) : UnifyNeed → Prop
  | .bind _ value rest => P value ∧ ∀ pair ∈ rest, P pair.1 ∧ P pair.2
  | _ => True

theorem Holds.within (expected found : Ty) {need : UnifyNeed} (h : need.Holds P) :
    (need.within expected found).Holds P := by
  cases need <;> exact h

theorem Holds.andThen {need : UnifyNeed} {left : List (Ty × Ty)} {next : Unit → UnifyNeed} (first : need.Holds P)
    (middle : ∀ pair ∈ left, P pair.1 ∧ P pair.2) (second : (next ()).Holds P) : (need.andThen left next).Holds P := by
  cases need with
  | nothing => exact second
  | clash _ => trivial
  | bind _ _ rest => exact ⟨first.1, forall_mem_append.2 ⟨first.2, middle⟩⟩

theorem holds_ofSlot {slot : Nat} {value : Ty} (h : P value) : (ofSlot slot value).Holds P := by
  rw [ofSlot]
  split
  · trivial
  · exact ⟨h, forall_mem_nil _⟩

end UnifyNeed

namespace Ty.Hereditary

variable {P : Ty → Prop}

theorem zip {as bs : List Ty} (left : ∀ t ∈ as, P t) (right : ∀ t ∈ bs, P t) :
    ∀ pair ∈ as.zip bs, P pair.1 ∧ P pair.2 := by
  rintro ⟨a, b⟩ mem
  have parts := of_mem_zip mem
  exact ⟨left a parts.1, right b parts.2⟩

mutual

theorem need (h : Hereditary P) (a b : Ty) (left : P a) (right : P b) : (a.need b).Holds P := by
  unfold Ty.need
  split
  · trivial
  · split
    · trivial
    · trivial
    · exact UnifyNeed.holds_ofSlot right
    · exact UnifyNeed.holds_ofSlot left
    · split
      · exact (needAll h _ _ (h.tuple left) (h.tuple right)).within _ _
      · trivial
    · exact (need h _ _ (h.list left) (h.list right)).within _ _
    · have left := h.dict left
      have right := h.dict right
      refine ((need h _ _ left.1 right.1).andThen ?_ (need h _ _ left.2 right.2)).within _ _
      simpa using ⟨left.2, right.2⟩
    · split
      · have left := h.function left
        have right := h.function right
        exact ((needAll h _ _ left.1 right.1).andThen (zip left.2 right.2) (needAll h _ _ left.2 right.2)).within _ _
      · trivial
    · split
      · exact (needAll h _ _ (h.struct left) (h.struct right)).within _ _
      · trivial
    · trivial
decreasing_by all_goals (subst_vars; simp +arith)

theorem needAll (h : Hereditary P) :
    ∀ as bs : List Ty, (∀ t ∈ as, P t) → (∀ t ∈ bs, P t) → (Ty.needAll as bs).Holds P
  | a :: as, b :: bs, left, right => by
    obtain ⟨first, others⟩ := forall_mem_cons.1 left
    obtain ⟨first', others'⟩ := forall_mem_cons.1 right
    rw [Ty.needAll]
    exact (need h a b first first').andThen (zip others others') (needAll h as bs others others')
  | [], _, _, _ => trivial
  | _ :: _, [], _, _ => trivial
decreasing_by all_goals simp +arith

end

end Ty.Hereditary

namespace Unifier

variable {P : Ty → Prop} {u : Unifier}

def Holds (P : Ty → Prop) (u : Unifier) : Prop :=
  ∀ index, P (u.value index)

theorem Holds.resolve (known : u.Holds P) (h : Ty.Hereditary P) {t : Ty} (holds : P t) : P (u.resolve t) := by
  rw [resolve_eq_fill]
  exact h.fill known holds

theorem Holds.bind (known : u.Holds P) (h : Ty.Hereditary P) {slot : Nat} {t : Ty} (holds : P t) :
    (u.bind slot t).Holds P := by
  intro index
  rw [value_bind]
  split
  · exact holds
  · refine h.fill (fun i => ?_) (known index)
    rw [Ty.only]
    split
    · exact holds
    · exact h.slot i

theorem Holds.solve (known : u.Holds P) (h : Ty.Hereditary P) (pairs : List (Ty × Ty)) (resolved : List Ty)
    (holds : ∀ pair ∈ pairs, P pair.1 ∧ P pair.2) : (u.solve pairs resolved).unifier.Holds P := by
  fun_induction Unifier.solve u pairs resolved with
  | case1 u resolved => exact known
  | case2 u resolved expected found rest left right asked ih =>
    exact ih known fun pair hp => holds pair (mem_cons_of_mem _ hp)
  | case3 u resolved expected found rest left right slot t more asked ih =>
    obtain ⟨first, others⟩ := forall_mem_cons.1 holds
    have need := h.need _ _ (known.resolve h first.1) (known.resolve h first.2)
    rw [asked] at need
    exact ih (known.bind h need.1) (forall_mem_append.2 ⟨need.2, others⟩)
  | case4 u resolved expected found rest left right error asked => exact known

theorem Holds.unify (known : u.Holds P) (h : Ty.Hereditary P) {expected found : Ty} (left : P expected)
    (right : P found) : (u.unify expected found).unifier.Holds P := by
  rw [Unifier.unify]
  have need := h.need _ _ (known.resolve h left) (known.resolve h right)
  cases asked : (u.resolve expected).need (u.resolve found) with
  | nothing => exact known
  | clash error => exact known
  | bind slot t rest =>
    rw [asked] at need
    exact (known.bind h need.1).solve h rest _ need.2

end Unifier

end SemanticChecker
