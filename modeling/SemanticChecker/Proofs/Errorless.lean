import SemanticChecker.Proofs.Hereditary

/-! Types that do not mention the error type. The error type agrees with every type; types without it agree only if
they are equal. Filling slots with such types and unifying such types brings no error type in. -/
namespace SemanticChecker

namespace Ty

/-- The type does not mention the error type. Arguments of bounds are not looked into. -/
def Errorless (t : Ty) : Prop :=
  t.anyLeaf isError = false

def ErrorlessAll (ts : List Ty) : Prop :=
  anyLeafAll isError ts = false

instance (t : Ty) : Decidable t.Errorless :=
  inferInstanceAs (Decidable (t.anyLeaf isError = false))

theorem errorlessAll_cons {t : Ty} {ts : List Ty} : ErrorlessAll (t :: ts) ↔ t.Errorless ∧ ErrorlessAll ts :=
  Bool.or_eq_false_iff

theorem errorlessAll_iff {ts : List Ty} : ErrorlessAll ts ↔ ∀ t ∈ ts, t.Errorless := by
  induction ts with
  | nil => simp [ErrorlessAll, anyLeafAll]
  | cons t ts ih => rw [errorlessAll_cons, ih, List.forall_mem_cons]

theorem errorless_dict {key value : Ty} : (dict key value).Errorless ↔ key.Errorless ∧ value.Errorless :=
  Bool.or_eq_false_iff

theorem errorless_function {parameters returns : List Ty} :
    (function parameters returns).Errorless ↔ ErrorlessAll parameters ∧ ErrorlessAll returns :=
  Bool.or_eq_false_iff

theorem not_errorless_error : ¬ error.Errorless :=
  Bool.noConfusion

theorem Errorless.fill {value : Nat → Ty} (values : ∀ index, (value index).Errorless) {t : Ty} (h : t.Errorless) :
    (t.fill value).Errorless := by
  induction t using byParts (Q := fun ts => ErrorlessAll ts → ErrorlessAll (fillAll value ts)) with
  | slot index => exact values index
  | _ => simp_all [Errorless, ErrorlessAll, Ty.fill, fillAll, anyLeaf, anyLeafAll]

mutual

theorem Agrees.eq_of_errorless : ∀ {a b : Ty}, Agrees a b → a.Errorless → b.Errorless → a = b
  | _, _, .refl _, _, _ => rfl
  | _, _, .errorLeft _, h, _ => (not_errorless_error h).elim
  | _, _, .errorRight _, _, h => (not_errorless_error h).elim
  | _, _, .tuple parts, h, h' => congrArg Ty.tuple (parts.eq_of_errorless h h')
  | _, _, .list (a := a) (b := b) part, h, h' => congrArg Ty.list (part.eq_of_errorless (a := a) (b := b) h h')
  | _, _, .dict key value, h, h' => by
    rw [errorless_dict] at h h'
    rw [key.eq_of_errorless h.1 h'.1, value.eq_of_errorless h.2 h'.2]
  | _, _, .struct id parts, h, h' => congrArg (Ty.struct id) (parts.eq_of_errorless h h')
  | _, _, .function params returns, h, h' => by
    rw [errorless_function] at h h'
    rw [params.eq_of_errorless h.1 h'.1, returns.eq_of_errorless h.2 h'.2]

theorem AgreesAll.eq_of_errorless :
    ∀ {as bs : List Ty}, AgreesAll as bs → ErrorlessAll as → ErrorlessAll bs → as = bs
  | _, _, .nil, _, _ => rfl
  | _, _, .cons head tail, h, h' => by
    rw [errorlessAll_cons] at h h'
    rw [head.eq_of_errorless h.1 h'.1, tail.eq_of_errorless h.2 h'.2]

end

theorem hereditary_errorless : Hereditary Errorless where
  slot _ := rfl
  tuple := errorlessAll_iff.1
  list h := h
  dict := errorless_dict.1
  struct := errorlessAll_iff.1
  function h := (errorless_function.1 h).imp errorlessAll_iff.1 errorlessAll_iff.1
  fill values := Errorless.fill values

end Ty

namespace Unifier

/-- No binding mentions the error type. -/
def Errorless (u : Unifier) : Prop :=
  ∀ slot t, u.bindings.lookup slot = some t → t.Errorless

theorem errorless_iff {u : Unifier} : u.Errorless ↔ u.Holds Ty.Errorless := by
  refine ⟨fun h slot => ?_, fun h slot t found => ?_⟩
  · rw [Unifier.value]
    cases found : u.bindings.lookup slot with
    | none => rfl
    | some t => exact h slot t found
  · have value := h slot
    rw [Unifier.value, found] at value
    exact value

theorem Errorless.unify {u : Unifier} (h : u.Errorless) {expected found : Ty} (left : expected.Errorless)
    (right : found.Errorless) : (u.unify expected found).unifier.Errorless :=
  errorless_iff.2 ((errorless_iff.1 h).unify Ty.hereditary_errorless left right)

end Unifier

end SemanticChecker
