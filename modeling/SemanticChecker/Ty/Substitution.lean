import SemanticChecker.Ty.Basic

/-! Replacing type parameters by name and slots by number. A parameter is replaced as a whole: neither
its bound nor what stands in for it is looked into again. -/
namespace SemanticChecker

/-- What stands for each type parameter; of two entries for one name the first counts. -/
abbrev Instantiation := List (String × Ty)

namespace Instantiation

/-- The instantiation that lists pairs in the order they are made, so that a later pair wins. -/
def ofPairs (pairs : List (String × Ty)) : Instantiation :=
  pairs.reverse

def ofArguments (parameters arguments : List Ty) : Instantiation :=
  ofPairs ((parameters.filterMap Ty.parameterName?).zip arguments)

def get? (σ : Instantiation) (name : String) : Option Ty :=
  σ.lookup name

end Instantiation

namespace Ty

mutual

def replace (σ : Instantiation) : Ty → Ty
  | .parameter name => (σ.get? name).getD (.parameter name)
  | .bounded name bound arguments => (σ.get? name).getD (.bounded name bound arguments)
  | .tuple slots => .tuple (replaceAll σ slots)
  | .list element => .list (replace σ element)
  | .dict key value => .dict (replace σ key) (replace σ value)
  | .struct id arguments => .struct id (replaceAll σ arguments)
  | .function parameters returns => .function (replaceAll σ parameters) (replaceAll σ returns)
  | .primitive kind => .primitive kind
  | .enum id => .enum id
  | .slot index => .slot index
  | .error => .error

def replaceAll (σ : Instantiation) : List Ty → List Ty
  | [] => []
  | t :: ts => replace σ t :: replaceAll σ ts

end

mutual

def fill (value : Nat → Ty) : Ty → Ty
  | .slot index => value index
  | .tuple slots => .tuple (fillAll value slots)
  | .list element => .list (fill value element)
  | .dict key entry => .dict (fill value key) (fill value entry)
  | .struct id arguments => .struct id (fillAll value arguments)
  | .function parameters returns => .function (fillAll value parameters) (fillAll value returns)
  | .primitive kind => .primitive kind
  | .enum id => .enum id
  | .parameter name => .parameter name
  | .bounded name bound arguments => .bounded name bound arguments
  | .error => .error

def fillAll (value : Nat → Ty) : List Ty → List Ty
  | [] => []
  | t :: ts => fill value t :: fillAll value ts

end

/-- Where nothing stands for a type parameter, nothing is replaced. -/
theorem replace_nil (t : Ty) : t.replace [] = t := by
  induction t using byParts (Q := fun ts => replaceAll [] ts = ts) with
  | parameter | bounded => rfl
  | _ => simp_all [replace, replaceAll]

theorem replaceAll_eq_map (σ : Instantiation) (ts : List Ty) :
    replaceAll σ ts = ts.map (replace σ) := by
  induction ts with
  | nil => rfl
  | cons t ts ih => simp [replaceAll, ih]

def instantiate (σ : Instantiation) (t : Ty) : Ty :=
  if σ.isEmpty then t else t.replace σ

theorem instantiate_eq_replace (σ : Instantiation) (t : Ty) : t.instantiate σ = t.replace σ := by
  cases σ with
  | nil => exact (replace_nil t).symm
  | cons _ _ => rfl

theorem fillAll_eq_map (value : Nat → Ty) (ts : List Ty) : fillAll value ts = ts.map (fill value) := by
  induction ts with
  | nil => rfl
  | cons t ts ih => simp [fillAll, ih]

/-- Fills slots whose values may mention further slots, through at most `depth` of them. -/
def fillDeep (entries : List (Nat × Ty)) : Nat → Ty → Ty
  | 0, t => t
  | depth + 1, t => t.fill fun index =>
      match entries.lookup index with
      | some value => if value = .slot index then .slot index else fillDeep entries depth value
      | none => .slot index

/-- Replaces slots through and through, then type parameters. Of two entries for one slot or one name
the later counts. A chain of slots without a circle is no longer than the list of entries. -/
def substitute (parameters : List (String × Ty)) (slots : List (Nat × Ty)) (t : Ty) : Ty :=
  (fillDeep slots.reverse slots.length t).instantiate (Instantiation.ofPairs parameters)

end Ty

end SemanticChecker
