import SemanticChecker.Ty.Substitution

/-! Replacing type parameters twice. What is replaced first and then again is replaced at once, by what the
first replacement puts in after the second went over it. That is not always what replacing the arguments
first comes to: a name that the first replacement leaves alone may be one that the second replaces. -/
namespace SemanticChecker

open List

variable {α β : Type} {entries : List (α × β)} {key : α} {value : β}

theorem mem_of_lookup [BEq α] [LawfulBEq α] (found : entries.lookup key = some value) : (key, value) ∈ entries := by
  obtain ⟨before, after, split, _⟩ := lookup_eq_some_iff.1 found
  simp [split]

theorem lookup_of_mem [BEq α] [LawfulBEq α] (h : (key, value) ∈ entries) :
    ∃ found, entries.lookup key = some found := by
  cases looked : entries.lookup key with
  | some found => exact ⟨found, rfl⟩
  | none => exact absurd rfl (bne_iff_ne.1 (lookup_eq_none_iff.1 looked _ h))

/-- The names of type parameters. -/
def Ty.namesOf (ts : List Ty) : List String :=
  ts.filterMap Ty.parameterName?

theorem Ty.mem_namesOf {ts : List Ty} {name : String} :
    name ∈ namesOf ts ↔ ∃ t ∈ ts, t.parameterName? = some name :=
  mem_filterMap

namespace Instantiation

def andThen (σ τ : Instantiation) : Instantiation :=
  σ.map (fun entry => (entry.1, entry.2.replace τ)) ++ τ

theorem get?_append (σ τ : Instantiation) (name : String) :
    Instantiation.get? (σ ++ τ) name = (σ.get? name).or (τ.get? name) :=
  List.lookup_append

theorem get?_map (σ : Instantiation) (f : Ty → Ty) (name : String) :
    Instantiation.get? (σ.map fun entry => (entry.1, f entry.2)) name = (σ.get? name).map f := by
  induction σ with
  | nil => rfl
  | cons entry rest ih =>
    rw [get?, get?, map_cons, lookup_cons, lookup_cons]
    split
    · rfl
    · exact ih

theorem get?_andThen (σ τ : Instantiation) (name : String) :
    (σ.andThen τ).get? name = ((σ.get? name).map (Ty.replace τ)).or (τ.get? name) := by
  rw [andThen, get?_append, get?_map]

theorem map_ofArguments (parameters arguments : List Ty) (f : Ty → Ty) :
    (ofArguments parameters arguments).map (fun entry => (entry.1, f entry.2)) =
      ofArguments parameters (arguments.map f) := by
  rw [ofArguments, ofArguments, ofPairs, ofPairs, map_reverse, zip_map_right]
  rfl

section Arguments

variable {parameters arguments : List Ty}

theorem mem_zip_of_get? {name : String} {t : Ty}
    (found : (ofArguments parameters arguments).get? name = some t) :
    (name, t) ∈ (Ty.namesOf parameters).zip arguments :=
  mem_reverse.1 (mem_of_lookup found)

theorem get?_of_mem (count : (Ty.namesOf parameters).length = arguments.length) {name : String}
    (known : name ∈ Ty.namesOf parameters) : ∃ t, (ofArguments parameters arguments).get? name = some t := by
  rw [← map_fst_zip (Nat.le_of_eq count)] at known
  obtain ⟨⟨_, t⟩, mem, rfl⟩ := mem_map.1 known
  exact lookup_of_mem (mem_reverse.2 mem)

theorem get?_eq_none {name : String} (unknown : name ∉ Ty.namesOf parameters) :
    (ofArguments parameters arguments).get? name = none := by
  cases found : (ofArguments parameters arguments).get? name with
  | none => rfl
  | some t => exact absurd (of_mem_zip (mem_zip_of_get? found)).1 unknown

end Arguments

end Instantiation

namespace Ty

mutual

/-- The names of the type parameters that a type mentions. The arguments of a bound are not part of the type
it restricts. -/
def names : Ty → List String
  | .parameter name => [name]
  | .bounded name _ _ => [name]
  | .tuple slots => namesAll slots
  | .list element => names element
  | .dict key value => names key ++ names value
  | .struct _ arguments => namesAll arguments
  | .function parameters returns => namesAll parameters ++ namesAll returns
  | .primitive _ => []
  | .enum _ => []
  | .slot _ => []
  | .error => []

def namesAll : List Ty → List String
  | [] => []
  | t :: ts => names t ++ namesAll ts

end

theorem namesAll_eq_flatMap (ts : List Ty) : namesAll ts = ts.flatMap names := by
  induction ts with
  | nil => rfl
  | cons t ts ih => rw [namesAll, ih, flatMap_cons]

variable {σ τ : Instantiation} {t : Ty} {parameters arguments : List Ty} {name : String}

theorem replace_congr (same : ∀ name ∈ t.names, σ.get? name = τ.get? name) : t.replace σ = t.replace τ := by
  induction t using byParts (Q := fun ts => (∀ name ∈ namesAll ts, σ.get? name = τ.get? name) →
      replaceAll σ ts = replaceAll τ ts) <;>
    simp_all [replace, replaceAll, names, namesAll]

theorem replace_eq_self (none : ∀ name ∈ t.names, σ.get? name = none) : t.replace σ = t :=
  (replace_congr (τ := []) none).trans (replace_nil t)

theorem replace_replace (σ τ : Instantiation) (t : Ty) : (t.replace σ).replace τ = t.replace (σ.andThen τ) := by
  induction t using byParts (Q := fun ts => replaceAll τ (replaceAll σ ts) = replaceAll (σ.andThen τ) ts) with
  | parameter name | bounded name =>
    rw [replace, replace, Instantiation.get?_andThen]
    cases σ.get? name <;> rfl
  | _ => simp_all [replace, replaceAll]

/-- Arguments for type parameters may be replaced in before they are put in, unless the replacement captures
a name that is no type parameter. -/
theorem replace_ofArguments (count : (namesOf parameters).length = arguments.length)
    (apart : ∀ name ∈ t.names, name ∈ namesOf parameters ∨ τ.get? name = none) :
    (t.replace (.ofArguments parameters arguments)).replace τ =
      t.replace (.ofArguments parameters (arguments.map (replace τ))) := by
  rw [replace_replace]
  refine replace_congr fun name mem => ?_
  rw [Instantiation.get?_andThen, ← Instantiation.map_ofArguments, Instantiation.get?_map]
  rcases apart name mem with known | none
  · obtain ⟨value, found⟩ := Instantiation.get?_of_mem count known
    rw [found]
    rfl
  · rw [none, Option.or_none]

/-- What is replaced last counts first, if it neither meets what is replaced before it nor what was put in. -/
theorem replace_replace_apart (either : ∀ name ∈ t.names, σ.get? name = none ∨ τ.get? name = none)
    (fresh : ∀ name value, σ.get? name = some value → ∀ other ∈ value.names, τ.get? other = none) :
    (t.replace σ).replace τ = t.replace (τ ++ σ) := by
  rw [replace_replace]
  refine replace_congr fun name mem => ?_
  rw [Instantiation.get?_andThen, Instantiation.get?_append]
  cases found : σ.get? name with
  | none => rw [Option.map_none, Option.none_or, Option.or_none]
  | some value =>
    have free : τ.get? name = none := (either name mem).resolve_left (by rw [found]; nofun)
    rw [free, Option.map_some, replace_eq_self (fresh name value found), Option.or_none, Option.none_or]

theorem mem_names_replace (mem : name ∈ (t.replace σ).names) :
    name ∈ t.names ∧ σ.get? name = none ∨ ∃ other value, σ.get? other = some value ∧ name ∈ value.names := by
  induction t using byParts (Q := fun ts => name ∈ namesAll (replaceAll σ ts) →
      name ∈ namesAll ts ∧ σ.get? name = none ∨ ∃ other value, σ.get? other = some value ∧ name ∈ value.names) with
  | parameter other | bounded other =>
    rw [replace] at mem
    cases found : σ.get? other with
    | none =>
      rw [found] at mem
      cases mem_singleton.1 mem
      exact .inl ⟨mem, found⟩
    | some value =>
      rw [found] at mem
      exact .inr ⟨other, value, found, mem⟩
  | _ => grind [replace, replaceAll, names, namesAll]

theorem mem_names_ofArguments (count : (namesOf parameters).length = arguments.length)
    (mem : name ∈ (t.replace (.ofArguments parameters arguments)).names) :
    name ∈ t.names ∧ name ∉ namesOf parameters ∨ name ∈ namesAll arguments := by
  refine (mem_names_replace mem).imp (.imp_right fun none known => ?_) ?_
  · obtain ⟨value, found⟩ := Instantiation.get?_of_mem count known
    cases none.symm.trans found
  · rintro ⟨other, value, found, mem⟩
    rw [namesAll_eq_flatMap]
    exact mem_flatMap.2 ⟨value, (of_mem_zip (Instantiation.mem_zip_of_get? found)).2, mem⟩

end Ty

end SemanticChecker
