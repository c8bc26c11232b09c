import Mathlib.Data.List.Forall2
import SemanticChecker.Bound
import SemanticChecker.Builtin

/-! Matching a type with a bound. The parameters of a bound are bound one by one as they come up in the methods that it
asks for, yet the answer is the only one there can be: the methods of the type have exactly the types that the bound
asks for once its parameters are replaced by what they are bound to. -/
namespace SemanticChecker

open List

/-- The type that a slot asks for, where the parameters of the bound stand for some types. -/
def BoundSlot.filled (values : List Ty) : BoundSlot → Ty
  | .parameter index => (values[index]?).getD .error
  | .primitive kind => .primitive kind

def BoundSlot.isBelow (parameters : Nat) : BoundSlot → Bool
  | .parameter index => index < parameters
  | .primitive _ => true

namespace RequiredMethod

def slots (method : RequiredMethod) : List BoundSlot :=
  method.parameters ++ method.returns

def type (values : List Ty) (method : RequiredMethod) : Ty :=
  .function (method.parameters.map (·.filled values)) (method.returns.map (·.filled values))

theorem type_inj {method : RequiredMethod} {values others : List Ty} :
    method.type values = method.type others ↔ ∀ slot ∈ method.slots, slot.filled values = slot.filled others := by
  simp [type, slots, or_imp, forall_and]

end RequiredMethod

theorem forall_zip_iff {α β : Type} {f : α → β} {as : List α} {bs : List β} (count : bs.length = as.length) :
    (∀ pair ∈ as.zip bs, f pair.1 = pair.2) ↔ bs = as.map f := by
  rw [eq_comm, ← List.forall₂_eq_eq_eq, List.forall₂_map_left_iff, List.forall₂_iff_zip, Prod.forall]
  simp [count]

namespace BoundTable

/-- Whether parameters may stand for some types, as far as it is known what they stand for. -/
structure Allows (found : Assignment) (values : List Ty) : Prop where
  length : found.length = values.length
  known : ∀ (index : Nat) t, found[index]? = some (some t) → values[index]? = some t

/-- Whether matching a type with a method may bind a parameter to a type. -/
def Offers (methods : MethodLookup) (t : Ty) (one : RequiredMethod) (index : Nat) (actual : Ty) : Prop :=
  ∃ parameters returns, methods t one.name = some (.function parameters returns) ∧
    (.parameter index, actual) ∈ one.slots.zip (parameters ++ returns)

section Keeping

variable {bound method : String} {found after : Assignment} {P : Assignment → Prop}

theorem matchSlot_ok {slot : BoundSlot} {actual : Ty} (done : matchSlot bound method found slot actual = .ok after) :
    after = found ∨ ∃ index, slot = .parameter index ∧ after = found.set index (some actual) := by
  cases slot <;> grind [matchSlot]

theorem matchSlots_keeps {pairs : List (BoundSlot × Ty)}
    (binds : ∀ found index actual, (.parameter index, actual) ∈ pairs → P found → P (found.set index (some actual)))
    (h : P found) (done : matchSlots bound method found pairs = .ok after) : P after := by
  induction pairs generalizing found with
  | nil =>
    cases done
    exact h
  | cons pair rest ih =>
    obtain ⟨slot, actual⟩ := pair
    rw [matchSlots] at done
    split at done
    · rename_i next step
      refine ih (fun found index actual mem => binds found index actual (mem_cons_of_mem _ mem)) ?_ done
      rcases matchSlot_ok step with rfl | ⟨index, rfl, rfl⟩
      · exact h
      · exact binds found index actual mem_cons_self h
    · cases done

theorem matchMethods_keeps {methods : MethodLookup} {t : Ty} {required : List RequiredMethod}
    (binds : ∀ one ∈ required, ∀ found index actual, Offers methods t one index actual → P found →
      P (found.set index (some actual))) (h : P found)
    (done : matchMethods bound methods t found required = .ok after) : P after := by
  induction required generalizing found with
  | nil =>
    cases done
    exact h
  | cons one rest ih =>
    obtain ⟨first, others⟩ := forall_mem_cons.1 binds
    rw [matchMethods] at done
    split at done
    · rename_i next step
      refine ih others ?_ done
      rw [matchMethod] at step
      split at step
      · cases step
      · rename_i parameters returns isFunction
        split at step
        · exact matchSlots_keeps (fun found index actual mem => first found index actual ⟨_, _, isFunction, mem⟩) h step
        · cases step
      · cases step
    · cases done

end Keeping

section Matching

variable {bound method : String} {values : List Ty} {found : Assignment}

theorem allows_set {index : Nat} (isFree : found[index]? = some none) {t : Ty} :
    Allows (found.set index (some t)) values ↔ Allows found values ∧ values[index]? = some t := by
  constructor
  · rintro ⟨length, known⟩
    refine ⟨⟨by grind, fun other u isKnown => known other u (by grind)⟩, known index t (by grind)⟩
  · rintro ⟨⟨length, known⟩, here⟩
    exact ⟨by grind, fun other u isKnown => by grind⟩

theorem matchSlot_iff {slot : BoundSlot} (below : slot.isBelow values.length = true) {actual : Ty} :
    (∃ after, matchSlot bound method found slot actual = .ok after ∧ Allows after values) ↔
      Allows found values ∧ slot.filled values = actual := by
  cases slot with
  | primitive kind => by_cases same : actual = .primitive kind <;> simp [matchSlot, same, BoundSlot.filled, eq_comm]
  | parameter index =>
    have inside : index < values.length := by simpa [BoundSlot.isBelow] using below
    cases entry : found[index]? with
    | none =>
      have differ : ¬ Allows found values := fun allows => by grind [allows.length]
      simp [matchSlot, entry, differ]
    | some known =>
      cases known with
      | none => simp [matchSlot, entry, allows_set entry, BoundSlot.filled, inside]
      | some existing =>
        have here : Allows found values → values[index]? = some existing := fun allows => allows.known index _ entry
        by_cases same : existing = actual <;> simp [matchSlot, entry, same, BoundSlot.filled] <;> grind

theorem matchSlots_iff {pairs : List (BoundSlot × Ty)} (below : ∀ pair ∈ pairs, pair.1.isBelow values.length = true) :
    (∃ after, matchSlots bound method found pairs = .ok after ∧ Allows after values) ↔
      Allows found values ∧ ∀ pair ∈ pairs, pair.1.filled values = pair.2 := by
  induction pairs generalizing found with
  | nil => simp [matchSlots]
  | cons pair rest ih =>
    obtain ⟨first, others⟩ := forall_mem_cons.1 below
    rw [forall_mem_cons, ← and_assoc, ← @matchSlot_iff bound method _ _ _ first, matchSlots]
    cases matchSlot bound method found pair.1 pair.2 with
    | error _ => simp
    | ok next => simp [ih others]

variable {methods : MethodLookup} {t : Ty}

theorem matchMethod_iff {one : RequiredMethod} (below : ∀ slot ∈ one.slots, slot.isBelow values.length = true) :
    (∃ after, matchMethod bound methods t found one = .ok after ∧ Allows after values) ↔
      Allows found values ∧ methods t one.name = some (one.type values) := by
  unfold matchMethod
  split
  · rename_i isNone
    simp [isNone]
  · rename_i parameters returns isFunction
    simp only [isFunction, RequiredMethod.type, Option.some.injEq, Ty.function.injEq]
    split
    · rename_i count
      have inside : ∀ pair ∈ (one.parameters ++ one.returns).zip (parameters ++ returns),
          pair.1.isBelow values.length = true := fun pair mem => below _ (of_mem_zip mem).1
      rw [matchSlots_iff inside, zip_append count.1.symm, forall_mem_append, forall_zip_iff count.1,
        forall_zip_iff count.2]
    · rename_i differ
      have unlike : ¬ (parameters = one.parameters.map (·.filled values) ∧
          returns = one.returns.map (·.filled values)) := by
        rintro ⟨rfl, rfl⟩
        simp at differ
      simp [unlike]
  · rename_i none isOther
    simp only [reduceCtorEq, false_and, exists_false, false_iff]
    exact fun both => none _ _ (Option.some.inj (isOther.symm.trans both.2))

theorem matchMethods_iff {required : List RequiredMethod}
    (below : ∀ one ∈ required, ∀ slot ∈ one.slots, slot.isBelow values.length = true) :
    (∃ after, matchMethods bound methods t found required = .ok after ∧ Allows after values) ↔
      Allows found values ∧ ∀ one ∈ required, methods t one.name = some (one.type values) := by
  induction required generalizing found with
  | nil => simp [matchMethods]
  | cons one rest ih =>
    obtain ⟨first, others⟩ := forall_mem_cons.1 below
    rw [forall_mem_cons, ← and_assoc, ← @matchMethod_iff bound _ _ _ _ _ first, matchMethods]
    cases matchMethod bound methods t found one with
    | error _ => simp
    | ok next => simp [ih others]

/-- What is not known yet may be anything. -/
theorem allows_getD (found : Assignment) : Allows found (found.map (·.getD .error)) :=
  ⟨by simp, fun index t isKnown => by simp [isKnown]⟩

theorem allows_replicate (count : Nat) : Allows (List.replicate count none) values ↔ values.length = count := by
  refine ⟨fun allows => by simpa using allows.length.symm, fun length => ⟨by simp [length], fun index t isKnown => ?_⟩⟩
  cases eq_of_mem_replicate (mem_of_getElem? isKnown)

end Matching

/-- Whether types are what the parameters of a bound stand for: the methods of a type are just those that are asked
for, and what is mentioned nowhere is the error type. -/
structure Matched (methods : MethodLookup) (t : Ty) (count : Nat) (required : List RequiredMethod) (values : List Ty) :
    Prop where
  length : values.length = count
  met : ∀ one ∈ required, methods t one.name = some (one.type values)
  others : ∀ index < count, (∀ one ∈ required, .parameter index ∉ one.slots) → values[index]? = some .error

section Exact

variable {methods : MethodLookup} {t : Ty} {count : Nat} {required : List RequiredMethod} {values others : List Ty}

theorem Matched.eq (h : Matched methods t count required values) (h' : Matched methods t count required others) :
    values = others := by
  refine ext_getElem (h.length.trans h'.length.symm) fun index left right => ?_
  by_cases mentioned : ∃ one ∈ required, .parameter index ∈ one.slots
  · obtain ⟨one, isOne, mem⟩ := mentioned
    have same := Option.some.inj ((h.met one isOne).symm.trans (h'.met one isOne))
    simpa [BoundSlot.filled, left, right] using RequiredMethod.type_inj.1 same _ mem
  · have unmentioned : ∀ one ∈ required, .parameter index ∉ one.slots :=
      fun one isOne mem => mentioned ⟨one, isOne, mem⟩
    have here := h.others index (h.length ▸ left) unmentioned
    have there := h'.others index (h.length ▸ left) unmentioned
    rw [getElem?_eq_getElem left] at here
    rw [getElem?_eq_getElem right] at there
    exact Option.some.inj (here.trans there.symm)

variable (below : ∀ one ∈ required, ∀ slot ∈ one.slots, slot.isBelow count = true) {bound : String}

include below

theorem matched_of_ok {after : Assignment}
    (done : matchMethods bound methods t (List.replicate count none) required = .ok after) :
    Matched methods t count required (after.map (·.getD .error)) := by
  let reached (found : Assignment) : Prop := found.length = count ∧ ∀ index u, found[index]? = some (some u) →
    ∃ one ∈ required, .parameter index ∈ one.slots
  have kept : reached after := by
    refine matchMethods_keeps ?_ ?_ done
    · rintro one isOne found index actual ⟨_, _, _, mem⟩ ⟨length, known⟩
      refine ⟨by rw [length_set, length], fun other u isKnown => ?_⟩
      by_cases same : index = other
      · exact ⟨one, isOne, same ▸ (of_mem_zip mem).1⟩
      · exact known other u (by rwa [getElem?_set_ne same] at isKnown)
    · refine ⟨by simp, fun index u isKnown => ?_⟩
      cases eq_of_mem_replicate (mem_of_getElem? isKnown)
  have length : (after.map (·.getD .error)).length = count := by rw [length_map, kept.1]
  refine ⟨length, ?_, fun index inside unmentioned => ?_⟩
  · exact ((matchMethods_iff (length ▸ below)).1 ⟨after, done, allows_getD after⟩).2
  · cases entry : after[index]? with
    | none =>
      rw [List.getElem?_eq_none_iff, kept.1] at entry
      omega
    | some known =>
      cases known with
      | none => simp [entry]
      | some u =>
        obtain ⟨one, isOne, mem⟩ := kept.2 index u entry
        exact (unmentioned one isOne mem).elim

theorem satisfiedBy_iff :
    satisfiedBy methods t bound (.methods count required) = .ok values ↔ Matched methods t count required values := by
  rw [satisfiedBy]
  constructor
  · intro done
    split at done
    · rename_i after matched
      cases done
      exact matched_of_ok below matched
    · cases done
  · intro h
    obtain ⟨after, done, _⟩ := (@matchMethods_iff bound _ _ methods t required (h.length ▸ below)).2
      ⟨(allows_replicate count).2 h.length, h.met⟩
    simp only [done, (matched_of_ok below done).eq h]

end Exact

/-- The error type, slots and type parameters with bounds of their own are not looked at themselves. -/
def isExamined : Ty → Bool
  | .error | .slot _ | .bounded _ _ _ => false
  | _ => true

/-- Whether an argument of a bound is what the bound's parameter stands for, as far as errors do not hide it. -/
def ArgumentMatches (argument binding : Ty) : Prop :=
  argument = .error ∨ argument = binding ∨ binding = .error

/-- Whether an argument of a bound agrees with what the bound's parameter stands for, or leaves it open. -/
def ArgumentAgrees (argument binding : Ty) : Prop :=
  (∃ index, argument = .slot index) ∨ ArgumentMatches argument binding

theorem ArgumentAgrees.trans {argument own binding : Ty} (h : ArgumentAgrees argument own) (proper : own ≠ .error)
    (h' : ArgumentAgrees own binding) : ArgumentAgrees argument binding := by
  rcases h with isSlot | isError | rfl | isError
  · exact .inl isSlot
  · exact .inr (.inl isError)
  · exact h'
  · exact (proper isError).elim

theorem accepted_iff {accepted : Bool} {error : BoundError} {values : List Ty} :
    (if accepted then Except.ok [] else Except.error error) = Except.ok values ↔ accepted = true ∧ values = [] := by
  cases accepted <;> simp [eq_comm]

theorem compareArguments_iff {bound : String} {pairs : List (Ty × Ty)} {index : Nat} :
    compareArguments bound index pairs = .ok () ↔ ∀ pair ∈ pairs, ArgumentAgrees pair.1 pair.2 := by
  induction pairs generalizing index with
  | nil => simp [compareArguments]
  | cons pair rest ih =>
    obtain ⟨argument, binding⟩ := pair
    have isError : binding.isError = false ↔ binding ≠ .error := by cases binding <;> simp [Ty.isError]
    rw [forall_mem_cons, ← @ih (index + 1)]
    cases argument <;> rw [compareArguments] <;> simp [ArgumentAgrees, ArgumentMatches, isError] <;> grind

theorem compared_iff {bound : BoundRef} {raw : Except BoundError (List Ty)} {bindings : List Ty} :
    (match some raw with
      | none => .ok []
      | some (.error error) => .error error
      | some (.ok found) =>
        match compareArguments bound.name 0 (bound.arguments.zip found) with
        | .ok () => .ok found
        | .error error => .error error : Except BoundError (List Ty)) = .ok bindings ↔
      raw = .ok bindings ∧ ∀ pair ∈ bound.arguments.zip bindings, ArgumentAgrees pair.1 pair.2 := by
  rw [← @compareArguments_iff bound.name _ 0]
  cases raw with
  | error _ => simp
  | ok found =>
    dsimp only
    split
    · rename_i compared
      refine ⟨fun same => ?_, And.left⟩
      cases same
      exact ⟨rfl, compared⟩
    · rename_i failed
      constructor
      · intro same
        cases same
      · rintro ⟨⟨⟩, compared⟩
        rw [failed] at compared
        cases compared

section Examined

variable {table : BoundTable} {methods : MethodLookup} {t : Ty} {bound : BoundRef} {values : List Ty}

theorem check_iff_satisfiedBy (examined : isExamined t = true) : table.check methods t bound = .ok values ↔
    ∃ required, table.find? bound.name = some required ∧ satisfiedBy methods t bound.name required = .ok values ∧
      ∀ pair ∈ bound.arguments.zip values, ArgumentAgrees pair.1 pair.2 := by
  rw [check]
  cases table.find? bound.name with
  | none => simp
  | some required =>
    simp only [Option.some.injEq, exists_eq_left']
    cases t with
    | error | slot _ | bounded _ _ _ => cases examined
    | _ => exact compared_iff

theorem check_iff_entails {parameter own : String} {arguments : List Ty} :
    table.check methods (.bounded parameter own arguments) bound = .ok values ↔
      ∃ required, table.find? bound.name = some required ∧
        table.entails ⟨own, arguments⟩ bound.name required = .ok values ∧
          ∀ pair ∈ bound.arguments.zip values, ArgumentAgrees pair.1 pair.2 := by
  rw [check]
  cases table.find? bound.name with
  | none => simp
  | some required =>
    simp only [Option.some.injEq, exists_eq_left']
    exact compared_iff

theorem check_iff : table.check methods t bound = .ok values ↔
    table.check methods t { name := bound.name } = .ok values ∧
      ∀ pair ∈ bound.arguments.zip values, ArgumentAgrees pair.1 pair.2 := by
  cases t with
  | error | slot _ =>
    unfold check
    cases table.find? bound.name with
    | none => simp
    | some required =>
      simp only [Except.ok.injEq, iff_self_and]
      rintro rfl
      simp
  | bounded parameter own arguments =>
    rw [check_iff_entails, check_iff_entails]
    simp [← and_assoc]
  | _ =>
    rw [check_iff_satisfiedBy rfl, check_iff_satisfiedBy rfl]
    simp [← and_assoc]

/-- How a check can succeed: unchecked, through the bound of a type parameter, or through kinds and
methods. -/
theorem check_ok (done : table.check methods t bound = .ok values) :
    ∃ required, table.find? bound.name = some required ∧
      (t = .error ∧ values = [] ∨ (∃ index, t = .slot index) ∨
        (∃ parameter own arguments, t = .bounded parameter own arguments ∧
          table.entails ⟨own, arguments⟩ bound.name required = .ok values) ∨
        satisfiedBy methods t bound.name required = .ok values) ∧
      ∀ pair ∈ bound.arguments.zip values, ArgumentAgrees pair.1 pair.2 := by
  cases t with
  | error | slot _ =>
    unfold check at done
    split at done
    · cases done
    · rename_i required known
      cases done
      exact ⟨required, known, by simp, by simp⟩
  | bounded parameter own arguments =>
    obtain ⟨required, known, raw, agrees⟩ := check_iff_entails.1 done
    exact ⟨required, known, .inr (.inr (.inl ⟨parameter, own, arguments, rfl, raw⟩)), agrees⟩
  | _ =>
    obtain ⟨required, known, raw, agrees⟩ := (check_iff_satisfiedBy rfl).1 done
    exact ⟨required, known, .inr (.inr (.inr raw)), agrees⟩

theorem satisfiedBy_kinds {admitted : List Primitive} {admitsEnums : Bool} {name : String} :
    satisfiedBy methods t name (.kinds admitted admitsEnums) = .ok values ↔
      ((∃ kind ∈ admitted, t = .primitive kind) ∨ (∃ id, t = .enum id) ∧ admitsEnums = true) ∧ values = [] := by
  unfold satisfiedBy
  rw [accepted_iff]
  cases t <;> simp

/-- A bound entails itself, and a bound on kinds one that admits no less. -/
theorem entails_iff {own : BoundRef} {name : String} {required : Bound} :
    table.entails own name required = .ok values ↔ own.name = name ∧ values = own.arguments ∨
      own.name ≠ name ∧ (∃ kinds admitsEnums others otherEnums, table.find? own.name = some (.kinds kinds admitsEnums) ∧
        required = .kinds others otherEnums ∧ kinds ⊆ others ∧ (admitsEnums = true → otherEnums = true)) ∧
        values = [] := by
  unfold entails
  by_cases same : own.name = name
  · simp [same, eq_comm]
  · simp only [same, if_false, false_and, false_or, ne_eq, not_false_eq_true, true_and]
    rcases table.find? own.name with _ | ⟨kinds, admitsEnums⟩ | ⟨_, _⟩
    · simp
    · cases required with
      | kinds others otherEnums =>
        simp only [accepted_iff]
        cases admitsEnums <;> simp [subset_def]
      | methods _ _ => simp
    · simp

theorem length_of_satisfiedBy {name : String} {required : Bound}
    (done : satisfiedBy methods t name required = .ok values) : values.length = required.parameterCount := by
  cases required with
  | kinds admitted admitsEnums => rw [(satisfiedBy_kinds.1 done).2, Bound.parameterCount, length_nil]
  | methods count required =>
    rw [satisfiedBy] at done
    split at done
    · rename_i matched
      cases done
      rw [length_map, Bound.parameterCount]
      refine matchMethods_keeps (P := fun found => found.length = count) (fun _ _ _ _ _ _ length => ?_)
        length_replicate matched
      rw [length_set, length]
    · cases done

end Examined

/-- The check of a type against a bound that asks for methods is exact. There is at most one way in which the methods of
the type can be what the bound asks for; the check finds it, unless an argument of the bound disagrees with it, and
fails where there is none. -/
theorem check_methods_exact {table : BoundTable} {methods : MethodLookup} {name : String} {count : Nat}
    {required : List RequiredMethod} (found : table.find? name = some (.methods count required))
    (below : ∀ one ∈ required, ∀ slot ∈ one.slots, slot.isBelow count = true) {t : Ty} (examined : isExamined t = true)
    (arguments : List Ty) :
    (∀ values, table.check methods t ⟨name, arguments⟩ = .ok values ↔
      Matched methods t count required values ∧ ∀ pair ∈ arguments.zip values, ArgumentAgrees pair.1 pair.2) ∧
    (∀ values others, Matched methods t count required values → Matched methods t count required others →
      values = others) ∧
    ((¬ ∃ values, Matched methods t count required values ∧
        ∀ pair ∈ arguments.zip values, ArgumentAgrees pair.1 pair.2) →
      ∃ error, table.check methods t ⟨name, arguments⟩ = .error error) := by
  have exact' : ∀ values, table.check methods t ⟨name, arguments⟩ = .ok values ↔
      Matched methods t count required values ∧ ∀ pair ∈ arguments.zip values, ArgumentAgrees pair.1 pair.2 := by
    intro values
    rw [check_iff_satisfiedBy examined, found, ← @satisfiedBy_iff _ _ _ _ _ below name]
    simp
  refine ⟨exact', fun _ _ => Matched.eq, fun none => ?_⟩
  cases outcome : table.check methods t ⟨name, arguments⟩ with
  | error error => exact ⟨error, rfl⟩
  | ok values => exact (none ⟨values, (exact' values).1 outcome⟩).elim

/-- What keyed containers have in common, with a parameter that no method mentions. -/
def keyed : List RequiredMethod :=
  [⟨"get", [.parameter 0], [.parameter 1]⟩, ⟨"insert", [.parameter 0, .parameter 1], []⟩]

theorem check_methods_exact_dict :
    (standard.register "Keyed" (.methods 3 keyed)).check Ty.builtinMethod? (.dict (.primitive .str) (.primitive .int64))
      ⟨"Keyed", [.slot 0, .primitive .int64]⟩ = .ok [.primitive .str, .primitive .int64, .error] := by
  have found : (standard.register "Keyed" (.methods 3 keyed)).find? "Keyed" = some (.methods 3 keyed) := rfl
  refine ((check_methods_exact found (by decide) rfl _).1 _).2 ⟨⟨rfl, by decide, by decide⟩, ?_⟩
  simp [ArgumentAgrees, ArgumentMatches]

/-- Whether a type passes the check against a bound. -/
def Accepts (table : BoundTable) (methods : MethodLookup) (t : Ty) (bound : BoundRef) : Prop :=
  ∃ values, table.check methods t bound = .ok values

/-- Checking a type parameter through its own bound is sound: where the parameter passes, so does every type that its
bound admits. Between bounds that admit kinds it is also complete. -/
theorem entailment_sound {table : BoundTable} {methods : MethodLookup} (own : BoundRef)
    (full : table.parameterCount? own.name = some own.arguments.length) (proper : ∀ t ∈ own.arguments, t ≠ .error)
    (parameter : String) (bound : BoundRef) :
    (table.Accepts methods (.bounded parameter own.name own.arguments) bound → ∀ t, isExamined t = true →
      table.Accepts methods t own → table.Accepts methods t bound) ∧
    ∀ kinds admitsEnums others otherEnums, table.find? own.name = some (.kinds kinds admitsEnums) →
      table.find? bound.name = some (.kinds others otherEnums) →
      (∀ t, (∃ kind, t = .primitive kind) ∨ (∃ id, t = .enum id) →
        table.Accepts methods t own → table.Accepts methods t bound) →
      table.Accepts methods (.bounded parameter own.name own.arguments) bound := by
  constructor
  · rintro ⟨values, passes⟩ t examined ⟨found, mine⟩
    obtain ⟨required, isRequired, entailed, agrees⟩ := check_iff_entails.1 passes
    obtain ⟨asked, isAsked, satisfied, matched⟩ := (check_iff_satisfiedBy examined).1 mine
    refine ⟨found, (check_iff_satisfiedBy examined).2 ⟨required, isRequired, ?_⟩⟩
    rcases entails_iff.1 entailed with ⟨same, rfl⟩ | ⟨_, ⟨kinds, _, others, _, isKinds, rfl, inside, enums⟩, rfl⟩
    · cases isRequired.symm.trans (same ▸ isAsked)
      refine ⟨same ▸ satisfied, fun pair mem => ?_⟩
      obtain ⟨index, isPair⟩ := getElem?_of_mem mem
      obtain ⟨isArgument, isFound⟩ := getElem?_zip_eq_some.1 isPair
      have short : index < own.arguments.length := by
        have counted := length_of_satisfiedBy satisfied
        rw [parameterCount?, isAsked] at full
        rw [← Option.some.inj full, ← counted]
        exact (List.getElem?_eq_some_iff.1 isFound).1
      have isOwn := getElem?_eq_getElem short
      have mine := agrees (pair.1, own.arguments[index])
        (mem_of_getElem? (getElem?_zip_eq_some.2 ⟨isArgument, isOwn⟩))
      have here := matched (own.arguments[index], pair.2)
        (mem_of_getElem? (getElem?_zip_eq_some.2 ⟨isOwn, isFound⟩))
      exact mine.trans (proper _ (getElem_mem short)) here
    · cases isAsked.symm.trans isKinds
      obtain ⟨admitted, rfl⟩ := satisfiedBy_kinds.1 satisfied
      refine ⟨satisfiedBy_kinds.2 ⟨admitted.imp ?_ (And.imp_right enums), rfl⟩, by simp⟩
      exact fun ⟨kind, mem, isKind⟩ => ⟨kind, inside mem, isKind⟩
  · intro kinds admitsEnums others otherEnums isKinds isOthers admitted
    have none : own.arguments = [] := by
      rw [parameterCount?, isKinds] at full
      exact length_eq_zero_iff.1 (Option.some.inj full).symm
    have both : ∀ t : Ty, (∃ kind, t = .primitive kind) ∨ (∃ id, t = .enum id) → isExamined t = true →
        (∃ kind ∈ kinds, t = .primitive kind) ∨ (∃ id, t = .enum id) ∧ admitsEnums = true →
        (∃ kind ∈ others, t = .primitive kind) ∨ (∃ id, t = .enum id) ∧ otherEnums = true := by
      intro t form examined mine
      obtain ⟨values, passes⟩ := admitted t form ⟨[], (check_iff_satisfiedBy examined).2
        ⟨_, isKinds, satisfiedBy_kinds.2 ⟨mine, rfl⟩, by simp⟩⟩
      obtain ⟨_, found, satisfied, _⟩ := (check_iff_satisfiedBy examined).1 passes
      cases isOthers.symm.trans found
      exact (satisfiedBy_kinds.1 satisfied).1
    have entailed : table.entails own bound.name (.kinds others otherEnums) = .ok [] := by
      rw [entails_iff, none]
      by_cases same : own.name = bound.name
      · exact .inl ⟨same, rfl⟩
      · refine .inr ⟨same, ⟨kinds, admitsEnums, others, otherEnums, isKinds, rfl, fun kind mem => ?_, fun enums => ?_⟩,
          rfl⟩
        · simpa using both (.primitive kind) (.inl ⟨kind, rfl⟩) rfl (.inl ⟨kind, mem, rfl⟩)
        · simpa using both (.enum ⟨0⟩) (.inr ⟨⟨0⟩, rfl⟩) rfl (.inr ⟨⟨⟨0⟩, rfl⟩, enums⟩)
    exact ⟨[], check_iff_entails.2 ⟨_, isOthers, entailed, by simp⟩⟩

/-- A `List` of some type is a collection whose elements are left open, since a collection of that type is; and a signed
type parameter is ordered, since all signed types are. -/
theorem entailment_sound_standard :
    standard.Accepts Ty.builtinMethod? (.list (.primitive .str)) ⟨"Collection", [.slot 0]⟩ ∧
      standard.Accepts Ty.builtinMethod? (.bounded "T" "Signed" []) ⟨"Ordered", []⟩ := by
  constructor
  · exact (entailment_sound ⟨"Collection", [.primitive .str]⟩ rfl (by simp) "T" _).1 ⟨_, rfl⟩ _ rfl ⟨_, rfl⟩
  · refine (entailment_sound ⟨"Signed", []⟩ rfl (by simp) "T" ⟨"Ordered", []⟩).2 _ _ _ _ rfl rfl ?_
    have inside : ∀ kind ∈ Primitive.all.filter Primitive.isSigned,
        kind ∈ Primitive.all.filter Primitive.isNumeric := by decide
    rintro _ (⟨kind, rfl⟩ | ⟨id, rfl⟩) ⟨_, passes⟩
    · obtain ⟨_, ⟨⟩, satisfied, _⟩ := (check_iff_satisfiedBy rfl).1 passes
      have admitted := (satisfiedBy_kinds.1 satisfied).1
      refine ⟨[], (check_iff_satisfiedBy rfl).2 ⟨_, rfl, satisfiedBy_kinds.2 ⟨?_, rfl⟩, by simp⟩⟩
      exact admitted.imp (fun ⟨other, mem, same⟩ => ⟨other, inside other mem, same⟩) (And.imp_right fun _ => rfl)
    · exact ⟨[], rfl⟩

end BoundTable

end SemanticChecker
