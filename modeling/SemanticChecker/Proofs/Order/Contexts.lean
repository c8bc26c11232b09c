import SemanticChecker.Check.Context
import SemanticChecker.Proofs.Order.Collected
import SemanticChecker.Proofs.Order.Compositions
import SemanticChecker.Proofs.Order.Typed
import SemanticChecker.Proofs.Order.Unifying

/-! What is known before bodies are checked, under other numbers: the methods and fields of types, what may be stored
where, and which bounds types satisfy. -/
namespace SemanticChecker

open List

namespace BoundTable

def Assignment.rename (ρ : Renaming) (found : Assignment) : Assignment :=
  found.map (Option.map (Ty.rename ρ))

variable {ρ : Renaming} {methods others : MethodLookup}

theorem matchSlot_rename (bound method : String) (found : Assignment) (slot : BoundSlot) (actual : Ty) :
    matchSlot bound method (found.rename ρ) slot (actual.rename ρ) =
      (matchSlot bound method found slot actual).map (Assignment.rename ρ) := by
  cases slot with
  | primitive kind =>
    simp only [matchSlot, Ty.rename_eq_primitive]
    split <;> rfl
  | parameter index =>
    simp only [matchSlot, Assignment.rename, getElem?_map]
    cases found[index]? with
    | none => rfl
    | some entry =>
      cases entry with
      | none => simp [Except.map, Assignment.rename]
      | some existing =>
        simp only [Option.map_some, Ty.rename_inj]
        split <;> rfl

theorem matchSlots_rename (bound method : String) (found : Assignment) (pairs : List (BoundSlot × Ty)) :
    matchSlots bound method (found.rename ρ) (pairs.map fun pair => (pair.1, pair.2.rename ρ)) =
      (matchSlots bound method found pairs).map (Assignment.rename ρ) := by
  induction pairs generalizing found with
  | nil => rfl
  | cons pair rest ih =>
    obtain ⟨slot, actual⟩ := pair
    rw [map_cons, matchSlots, matchSlots, matchSlot_rename]
    cases matchSlot bound method found slot actual with
    | ok found => exact ih found
    | error error => rfl

variable (same : ∀ t name, others (t.rename ρ) name = (methods t name).map (Ty.rename ρ))

include same

theorem matchMethod_rename (bound : String) (t : Ty) (found : Assignment) (required : RequiredMethod) :
    matchMethod bound others (t.rename ρ) (found.rename ρ) required =
      (matchMethod bound methods t found required).map (Assignment.rename ρ) := by
  rw [matchMethod, matchMethod, same]
  cases methods t required.name with
  | none => rfl
  | some type =>
    cases type with
    | function parameters returns =>
      simp only [Option.map_some, Ty.rename, Ty.renameAll_eq_map, length_map, ← map_append,
        zip_map_right]
      split
      · exact matchSlots_rename ..
      · rfl
    | _ => rfl

theorem matchMethods_rename (bound : String) (t : Ty) (found : Assignment) (required : List RequiredMethod) :
    matchMethods bound others (t.rename ρ) (found.rename ρ) required =
      (matchMethods bound methods t found required).map (Assignment.rename ρ) := by
  induction required generalizing found with
  | nil => rfl
  | cons method rest ih =>
    rw [matchMethods, matchMethods, matchMethod_rename same]
    cases matchMethod bound methods t found method with
    | ok found => exact ih found
    | error error => rfl

theorem satisfiedBy_rename (t : Ty) (bound : String) (required : Bound) :
    satisfiedBy others (t.rename ρ) bound required =
      (satisfiedBy methods t bound required).map (List.map (Ty.rename ρ)) := by
  cases required with
  | kinds admitted admitsEnums =>
    cases t with
    | primitive kind =>
      rw [Ty.rename, satisfiedBy, satisfiedBy, apply_ite (Except.map _)]
      rfl
    | enum id =>
      rw [Ty.rename, satisfiedBy, satisfiedBy]
      cases admitsEnums <;> rfl
    | _ => rfl
  | methods parameters required =>
    have start : Assignment.rename ρ (List.replicate parameters none) = List.replicate parameters none :=
      map_replicate
    have matched := matchMethods_rename same bound t (List.replicate parameters none) required
    rw [start] at matched
    rw [satisfiedBy, satisfiedBy, matched]
    cases matchMethods bound methods t (List.replicate parameters none) required with
    | error error => rfl
    | ok found =>
      refine congrArg Except.ok ?_
      rw [Assignment.rename, map_map, map_map]
      exact map_congr_left fun entry _ => by cases entry <;> rfl

omit same

theorem entails_rename (table : BoundTable) (own : BoundRef) (bound : String) (required : Bound) :
    table.entails (own.rename ρ) bound required =
      (table.entails own bound required).map (List.map (Ty.rename ρ)) := by
  unfold entails
  rw [show (own.rename ρ).name = own.name from rfl]
  by_cases same : own.name = bound
  · rw [if_pos same, if_pos same]
    rfl
  · rw [if_neg same, if_neg same]
    split
    · split <;> rfl
    · rfl

theorem compareArguments_rename (bound : String) (index : Nat) (pairs : List (Ty × Ty)) :
    compareArguments bound index (renamePairs ρ pairs) = compareArguments bound index pairs := by
  induction pairs generalizing index with
  | nil => rfl
  | cons pair rest ih =>
    obtain ⟨argument, binding⟩ := pair
    have differ : (argument.rename ρ != binding.rename ρ) = (argument != binding) := by
      rw [bne, bne, Ty.rename_beq]
    have rest := ih (index + 1)
    rw [renamePairs] at rest
    cases argument <;>
      simp only [renamePairs, map_cons, compareArguments, differ, Ty.isError_rename, rest] <;> rfl

/-- What a check answers where the parameters of the bound were found. -/
def answer (bound : BoundRef) (bindings : List Ty) : Except BoundError (List Ty) :=
  (compareArguments bound.name 0 (bound.arguments.zip bindings)).map fun _ => bindings

theorem answer_rename (bound : BoundRef) (bindings : List Ty) :
    answer (bound.rename ρ) (bindings.map (Ty.rename ρ)) = (answer bound bindings).map (List.map (Ty.rename ρ)) := by
  rw [answer, answer, BoundRef.rename, zip_map_rename, compareArguments_rename]
  cases compareArguments bound.name 0 (bound.arguments.zip bindings) <;> rfl

section Check

variable {table : BoundTable} {bound : BoundRef} {required : Bound} (found : table.find? bound.name = some required)

include found

theorem check_entailed (name own : String) (arguments : List Ty) : table.check methods (.bounded name own arguments) bound =
    (table.entails ⟨own, arguments⟩ bound.name required).bind (answer bound) := by
  cases raw : table.entails ⟨own, arguments⟩ bound.name required with
  | error error => simp only [check, found, raw, Except.bind]
  | ok bindings =>
    simp only [check, found, raw, Except.bind, answer]
    cases compareArguments bound.name 0 (bound.arguments.zip bindings) <;> rfl

theorem check_satisfied {t : Ty} (notError : t ≠ .error) (notSlot : ∀ index, t ≠ .slot index)
    (notBounded : ∀ name own arguments, t ≠ .bounded name own arguments) :
    table.check methods t bound = (satisfiedBy methods t bound.name required).bind (answer bound) := by
  have after : ∀ raw : Except BoundError (List Ty), satisfiedBy methods t bound.name required = raw →
      table.check methods t bound = raw.bind (answer bound) := by
    intro raw same
    cases t with
    | error => exact absurd rfl notError
    | slot index => exact absurd rfl (notSlot index)
    | bounded name own arguments => exact absurd rfl (notBounded name own arguments)
    | _ =>
      cases raw with
      | error error => simp only [check, found, same, Except.bind]
      | ok bindings =>
        simp only [check, found, same, Except.bind, answer]
        cases compareArguments bound.name 0 (bound.arguments.zip bindings) <;> rfl
  exact after _ rfl

end Check

include same

theorem check_rename (table : BoundTable) (t : Ty) (bound : BoundRef) :
    table.check others (t.rename ρ) (bound.rename ρ) =
      (table.check methods t bound).map (List.map (Ty.rename ρ)) := by
  cases found : table.find? bound.name with
  | none =>
    rw [check, check, show (bound.rename ρ).name = bound.name from rfl, found]
    rfl
  | some required =>
    have found' : table.find? (bound.rename ρ).name = some required := found
    have after : ∀ {raw raw' : Except BoundError (List Ty)}, raw' = raw.map (List.map (Ty.rename ρ)) →
        raw'.bind (answer (bound.rename ρ)) = (raw.bind (answer bound)).map (List.map (Ty.rename ρ)) := by
      rintro raw _ rfl
      cases raw with
      | error error => rfl
      | ok bindings => exact answer_rename bound bindings
    by_cases isError : t = .error
    · subst isError
      rw [check, check, show (bound.rename ρ).name = bound.name from rfl, found]
      rfl
    by_cases isSlot : ∃ index, t = .slot index
    · obtain ⟨index, rfl⟩ := isSlot
      rw [check, check, show (bound.rename ρ).name = bound.name from rfl, found]
      rfl
    by_cases isBounded : ∃ name own arguments, t = .bounded name own arguments
    · obtain ⟨name, own, arguments, rfl⟩ := isBounded
      rw [check_entailed found, Ty.rename, check_entailed found', Ty.renameAll_eq_map]
      exact after (table.entails_rename ⟨own, arguments⟩ bound.name required)
    · simp only [not_exists] at isSlot isBounded
      have notSlot : ∀ index, t.rename ρ ≠ .slot index := by
        intro index same
        cases t <;> cases same
        exact isSlot _ rfl
      have notBounded : ∀ name own arguments, t.rename ρ ≠ .bounded name own arguments := by
        intro name own arguments same
        cases t <;> cases same
        exact isBounded _ _ _ rfl
      rw [check_satisfied found isError isSlot isBounded,
        check_satisfied found' (mt (Ty.rename_eq_error ρ).1 isError) notSlot notBounded]
      exact after (satisfiedBy_rename same t bound.name required)

omit same

theorem method?_rename (table : BoundTable) (bound : BoundRef) (name : String) :
    table.method? (bound.rename ρ) name = (table.method? bound name).map (Ty.rename ρ) := by
  have fill : ∀ index : Nat, ((bound.rename ρ).arguments[index]?).getD Ty.error =
      ((bound.arguments[index]?).getD Ty.error).rename ρ := by
    intro index
    rw [BoundRef.rename, getElem?_map]
    cases bound.arguments[index]? <;> rfl
  rw [method?, method?, show (bound.rename ρ).name = bound.name from rfl]
  cases table.find? bound.name with
  | none => rfl
  | some found =>
    cases found with
    | kinds _ _ => rfl
    | methods parameters required =>
      dsimp only
      cases required.find? (·.name == name) with
      | none => rfl
      | some method =>
        simp only [Option.map_some, Ty.rename, Ty.renameAll_eq_map, map_map]
        congr 2
        all_goals
          refine map_congr_left fun slot _ => ?_
          cases slot with
          | parameter index => exact fill index
          | primitive kind => rfl

end BoundTable

theorem Ty.builtinReceiver?_rename (ρ : Renaming) (t : Ty) : (t.rename ρ).builtinReceiver? =
    t.builtinReceiver?.map fun receiver => (receiver.1, fun slot => (receiver.2 slot).rename ρ) := by
  have same : ∀ (receiver : BuiltinReceiver) {fill fill' : BuiltinSlot → Ty}, (∀ slot, fill slot = fill' slot) →
      some (receiver, fill) = some (receiver, fill') := by
    intro receiver fill fill' each
    rw [funext each]
  cases t with
  | list element => exact same .list fun slot => by cases slot <;> rfl
  | dict key value => exact same .dict fun slot => by cases slot <;> rfl
  | primitive kind =>
    cases kind with
    | str => exact same .str fun slot => by cases slot <;> rfl
    | _ => rfl
  | _ => rfl

theorem Ty.builtinMethod?_rename (ρ : Renaming) (t : Ty) (name : String) :
    (t.rename ρ).builtinMethod? name = (t.builtinMethod? name).map (Ty.rename ρ) := by
  rw [builtinMethod?, builtinMethod?, builtinReceiver?_rename]
  cases t.builtinReceiver? with
  | none => rfl
  | some receiver =>
    simp only [Option.map_some, Option.bind_eq_bind, Option.bind_some]
    cases BuiltinMethod.find? receiver.1 name with
    | none => rfl
    | some method => simp [Ty.rename]

structure CheckContext.Renames (ρ : Renaming) (ctx other : CheckContext) : Prop where
  declared : ctx.declared.Renames ρ other.declared
  enums : ∀ id, other.declared.enums.get? (ρ.enum id) = ctx.declared.enums.get? id
  compositions : ctx.compositions.Renames ρ other.compositions
  bounds : other.bounds = ctx.bounds
  options : other.options = ctx.options

namespace CheckContext.Renames

variable {ρ : Renaming} {ctx other : CheckContext} (h : ctx.Renames ρ other)

include h

theorem table : ctx.table.Renames ρ other.table :=
  h.declared.table

theorem structRef_rename (id : StructId) : other.structRef (ρ.struct id) = (ctx.structRef id).rename ρ := by
  rw [structRef, h.compositions.isConcrete]
  rfl

theorem layout?_rename (id : StructId) : other.layout? (ρ.struct id) = (ctx.layout? id).map (Layout.rename ρ) :=
  h.compositions.layout? id

theorem instantiation_rename (id : StructId) (arguments : List Ty) :
    other.instantiation (ρ.struct id) (arguments.map (Ty.rename ρ)) = (ctx.instantiation id arguments).rename ρ := by
  rw [instantiation, instantiation, h.table.struct?]
  cases ctx.table.struct? id with
  | none => rfl
  | some own => exact own.instantiation_rename ρ arguments

theorem hasAncestor_rename (id : StructId) (arguments : List Ty) (expected : Ty) :
    other.hasAncestor (ρ.struct id) (arguments.map (Ty.rename ρ)) (expected.rename ρ) =
      ctx.hasAncestor id arguments expected := by
  rw [hasAncestor, hasAncestor, h.layout?_rename]
  cases ctx.layout? id with
  | none => rfl
  | some layout =>
    simp only [Option.map_some, h.instantiation_rename, Layout.rename, any_map, Function.comp_def,
      ← Ty.rename_instantiate, Ty.rename_beq]

omit h

mutual

theorem isAssignable_rename (h : ctx.Renames ρ other) (expected found : Ty) :
    other.isAssignable (expected.rename ρ) (found.rename ρ) = ctx.isAssignable expected found := by
  have same := Ty.rename_beq ρ expected found
  have error := Ty.isError_rename ρ expected
  cases found with
  | struct id arguments =>
    rw [Ty.rename, Ty.renameAll_eq_map] at same ⊢
    rw [isAssignable, isAssignable, same, error, h.hasAncestor_rename]
  | tuple found =>
    rw [Ty.rename, Ty.renameAll_eq_map] at same ⊢
    unfold isAssignable
    rw [same, error]
    cases expected with
    | tuple slots =>
      have each := areAssignable_rename h slots found
      rw [← Ty.renameAll_eq_map ρ slots] at each
      exact congrArg (fun agree => Ty.tuple slots == Ty.tuple found || (Ty.tuple slots).isError || agree) each
    | _ => rfl
  | error => rw [Ty.rename, isAssignable, isAssignable]
  | _ =>
    unfold isAssignable
    rw [← same, ← error]
    rfl

theorem areAssignable_rename (h : ctx.Renames ρ other) (expected found : List Ty) :
    other.areAssignable (expected.map (Ty.rename ρ)) (found.map (Ty.rename ρ)) = ctx.areAssignable expected found := by
  cases expected with
  | nil => cases found <;> rfl
  | cons t ts =>
    cases found with
    | nil => rfl
    | cons u us =>
      rw [map_cons, map_cons, areAssignable, areAssignable, isAssignable_rename h t u,
        areAssignable_rename h ts us]

end

include h

theorem structMethod?_rename (id : StructId) (arguments : List Ty) (name : String) :
    other.structMethod? (ρ.struct id) (arguments.map (Ty.rename ρ)) name =
      (ctx.structMethod? id arguments name).map fun found => (ρ.struct found.1, found.2.rename ρ) := by
  simp only [structMethod?, h.layout?_rename, h.instantiation_rename]
  cases ctx.layout? id with
  | none => rfl
  | some layout =>
    simp only [Option.map_some, Option.bind_eq_bind, Option.bind_some, layout.method?_rename]
    cases layout.method? name with
    | none => rfl
    | some method => simp [ResolvedMethod.rename]

theorem fieldType?_rename (id : StructId) (arguments : List Ty) (name : String) :
    other.fieldType? (ρ.struct id) (arguments.map (Ty.rename ρ)) name =
      (ctx.fieldType? id arguments name).map (Ty.rename ρ) := by
  simp only [fieldType?, h.layout?_rename, h.instantiation_rename]
  cases ctx.layout? id with
  | none => rfl
  | some layout =>
    simp only [Option.map_some, Option.bind_eq_bind, Option.bind_some, layout.field?_rename]
    cases layout.field? name with
    | none => rfl
    | some field => simp [ResolvedField.rename]

theorem methodLookup_rename (t : Ty) (name : String) :
    other.methodLookup (t.rename ρ) name = (ctx.methodLookup t name).map (Ty.rename ρ) := by
  cases t with
  | struct id arguments =>
    rw [Ty.rename, Ty.renameAll_eq_map, methodLookup, methodLookup, h.structMethod?_rename]
    cases ctx.structMethod? id arguments name <;> simp
  | bounded parameter bound arguments =>
    rw [Ty.rename, Ty.renameAll_eq_map, methodLookup, methodLookup, h.bounds]
    exact ctx.bounds.method?_rename ⟨bound, arguments⟩ name
  | _ => exact Ty.builtinMethod?_rename ρ _ name

theorem checkBound_rename (t : Ty) (bound : BoundRef) :
    other.checkBound (t.rename ρ) (bound.rename ρ) = (ctx.checkBound t bound).map (List.map (Ty.rename ρ)) := by
  rw [checkBound, checkBound, h.bounds]
  exact BoundTable.check_rename h.methodLookup_rename ctx.bounds t bound

theorem satisfies_rename (t : Ty) (bound : String) : other.satisfies (t.rename ρ) bound = ctx.satisfies t bound := by
  rw [satisfies, satisfies, h.bounds, BoundTable.satisfies, BoundTable.satisfies]
  have same := BoundTable.check_rename h.methodLookup_rename ctx.bounds t { name := bound }
  rw [show BoundRef.rename ρ { name := bound } = { name := bound } from rfl] at same
  rw [same]
  cases ctx.bounds.check ctx.methodLookup t { name := bound } <;> rfl

omit h

theorem boundOf?_rename (t : Ty) :
    boundOf? (t.rename ρ) = (boundOf? t).map fun found => (found.1, found.2.rename ρ) := by
  cases t <;> simp [boundOf?, Ty.rename, BoundRef.rename]

theorem instantiateBound_rename (σ : Instantiation) (bound : BoundRef) :
    instantiateBound (σ.rename ρ) (bound.rename ρ) = (instantiateBound σ bound).rename ρ := by
  simp [instantiateBound, BoundRef.rename]

include h

theorem checkPending_alike (pending : PendingBound) :
    ErrorsAlike (ctx.checkPending pending) (other.checkPending (pending.rename ρ)) := by
  unfold checkPending
  rw [show (pending.rename ρ).owner = ρ.struct pending.owner from rfl, h.table.struct?]
  cases ctx.table.struct? pending.owner with
  | none => exact .nil
  | some own =>
    simp only [Option.map_some, StructDef.typeParameters_rename, PendingBound.rename, StructDef.instantiation_rename,
      zip_map_rename, renamePairs, filterMap_map]
    refine rel_filterMap (R := Eq) (fun pair _ same => ?_) (List.forall₂_eq_eq_eq ▸ rfl)
    subst same
    obtain ⟨parameter, argument⟩ := pair
    simp only [Function.comp_apply, boundOf?_rename]
    cases boundOf? parameter with
    | none => exact .none
    | some entry =>
      simp only [Option.map_some, Option.bind_eq_bind, Option.bind_some, instantiateBound_rename, h.checkBound_rename]
      cases ctx.checkBound argument (instantiateBound (own.instantiation pending.arguments) entry.2) with
      | ok bindings => exact .none
      | error cause => exact .some ⟨Problem.isError_diagnostic .., Problem.isError_diagnostic ..⟩

end CheckContext.Renames

end SemanticChecker
