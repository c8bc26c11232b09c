import SemanticChecker.Proofs.BoundMatching
import SemanticChecker.Proofs.Soundness.Collected

/-! What builtin types and bounds answer about methods fits wherever the receiver does. -/
namespace SemanticChecker

open List

def CheckContext.arities (ctx : CheckContext) : Arities :=
  ctx.table.arities ctx.bounds

variable {place : Place} {kind : BuiltinReceiver} {name : String} {receiver : Ty}

theorem Ty.fits_function {α : Type} {parameters returns : List α} {fill : α → Ty}
    (each : ∀ slot ∈ parameters ++ returns, (fill slot).Fits place) :
    (Ty.function (parameters.map fill) (returns.map fill)).Fits place := by
  obtain ⟨left, right⟩ := forall_mem_append.1 each
  exact ⟨Ty.fitAll_iff.2 (forall_mem_map.2 left), Ty.fitAll_iff.2 (forall_mem_map.2 right)⟩

def BuiltinSlot.isFilledBy : BuiltinReceiver → BuiltinSlot → Bool
  | _, .primitive _ => true
  | .list, .element => true
  | .dict, .key => true
  | .dict, .value => true
  | _, _ => false

theorem BuiltinMethod.isFilledBy_of_find {method : BuiltinMethod} (found : BuiltinMethod.find? kind name = some method) :
    ∀ slot ∈ method.parameters ++ method.returns, slot.isFilledBy kind = true := by
  have test := find?_some found
  simp only [Bool.and_eq_true, beq_iff_eq] at test
  have all : ∀ method ∈ BuiltinMethod.all, ∀ slot ∈ method.parameters ++ method.returns,
      slot.isFilledBy method.receiver = true := by decide
  rw [← test.1]
  exact all method (mem_of_find?_eq_some found)

theorem Ty.builtinReceiver_fits {fill : BuiltinSlot → Ty} (found : receiver.builtinReceiver? = some (kind, fill))
    (fits : receiver.Fits place) {slot : BuiltinSlot} (filled : slot.isFilledBy kind = true) :
    (fill slot).Fits place := by
  match receiver with
  | .list element =>
    cases found
    cases slot with
    | element => exact fits
    | primitive kind => trivial
    | _ => cases filled
  | .dict key value =>
    cases found
    cases slot with
    | key => exact fits.1
    | value => exact fits.2
    | primitive kind => trivial
    | _ => cases filled
  | .primitive .str =>
    cases found
    cases slot with
    | primitive kind => trivial
    | _ => cases filled

theorem Ty.builtinMethod_fits {method : Ty} (fits : receiver.Fits place)
    (found : receiver.builtinMethod? name = some method) : method.Fits place := by
  obtain ⟨⟨kind, fill⟩, isReceiver, found⟩ := Option.bind_eq_some_iff.1 found
  obtain ⟨builtin, looked, same⟩ := Option.bind_eq_some_iff.1 found
  cases same
  exact Ty.fits_function fun slot hs =>
    Ty.builtinReceiver_fits isReceiver fits (BuiltinMethod.isFilledBy_of_find looked slot hs)

def Bound.isClosed : Bound → Bool
  | .kinds _ _ => true
  | .methods parameters required =>
    required.all fun method => method.slots.all (BoundSlot.isBelow parameters)

namespace BoundTable

theorem isClosed_of_find {name : String} {bound : Bound} (found : standard.find? name = some bound) :
    bound.isClosed = true := by
  have all : ∀ entry ∈ standard.entries, entry.2.isClosed = true := by decide
  exact all (name, bound) (mem_of_lookup found)

theorem method_fits {place : Place} (known : place.arities.bound = standard.parameterCount?) {bound : BoundRef}
    (fits : bound.Fits place) {name : String} {method : Ty} (found : standard.method? bound name = some method) :
    method.Fits place := by
  rw [method?] at found
  split at found
  · rename_i parameters required isMethods
    obtain ⟨asked, looked, rfl⟩ := Option.map_eq_some_iff.1 found
    have count : parameters = bound.arguments.length := by
      have arity := fits.1
      rw [known, parameterCount?, isMethods] at arity
      exact Option.some.inj arity
    have closed := isClosed_of_find isMethods
    simp only [Bound.isClosed, all_eq_true] at closed
    refine Ty.fits_function fun slot hs => ?_
    cases slot with
    | primitive kind => trivial
    | parameter index =>
      have below := closed asked (mem_of_find?_eq_some looked) _ hs
      simp only [BoundSlot.isBelow, decide_eq_true_eq, count] at below
      simp only [getElem?_eq_getElem below, Option.getD_some]
      exact Ty.fitAll_iff.1 fits.2 _ (getElem_mem below)
  · cases found

def asksFor (table : BoundTable) (name : String) : Bool :=
  table.entries.any fun (_, bound) =>
    match bound with
    | .kinds _ _ => false
    | .methods _ required => required.any fun method => method.name == name

theorem asksFor_of_find {table : BoundTable} {bound : String} {parameters : Nat} {required : List RequiredMethod}
    (found : table.find? bound = some (.methods parameters required)) :
    ∀ method ∈ required, table.asksFor method.name = true := by
  intro method hm
  refine any_eq_true.2 ⟨(bound, .methods parameters required), mem_of_lookup found, ?_⟩
  exact any_eq_true.2 ⟨method, hm, beq_self_eq_true _⟩

def AssignmentFits (place : Place) (found : Assignment) : Prop :=
  ∀ t, some t ∈ found → t.Fits place

def BindingFits (place : Place) (binding : Ty) : Prop :=
  binding = .error ∨ binding.Fits place

variable {place : Place} {bound : String} {bindings : List Ty} {required : Bound}

theorem satisfiedBy_fits {methods : MethodLookup} {t : Ty}
    (fit : ∀ parameters asked, required = .methods parameters asked → ∀ one ∈ asked,
      ∀ method, methods t one.name = some method → method.Fits place)
    (done : satisfiedBy methods t bound required = .ok bindings) :
    ∀ binding ∈ bindings, BindingFits place binding := by
  cases required with
  | kinds admitted enums =>
    rw [(satisfiedBy_kinds.1 done).2]
    exact fun _ h => by cases h
  | methods parameters asked =>
    rw [satisfiedBy] at done
    split at done
    · rename_i found step
      cases done
      have fits : AssignmentFits place found := by
        refine matchMethods_keeps (fun one isOne found index actual offered fits t ht => ?_) (fun t ht => ?_) step
        · obtain ⟨_, _, looked, pair⟩ := offered
          obtain ⟨left, right⟩ := fit parameters asked rfl one isOne _ looked
          rcases mem_or_eq_of_mem_set ht with ht | same
          · exact fits t ht
          · cases same
            exact (mem_append.1 (of_mem_zip pair).2).elim (Ty.fitAll_iff.1 left _) (Ty.fitAll_iff.1 right _)
        · cases eq_of_mem_replicate ht
      intro binding hb
      obtain ⟨entry, he, rfl⟩ := mem_map.1 hb
      cases entry with
      | none => exact .inl rfl
      | some t => exact .inr (fits t he)
    · cases done

theorem entails_fits {table : BoundTable} {own : BoundRef} (fits : own.Fits place)
    (done : table.entails own bound required = .ok bindings) : ∀ binding ∈ bindings, BindingFits place binding := by
  rcases entails_iff.1 done with ⟨_, rfl⟩ | ⟨_, _, rfl⟩
  · exact fun binding hb => .inr (Ty.fitAll_iff.1 fits.2 binding hb)
  · exact fun _ h => by cases h

end BoundTable

def Ty.isForeign (names : List String) : Ty → Bool
  | .parameter name => !names.contains name
  | .bounded name _ _ => !names.contains name
  | _ => false

def Ty.mentionsOnly (names : List String) (t : Ty) : Bool :=
  !t.anyLeaf (isForeign names)

theorem Ty.Fits.restrict {names : List String} {t : Ty} (h : t.Fits place) (only : t.anyLeaf (isForeign names) = false) :
    t.Fits { place with parameter := (· ∈ names) } := by
  induction t using byParts (Q := fun ts => FitAll place ts → anyLeafAll (isForeign names) ts = false →
      FitAll { place with parameter := (· ∈ names) } ts) with
  | bounded => exact ⟨by simpa [Ty.anyLeaf, isForeign] using only, h.2⟩
  | _ => simp_all [Fits, FitAll, Ty.anyLeaf, anyLeafAll, isForeign]

namespace CheckContext

/-- Whether methods that bounds ask for mention no type parameters but those of their struct. -/
def boundMethodsClosed (ctx : CheckContext) : Bool :=
  ctx.table.structs.all fun own =>
    match ctx.layout? own.id with
    | some layout => layout.methods.all fun method =>
        !ctx.bounds.asksFor method.name || method.signature.type.mentionsOnly (Ty.namesOf own.typeParameters)
    | none => true

end CheckContext

end SemanticChecker
