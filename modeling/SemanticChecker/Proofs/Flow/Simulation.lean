import SemanticChecker.Proofs.Flow.Trace
import SemanticChecker.Proofs.Substitution

/-! Every execution of a body is among the runs of the body: the operations of some run do to the bindings what the
execution does to the locals, and use them as it does. -/
namespace SemanticChecker

open List

def NoneState.Admits (state : NoneState) (isNone : Bool) : Prop :=
  match state with
  | .definitelyNotNone => isNone = false
  | .maybeNone => True
  | .unknown | .definitelyNone => isNone = true

abbrev BindingStore := BindingId → Bool

namespace BindingStore

def unset : BindingStore := fun _ => true

def set (store : BindingStore) (id : BindingId) (isNone : Bool) : BindingStore := fun other =>
  if other = id then isNone else store other

@[simp] theorem set_self (store : BindingStore) (id : BindingId) (isNone : Bool) :
    store.set id isNone id = isNone := by
  simp [set]

theorem set_of_ne (store : BindingStore) {id other : BindingId} (differ : other ≠ id) (isNone : Bool) :
    store.set id isNone other = store other := by
  simp [set, differ]

def value (store : BindingStore) : ValueSource → Bool
  | .none => true
  | .notNone => false
  | .binding id => store id

end BindingStore

def ValueSource.Declared (bindings : List FlowBinding) : ValueSource → Prop
  | .binding id => id.index < bindings.length
  | _ => True

/-- Operations run one after the other. An assumption has to hold of the run. -/
inductive BindingStore.Runs (bindings : List FlowBinding) :
    BindingStore → List FlowOp → List LocalUse → BindingStore → Prop where
  | nil (store : BindingStore) : Runs bindings store [] [] store
  | unassigned {store after : BindingStore} {id : BindingId} {ops : List FlowOp} {uses : List LocalUse}
      (rest : Runs bindings (store.set id true) ops uses after) :
      Runs bindings store (.declare id none :: ops) uses after
  | declare {store after : BindingStore} {id : BindingId} {source : ValueSource} {ops : List FlowOp}
      {uses : List LocalUse} (known : source.Declared bindings)
      (rest : Runs bindings (store.set id (store.value source)) ops uses after) :
      Runs bindings store (.declare id (some source) :: ops) uses after
  | assign {store after : BindingStore} {id : BindingId} {source : ValueSource} {ops : List FlowOp}
      {uses : List LocalUse} (known : source.Declared bindings)
      (rest : Runs bindings (store.set id (store.value source)) ops uses after) :
      Runs bindings store (.assign id source :: ops) uses after
  | assume {store after : BindingStore} {id : BindingId} {state : NoneState} {ops : List FlowOp}
      {uses : List LocalUse} (holds : state.Admits (store id))
      (rest : Runs bindings store ops uses after) :
      Runs bindings store (.assume id state :: ops) uses after
  | use {store after : BindingStore} {id : BindingId} {kind : UseKind} {span : Span}
      {binding : FlowBinding} {ops : List FlowOp} {uses : List LocalUse}
      (declared : bindings[id.index]? = some binding) (rest : Runs bindings store ops uses after) :
      Runs bindings store (.use id kind span :: ops) (⟨binding.name, kind, span, store id⟩ :: uses) after

namespace BindingStore

theorem Runs.append {bindings : List FlowBinding} {store middle after : BindingStore}
    {first second : List FlowOp} {early late : List LocalUse}
    (begun : Runs bindings store first early middle) (ended : Runs bindings middle second late after) :
    Runs bindings store (first ++ second) (early ++ late) after := by
  induction begun with
  | nil => exact ended
  | unassigned _ ih => exact .unassigned (ih ended)
  | declare known _ ih => exact .declare known (ih ended)
  | assign known _ ih => exact .assign known (ih ended)
  | assume holds _ ih => exact .assume holds (ih ended)
  | use declared _ ih => exact .use declared (ih ended)

end BindingStore

def Laid (bindings : List FlowBinding) (next : Nat) (lets : List FlowBinding) : Prop :=
  lets <+: bindings.drop next

variable {next : Nat} {binding : FlowBinding} {name : String} {condition : Expr} {locals : Locals} {store : BindingStore}
  {exec : ExecM (Option Bool)} {runs : TraceM (Option ValueSource)}

theorem Laid.append {first second : List FlowBinding} (laid : Laid bindings next (first ++ second)) :
    Laid bindings next first ∧ Laid bindings (next + first.length) second := by
  obtain ⟨rest, whole⟩ := laid
  refine ⟨⟨second ++ rest, by rw [← whole, List.append_assoc]⟩, rest, ?_⟩
  rw [← drop_drop, ← whole, List.append_assoc, drop_left]

theorem Laid.cons {lets : List FlowBinding} (laid : Laid bindings next (binding :: lets)) :
    bindings[next]? = some binding ∧ Laid bindings (next + 1) lets := by
  have both : Laid bindings next ([binding] ++ lets) := laid
  refine ⟨?_, both.append.2⟩
  obtain ⟨rest, whole⟩ := laid
  have first : (bindings.drop next)[0]? = some binding := by simp [← whole]
  simpa using first

/-- The bindings in scope hold what the locals do, and have numbers below `next`. Those in `aside` are not in scope; they
hold what is noted with them. -/
structure Mirrors (bindings : List FlowBinding) (aside : List (BindingId × Bool)) (scope : FlowScope) (next : Nat)
    (store : BindingStore) (locals : Locals) : Prop where
  locals : locals = scope.map fun entry => (entry.1, store entry.2)
  distinct : (aside.map Prod.fst ++ scope.map Prod.snd).Nodup
  below : ∀ id ∈ aside.map Prod.fst ++ scope.map Prod.snd, id.index < next
  declared : ∀ entry ∈ scope, ∃ binding, bindings[entry.2.index]? = some binding ∧ binding.name = entry.1
  waiting : ∀ entry ∈ aside, store entry.1 = entry.2

namespace FlowScope

theorem lookup_map (scope : FlowScope) (store : BindingStore) (name : String) :
    (scope.map fun entry => (entry.1, store entry.2)).lookup name = (scope.lookup name).map store := by
  induction scope with
  | nil => rfl
  | cons entry rest ih =>
    obtain ⟨key, id⟩ := entry
    simp only [map_cons, lookup_cons, ih]
    cases name == key <;> rfl

variable {scope : FlowScope} {name : String} {id : BindingId}

theorem map_set_of_not_mem (absent : id ∉ scope.map Prod.snd) (store : BindingStore) (isNone : Bool) :
    (scope.map fun entry => (entry.1, store.set id isNone entry.2))
      = scope.map fun entry => (entry.1, store entry.2) := by
  refine map_congr_left fun entry member => ?_
  have differ : entry.2 ≠ id := fun same => absent (same ▸ mem_map_of_mem member)
  rw [BindingStore.set_of_ne store differ]

theorem give_map (distinct : (scope.map Prod.snd).Nodup) (found : scope.lookup name = some id) (store : BindingStore)
    (isNone : Bool) :
    Locals.give (scope.map fun entry => (entry.1, store entry.2)) name isNone
      = scope.map fun entry => (entry.1, store.set id isNone entry.2) := by
  induction scope with
  | nil => cases found
  | cons entry rest ih =>
    rw [map_cons, nodup_cons] at distinct
    rw [lookup_cons] at found
    simp only [map_cons, Locals.give]
    cases same : name == entry.1 with
    | true =>
      rw [same] at found
      obtain rfl := Option.some.inj found
      simp [map_set_of_not_mem distinct.1]
    | false =>
      rw [same] at found
      have differ : entry.2 ≠ id :=
        fun equal => distinct.1 (equal ▸ mem_map_of_mem (mem_of_lookup found))
      simp [ih distinct.2 found, BindingStore.set_of_ne store differ]

theorem give_map_of_absent (absent : scope.lookup name = none) (store : BindingStore) (isNone : Bool) :
    Locals.give (scope.map fun entry => (entry.1, store entry.2)) name isNone
      = scope.map fun entry => (entry.1, store entry.2) := by
  induction scope with
  | nil => rfl
  | cons entry rest ih =>
    rw [lookup_cons] at absent
    simp only [map_cons, Locals.give]
    cases same : name == entry.1 with
    | true => rw [same] at absent; cases absent
    | false =>
      rw [same] at absent
      simp [ih absent]

end FlowScope

variable {bindings : List FlowBinding} {aside : List (BindingId × Bool)} {scope : FlowScope} {next limit : Nat}

namespace Mirrors

variable {store : BindingStore} {locals : Locals}

theorem lookup (mirrors : Mirrors bindings aside scope next store locals) (name : String) :
    locals.lookup name = (scope.lookup name).map store := by
  rw [mirrors.locals, FlowScope.lookup_map]

theorem later (mirrors : Mirrors bindings aside scope next store locals) (more : next ≤ limit) :
    Mirrors bindings aside scope limit store locals :=
  { mirrors with below := fun id known => Nat.lt_of_lt_of_le (mirrors.below id known) more }

theorem give (mirrors : Mirrors bindings aside scope next store locals) {name : String} {id : BindingId}
    (found : scope.lookup name = some id) (isNone : Bool) :
    Mirrors bindings aside scope next (store.set id isNone) (locals.give name isNone) := by
  have apart := nodup_append.1 mirrors.distinct
  refine { mirrors with locals := ?_, waiting := fun entry member => ?_ }
  · rw [mirrors.locals, FlowScope.give_map apart.2.1 found]
  · have differ : entry.1 ≠ id := apart.2.2 entry.1 (mem_map_of_mem member) id
      (mem_map_of_mem (mem_of_lookup found))
    exact (BindingStore.set_of_ne store differ isNone).trans (mirrors.waiting entry member)

theorem outermost {extra : FlowScope} (mirrors : Mirrors bindings aside (extra ++ scope) next store locals) :
    Mirrors bindings aside scope next store (locals.outermost scope.length) := by
  have inner : (aside.map Prod.fst ++ scope.map Prod.snd).Sublist
      (aside.map Prod.fst ++ (extra ++ scope).map Prod.snd) :=
    List.Sublist.append_left ((sublist_append_right ..).map _) _
  refine ⟨?_, mirrors.distinct.sublist inner, fun id known => mirrors.below id (inner.subset known),
    fun entry known => mirrors.declared entry (mem_append_right _ known), mirrors.waiting⟩
  have count : ((extra ++ scope).map fun entry => (entry.1, store entry.2)).length - scope.length = extra.length := by
    simp
  rw [mirrors.locals, Locals.outermost, count, ← map_drop, drop_left]

theorem fresh (mirrors : Mirrors bindings aside scope next store locals) :
    Mirrors bindings ((⟨next⟩, store ⟨next⟩) :: aside) scope (next + 1) store locals := by
  refine ⟨mirrors.locals, nodup_cons.2 ⟨fun known => ?_, mirrors.distinct⟩, ?_, mirrors.declared, ?_⟩
  · exact Nat.lt_irrefl next (mirrors.below _ known)
  · exact forall_mem_cons.2 ⟨Nat.lt_succ_self next, (mirrors.later (Nat.le_succ next)).below⟩
  · exact forall_mem_cons.2 ⟨rfl, mirrors.waiting⟩

theorem set_waiting {id : BindingId} {held : Bool}
    (mirrors : Mirrors bindings ((id, held) :: aside) scope next store locals) (isNone : Bool) :
    Mirrors bindings ((id, isNone) :: aside) scope next (store.set id isNone) locals := by
  have apart := not_or.1 (mt mem_append.2 (nodup_cons.1 mirrors.distinct).1)
  refine { mirrors with locals := ?_, waiting := forall_mem_cons.2 ⟨BindingStore.set_self .., ?_⟩ }
  · rw [FlowScope.map_set_of_not_mem apart.2]
    exact mirrors.locals
  · intro entry known
    have differ : entry.1 ≠ id := fun same => apart.1 (mem_map.2 ⟨entry, known, same⟩)
    rw [BindingStore.set_of_ne store differ]
    exact mirrors.waiting entry (mem_cons_of_mem _ known)

theorem push {id : BindingId} {held : Bool} {binding : FlowBinding}
    (mirrors : Mirrors bindings ((id, held) :: aside) scope next store locals)
    (declared : bindings[id.index]? = some binding) :
    Mirrors bindings aside ((binding.name, id) :: scope) next store ((binding.name, held) :: locals) := by
  have moved : (aside.map Prod.fst ++ id :: scope.map Prod.snd).Perm
      (id :: (aside.map Prod.fst ++ scope.map Prod.snd)) :=
    perm_middle
  refine ⟨?_, moved.nodup_iff.2 mirrors.distinct, fun other known => mirrors.below other (moved.mem_iff.1 known),
    forall_mem_cons.2 ⟨⟨binding, declared, rfl⟩, mirrors.declared⟩,
    fun entry known => mirrors.waiting entry (mem_cons_of_mem _ known)⟩
  have holds := mirrors.waiting (id, held) (mem_cons_self ..)
  rw [map_cons, ← mirrors.locals, holds]

end Mirrors

/-- How a run ends like an execution: both return, or something holds of what they come to. -/
inductive Outcome.Meets {α β : Type} (After : α → β → Locals → Prop) : Outcome β → Option α → Prop where
  | returned : Meets After .returned none
  | done {found : α} {value : β} {locals : Locals} (holds : After found value locals) :
      Meets After (.done value locals) (some found)

theorem Outcome.Meets.imp {α β : Type} {After Weaker : α → β → Locals → Prop} {outcome : Outcome β} {found : Option α}
    (meets : outcome.Meets After found)
    (weaker : ∀ found value locals, After found value locals → Weaker found value locals) :
    outcome.Meets Weaker found := by
  cases meets with
  | returned => exact .returned
  | done holds => exact .done (weaker _ _ _ holds)

def Followed {α β : Type} (bindings : List FlowBinding) (Before : BindingStore → Locals → Prop) (exec : ExecM β)
    (runs : TraceM α) (After : α → β → BindingStore → Locals → Prop) : Prop :=
  ∀ store locals, Before store locals → exec locals ≠ [] ∧ ∀ execution ∈ exec locals, ∃ run ∈ runs.runs, ∃ after,
    BindingStore.Runs bindings store run.ops execution.uses after ∧
      execution.outcome.Meets (fun found value => After found value after) run.value

namespace Followed

variable {α β γ δ : Type} {Before Middle : BindingStore → Locals → Prop} {exec : ExecM β} {runs : TraceM α}
  {After : α → β → BindingStore → Locals → Prop}

theorem single {ops : List FlowOp} {found : Option α} (isRun : ⟨ops, found⟩ ∈ runs.runs)
    (each : ∀ store locals, Before store locals → ∃ uses outcome after, exec locals = [⟨uses, outcome⟩] ∧
      BindingStore.Runs bindings store ops uses after ∧
        outcome.Meets (fun found value => After found value after) found) :
    Followed bindings Before exec runs After := by
  intro store locals before
  obtain ⟨uses, outcome, after, only, ran, meets⟩ := each store locals before
  rw [only]
  refine ⟨cons_ne_nil _ _, fun execution member => ?_⟩
  obtain rfl := mem_singleton.1 member
  exact ⟨_, isRun, after, ran, meets⟩

theorem pure {found : α} {value : β}
    (holds : ∀ store locals, Before store locals → After found value store locals) :
    Followed bindings Before (pure value) (pure found) After :=
  single (mem_singleton.2 rfl) fun store locals before =>
    ⟨[], _, store, rfl, .nil store, .done (holds store locals before)⟩

theorem leave : Followed bindings Before ExecM.leave (TraceM.leave : TraceM α) After :=
  single (mem_singleton.2 rfl) fun store _ _ => ⟨[], _, store, rfl, .nil store, .returned⟩

theorem bind {g : β → ExecM δ} {f : α → TraceM γ} {Last : γ → δ → BindingStore → Locals → Prop}
    (first : Followed bindings Before exec runs After)
    (second : ∀ found value, Followed bindings (After found value) (g value) (f found) Last) :
    Followed bindings Before (exec >>= g) (runs >>= f) Last := by
  intro store locals before
  obtain ⟨some, each⟩ := first store locals before
  constructor
  · obtain ⟨⟨early, outcome⟩, ran⟩ := exists_mem_of_ne_nil _ some
    obtain ⟨⟨ops, ending⟩, _, middle, _, meets⟩ := each _ ran
    cases meets with
    | returned => exact ne_nil_of_mem (mem_flatMap.2 ⟨_, ran, mem_singleton.2 rfl⟩)
    | done holds =>
      obtain ⟨late, goes⟩ := exists_mem_of_ne_nil _ (second _ _ _ _ holds).1
      exact ne_nil_of_mem (mem_flatMap.2 ⟨_, ran, mem_map.2 ⟨late, goes, rfl⟩⟩)
  · intro execution member
    obtain ⟨⟨early, outcome⟩, ran, continued⟩ := mem_flatMap.1 member
    obtain ⟨⟨ops, ending⟩, run, middle, begun, meets⟩ := each _ ran
    cases meets with
    | returned =>
      obtain rfl := mem_singleton.1 continued
      exact ⟨_, mem_flatMap.2 ⟨_, run, mem_singleton.2 rfl⟩, middle, begun, .returned⟩
    | done holds =>
      obtain ⟨late, goes, rfl⟩ := mem_map.1 continued
      obtain ⟨rest, isRun, after, ended, meets⟩ := (second _ _ _ _ holds).2 _ goes
      exact ⟨_, mem_flatMap.2 ⟨_, run, mem_map.2 ⟨rest, isRun, rfl⟩⟩, after, begun.append ended, meets⟩

theorem weaken {Weaker : α → β → BindingStore → Locals → Prop} (followed : Followed bindings Middle exec runs After)
    (before : ∀ store locals, Before store locals → Middle store locals)
    (after : ∀ found value store locals, After found value store locals → Weaker found value store locals) :
    Followed bindings Before exec runs Weaker := by
  intro store locals holds
  obtain ⟨some, each⟩ := followed store locals (before store locals holds)
  refine ⟨some, fun execution member => ?_⟩
  obtain ⟨run, isRun, last, ran, meets⟩ := each execution member
  exact ⟨run, isRun, last, ran, meets.imp fun _ _ _ => after _ _ _ _⟩

theorem among {others : TraceM α} (followed : Followed bindings Before exec runs After)
    (subset : runs.runs ⊆ others.runs) : Followed bindings Before exec others After := by
  intro store locals before
  obtain ⟨some, each⟩ := followed store locals before
  refine ⟨some, fun execution member => ?_⟩
  obtain ⟨run, isRun, rest⟩ := each execution member
  exact ⟨run, subset isRun, rest⟩

theorem silent {ops : List FlowOp} (followed : Followed bindings Middle exec runs After)
    (each : ∀ store locals, Before store locals →
      ∃ after, BindingStore.Runs bindings store ops [] after ∧ Middle after locals) :
    Followed bindings Before exec (TraceM.perform ops >>= fun _ => runs) After := by
  intro store locals before
  obtain ⟨middle, begun, holds⟩ := each store locals before
  obtain ⟨some, follows⟩ := followed middle locals holds
  refine ⟨some, fun execution member => ?_⟩
  obtain ⟨rest, isRun, after, ended, meets⟩ := follows execution member
  exact ⟨_, mem_flatMap.2 ⟨_, mem_singleton.2 rfl, mem_map.2 ⟨rest, isRun, rfl⟩⟩, after,
    begun.append ended, meets⟩

end Followed

def Valued (bindings : List FlowBinding) (aside : List (BindingId × Bool)) (scope : FlowScope) (next : Nat)
    (found : Option ValueSource) (value : Option Bool) (store : BindingStore) (locals : Locals) : Prop :=
  Mirrors bindings aside scope next store locals ∧ value = found.map store.value ∧
    ∀ source ∈ found, source.Declared bindings

def Completed (bindings : List FlowBinding) (aside : List (BindingId × Bool)) (scope : FlowScope) (next : Nat)
    (found : Option ValueSource) (value : Option Bool) (store : BindingStore) (locals : Locals) : Prop :=
  ∃ extra, Valued bindings aside (extra ++ scope) next found value store locals

theorem followed_notNone : Followed bindings (Mirrors bindings aside scope next) (pure (some false))
    (pure (some .notNone)) (Valued bindings aside scope next) :=
  .pure fun _ _ mirrors => ⟨mirrors, rfl, by simp [ValueSource.Declared]⟩

theorem followed_ident (name : String) (kind : UseKind) (span : Span) :
    Followed bindings (Mirrors bindings aside scope next) (ExecM.expr kind ⟨.ident name, span⟩)
      (TraceM.expr scope next kind ⟨.ident name, span⟩) (Valued bindings aside scope next) := by
  simp only [ExecM.expr, TraceM.expr]
  cases found : scope.lookup name with
  | none =>
    refine .single (mem_singleton.2 rfl) fun store locals mirrors => ?_
    refine ⟨[], .done (some false) locals, store, ?_, .nil store, .done ⟨mirrors, rfl, by simp [ValueSource.Declared]⟩⟩
    simp only [ExecM.read, mirrors.lookup, found, Option.map_none]
  | some id =>
    refine .single (mem_singleton.2 rfl) fun store locals mirrors => ?_
    obtain ⟨binding, declared, rfl⟩ := mirrors.declared _ (mem_of_lookup found)
    refine ⟨_, .done (some (store id)) locals, store, ?_, .use declared (.nil store), .done ⟨mirrors, rfl, ?_⟩⟩
    · simp only [ExecM.read, mirrors.lookup, found, Option.map_some]
    · rintro source ⟨⟩
      exact (List.getElem?_eq_some_iff.1 declared).1

theorem followed_store (name : String) (found : Option ValueSource) (value : Option Bool) :
    Followed bindings (Valued bindings aside scope next found value) (ExecM.store name value)
      (TraceM.store (scope.lookup name) found) fun _ _ => Mirrors bindings aside scope next := by
  cases found with
  | none =>
    rw [TraceM.store_nothing]
    refine .single (mem_singleton.2 rfl) fun store locals ⟨mirrors, same, _⟩ => ?_
    subst same
    exact ⟨[], _, store, rfl, .nil store, .done mirrors⟩
  | some source =>
    cases there : scope.lookup name with
    | none =>
      refine .single (mem_singleton.2 rfl) fun store locals ⟨mirrors, same, _⟩ => ?_
      subst same
      refine ⟨[], _, store, rfl, .nil store, .done ?_⟩
      rw [mirrors.locals, FlowScope.give_map_of_absent there, ← mirrors.locals]
      exact mirrors
    | some id =>
      refine .single (mem_singleton.2 rfl) fun store locals ⟨mirrors, same, known⟩ => ?_
      subst same
      exact ⟨[], _, _, rfl, .assign (known source rfl) (.nil _), .done (mirrors.give there _)⟩

/-- The declaration of a name, whose binding has waited for its first value. -/
theorem followed_declare (id : BindingId) (declared : bindings[id.index]? = some binding) {value : Option Bool}
    (ops : List FlowOp) {Before : BindingStore → Locals → Prop}
    (each : ∀ store locals, Before store locals → ∃ after, BindingStore.Runs bindings store ops [] after ∧
      Mirrors bindings ((id, value.getD true) :: aside) scope next after locals) :
    Followed bindings Before (ExecM.declare binding.name value >>= fun _ => pure none)
      (TraceM.perform ops >>= fun _ => pure none) (Valued bindings aside ((binding.name, id) :: scope) next) := by
  have named : Followed bindings Before (ExecM.declare binding.name value) (TraceM.perform ops)
      fun _ _ => Mirrors bindings aside ((binding.name, id) :: scope) next := by
    refine .single (mem_singleton.2 rfl) fun store locals before => ?_
    obtain ⟨after, ran, mirrors⟩ := each store locals before
    exact ⟨[], _, after, rfl, ran, .done (mirrors.push declared)⟩
  exact named.bind fun _ _ => .pure fun store locals mirrors => ⟨mirrors, rfl, by simp⟩

theorem ExecM.choose_bind {δ : Type} (condition : Expr) (next : Bool → ExecM δ) (locals : Locals) :
    (ExecM.choose condition >>= next) locals = match condition.comparedWithNone? locals with
      | some taken => next taken locals
      | none => next true locals ++ next false locals := by
  have goes (taken : Bool) : ExecM.andThen ⟨[], .done taken locals⟩ next = next taken locals := by
    simp [ExecM.andThen]
  have unfolded : (ExecM.choose condition >>= next) locals =
      (ExecM.choose condition locals).flatMap (ExecM.andThen · next) := rfl
  rw [unfolded, ExecM.choose]
  cases condition.comparedWithNone? locals <;> simp [goes]

theorem Mirrors.runs_told (mirrors : Mirrors bindings aside scope next store locals) {isNone : Bool}
    (agrees : locals.lookup name ≠ some (!isNone)) :
    BindingStore.Runs bindings store (scope.told name isNone) [] store := by
  rw [mirrors.lookup] at agrees
  unfold FlowScope.told
  cases found : scope.lookup name with
  | none => exact .nil store
  | some id =>
    refine .assume ?_ (.nil store)
    cases isNone <;> cases held : store id <;> simp [found, held, NoneState.Admits] at agrees ⊢

/-- What a condition tells holds in the branch that is taken. -/
theorem Mirrors.runs_condition (mirrors : Mirrors bindings aside scope next store locals) {taken : Bool}
    (agrees : condition.comparedWithNone? locals ≠ some (!taken)) :
    BindingStore.Runs bindings store (condition.told scope taken) [] store := by
  have turned {known : Option Bool} (other : known.map not ≠ some (!taken)) : known ≠ some (!!taken) := by
    rintro rfl
    cases taken <;> exact other rfl
  unfold Expr.told
  split
  · exact mirrors.runs_told agrees
  · exact mirrors.runs_told agrees
  · exact mirrors.runs_told (turned agrees)
  · exact mirrors.runs_told (turned agrees)
  · exact .nil store

theorem followed_branch (condition : Expr) (taken : Bool)
    (inside : Followed bindings (Mirrors bindings aside scope next) exec runs (Completed bindings aside scope limit)) :
    Followed bindings (fun store locals => Mirrors bindings aside scope next store locals ∧
        condition.comparedWithNone? locals ≠ some (!taken))
      (ExecM.inBlock exec) (TraceM.perform (condition.told scope taken) >>= fun _ => runs)
      (Valued bindings aside scope limit) := by
  suffices left : Followed bindings (Mirrors bindings aside scope next) (ExecM.inBlock exec) runs
      (Valued bindings aside scope limit) from
    left.silent fun store locals before => ⟨store, before.1.runs_condition before.2, before.1⟩
  intro store locals mirrors
  obtain ⟨some, each⟩ := inside store locals mirrors
  refine ⟨by simpa [ExecM.inBlock] using some, fun execution member => ?_⟩
  obtain ⟨⟨uses, outcome⟩, ran, rfl⟩ := mem_map.1 member
  obtain ⟨⟨ops, ending⟩, isRun, after, follows, meets⟩ := each _ ran
  refine ⟨_, isRun, after, ?_⟩
  cases meets with
  | returned => exact ⟨follows, .returned⟩
  | done holds =>
    obtain ⟨extra, last, rest⟩ := holds
    refine ⟨follows, .done ⟨?_, rest⟩⟩
    rw [mirrors.locals, length_map]
    exact last.outermost

theorem followed_cond {thenExec elseExec : ExecM (Option Bool)} {thenRuns elseRuns : TraceM (Option ValueSource)}
    (inThen : Followed bindings (Mirrors bindings aside scope next) thenExec thenRuns
      (Completed bindings aside scope limit))
    (inElse : Followed bindings (Mirrors bindings aside scope next) elseExec elseRuns
      (Completed bindings aside scope limit)) :
    Followed bindings (Mirrors bindings aside scope next)
      (ExecM.choose condition >>= fun taken =>
        if taken = true then ExecM.inBlock thenExec else ExecM.inBlock elseExec)
      (TraceM.either (TraceM.perform (condition.told scope true) >>= fun _ => thenRuns)
        (TraceM.perform (condition.told scope false) >>= fun _ => elseRuns))
      (Valued bindings aside scope limit) := by
  have yes := followed_branch condition true inThen
  have no := followed_branch condition false inElse
  intro store locals mirrors
  rw [ExecM.choose_bind]
  cases decided : condition.comparedWithNone? locals with
  | none =>
    have free (taken : Bool) : condition.comparedWithNone? locals ≠ some taken := by simp [decided]
    refine ⟨append_ne_nil_of_left_ne_nil (yes store locals ⟨mirrors, free _⟩).1 _, fun execution member => ?_⟩
    rcases mem_append.1 member with here | there
    · exact (yes.among (subset_append_left _ _) store locals ⟨mirrors, free _⟩).2 execution here
    · exact (no.among (subset_append_right _ _) store locals ⟨mirrors, free _⟩).2 execution there
  | some taken =>
    cases taken with
    | true => exact yes.among (subset_append_left _ _) store locals ⟨mirrors, by simp [decided]⟩
    | false => exact no.among (subset_append_right _ _) store locals ⟨mirrors, by simp [decided]⟩

theorem Followed.forUses
    (followed : Followed bindings (Mirrors bindings aside scope next) exec runs (Valued bindings aside scope limit)) :
    Followed bindings (Mirrors bindings aside scope next) (discard exec) (discard runs)
      fun _ _ => Mirrors bindings aside scope limit :=
  followed.bind fun _ _ => .pure fun _ _ valued => valued.1

/-- A name is declared with the value of an expression. One that starts with a conditional is assigned in the branch. -/
theorem followed_initialized {type : Option TypeExpr} {value : Expr} {span : Span}
    (declared : bindings[next]? = some ⟨name, span⟩)
    (followed : ∀ aside, Followed bindings (Mirrors bindings aside scope (next + 1)) (ExecM.expr .read value)
      (TraceM.expr scope (next + 1) .read value) (Valued bindings aside scope limit)) :
    Followed bindings (Mirrors bindings aside scope next) (ExecM.statement (.bind name type (some value) span))
      (TraceM.statement scope next (.bind name type (some value) span))
      (Valued bindings aside ((name, ⟨next⟩) :: scope) limit) := by
  have first := followed ((⟨next⟩, true) :: aside)
  simp only [ExecM.statement, TraceM.statement]
  cases value.isCond with
  | true =>
    refine (first.bind fun found held => ?_).silent fun store locals mirrors =>
      ⟨_, .unassigned (.nil _), mirrors.fresh.set_waiting true⟩
    cases found with
    | none =>
      refine followed_declare ⟨next⟩ declared [] fun store locals valued => ⟨store, .nil store, ?_⟩
      rw [valued.2.1]
      exact valued.1
    | some source =>
      refine followed_declare ⟨next⟩ declared [.assign ⟨next⟩ source] fun store locals valued => ?_
      obtain ⟨mirrors, same, known⟩ := valued
      rw [same]
      exact ⟨_, .assign (known source rfl) (.nil _), mirrors.set_waiting _⟩
  | false =>
    intro store locals mirrors
    refine (followed ((⟨next⟩, store ⟨next⟩) :: aside)).bind (fun found held => ?_) store locals mirrors.fresh
    refine followed_declare ⟨next⟩ declared [.declare ⟨next⟩ found] fun store locals valued => ?_
    obtain ⟨mirrors, same, known⟩ := valued
    rw [same]
    cases found with
    | none => exact ⟨_, .unassigned (.nil _), mirrors.set_waiting _⟩
    | some source => exact ⟨_, .declare (known source rfl) (.nil _), mirrors.set_waiting _⟩

theorem Statement.scopeAfter_eq (scope : FlowScope) (next : Nat) (statement : Statement) :
    ∃ extra, statement.scopeAfter scope next = extra ++ scope := by
  cases statement with
  | bind name => exact ⟨[(name, ⟨next⟩)], rfl⟩
  | _ => exact ⟨[], rfl⟩

mutual

theorem followed_expr (kind : UseKind) (aside : List (BindingId × Bool)) (scope : FlowScope) (next : Nat) :
    ∀ e : Expr, Laid bindings next e.lets →
      Followed bindings (Mirrors bindings aside scope next) (ExecM.expr kind e) (TraceM.expr scope next kind e)
        (Valued bindings aside scope (next + e.lets.length))
  | ⟨.literal value, _⟩, _ => by
    cases value with
    | none => exact .pure fun _ _ mirrors => ⟨mirrors, rfl, by simp [ValueSource.Declared]⟩
    | _ => exact followed_notNone
  | ⟨.ident name, span⟩, _ => followed_ident name kind span
  | ⟨.tuple items, _⟩, laid => by
    simp only [ExecM.expr, TraceM.expr]
    exact (followed_exprs .read aside scope next items laid).bind fun _ _ => followed_notNone
  | ⟨.list items, _⟩, laid => by
    simp only [ExecM.expr, TraceM.expr]
    exact (followed_exprs .read aside scope next items laid).bind fun _ _ => followed_notNone
  | ⟨.dict entries, _⟩, laid => by
    simp only [ExecM.expr, TraceM.expr]
    exact (followed_pairs aside scope next entries laid).bind fun _ _ => followed_notNone
  | ⟨.assign ⟨place, span⟩ value, _⟩, laid => by
    obtain ⟨first, second⟩ := Laid.append laid
    have given := followed_expr .read aside scope next value first
    have read := followed_expr .read aside scope _ ⟨place, span⟩ second
    simp only [Expr.lets, length_append, ← Nat.add_assoc]
    cases place with
    | ident name =>
      simp only [ExecM.expr, TraceM.expr]
      refine given.bind fun found held => (followed_store name found held).bind fun _ _ => ?_
      exact followed_notNone
    | field object name =>
      have accessed := followed_expr .fieldAccess aside scope _ object second
      simp only [ExecM.expr, TraceM.expr]
      exact given.forUses.bind fun _ _ => accessed.forUses.bind fun _ _ => followed_notNone
    | _ => exact given.forUses.bind fun _ _ => read.forUses.bind fun _ _ => followed_notNone
  | ⟨.call ⟨callee, span⟩ _ arguments, _⟩, laid => by
    obtain ⟨first, second⟩ := Laid.append laid
    have read := followed_expr .read aside scope next ⟨callee, span⟩ first
    have passed := followed_exprs .argument aside scope _ arguments second
    simp only [Expr.lets, length_append, ← Nat.add_assoc]
    cases callee with
    | field object name =>
      have received := followed_expr .receiver aside scope next object first
      simp only [ExecM.expr, TraceM.expr]
      exact received.forUses.bind fun _ _ => passed.bind fun _ _ => followed_notNone
    | _ => exact read.forUses.bind fun _ _ => passed.bind fun _ _ => followed_notNone
  | ⟨.field object _, _⟩, laid => by
    simp only [ExecM.expr, TraceM.expr]
    have accessed := followed_expr .fieldAccess aside scope next object laid
    exact accessed.forUses.bind fun _ _ => followed_notNone
  | ⟨.binary operator left right, _⟩, laid => by
    obtain ⟨first, second⟩ := Laid.append laid
    simp only [ExecM.expr, TraceM.expr, Expr.lets, length_append, ← Nat.add_assoc]
    refine (followed_expr _ aside scope next left first).forUses.bind fun _ _ => ?_
    exact (followed_expr _ aside scope _ right second).forUses.bind fun _ _ => followed_notNone
  | ⟨.cond condition thenBranch elseBranch, _⟩, laid => by
    obtain ⟨first, branches⟩ := Laid.append laid
    obtain ⟨second, third⟩ := Laid.append branches
    simp only [ExecM.expr, TraceM.expr, Expr.lets, length_append, ← Nat.add_assoc]
    refine (followed_expr .read aside scope next condition first).forUses.bind fun _ _ => followed_cond ?_ ?_
    · refine (followed_block aside scope _ thenBranch second).weaken (fun _ _ mirrors => mirrors) ?_
      rintro found value store locals ⟨extra, mirrors, rest⟩
      exact ⟨extra, mirrors.later (Nat.le_add_right ..), rest⟩
    · refine (followed_orElse aside scope _ elseBranch third).weaken (fun _ _ mirrors => ?_) fun _ _ _ _ done => done
      exact mirrors.later (Nat.le_add_right ..)

theorem followed_exprs (kind : UseKind) (aside : List (BindingId × Bool)) (scope : FlowScope) (next : Nat) :
    ∀ items : List Expr, Laid bindings next (Expr.letsAll items) →
      Followed bindings (Mirrors bindings aside scope next) (ExecM.exprs kind items)
        (TraceM.exprs scope next kind items) fun _ _ =>
          Mirrors bindings aside scope (next + (Expr.letsAll items).length)
  | [], _ => .pure fun _ _ mirrors => mirrors
  | item :: rest, laid => by
    obtain ⟨first, second⟩ := Laid.append laid
    simp only [ExecM.exprs, TraceM.exprs, Expr.letsAll, length_append, ← Nat.add_assoc]
    refine (followed_expr kind aside scope next item first).forUses.bind fun _ _ => ?_
    exact followed_exprs kind aside scope _ rest second

theorem followed_pairs (aside : List (BindingId × Bool)) (scope : FlowScope) (next : Nat) :
    ∀ entries : List (Expr × Expr), Laid bindings next (Expr.letsOf entries) →
      Followed bindings (Mirrors bindings aside scope next) (ExecM.pairs entries) (TraceM.pairs scope next entries)
        fun _ _ => Mirrors bindings aside scope (next + (Expr.letsOf entries).length)
  | [], _ => .pure fun _ _ mirrors => mirrors
  | (key, value) :: rest, laid => by
    obtain ⟨first, more⟩ := Laid.append laid
    obtain ⟨second, third⟩ := Laid.append more
    simp only [ExecM.pairs, TraceM.pairs, Expr.letsOf, length_append, ← Nat.add_assoc]
    refine (followed_expr .read aside scope next key first).forUses.bind fun _ _ => ?_
    refine (followed_expr .read aside scope _ value second).forUses.bind fun _ _ => ?_
    exact followed_pairs aside scope _ rest third

theorem followed_orElse (aside : List (BindingId × Bool)) (scope : FlowScope) (next : Nat) :
    ∀ branch : Option (List Statement), Laid bindings next (Statement.letsElse branch) →
      Followed bindings (Mirrors bindings aside scope next) (ExecM.orElse branch) (TraceM.orElse scope next branch)
        (Completed bindings aside scope (next + (Statement.letsElse branch).length))
  | none, _ => .pure fun _ _ mirrors => ⟨[], mirrors, rfl, by simp⟩
  | some branch, laid => by
    simp only [ExecM.orElse, TraceM.orElse]
    exact followed_block aside scope next branch laid

theorem followed_block (aside : List (BindingId × Bool)) (scope : FlowScope) (next : Nat) :
    ∀ block : List Statement, Laid bindings next (Statement.letsAll block) →
      Followed bindings (Mirrors bindings aside scope next) (ExecM.block block) (TraceM.block scope next block)
        (Completed bindings aside scope (next + (Statement.letsAll block).length))
  | [], _ => .pure fun _ _ mirrors => ⟨[], mirrors, rfl, by simp⟩
  | first :: rest, laid => by
    obtain ⟨here, later⟩ := Laid.append laid
    obtain ⟨extra, inner⟩ := Statement.scopeAfter_eq scope next first
    have stated := followed_statement aside scope next first here
    rw [inner] at stated
    simp only [ExecM.block, TraceM.block, Statement.letsAll, length_append, ← Nat.add_assoc]
    refine stated.bind fun found value => ?_
    cases rest with
    | nil => exact .pure fun _ _ valued => ⟨extra, valued⟩
    | cons second rest =>
      rw [inner]
      refine (followed_block aside (extra ++ scope) _ (second :: rest) later).weaken (fun _ _ valued => valued.1) ?_
      rintro found value store locals ⟨more, valued⟩
      rw [← List.append_assoc] at valued
      exact ⟨more ++ extra, valued⟩

theorem followed_statement (aside : List (BindingId × Bool)) (scope : FlowScope) (next : Nat) :
    ∀ statement : Statement, Laid bindings next statement.lets →
      Followed bindings (Mirrors bindings aside scope next) (ExecM.statement statement)
        (TraceM.statement scope next statement)
        (Valued bindings aside (statement.scopeAfter scope next) (next + statement.lets.length))
  | .bind name _ none span, laid =>
    followed_declare ⟨next⟩ (Laid.cons laid).1 [.declare ⟨next⟩ none] fun _ _ mirrors =>
      ⟨_, .unassigned (.nil _), mirrors.fresh.set_waiting true⟩
  | .bind name _ (some value) span, laid => by
    obtain ⟨declared, inner⟩ := Laid.cons laid
    refine (followed_initialized declared fun aside => followed_expr .read aside scope (next + 1) value inner).weaken
      (fun _ _ mirrors => mirrors) ?_
    rintro found held store locals ⟨mirrors, rest⟩
    exact ⟨mirrors.later (by simp only [Statement.lets, length_cons]; omega), rest⟩
  | .expression value, laid => by
    simp only [ExecM.statement, TraceM.statement]
    exact followed_expr .read aside scope next value laid
  | .ret none _, _ => .leave
  | .ret (some value) _, laid => by
    simp only [ExecM.statement, TraceM.statement]
    exact (followed_expr .read aside scope next value laid).forUses.bind fun _ _ => .leave

end

theorem followed_parameters (declared : List (String × Span)) :
    ∀ {scope : FlowScope} {next : Nat} {store : BindingStore} {locals : Locals},
      Laid bindings next (declared.map fun (name, span) => ⟨name, span⟩) →
      Mirrors bindings [] scope next store locals →
      ∃ ops after, (TraceM.parameters next declared).runs = [⟨ops, some ()⟩] ∧
        BindingStore.Runs bindings store ops [] after ∧
        Mirrors bindings [] (FlowScope.ofParameters scope next declared) (next + declared.length) after
          (Locals.ofParameters declared ++ locals) := by
  induction declared with
  | nil => exact fun _ mirrors => ⟨[], _, rfl, .nil _, mirrors⟩
  | cons parameter rest ih =>
    obtain ⟨name, span⟩ := parameter
    intro scope next store locals laid mirrors
    obtain ⟨here, later⟩ := Laid.cons laid
    obtain ⟨ops, after, only, ran, last⟩ := ih later ((mirrors.fresh.set_waiting false).push here)
    refine ⟨.declare ⟨next⟩ (some .notNone) :: ops, after, ?_, .declare trivial ran, ?_⟩
    · simp [TraceM.parameters, TraceM.perform, only, Trace.andThen]
    · have order : Locals.ofParameters ((name, span) :: rest) ++ locals =
          Locals.ofParameters rest ++ (name, false) :: locals := by
        simp [Locals.ofParameters]
      rw [order, length_cons, Nat.add_comm rest.length, ← Nat.add_assoc]
      exact last

/-- A body has executions, and each makes the uses that the operations of a run of the body make. -/
theorem Block.executions_followed (parameters : List (String × Span)) (body : Block) :
    body.executions parameters ≠ [] ∧
      ∀ uses ∈ body.executions parameters, ∃ ops ∈ body.traces parameters, ∃ store, BindingStore.Runs
        ((parameters.map fun (name, span) => ⟨name, span⟩) ++ Statement.letsAll body) .unset ops uses store := by
  let bindings := (parameters.map fun (name, span) => (⟨name, span⟩ : FlowBinding)) ++ Statement.letsAll body
  have laid : Laid bindings 0 bindings := prefix_rfl
  obtain ⟨here, inner⟩ := laid.append
  have start : Mirrors bindings [] [] 0 .unset [] := ⟨rfl, .nil, by simp, by simp, by simp⟩
  obtain ⟨first, middle, only, begun, mirrors⟩ := followed_parameters parameters here start
  rw [Nat.zero_add, length_map] at inner
  rw [Nat.zero_add, append_nil] at mirrors
  obtain ⟨some, each⟩ := followed_block [] _ _ body inner _ _ mirrors
  refine ⟨by simpa [Block.executions] using some, fun uses executed => ?_⟩
  obtain ⟨execution, ran, rfl⟩ := mem_map.1 executed
  obtain ⟨run, isRun, after, ended, _⟩ := each execution ran
  refine ⟨first ++ run.ops, mem_map.2 ⟨⟨first ++ run.ops, run.value⟩, ?_, rfl⟩, after, begun.append ended⟩
  rw [TraceM.runs_bind, only]
  simpa [Trace.andThen] using ⟨run, isRun, rfl, rfl⟩

end SemanticChecker
