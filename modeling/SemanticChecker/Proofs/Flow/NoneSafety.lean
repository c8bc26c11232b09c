import Mathlib
import SemanticChecker.Proofs.Flow.Exactness
import SemanticChecker.Proofs.Flow.Simulation

/-! The analysis of a body is right about every execution of it: what it observes at a use holds
whenever the use is made, and a body without violations uses no local that is None where a value is
needed. -/
namespace SemanticChecker

open List

theorem NoneState.Admits.within {state known : NoneState} {isNone : Bool} (admits : state.Admits isNone)
    (within : state.Within known) : known.Admits isNone := by
  rcases within with rfl | rfl
  · exact admits
  · trivial

namespace FlowState

def Describes (bindings : List FlowBinding) (state : FlowState) (store : BindingStore) : Prop :=
  state.length = bindings.length ∧ ∀ id, id.index < bindings.length → (state.get id).Admits (store id)

theorem get_set_self {state : FlowState} {id : BindingId} (inside : id.index < state.length)
    (known : NoneState) : FlowState.get (state.set id.index known) id = known := by
  simp [FlowState.get, inside]

theorem get_set_of_ne {state : FlowState} {id other : BindingId} (differ : other ≠ id) (known : NoneState) :
    FlowState.get (state.set id.index known) other = state.get other := by
  have indices : id.index ≠ other.index := by
    intro same
    cases id; cases other; cases same
    exact differ rfl
  simp [FlowState.get, indices]

variable {bindings : List FlowBinding} {state known : FlowState} {store : BindingStore}

theorem Describes.within (describes : Describes bindings state store) (within : state.Within known) :
    Describes bindings known store :=
  ⟨within.1.symm.trans describes.1, fun id inside => (describes.2 id inside).within (within.2 id)⟩

theorem Describes.value (describes : Describes bindings state store) {source : ValueSource}
    (declared : source.Declared bindings) : (state.value source).Admits (store.value source) := by
  cases source with
  | none => rfl
  | notNone => rfl
  | binding id => exact describes.2 id declared

theorem Describes.set (describes : Describes bindings state store) (id : BindingId) {known : NoneState}
    {isNone : Bool} (admits : known.Admits isNone) :
    Describes bindings (state.set id.index known) (store.set id isNone) := by
  refine ⟨(length_set ..).trans describes.1, fun other inside => ?_⟩
  by_cases same : other = id
  · subst same
    rw [get_set_self (describes.1.symm ▸ inside), BindingStore.set_self]
    exact admits
  · rw [get_set_of_ne same, BindingStore.set_of_ne store same]
    exact describes.2 other inside

theorem Describes.assume (describes : Describes bindings state store) (id : BindingId) {known : NoneState}
    (admits : known.Admits (store id)) : Describes bindings (state.set id.index known) store := by
  have same : store.set id (store id) = store := by
    funext other
    by_cases here : other = id
    · subst here
      exact BindingStore.set_self ..
    · exact BindingStore.set_of_ne store here _
  have described := describes.set id admits
  rwa [same] at described

end FlowState

/-- An observation is right about a use: it is of that use, and what it knows holds there. -/
structure Observation.Shows (graph : FlowGraph) (observation : Observation) (use : LocalUse) : Prop where
  name : graph.bindingName observation.binding = use.name
  kind : observation.kind = use.kind
  span : observation.span = use.span
  state : observation.state.Admits use.isNone

variable {graph : FlowGraph} {use : LocalUse} {uses : List LocalUse}

theorem Observation.Shows.not_none {observation : Observation} (right : observation.Shows graph use)
    (allowed : observation.state.forbids observation.kind = false) (required : use.kind.requiresValue = true) :
    use.isNone = false := by
  have admits := right.state
  rw [right.kind] at allowed
  cases known : observation.state with
  | definitelyNotNone =>
    rw [known] at admits
    exact admits
  | unknown => simp [known, NoneState.forbids] at allowed
  | definitelyNone => simp [known, NoneState.forbids, required] at allowed
  | maybeNone => simp [known, NoneState.forbids, required] at allowed

theorem Observation.exists_shows {observations : List Observation}
    (shown : List.Forall₂ (Observation.Shows graph) observations uses) (used : use ∈ uses) :
    ∃ observation ∈ observations, observation.Shows graph use := by
  induction shown with
  | nil => cases used
  | @cons first _ rest _ here _ ih =>
    rcases mem_cons.1 used with rfl | later
    · exact ⟨first, mem_cons_self .., here⟩
    · obtain ⟨observation, there, right⟩ := ih later
      exact ⟨observation, mem_cons_of_mem _ there, right⟩

theorem BindingStore.Runs.observed {store after : BindingStore} {ops : List FlowOp}
    (runs : BindingStore.Runs graph.bindings store ops uses after) :
    ∀ {state : FlowState}, FlowState.Describes graph.bindings state store →
      FlowState.Describes graph.bindings (state.applyAll ops) after ∧
        List.Forall₂ (Observation.Shows graph) (observe state ops) uses := by
  induction runs with
  | nil => exact fun describes => ⟨describes, .nil⟩
  | unassigned _ ih => exact fun describes => ih (describes.set _ rfl)
  | declare known _ ih => exact fun describes => ih (describes.set _ (describes.value known))
  | assign known _ ih => exact fun describes => ih (describes.set _ (describes.value known))
  | assume holds _ ih => exact fun describes => ih (describes.assume _ holds)
  | @use store after id kind span binding ops uses declared _ ih =>
    intro state describes
    have inside : id.index < graph.bindings.length := (List.getElem?_eq_some_iff.1 declared).1
    have rest := ih describes
    refine ⟨rest.1, .cons ⟨?_, rfl, rfl, describes.2 id inside⟩ rest.2⟩
    simp [FlowGraph.bindingName, declared]

theorem BindingStore.Runs.of_append {bindings : List FlowBinding} {first second : List FlowOp} :
    ∀ {store after : BindingStore} {uses : List LocalUse},
      BindingStore.Runs bindings store (first ++ second) uses after →
      ∃ middle early late, BindingStore.Runs bindings store first early middle ∧
        BindingStore.Runs bindings middle second late after ∧ uses = early ++ late := by
  induction first with
  | nil => exact fun runs => ⟨_, [], _, .nil _, runs, rfl⟩
  | cons op rest ih =>
    intro store after uses runs
    cases runs with
    | unassigned next =>
      obtain ⟨middle, early, late, begun, ended, rfl⟩ := ih next
      exact ⟨middle, early, late, .unassigned begun, ended, rfl⟩
    | declare known next =>
      obtain ⟨middle, early, late, begun, ended, rfl⟩ := ih next
      exact ⟨middle, early, late, .declare known begun, ended, rfl⟩
    | assign known next =>
      obtain ⟨middle, early, late, begun, ended, rfl⟩ := ih next
      exact ⟨middle, early, late, .assign known begun, ended, rfl⟩
    | assume holds next =>
      obtain ⟨middle, early, late, begun, ended, rfl⟩ := ih next
      exact ⟨middle, early, late, .assume holds begun, ended, rfl⟩
    | use declared next =>
      obtain ⟨middle, early, late, begun, ended, rfl⟩ := ih next
      exact ⟨middle, _ :: early, late, .use declared begun, ended, rfl⟩

/-- The graph of a body has a way to the exit for every execution of the body, on which the same uses are made. -/
theorem FlowGraph.exists_leads_of_execution (parameters : List (String × Span)) (body : Block) :
    ∀ uses ∈ body.executions parameters, ∃ path store,
      (FlowGraph.ofBody parameters body).Leads path FlowGraph.exit ∧
        BindingStore.Runs (FlowGraph.ofBody parameters body).bindings .unset
          ((FlowGraph.ofBody parameters body).opsOn path) uses store := by
  intro uses member
  obtain ⟨_, _, _, bindings, ways⟩ := FlowGraph.ofBody_ways parameters body
  obtain ⟨ops, isTrace, store, runs⟩ := (body.executions_followed parameters).2 uses member
  obtain ⟨path, leads, rfl⟩ := (ways ops).2 isTrace
  rw [← bindings] at runs
  exact ⟨path, store, leads, runs⟩

namespace FlowAnalysis

/-- The uses observed in one block. -/
def observationsIn (analysis : FlowAnalysis) (id : BlockId) : List Observation :=
  match analysis.entries.get id with
  | some state => observe state (analysis.graph.block id).ops
  | none => []

variable {id : BlockId} {analysis : FlowAnalysis} {observation : Observation}

/-- Along a way through the graph, what is known at the start of a block holds of every run that
arrives there, and the uses were observed on the way. -/
theorem describes_of_leads {graph : FlowGraph} (nonempty : 0 < graph.blocks.length) (linked : graph.Linked)
    {path : List BlockId} (leads : graph.Leads path id) :
    ∀ {uses : List LocalUse} {store : BindingStore},
      BindingStore.Runs graph.bindings .unset (graph.opsOn path) uses store →
      ∃ state, (FlowEntries.ofGraph graph).get id = some state ∧
        FlowState.Describes graph.bindings state store ∧
        List.Forall₂ (Observation.Shows graph) (path.flatMap (ofGraph graph).observationsIn) uses := by
  obtain ⟨start, closed⟩ := FlowEntries.ofGraph_closed graph nonempty linked
  induction leads with
  | start =>
    intro uses store runs
    cases runs
    have initial : FlowEntries.get (FlowEntries.initial graph) FlowGraph.entry
        = some (List.replicate graph.bindings.length .unknown) :=
      FlowEntries.get_set_self (by simpa [FlowGraph.entry] using nonempty) _
    obtain ⟨state, found, within⟩ := start _ _ initial
    refine ⟨state, found, FlowState.Describes.within ⟨by simp, fun id inside => ?_⟩ within, .nil⟩
    simp [FlowState.get, inside, BindingStore.unset, NoneState.Admits]
  | @step path id next before way ih =>
    intro uses store runs
    rw [FlowGraph.opsOn_concat] at runs
    obtain ⟨middle, early, late, begun, ended, rfl⟩ := runs.of_append
    obtain ⟨state, found, describes, observed⟩ := ih begun
    obtain ⟨after, more⟩ := ended.observed describes
    obtain ⟨known, there, within⟩ := closed id state found next way
    refine ⟨known, there, after.within within, ?_⟩
    have here : (ofGraph graph).observationsIn id = observe state (graph.block id).ops := by
      simp only [observationsIn, ofGraph, found]
    rw [flatMap_append, flatMap_singleton, here]
    exact rel_append observed more

theorem mem_observations (member : observation ∈ analysis.observationsIn id) : observation ∈ analysis.observations := by
  unfold observationsIn at member
  split at member
  · rename_i state found
    have entry : analysis.entries[id.index]? = some (some state) := by
      cases there : analysis.entries[id.index]? with
      | none => simp [FlowEntries.get, there] at found
      | some entry =>
        simp only [FlowEntries.get, there, Option.join_some] at found
        rw [found]
    cases inside : analysis.graph.blocks[id.index]? with
    | none =>
      simp only [FlowGraph.block, inside, Option.getD_none, observe] at member
      cases member
    | some block =>
      have ops : (analysis.graph.block id).ops = block.ops := by
        simp [FlowGraph.block, inside]
      rw [ops] at member
      refine mem_flatMap.2 ⟨(block, some state), ?_, member⟩
      refine mem_iff_getElem?.2 ⟨id.index, ?_⟩
      simp [getElem?_zip_eq_some, inside, entry]
  · cases member

theorem not_forbidden (clean : analysis.violations = []) (member : observation ∈ analysis.observations) :
    observation.state.forbids observation.kind = false := by
  by_cases forbidden : observation.state.forbids observation.kind = true
  · have found : observation ∈ analysis.observations.filter fun o => o.state.forbids o.kind :=
      mem_filter.2 ⟨member, forbidden⟩
    unfold violations at clean
    have none_named := (mergeSort_perm _ _).symm.trans (.of_eq clean)
    have empty := map_eq_nil_iff.1 none_named.eq_nil
    rw [empty] at found
    cases found
  · exact Bool.eq_false_iff.2 forbidden

/-- Every execution of a body follows a way through its graph on which each use is observed, in order,
and what is known there holds. Without violations, no execution uses a local that is None where a value
is needed. -/
theorem none_safe (parameters : List (String × Span)) (body : Block) :
    let analysis := ofGraph (FlowGraph.ofBody parameters body)
    body.executions parameters ≠ [] ∧
    (∀ uses ∈ body.executions parameters, ∃ path, analysis.graph.Leads path FlowGraph.exit ∧
      (∀ observation ∈ path.flatMap analysis.observationsIn, observation ∈ analysis.observations) ∧
      List.Forall₂ (Observation.Shows analysis.graph) (path.flatMap analysis.observationsIn) uses) ∧
    (analysis.violations = [] → ∀ uses ∈ body.executions parameters, ∀ use ∈ uses,
      use.kind.requiresValue = true → use.isNone = false) := by
  intro analysis
  obtain ⟨linked, nonempty, _⟩ := FlowGraph.ofBody_ways parameters body
  have observed : ∀ uses ∈ body.executions parameters, ∃ path, analysis.graph.Leads path FlowGraph.exit ∧
      (∀ observation ∈ path.flatMap analysis.observationsIn, observation ∈ analysis.observations) ∧
      List.Forall₂ (Observation.Shows analysis.graph) (path.flatMap analysis.observationsIn) uses := by
    intro uses member
    obtain ⟨path, store, leads, runs⟩ := FlowGraph.exists_leads_of_execution parameters body uses member
    obtain ⟨-, -, -, shown⟩ := describes_of_leads nonempty linked leads runs
    refine ⟨path, leads, fun observation there => ?_, shown⟩
    obtain ⟨id, -, here⟩ := mem_flatMap.1 there
    exact mem_observations here
  refine ⟨(body.executions_followed parameters).1, observed, ?_⟩
  intro clean uses member use used required
  obtain ⟨path, -, known, shown⟩ := observed uses member
  obtain ⟨observation, there, right⟩ := Observation.exists_shows shown used
  have allowed := not_forbidden clean (known observation there)
  exact right.not_none allowed required

/-- `let x = if p { None } else { 1 }; if x == None { return }; x.size()` has no violation: two runs
are possible, and where `x` is a receiver it is not None. -/
theorem none_safe_guarded :
    let span (line : Nat) : Span := { line }
    let x : Expr := ⟨.ident "x", span 3⟩
    let body : Block := [
      .bind "x" none (some ⟨.cond ⟨.ident "p", span 1⟩ [.expression ⟨.literal .none, span 1⟩]
        (some [.expression ⟨.literal (.integer 1), span 1⟩]), span 1⟩) (span 1),
      .expression ⟨.cond ⟨.binary .equal x ⟨.literal .none, span 2⟩, span 2⟩ [.ret none (span 2)] none, span 2⟩,
      .expression ⟨.call ⟨.field x "size", span 3⟩ [] [], span 3⟩]
    (ofGraph (FlowGraph.ofBody [("p", span 0)] body)).violations = [] ∧
      ∀ uses ∈ body.executions [("p", span 0)], ∀ use ∈ uses,
        use.kind.requiresValue = true → use.isNone = false := by
  intro span x body
  have clean : (ofGraph (FlowGraph.ofBody [("p", span 0)] body)).violations = [] := by cbv
  exact ⟨clean, (none_safe [("p", span 0)] body).2.2 clean⟩

end FlowAnalysis

end SemanticChecker
