import SemanticChecker.Proofs.Flow.NoneSafety

/-! The search through a flow graph finds the merge over all paths. What operations leave in a binding is fixed, or was
in some binding before them; so where all paths to a block agree on every binding that counts, what is known there
passes on their agreement, although states that met on the way were merged early. -/
namespace SemanticChecker

open List

namespace FlowState

/-- Where the state of a binding comes from: it is fixed, or it is that of a binding before. -/
inductive Origin where
  | fixed (known : NoneState)
  | binding (id : BindingId)

def Origin.read (state : FlowState) : Origin → NoneState
  | .fixed known => known
  | .binding id => state.get id

theorem exists_origin_value (source : ValueSource) :
    ∃ origin : Origin, ∀ state : FlowState, state.value source = origin.read state := by
  cases source with
  | none => exact ⟨.fixed .definitelyNone, fun _ => rfl⟩
  | notNone => exact ⟨.fixed .definitelyNotNone, fun _ => rfl⟩
  | binding id => exact ⟨.binding id, fun _ => rfl⟩

theorem exists_origin_set (count : Nat) (id binding : BindingId) (given : Origin) :
    ∃ origin : Origin, ∀ state : FlowState, state.length = count →
      FlowState.get (state.set id.index (given.read state)) binding = origin.read state := by
  by_cases same : binding = id
  · subst same
    by_cases inside : binding.index < count
    · exact ⟨given, fun state length => get_set_self (length ▸ inside) _⟩
    · refine ⟨.binding binding, fun state length => ?_⟩
      rw [set_eq_of_length_le (by omega)]
      rfl
  · exact ⟨.binding binding, fun state _ => get_set_of_ne same _⟩

theorem exists_origin_apply (count : Nat) (op : FlowOp) (binding : BindingId) :
    ∃ origin : Origin, ∀ state : FlowState, state.length = count →
      (state.apply op).get binding = origin.read state := by
  cases op with
  | declare id value =>
    cases value with
    | none => exact exists_origin_set count id binding (.fixed .unknown)
    | some source =>
      obtain ⟨given, reads⟩ := exists_origin_value source
      simpa only [apply, reads] using exists_origin_set count id binding given
  | assign id source =>
    obtain ⟨given, reads⟩ := exists_origin_value source
    simpa only [apply, reads] using exists_origin_set count id binding given
  | assume id known => exact exists_origin_set count id binding (.fixed known)
  | use id kind span => exact ⟨.binding binding, fun _ _ => rfl⟩

/-- What operations leave in a binding is fixed, or was in one binding before them, whatever the state. -/
theorem exists_origin (count : Nat) (ops : List FlowOp) (binding : BindingId) :
    ∃ origin : Origin, ∀ state : FlowState, state.length = count →
      (state.applyAll ops).get binding = origin.read state := by
  induction ops with
  | nil => exact ⟨.binding binding, fun _ _ => rfl⟩
  | cons op rest ih =>
    obtain ⟨origin, reads⟩ := ih
    have step : ∀ state : FlowState, state.length = count →
        (state.applyAll (op :: rest)).get binding = origin.read (state.apply op) :=
      fun state length => reads (state.apply op) ((state.length_apply op).trans length)
    cases origin with
    | fixed known => exact ⟨.fixed known, step⟩
    | binding id =>
      obtain ⟨earlier, before⟩ := exists_origin_apply count op id
      exact ⟨earlier, fun state length => (step state length).trans (before state length)⟩

theorem Within.applyAll {state known : FlowState} (within : state.Within known) (ops : List FlowOp) :
    (state.applyAll ops).Within (known.applyAll ops) := by
  refine ⟨by simpa using within.1, fun binding => ?_⟩
  obtain ⟨origin, reads⟩ := exists_origin known.length ops binding
  rw [reads state within.1, reads known rfl]
  cases origin with
  | fixed known => exact .refl known
  | binding id => exact within.2 id

theorem applyAll_append (state : FlowState) (first second : List FlowOp) :
    state.applyAll (first ++ second) = (state.applyAll first).applyAll second :=
  List.foldl_append

end FlowState

namespace FlowGraph

def arriving (graph : FlowGraph) (path : List BlockId) : FlowState :=
  FlowState.applyAll (List.replicate graph.bindings.length .unknown) (graph.opsOn path)

theorem length_arriving (graph : FlowGraph) (path : List BlockId) :
    (graph.arriving path).length = graph.bindings.length :=
  (FlowState.length_applyAll _ _).trans length_replicate

theorem arriving_concat (graph : FlowGraph) (path : List BlockId) (id : BlockId) :
    graph.arriving (path ++ [id]) = (graph.arriving path).applyAll (graph.block id).ops := by
  rw [arriving, opsOn_concat, FlowState.applyAll_append]
  rfl

/-- A state that says of each binding at least what all paths to a block agree on. -/
structure Grounded (graph : FlowGraph) (id : BlockId) (state : FlowState) : Prop where
  length : state.length = graph.bindings.length
  reached : ∃ path, graph.Leads path id
  agreed : ∀ binding known, (∀ path, graph.Leads path id → (graph.arriving path).get binding = known) →
    state.get binding = known

variable {graph : FlowGraph} {id : BlockId} {state : FlowState}

theorem grounded_entry (graph : FlowGraph) :
    graph.Grounded entry (List.replicate graph.bindings.length .unknown) where
  length := length_replicate
  reached := ⟨[], .start⟩
  agreed _ _ agree := agree [] .start

theorem Grounded.applyAll (h : graph.Grounded id state) (ops : List FlowOp) {binding : BindingId} {known : NoneState}
    (agree : ∀ path, graph.Leads path id → ((graph.arriving path).applyAll ops).get binding = known) :
    (state.applyAll ops).get binding = known := by
  obtain ⟨origin, reads⟩ := FlowState.exists_origin graph.bindings.length ops binding
  have each : ∀ path, graph.Leads path id → origin.read (graph.arriving path) = known :=
    fun path leads => (reads _ (graph.length_arriving path)).symm.trans (agree path leads)
  rw [reads state h.length]
  cases origin with
  | fixed known =>
    obtain ⟨path, leads⟩ := h.reached
    exact each path leads
  | binding source => exact h.agreed source known each

theorem Grounded.step (h : graph.Grounded id state) {next : BlockId} (way : next ∈ (graph.block id).successors) :
    graph.Grounded next (state.applyAll (graph.block id).ops) where
  length := (state.length_applyAll _).trans h.length
  reached := by
    obtain ⟨path, leads⟩ := h.reached
    exact ⟨path ++ [id], leads.step way⟩
  agreed binding known agree := by
    refine h.applyAll _ fun path leads => ?_
    rw [← arriving_concat]
    exact agree (path ++ [id]) (leads.step way)

theorem Grounded.join {other : FlowState} (h : graph.Grounded id state) (also : graph.Grounded id other) :
    graph.Grounded id (state.join other) where
  length := (FlowState.length_join (h.length.trans also.length.symm)).trans h.length
  reached := h.reached
  agreed binding known agree := by
    rw [FlowState.get_join (h.length.trans also.length.symm), h.agreed binding known agree,
      also.agreed binding known agree, NoneState.join_self]

end FlowGraph

namespace FlowEntries

def Grounded (graph : FlowGraph) (entries : FlowEntries) : Prop :=
  ∀ id state, entries.get id = some state → graph.Grounded id state

variable {graph : FlowGraph} {entries : FlowEntries}

theorem Grounded.set (h : Grounded graph entries) {id : BlockId} {state : FlowState}
    (grounded : graph.Grounded id state) : Grounded graph (entries.set id.index (some state)) := by
  intro other found there
  by_cases inside : id.index < entries.length
  · by_cases same : id = other
    · subst same
      rw [get_set_self inside] at there
      exact Option.some.inj there ▸ grounded
    · rw [get_set_of_ne same] at there
      exact h other found there
  · rw [set_eq_of_length_le (Nat.le_of_not_lt inside)] at there
    exact h other found there

theorem Grounded.flowTo (h : Grounded graph entries) {id : BlockId} {state : FlowState}
    (grounded : graph.Grounded id state) : Grounded graph (entries.flowTo state id).1 := by
  unfold FlowEntries.flowTo
  cases found : entries.get id with
  | none =>
    simp only [reduceCtorEq, ↓reduceIte]
    exact h.set grounded
  | some existing =>
    dsimp only
    split
    · exact h
    · exact h.set ((h id existing found).join grounded)

theorem Grounded.flowToAll (h : Grounded graph entries) {state : FlowState} {targets : List BlockId}
    (grounded : ∀ id ∈ targets, graph.Grounded id state) : Grounded graph (entries.flowToAll state targets).1 := by
  induction targets generalizing entries with
  | nil => exact h
  | cons id rest ih =>
    obtain ⟨first, others⟩ := forall_mem_cons.1 grounded
    exact ih (h.flowTo first) others

theorem Grounded.propagate (h : Grounded graph entries) (steps : Nat) (waiting : List BlockId) :
    Grounded graph (FlowEntries.propagate graph steps entries waiting) := by
  induction steps generalizing entries waiting with
  | zero => exact h
  | succ steps ih =>
    cases waiting with
    | nil => exact h
    | cons id rest =>
      cases found : entries.get id with
      | none =>
        simp only [FlowEntries.propagate, found]
        exact ih h rest
      | some state =>
        simp only [FlowEntries.propagate, found]
        exact ih (h.flowToAll fun next way => (h id state found).step way) _

theorem grounded_ofGraph (graph : FlowGraph) : Grounded graph (ofGraph graph) := by
  refine Grounded.propagate (fun id state found => ?_) _ _
  obtain ⟨rfl, rfl⟩ := get_initial found
  exact graph.grounded_entry

/-- What is found at the start of a block says no more than any path to it. -/
theorem within_of_leads (nonempty : 0 < graph.blocks.length) (linked : graph.Linked) {path : List BlockId}
    {id : BlockId} (leads : graph.Leads path id) :
    ∃ known, (ofGraph graph).get id = some known ∧ (graph.arriving path).Within known := by
  obtain ⟨start, closed⟩ := ofGraph_closed graph nonempty linked
  induction leads with
  | start => exact start _ _ (get_set_self (by simpa [FlowGraph.entry] using nonempty) _)
  | @step path id next before way ih =>
    obtain ⟨state, found, within⟩ := ih
    obtain ⟨known, there, further⟩ := closed id state found next way
    refine ⟨known, there, ?_⟩
    rw [FlowGraph.arriving_concat]
    exact (within.applyAll _).trans further

/-- One round of the search: the block that has waited longest passes on what is known at its end, and the blocks
that learn something wait. -/
inductive Round (graph : FlowGraph) : FlowEntries × List BlockId → FlowEntries × List BlockId → Prop where
  | skip {entries : FlowEntries} {id : BlockId} {rest : List BlockId} (unreached : entries.get id = none) :
    Round graph (entries, id :: rest) (entries, rest)
  | pass {entries : FlowEntries} {id : BlockId} {rest : List BlockId} {state : FlowState}
      (found : entries.get id = some state) :
    Round graph (entries, id :: rest)
      ((entries.flowToAll (state.applyAll (graph.block id).ops) (graph.block id).successors).1,
        rest ++ (entries.flowToAll (state.applyAll (graph.block id).ops) (graph.block id).successors).2)

theorem Searching.rounds (linked : graph.Linked) {steps : Nat} {waiting : List BlockId}
    (searching : Searching graph entries waiting steps) :
    Relation.ReflTransGen (Round graph) (entries, waiting)
      (FlowEntries.propagate graph steps entries waiting, []) := by
  induction steps generalizing entries waiting with
  | zero =>
    have none_waits : waiting = [] := eq_nil_of_length_eq_zero (by have := searching.enough; omega)
    rw [none_waits]
    exact .refl
  | succ steps ih =>
    cases waiting with
    | nil => exact .refl
    | cons id rest =>
      cases found : entries.get id with
      | none =>
        simp only [FlowEntries.propagate, found]
        exact .head (.skip found) (ih (searching.skip found))
      | some state =>
        simp only [FlowEntries.propagate, found]
        exact .head (.pass found) (ih (searching.step linked found))

theorem rounds_ofGraph (linked : graph.Linked) :
    Relation.ReflTransGen (Round graph) (initial graph, [FlowGraph.entry]) (ofGraph graph, []) := by
  by_cases nonempty : 0 < graph.blocks.length
  · exact (searching_initial graph nonempty).rounds linked
  · -- Without blocks the entry is not there either.
    have empty : graph.blocks = [] := eq_nil_of_length_eq_zero (by omega)
    have unreached : FlowEntries.get (initial graph) FlowGraph.entry = none := by simp [initial, empty, FlowEntries.get]
    have final : ofGraph graph = initial graph := by simp [ofGraph, empty, propagate, unreached]
    rw [final]
    exact .single (.skip unreached)

theorem length_ofGraph (linked : graph.Linked) : (ofGraph graph).length = graph.blocks.length := by
  by_cases nonempty : 0 < graph.blocks.length
  · obtain ⟨_, rested⟩ := (searching_initial graph nonempty).propagate linked
    exact rested.length
  · have empty : graph.blocks = [] := eq_nil_of_length_eq_zero (by omega)
    simp [ofGraph, empty, propagate, initial, FlowEntries.get]

end FlowEntries

def FlowOp.observed? (state : FlowState) : FlowOp → Option Observation
  | .use binding kind span => some ⟨binding, state.get binding, kind, span⟩
  | _ => none

theorem observe_eq_filterMap (state : FlowState) (ops : List FlowOp) :
    observe state ops = (List.range ops.length).filterMap fun index =>
      ops[index]?.bind (FlowOp.observed? (state.applyAll (ops.take index))) := by
  induction ops generalizing state with
  | nil => rfl
  | cons op rest ih =>
    have later : observe (state.apply op) rest = (List.range rest.length).filterMap fun index =>
        (op :: rest)[index + 1]?.bind (FlowOp.observed? (state.applyAll ((op :: rest).take (index + 1)))) :=
      ih (state.apply op)
    rw [length_cons, range_succ_eq_map, filterMap_cons, filterMap_map]
    cases op with
    | use binding kind span => exact congrArg _ later
    | _ => exact later

namespace FlowGraph

/-- The places of all operations, block by block. -/
def places (graph : FlowGraph) : List (BlockId × Nat) :=
  (List.range graph.blocks.length).flatMap fun block =>
    (List.range (graph.block ⟨block⟩).ops.length).map fun index => (⟨block⟩, index)

theorem linked_of_blocks {graph : FlowGraph}
    (inside : ∀ block ∈ graph.blocks, ∀ next ∈ block.successors, next.index < graph.blocks.length) :
    graph.Linked := by
  intro id next way
  rw [block] at way
  cases found : graph.blocks[id.index]? with
  | none =>
    rw [found] at way
    cases way
  | some block =>
    rw [found] at way
    exact inside block (mem_of_getElem? found) next way

/-- What is known before the operation at a position of a block that is reached along one path. -/
def along (graph : FlowGraph) (path : List BlockId) (id : BlockId) (index : Nat) : FlowState :=
  (graph.arriving path).applyAll ((graph.block id).ops.take index)

/-- Every path to a block leaves a binding in a state before the operation at a position. -/
def PathsAgree (graph : FlowGraph) (id : BlockId) (index : Nat) (binding : BindingId) (known : NoneState) : Prop :=
  ∀ path, graph.Leads path id → (graph.along path id index).get binding = known

end FlowGraph

def Observation.report? (graph : FlowGraph) (use : Observation) : Option FlowViolation :=
  if use.state.forbids use.kind then
    some ⟨use.binding, graph.bindingName use.binding, use.state, use.kind, use.span⟩
  else none

def NoneState.neededCode? : NoneState → Option DiagnosticCode
  | .unknown => some .useBeforeAssignment
  | .definitelyNone => some .noneUseError
  | .definitelyNotNone => none
  | .maybeNone => some .noneUseWarning

namespace FlowAnalysis

/-- The report of the operation at a place, if it is a use that is to be reported. -/
def reportAt (analysis : FlowAnalysis) (place : BlockId × Nat) : Option FlowViolation :=
  (analysis.stateAt place.1 place.2).bind fun state =>
    ((analysis.graph.block place.1).ops[place.2]?.bind (FlowOp.observed? state)).bind
      (Observation.report? analysis.graph)

theorem reports_in_block (analysis : FlowAnalysis) (id : BlockId) :
    (analysis.observationsIn id).filterMap (Observation.report? analysis.graph) =
      (List.range (analysis.graph.block id).ops.length).filterMap fun index => analysis.reportAt (id, index) := by
  unfold observationsIn reportAt stateAt
  cases found : analysis.entries.get id with
  | none => simp [found]
  | some state =>
    simp only [found, Option.map_some, Option.bind_some]
    rw [observe_eq_filterMap, filterMap_filterMap]

theorem observations_eq {analysis : FlowAnalysis} (length : analysis.entries.length = analysis.graph.blocks.length) :
    analysis.observations =
      (List.range analysis.graph.blocks.length).flatMap fun block => analysis.observationsIn ⟨block⟩ := by
  have blocks : analysis.graph.blocks.zip analysis.entries =
      (List.range analysis.graph.blocks.length).map fun block =>
        (analysis.graph.block ⟨block⟩, analysis.entries.get ⟨block⟩) := by
    refine ext_getElem (by simp [length]) fun index left right => ?_
    have inside : index < analysis.graph.blocks.length := by simpa [length] using left
    simp [FlowGraph.block, FlowEntries.get, inside, length]
  rw [observations, blocks, flatMap_map]
  rfl

theorem violations_eq {analysis : FlowAnalysis} (length : analysis.entries.length = analysis.graph.blocks.length) :
    analysis.violations = (analysis.graph.places.filterMap analysis.reportAt).mergeSort FlowViolation.notAfter := by
  have found : analysis.violations =
      (analysis.observations.filterMap (Observation.report? analysis.graph)).mergeSort FlowViolation.notAfter := by
    rw [violations, ← filterMap_eq_map, filterMap_filter]
    rfl
  rw [found, observations_eq length, FlowGraph.places, filterMap_flatMap, filterMap_flatMap]
  simp only [reports_in_block, filterMap_map]
  rfl

variable {graph : FlowGraph} {id : BlockId} {index : Nat} {binding : BindingId} {state : FlowState} {known : NoneState}

theorem isReachable_iff (linked : graph.Linked) (inside : id.index < graph.blocks.length) :
    (ofGraph graph).isReachable id = true ↔ ∃ path, graph.Leads path id := by
  rw [isReachable, Option.isSome_iff_exists]
  constructor
  · rintro ⟨state, found⟩
    exact (FlowEntries.grounded_ofGraph graph id state found).reached
  · rintro ⟨path, leads⟩
    obtain ⟨known, found, _⟩ := FlowEntries.within_of_leads (Nat.zero_lt_of_lt inside) linked leads
    exact ⟨known, found⟩

theorem inside_of_isReachable (linked : graph.Linked) (reached : (ofGraph graph).isReachable id = true) :
    id.index < graph.blocks.length := by
  rw [← FlowEntries.length_ofGraph linked]
  by_contra outside
  simp [isReachable, ofGraph, FlowEntries.get, getElem?_eq_none (Nat.le_of_not_lt outside)] at reached

theorem get_of_pathsAgree (found : (ofGraph graph).stateAt id index = some state)
    (agree : graph.PathsAgree id index binding known) : state.get binding = known := by
  obtain ⟨start, here, rfl⟩ := Option.map_eq_some_iff.1 found
  exact (FlowEntries.grounded_ofGraph graph id start here).applyAll _ agree

theorem pathsAgree_of_get (linked : graph.Linked) (reached : (ofGraph graph).isReachable id = true)
    (found : (ofGraph graph).stateAt id index = some state) (certain : state.get binding ≠ .maybeNone) :
    graph.PathsAgree id index binding (state.get binding) := by
  intro path leads
  have nonempty := Nat.zero_lt_of_lt (inside_of_isReachable linked reached)
  obtain ⟨start, here, rfl⟩ := Option.map_eq_some_iff.1 found
  obtain ⟨known, there, within⟩ := FlowEntries.within_of_leads nonempty linked leads
  obtain rfl := Option.some.inj (here.symm.trans there)
  rcases (within.applyAll ((graph.block id).ops.take index)).2 binding with same | maybe
  · exact same.symm
  · exact absurd maybe certain

theorem get_eq_maybeNone_iff (linked : graph.Linked) (reached : (ofGraph graph).isReachable id = true)
    (found : (ofGraph graph).stateAt id index = some state) :
    state.get binding = .maybeNone ↔
      (∃ first second, graph.Leads first id ∧ graph.Leads second id ∧
        (graph.along first id index).get binding ≠ (graph.along second id index).get binding) ∨
      graph.PathsAgree id index binding .maybeNone := by
  constructor
  · intro maybe
    obtain ⟨path, leads⟩ := (isReachable_iff linked (inside_of_isReachable linked reached)).1 reached
    by_cases agree : graph.PathsAgree id index binding ((graph.along path id index).get binding)
    · rw [← get_of_pathsAgree found agree, maybe] at agree
      exact .inr agree
    · simp only [FlowGraph.PathsAgree, not_forall] at agree
      obtain ⟨other, also, differ⟩ := agree
      exact .inl ⟨other, path, also, leads, differ⟩
  · rintro (⟨first, second, here, there, differ⟩ | agree)
    · by_contra certain
      have agree := pathsAgree_of_get linked reached found certain
      exact differ ((agree first here).trans (agree second there).symm)
    · exact get_of_pathsAgree found agree

theorem get_eq_iff_pathsAgree (linked : graph.Linked) (reached : (ofGraph graph).isReachable id = true)
    (found : (ofGraph graph).stateAt id index = some state) (certain : known ≠ .maybeNone) :
    state.get binding = known ↔ graph.PathsAgree id index binding known := by
  refine ⟨?_, get_of_pathsAgree found⟩
  rintro rfl
  exact pathsAgree_of_get linked reached found certain

theorem code_reportAt {kind : UseKind} {span : Span} (found : (ofGraph graph).stateAt id index = some state)
    (use : (graph.block id).ops[index]? = some (.use binding kind span)) (needs : kind.requiresValue = true) :
    ((ofGraph graph).reportAt (id, index)).map FlowViolation.code = (state.get binding).neededCode? := by
  have op : ((ofGraph graph).graph.block id).ops[index]? = some (.use binding kind span) := use
  cases known : state.get binding <;>
    simp [reportAt, found, op, FlowOp.observed?, Observation.report?, known, NoneState.forbids, needs,
      FlowViolation.code, NoneState.neededCode?]

/-- The search ends with nothing waiting. It reaches the blocks that a path leads to, and at each operation of such a
block it finds the merge over all paths: what every path leaves in a binding, and that the binding may be None where
there is no such state. So a use that needs a value is reported by what the paths to it leave: always None, always
nothing assigned, or not always the same. -/
theorem merges_over_paths (graph : FlowGraph) (linked : graph.Linked) :
    Relation.ReflTransGen (FlowEntries.Round graph) (FlowEntries.initial graph, [FlowGraph.entry])
      ((ofGraph graph).entries, []) ∧
    (∀ id : BlockId, id.index < graph.blocks.length →
      ((ofGraph graph).isReachable id = true ↔ ∃ path, graph.Leads path id)) ∧
    (∀ id index, (ofGraph graph).isReachable id = true →
      ∃ state, (ofGraph graph).stateAt id index = some state ∧ state.length = graph.bindings.length ∧
        ∀ binding, (∀ known, known ≠ .maybeNone →
            (state.get binding = known ↔ graph.PathsAgree id index binding known)) ∧
          (state.get binding = .maybeNone ↔
            ∀ known, known ≠ .maybeNone → ¬ graph.PathsAgree id index binding known)) ∧
    (ofGraph graph).violations =
      (graph.places.filterMap (ofGraph graph).reportAt).mergeSort FlowViolation.notAfter ∧
    ∀ id index binding kind span, (ofGraph graph).isReachable id = true →
      (graph.block id).ops[index]? = some (.use binding kind span) → kind.requiresValue = true →
        (((ofGraph graph).reportAt (id, index)).map FlowViolation.code = some .noneUseError ↔
          graph.PathsAgree id index binding .definitelyNone) ∧
        (((ofGraph graph).reportAt (id, index)).map FlowViolation.code = some .useBeforeAssignment ↔
          graph.PathsAgree id index binding .unknown) ∧
        (((ofGraph graph).reportAt (id, index)).map FlowViolation.code = some .noneUseWarning ↔
          (∃ first second, graph.Leads first id ∧ graph.Leads second id ∧
            (graph.along first id index).get binding ≠ (graph.along second id index).get binding) ∨
          graph.PathsAgree id index binding .maybeNone) := by
  have known_at : ∀ id index, (ofGraph graph).isReachable id = true →
      ∃ state, (ofGraph graph).stateAt id index = some state ∧ state.length = graph.bindings.length := by
    intro id index reached
    obtain ⟨start, here⟩ := Option.isSome_iff_exists.1 reached
    refine ⟨_, Option.map_eq_some_iff.2 ⟨start, here, rfl⟩, ?_⟩
    exact (FlowState.length_applyAll _ _).trans (FlowEntries.grounded_ofGraph graph id start here).length
  refine ⟨FlowEntries.rounds_ofGraph linked, fun id => isReachable_iff linked, ?states,
    violations_eq (FlowEntries.length_ofGraph linked), ?reports⟩
  case states =>
    intro id index reached
    obtain ⟨state, found, length⟩ := known_at id index reached
    refine ⟨state, found, length, fun binding => ⟨fun known => get_eq_iff_pathsAgree linked reached found, ?_, ?_⟩⟩
    · intro maybe known certain agree
      exact certain ((get_of_pathsAgree found agree).symm.trans maybe)
    · intro disagree
      by_contra certain
      exact disagree _ certain (pathsAgree_of_get linked reached found certain)
  case reports =>
    intro id index binding kind span reached use needs
    obtain ⟨state, found, _⟩ := known_at id index reached
    rw [code_reportAt found use needs, ← get_eq_iff_pathsAgree linked reached found (by decide),
      ← get_eq_iff_pathsAgree linked reached found (by decide), ← get_eq_maybeNone_iff linked reached found]
    cases state.get binding <;> decide

/-- A loop: `person` starts with a value and is used in every round before `nobody`, which is None, is assigned to it.
The use is reported as a warning, since the first round and the others disagree; `nobody` is None in every round. -/
theorem merges_over_paths_loop :
    let person : BindingId := ⟨0⟩
    let nobody : BindingId := ⟨1⟩
    let graph : FlowGraph := {
      blocks := [
        ⟨[.declare person (some .notNone), .declare nobody (some .none)], [⟨2⟩]⟩,
        ⟨[], []⟩,
        ⟨[.use person .receiver { line := 3 }, .assign person (.binding nobody)], [⟨2⟩, ⟨1⟩]⟩]
      bindings := [⟨"person", { line := 1 }⟩, ⟨"nobody", { line := 2 }⟩] }
    graph.Linked ∧
    (∃ first second, graph.Leads first ⟨2⟩ ∧ graph.Leads second ⟨2⟩ ∧
      (graph.along first ⟨2⟩ 0).get person ≠ (graph.along second ⟨2⟩ 0).get person) ∧
    graph.PathsAgree ⟨2⟩ 1 nobody .definitelyNone := by
  intro person nobody graph
  have linked : graph.Linked := FlowGraph.linked_of_blocks (by decide)
  obtain ⟨_, _, states, _, reports⟩ := merges_over_paths graph linked
  have reached : (ofGraph graph).isReachable ⟨2⟩ = true := by decide +kernel
  refine ⟨linked, ?_, ?_⟩
  · have warned : ((ofGraph graph).reportAt (⟨2⟩, 0)).map FlowViolation.code = some .noneUseWarning := by
      decide +kernel
    refine ((reports ⟨2⟩ 0 person .receiver { line := 3 } reached rfl rfl).2.2.1 warned).resolve_right fun agree => ?_
    have first : graph.Leads [⟨0⟩] ⟨2⟩ := FlowGraph.Leads.step .start (by decide)
    exact absurd (agree _ first) (by decide)
  · obtain ⟨state, found, _, merged⟩ := states ⟨2⟩ 1 reached
    refine ((merged nobody).1 .definitelyNone (by decide)).1 ?_
    have computed : (ofGraph graph).stateAt ⟨2⟩ 1 = some [.maybeNone, .definitelyNone] := by decide +kernel
    obtain rfl := Option.some.inj (found.symm.trans computed)
    rfl

end FlowAnalysis

end SemanticChecker
