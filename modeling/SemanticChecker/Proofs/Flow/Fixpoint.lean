import SemanticChecker.Flow.Analysis

/-! The states that flow through a graph come to rest. What is found at the start of every block is
closed under the ways between blocks, because the steps the search is given do not run out. -/
namespace SemanticChecker

open List

namespace NoneState

def Within (state known : NoneState) : Prop :=
  known = state ∨ known = maybeNone

theorem Within.refl (state : NoneState) : state.Within state :=
  .inl rfl

theorem Within.trans {a b c : NoneState} (first : a.Within b) (second : b.Within c) : a.Within c := by
  rcases second with rfl | rfl
  · exact first
  · exact .inr rfl

theorem within_join_left (a b : NoneState) : a.Within (a.join b) := by
  by_cases same : a = b
  · simp [join, same, Within]
  · simp [join, same, Within]

theorem within_join_right (a b : NoneState) : b.Within (a.join b) := by
  rw [join_comm]
  exact within_join_left b a

end NoneState

namespace FlowState

def Within (state known : FlowState) : Prop :=
  state.length = known.length ∧ ∀ binding, (state.get binding).Within (known.get binding)

theorem Within.refl (state : FlowState) : state.Within state :=
  ⟨rfl, fun _ => .refl _⟩

theorem Within.trans {a b c : FlowState} (first : a.Within b) (second : b.Within c) : a.Within c :=
  ⟨first.1.trans second.1, fun binding => (first.2 binding).trans (second.2 binding)⟩

@[simp] theorem length_apply (state : FlowState) (op : FlowOp) :
    (state.apply op).length = state.length := by
  cases op with
  | declare binding value => cases value <;> simp [apply]
  | assign binding value => simp [apply]
  | assume binding known => simp [apply]
  | use binding kind span => rfl

@[simp] theorem length_applyAll (state : FlowState) (ops : List FlowOp) :
    (state.applyAll ops).length = state.length := by
  induction ops generalizing state with
  | nil => rfl
  | cons op rest ih =>
    calc ((state.apply op).applyAll rest).length
        = (state.apply op).length := ih _
      _ = state.length := length_apply state op

@[simp] theorem length_join {a b : FlowState} (same : a.length = b.length) :
    (a.join b).length = a.length := by
  simp [join, same]

theorem get_join {a b : FlowState} (same : a.length = b.length) (binding : BindingId) :
    (a.join b).get binding = (a.get binding).join (b.get binding) := by
  unfold get join
  rw [getElem?_zipWith]
  by_cases inside : binding.index < a.length
  · have also : binding.index < b.length := same ▸ inside
    simp [inside, also]
  · have outside : ¬ binding.index < b.length := same ▸ inside
    simp [getElem?_eq_none (Nat.le_of_not_lt inside), getElem?_eq_none (Nat.le_of_not_lt outside)]

theorem within_join_left {a b : FlowState} (same : a.length = b.length) : a.Within (a.join b) := by
  refine ⟨(length_join same).symm, fun binding => ?_⟩
  rw [get_join same]
  exact NoneState.within_join_left _ _

theorem within_join_right {a b : FlowState} (same : a.length = b.length) : b.Within (a.join b) := by
  refine ⟨same.symm.trans (length_join same).symm, fun binding => ?_⟩
  rw [get_join same]
  exact NoneState.within_join_right _ _

def slack : FlowState → Nat
  | [] => 0
  | state :: rest => (if state = .maybeNone then 0 else 1) + slack rest

theorem slack_le_length (state : FlowState) : slack state ≤ state.length := by
  induction state with
  | nil => exact Nat.le_refl 0
  | cons first rest ih =>
    have head : (if first = .maybeNone then 0 else 1) ≤ 1 := by split <;> omega
    simp only [slack, length_cons]
    omega

theorem join_eq_or_slack_lt (a b : FlowState) (same : a.length = b.length) :
    a.join b = a ∨ slack (a.join b) < slack a := by
  induction a generalizing b with
  | nil => exact .inl rfl
  | cons first rest ih =>
    cases b with
    | nil => simp at same
    | cons other others =>
      have step : FlowState.join (first :: rest) (other :: others)
          = first.join other :: FlowState.join rest others := rfl
      have head : first.join other = first ∨ (first.join other = .maybeNone ∧ first ≠ .maybeNone) := by
        cases first <;> cases other <;> decide
      have tail := ih others (by simpa using same)
      rw [step]
      rcases head with kept | ⟨risen, unsettled⟩ <;> rcases tail with stays | less
      · exact .inl (by rw [kept, stays])
      · right; simp only [slack, kept]; omega
      · right; simp only [slack, risen, stays, if_neg unsettled]; simp
      · right; simp only [slack, risen, if_neg unsettled]; simp; omega

end FlowState

namespace FlowGraph

/-- Every way leads to a block of the graph. -/
def Linked (graph : FlowGraph) : Prop :=
  ∀ id, ∀ next ∈ (graph.block id).successors, next.index < graph.blocks.length

end FlowGraph

namespace FlowEntries

variable {entries : FlowEntries} {id : BlockId} {count : Nat} {state : FlowState} {graph : FlowGraph}
  {rest : List BlockId} {steps : Nat}

theorem get_set_self (inside : id.index < entries.length) (state : Option FlowState) :
    FlowEntries.get (entries.set id.index state) id = state := by
  simp [FlowEntries.get, inside]

theorem get_set_of_ne {other : BlockId} (differ : id ≠ other) (state : Option FlowState) :
    FlowEntries.get (entries.set id.index state) other = entries.get other := by
  have indices : id.index ≠ other.index := fun same => differ (by cases id; cases other; cases same; rfl)
  simp [FlowEntries.get, indices]

def Sized (count : Nat) (entries : FlowEntries) : Prop :=
  ∀ id state, entries.get id = some state → state.length = count

/-- `later` knows at least the blocks that `entries` does, and of them no more. -/
def Below (entries later : FlowEntries) : Prop :=
  ∀ id state, entries.get id = some state → ∃ known, later.get id = some known ∧ state.Within known

theorem Below.refl (entries : FlowEntries) : entries.Below entries :=
  fun _ state found => ⟨state, found, .refl state⟩

theorem Below.trans {a b c : FlowEntries} (first : a.Below b) (second : b.Below c) : a.Below c := by
  intro id state found
  obtain ⟨known, there, within⟩ := first id state found
  obtain ⟨most, last, further⟩ := second id known there
  exact ⟨most, last, within.trans further⟩

/-- How often a block can still learn something: that it is reached, and of each binding once. -/
def slackAt (count : Nat) : Option FlowState → Nat
  | none => count + 1
  | some state => state.slack

def slack (count : Nat) : FlowEntries → Nat
  | [] => 0
  | entry :: rest => slackAt count entry + slack count rest

theorem slack_set (count : Nat) (entries : FlowEntries) (index : Nat) (inside : index < entries.length)
    (entry : Option FlowState) :
    slack count (entries.set index entry) + slackAt count (entries[index]?).join
      = slack count entries + slackAt count entry := by
  induction entries generalizing index with
  | nil => simp at inside
  | cons first rest ih =>
    cases index with
    | zero =>
      simp only [set_cons_zero, slack, getElem?_cons_zero, Option.join_some]
      omega
    | succ index =>
      have tail := ih index (by simpa using inside)
      simp only [set_cons_succ, slack, getElem?_cons_succ]
      omega

theorem slack_replicate (count blocks : Nat) :
    slack count (List.replicate blocks none) = blocks * (count + 1) := by
  induction blocks with
  | zero => simp [slack]
  | succ blocks ih =>
    simp only [replicate_succ, slack, slackAt, ih, Nat.succ_mul]
    omega

/-- What comes of bringing a state to some blocks, of which `changed` learn something. -/
structure Brought (count : Nat) (entries : FlowEntries) (state : FlowState) (targets : List BlockId)
    (later : FlowEntries) (changed : List BlockId) : Prop where
  length : later.length = entries.length
  sized : later.Sized count
  below : entries.Below later
  arrived : ∀ id ∈ targets, ∃ known, later.get id = some known ∧ state.Within known
  unchanged : ∀ id, id ∉ changed → later.get id = entries.get id
  learnt : slack count later + changed.length ≤ slack count entries

theorem Brought.set {count : Nat} {entries : FlowEntries} {state merged : FlowState} {id : BlockId}
    (inside : id.index < entries.length) (sized : entries.Sized count) (length : merged.length = count)
    (within : state.Within merged)
    (above : ∀ old, entries.get id = some old → old.Within merged)
    (less : merged.slack < slackAt count (entries.get id)) :
    Brought count entries state [id] (entries.set id.index (some merged)) [id] where
  length := length_set
  sized := by
    intro other found there
    by_cases same : id = other
    · subst same
      rw [get_set_self inside] at there
      obtain rfl := Option.some.inj there
      exact length
    · rw [get_set_of_ne same] at there
      exact sized other found there
  below := by
    intro other old there
    by_cases same : id = other
    · subst same
      exact ⟨merged, get_set_self inside _, above old there⟩
    · exact ⟨old, (get_set_of_ne same _).trans there, .refl old⟩
  arrived := by
    intro other chosen
    obtain rfl := mem_singleton.1 chosen
    exact ⟨merged, get_set_self inside _, within⟩
  unchanged := by
    intro other untouched
    exact get_set_of_ne (fun same => untouched (mem_singleton.2 same.symm)) _
  learnt := by
    have balance := slack_set count entries id.index inside (some merged)
    have gained : slackAt count (some merged) < slackAt count (entries[id.index]?).join := less
    rw [length_singleton]
    omega

theorem brought_flowTo (inside : id.index < entries.length) (sized : entries.Sized count)
    (length : state.length = count) :
    Brought count entries state [id] (entries.flowTo state id).1 (entries.flowTo state id).2 := by
  unfold flowTo
  cases found : entries.get id with
  | none =>
    simp only [reduceCtorEq, ↓reduceIte]
    refine .set inside sized length (.refl state) (by simp [found]) ?_
    have bound := state.slack_le_length
    rw [found]
    simp only [slackAt]
    omega
  | some existing =>
    have same : existing.length = state.length := (sized id existing found).trans length.symm
    by_cases settled : existing.join state = existing
    · simp only [settled, ↓reduceIte]
      refine ⟨rfl, sized, .refl entries, ?_, fun _ _ => rfl, Nat.le_refl _⟩
      intro other chosen
      obtain rfl := mem_singleton.1 chosen
      exact ⟨existing, found, settled ▸ FlowState.within_join_right same⟩
    · have changes : some existing ≠ some (existing.join state) :=
        fun equal => settled (Option.some.inj equal).symm
      simp only [changes, ↓reduceIte]
      refine .set inside sized ?_ (FlowState.within_join_right same) ?_ ?_
      · rw [FlowState.length_join same]
        exact sized id existing found
      · intro old there
        obtain rfl := Option.some.inj (found.symm.trans there)
        exact FlowState.within_join_left same
      · rw [found]
        exact (existing.join_eq_or_slack_lt state same).resolve_left settled

theorem brought_flowToAll {targets : List BlockId} (inside : ∀ id ∈ targets, id.index < entries.length)
    (sized : entries.Sized count) (length : state.length = count) :
    Brought count entries state targets (entries.flowToAll state targets).1 (entries.flowToAll state targets).2 := by
  induction targets generalizing entries with
  | nil => exact ⟨rfl, sized, .refl entries, by simp, fun _ _ => rfl, Nat.le_refl _⟩
  | cons id rest ih =>
    have first := brought_flowTo (inside id (mem_cons_self ..)) sized length
    have still : ∀ other ∈ rest, other.index < (entries.flowTo state id).1.length :=
      fun other chosen => first.length ▸ inside other (mem_cons_of_mem _ chosen)
    have second := ih still first.sized
    simp only [flowToAll]
    refine ⟨second.length.trans first.length, second.sized, first.below.trans second.below, ?_, ?_, ?_⟩
    · intro other chosen
      rcases mem_cons.1 chosen with rfl | later
      · obtain ⟨known, there, within⟩ := first.arrived other (mem_singleton.2 rfl)
        obtain ⟨most, last, further⟩ := second.below other known there
        exact ⟨most, last, within.trans further⟩
      · exact second.arrived other later
    · intro other untouched
      rw [mem_append, not_or] at untouched
      rw [second.unchanged other untouched.2, first.unchanged other untouched.1]
    · have early := first.learnt
      have late := second.learnt
      rw [length_append]
      omega

/-- What is known at the end of a block is known at the start of all that follow it. -/
def Flows (graph : FlowGraph) (entries : FlowEntries) (id : BlockId) (state : FlowState) : Prop :=
  ∀ next ∈ (graph.block id).successors,
    ∃ known, entries.get next = some known ∧ (state.applyAll (graph.block id).ops).Within known

theorem Flows.below {graph : FlowGraph} {entries later : FlowEntries} {id : BlockId} {state : FlowState}
    (flows : Flows graph entries id state) (below : entries.Below later) : Flows graph later id state := by
  intro next follows
  obtain ⟨known, there, within⟩ := flows next follows
  obtain ⟨most, last, further⟩ := below next known there
  exact ⟨most, last, within.trans further⟩

/-- The search is under way: blocks whose knowledge has not been passed on are waiting, and no more
than `steps` are still to come. -/
structure Searching (graph : FlowGraph) (entries : FlowEntries) (waiting : List BlockId) (steps : Nat) :
    Prop where
  length : entries.length = graph.blocks.length
  sized : entries.Sized graph.bindings.length
  start : FlowEntries.Below (initial graph) entries
  passed : ∀ id state, entries.get id = some state → id ∈ waiting ∨ Flows graph entries id state
  enough : waiting.length + slack graph.bindings.length entries ≤ steps

theorem Searching.step (linked : graph.Linked) (searching : Searching graph entries (id :: rest) (steps + 1))
    (found : entries.get id = some state) :
    Searching graph
      (entries.flowToAll (state.applyAll (graph.block id).ops) (graph.block id).successors).1
      (rest ++ (entries.flowToAll (state.applyAll (graph.block id).ops) (graph.block id).successors).2)
      steps := by
  have inside : ∀ next ∈ (graph.block id).successors, next.index < entries.length :=
    fun next follows => searching.length.symm ▸ linked id next follows
  have length : (state.applyAll (graph.block id).ops).length = graph.bindings.length :=
    (state.length_applyAll _).trans (searching.sized id state found)
  have brought := brought_flowToAll inside searching.sized length
  refine ⟨brought.length.trans searching.length, brought.sized, searching.start.trans brought.below, ?_, ?_⟩
  · intro other known there
    by_cases learnt : other ∈ (entries.flowToAll (state.applyAll (graph.block id).ops)
        (graph.block id).successors).2
    · exact .inl (mem_append_right _ learnt)
    · rw [brought.unchanged other learnt] at there
      rcases searching.passed other known there with waits | flows
      · rcases mem_cons.1 waits with rfl | later
        · obtain rfl := Option.some.inj (found.symm.trans there)
          exact .inr brought.arrived
        · exact .inl (mem_append_left _ later)
      · exact .inr (flows.below brought.below)
  · have before := searching.enough
    have after := brought.learnt
    rw [length_cons] at before
    rw [length_append]
    omega

theorem Searching.skip (searching : Searching graph entries (id :: rest) (steps + 1))
    (unreached : entries.get id = none) : Searching graph entries rest steps := by
  refine ⟨searching.length, searching.sized, searching.start, ?_, ?_⟩
  · intro other known there
    rcases searching.passed other known there with waits | flows
    · rcases mem_cons.1 waits with rfl | later
      · rw [unreached] at there
        cases there
      · exact .inl later
    · exact .inr flows
  · have before := searching.enough
    rw [length_cons] at before
    omega

theorem Searching.propagate {graph : FlowGraph} (linked : graph.Linked) {steps : Nat} :
    ∀ {entries : FlowEntries} {waiting : List BlockId}, Searching graph entries waiting steps →
      ∃ left, Searching graph (FlowEntries.propagate graph steps entries waiting) [] left := by
  induction steps with
  | zero =>
    intro entries waiting searching
    have none_waits : waiting = [] := eq_nil_of_length_eq_zero (by have := searching.enough; omega)
    subst none_waits
    exact ⟨0, searching⟩
  | succ steps ih =>
    intro entries waiting searching
    cases waiting with
    | nil => exact ⟨steps + 1, searching⟩
    | cons id rest =>
      cases found : entries.get id with
      | none =>
        simp only [FlowEntries.propagate, found]
        exact ih (searching.skip found)
      | some state =>
        simp only [FlowEntries.propagate, found]
        exact ih (searching.step linked found)

theorem get_initial (found : FlowEntries.get (initial graph) id = some state) :
    id = FlowGraph.entry ∧ state = List.replicate graph.bindings.length .unknown := by
  by_cases same : FlowGraph.entry = id
  · subst same
    refine ⟨rfl, ?_⟩
    unfold initial FlowEntries.get at found
    rw [getElem?_set] at found
    split at found
    · split at found
      · simpa using found.symm
      · simp at found
    · contradiction
  · unfold initial at found
    rw [get_set_of_ne same] at found
    simp only [FlowEntries.get, getElem?_replicate] at found
    split at found <;> simp at found

theorem searching_initial (graph : FlowGraph) (nonempty : 0 < graph.blocks.length) :
    Searching graph (initial graph) [FlowGraph.entry]
      (graph.blocks.length * (graph.bindings.length + 1) + 1) where
  length := by simp [initial]
  sized := by
    intro id state found
    rw [(get_initial found).2, length_replicate]
  start := .refl _
  passed := by
    intro id state found
    exact .inl (mem_singleton.2 (get_initial found).1)
  enough := by
    have balance := slack_set graph.bindings.length (List.replicate graph.blocks.length none)
      FlowGraph.entry.index (by simpa [FlowGraph.entry] using nonempty)
      (some (List.replicate graph.bindings.length .unknown))
    have bound := FlowState.slack_le_length (List.replicate graph.bindings.length .unknown)
    rw [length_replicate] at bound
    rw [slack_replicate] at balance
    have unreached : ((List.replicate graph.blocks.length (none : Option FlowState))[FlowGraph.entry.index]?).join
        = none := by
      rw [getElem?_replicate]
      split <;> rfl
    rw [unreached] at balance
    simp only [slackAt] at balance
    simp only [initial, length_singleton]
    omega

/-- Where the search comes to rest: the start is known, and what is known is passed on everywhere. -/
theorem ofGraph_closed (graph : FlowGraph) (nonempty : 0 < graph.blocks.length) (linked : graph.Linked) :
    FlowEntries.Below (initial graph) (ofGraph graph) ∧
      ∀ id state, (ofGraph graph).get id = some state → Flows graph (ofGraph graph) id state := by
  obtain ⟨left, rested⟩ := (searching_initial graph nonempty).propagate linked
  refine ⟨rested.start, fun id state found => ?_⟩
  exact (rested.passed id state found).resolve_left (not_mem_nil)

end FlowEntries

end SemanticChecker
