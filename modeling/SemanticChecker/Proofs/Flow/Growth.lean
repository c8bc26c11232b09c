import SemanticChecker.Flow.Builder
import SemanticChecker.Proofs.Flow.Fixpoint

/-! Graphs under construction. What is built goes on with the block at hand and then with new ones; a return and a
conditional finish the block at hand. -/
namespace SemanticChecker

open List

namespace FlowGraph

@[simp] theorem length_addBlock (graph : FlowGraph) :
    graph.addBlock.1.blocks.length = graph.blocks.length + 1 := by
  simp [addBlock]

@[simp] theorem length_addOp (graph : FlowGraph) (id : BlockId) (op : FlowOp) :
    (graph.addOp id op).blocks.length = graph.blocks.length := by
  simp [addOp]

@[simp] theorem length_addEdge (graph : FlowGraph) (source target : BlockId) :
    (graph.addEdge source target).blocks.length = graph.blocks.length := by
  simp [addEdge]

@[simp] theorem block_addBlock (graph : FlowGraph) (id : BlockId) :
    graph.addBlock.1.block id = graph.block id := by
  simp only [block, addBlock, getElem?_append]
  split
  · rfl
  · rename_i outside
    rw [getElem?_eq_none (Nat.le_of_not_lt outside)]
    cases id.index - graph.blocks.length <;> rfl

variable {graph : FlowGraph} {id source other : BlockId} {path : List BlockId} {later : FlowGraph}

theorem block_of_outside (outside : graph.blocks.length ≤ id.index) : graph.block id = {} := by
  simp [block, getElem?_eq_none outside]

theorem index_ne (differ : id ≠ other) : id.index ≠ other.index := by
  intro same
  cases id; cases other; cases same
  exact differ rfl

theorem block_addOp_of_ne (differ : id ≠ other) (op : FlowOp) :
    (graph.addOp id op).block other = graph.block other := by
  simp [block, addOp, index_ne differ]

theorem block_addOp_self (inside : id.index < graph.blocks.length) (op : FlowOp) :
    (graph.addOp id op).block id = { graph.block id with ops := (graph.block id).ops ++ [op] } := by
  simp [block, addOp, inside]

theorem block_addEdge_of_ne (differ : source ≠ other) (target : BlockId) :
    (graph.addEdge source target).block other = graph.block other := by
  simp [block, addEdge, index_ne differ]

theorem block_addEdge_self (inside : source.index < graph.blocks.length) (target : BlockId) :
    (graph.addEdge source target).block source
      = if target ∈ (graph.block source).successors then graph.block source
        else { graph.block source with successors := (graph.block source).successors ++ [target] } := by
  simp [block, addEdge, inside]

@[simp] theorem ops_addEdge (graph : FlowGraph) (source target other : BlockId) :
    ((graph.addEdge source target).block other).ops = (graph.block other).ops := by
  by_cases same : source = other
  · subst same
    by_cases inside : source.index < graph.blocks.length
    · rw [block_addEdge_self inside]
      split <;> rfl
    · have outside := Nat.le_of_not_lt inside
      rw [block_of_outside outside, block_of_outside (by simpa using outside)]
  · rw [block_addEdge_of_ne same]

theorem mem_successors_addEdge (inside : source.index < graph.blocks.length) (target other next : BlockId) :
    next ∈ ((graph.addEdge source target).block other).successors
      ↔ next ∈ (graph.block other).successors ∨ (other = source ∧ next = target) := by
  by_cases same : source = other
  · subst same
    rw [block_addEdge_self inside]
    split
    · rename_i known
      constructor
      · exact .inl
      · rintro (old | ⟨-, rfl⟩)
        · exact old
        · exact known
    · simp
  · rw [block_addEdge_of_ne same]
    have differ : other ≠ source := fun equal => same equal.symm
    simp [differ]

theorem addBlock_addEdge (inside : source.index < graph.blocks.length) (target : BlockId) :
    (graph.addEdge source target).addBlock.1 = graph.addBlock.1.addEdge source target := by
  simp only [addEdge, addBlock]
  congr 1
  apply ext_getElem?
  intro index
  simp only [getElem?_append, getElem?_modify, length_modify]
  split
  · rfl
  · have differ : source.index ≠ index := by omega
    simp [differ]

theorem Linked.addEdge {graph : FlowGraph} (linked : graph.Linked) {source target : BlockId}
    (inside : source.index < graph.blocks.length) (known : target.index < graph.blocks.length) :
    (graph.addEdge source target).Linked := by
  intro id next way
  rw [length_addEdge]
  rcases (mem_successors_addEdge inside target id next).1 way with old | ⟨-, rfl⟩
  · exact linked id next old
  · exact known

/-- The blocks that are gone through from the start of a body before `id` is reached. -/
inductive Leads (graph : FlowGraph) : List BlockId → BlockId → Prop where
  | start : Leads graph [] entry
  | step {path : List BlockId} {id next : BlockId} (before : Leads graph path id)
      (way : next ∈ (graph.block id).successors) : Leads graph (path ++ [id]) next

/-- The operations of blocks that are gone through one after the other. -/
def opsOn (graph : FlowGraph) (path : List BlockId) : List FlowOp :=
  path.flatMap fun id => (graph.block id).ops

theorem opsOn_concat (graph : FlowGraph) (path : List BlockId) (id : BlockId) :
    graph.opsOn (path ++ [id]) = graph.opsOn path ++ (graph.block id).ops := by
  simp [opsOn]

theorem Leads.not_mem {stuck : BlockId} (leads : graph.Leads path id) (final : (graph.block stuck).successors = []) :
    stuck ∉ path := by
  induction leads with
  | start => exact not_mem_nil
  | step before way ih =>
    intro member
    rcases mem_append.1 member with earlier | last
    · exact ih earlier
    · obtain rfl := mem_singleton.1 last
      rw [final] at way
      exact not_mem_nil way

theorem Leads.mono (leads : graph.Leads path id)
    (kept : ∀ other ∈ path, ∀ next ∈ (graph.block other).successors, next ∈ (later.block other).successors) :
    later.Leads path id := by
  induction leads with
  | start => exact .start
  | step before way ih =>
    have earlier := ih fun other member => kept other (mem_append_left _ member)
    exact earlier.step (kept _ (mem_append_right _ (mem_singleton.2 rfl)) _ way)

theorem opsOn_congr (kept : ∀ id ∈ path, (later.block id).ops = (graph.block id).ops) :
    later.opsOn path = graph.opsOn path := by
  induction path with
  | nil => rfl
  | cons id rest ih =>
    have head := kept id (mem_cons_self ..)
    have tail := ih fun other member => kept other (mem_cons_of_mem _ member)
    simp only [opsOn, flatMap_cons] at tail ⊢
    rw [head, tail]

end FlowGraph

namespace FlowBuilder

structure Sound (b : FlowBuilder) : Prop where
  linked : b.graph.Linked
  inside : b.current.index < b.graph.blocks.length
  unfinished : (b.graph.block b.current).successors = []
  exits : FlowGraph.exit.index < b.graph.blocks.length

structure Grows (b later : FlowBuilder) : Prop where
  blocks : b.graph.blocks.length ≤ later.graph.blocks.length
  kept : ∀ id, id.index < b.graph.blocks.length → id ≠ b.current → later.graph.block id = b.graph.block id
  current : later.current = b.current ∨ b.graph.blocks.length ≤ later.current.index
  bindings : ∃ more, later.graph.bindings = b.graph.bindings ++ more

theorem Grows.refl (b : FlowBuilder) : b.Grows b :=
  ⟨Nat.le_refl _, fun _ _ _ => rfl, .inl rfl, [], (append_nil _).symm⟩

variable {b : FlowBuilder} {id : BlockId}

theorem Grows.ne_current {later : FlowBuilder} (grows : b.Grows later) (inside : id.index < b.graph.blocks.length)
    (differ : id ≠ b.current) : id ≠ later.current := by
  rcases grows.current with same | fresh
  · rw [same]
    exact differ
  · intro equal
    subst equal
    omega

theorem Grows.trans {a c : FlowBuilder} (first : a.Grows b) (second : b.Grows c) : a.Grows c where
  blocks := Nat.le_trans first.blocks second.blocks
  kept := by
    intro id inside differ
    have there : id.index < b.graph.blocks.length := Nat.lt_of_lt_of_le inside first.blocks
    rw [second.kept id there (first.ne_current inside differ), first.kept id inside differ]
  current := by
    rcases second.current with same | fresh
    · rw [same]
      exact first.current
    · exact .inr (Nat.le_trans first.blocks fresh)
  bindings := by
    obtain ⟨early, before⟩ := first.bindings
    obtain ⟨late, after⟩ := second.bindings
    exact ⟨early ++ late, by rw [after, before, List.append_assoc]⟩

def emit (b : FlowBuilder) (op : FlowOp) : FlowBuilder :=
  { b with graph := b.graph.addOp b.current op }

theorem Sound.emit {b : FlowBuilder} (sound : b.Sound) (op : FlowOp) : (b.emit op).Sound := by
  have same : ∀ id, ((b.emit op).graph.block id).successors = (b.graph.block id).successors := by
    intro id
    by_cases here : b.current = id
    · subst here
      simp only [FlowBuilder.emit]
      rw [FlowGraph.block_addOp_self sound.inside]
    · simp only [FlowBuilder.emit]
      rw [FlowGraph.block_addOp_of_ne here]
  refine ⟨?_, ?_, (same _).trans sound.unfinished, ?_⟩
  · intro id next way
    rw [same] at way
    simpa [FlowBuilder.emit] using sound.linked id next way
  · simpa [FlowBuilder.emit] using sound.inside
  · simpa [FlowBuilder.emit] using sound.exits

theorem grows_emit (b : FlowBuilder) (op : FlowOp) : b.Grows (b.emit op) := by
  refine ⟨?_, ?_, .inl rfl, [], (append_nil _).symm⟩
  · simp [FlowBuilder.emit]
  · intro id _ differ
    exact FlowGraph.block_addOp_of_ne (Ne.symm differ) op

/-- The builder after the declaration of a name. -/
def declare (b : FlowBuilder) (name : String) (span : Span) : FlowBuilder :=
  { b with graph := (b.graph.addBinding name span).1 }

theorem Sound.declare {b : FlowBuilder} (sound : b.Sound) (name : String) (span : Span) :
    (b.declare name span).Sound :=
  ⟨sound.linked, sound.inside, sound.unfinished, sound.exits⟩

theorem grows_declare (b : FlowBuilder) (name : String) (span : Span) : b.Grows (b.declare name span) :=
  ⟨Nat.le_refl _, fun _ _ _ => rfl, .inl rfl, [⟨name, span⟩], rfl⟩

/-- The builder after the block at hand was finished with a way to `target`; it goes on in `next`. -/
def moveOn (b : FlowBuilder) (target next : BlockId) : FlowBuilder :=
  { graph := b.graph.addEdge b.current target, current := next }

theorem block_moveOn (differ : id ≠ b.current) (target next : BlockId) :
    (b.moveOn target next).graph.block id = b.graph.block id :=
  FlowGraph.block_addEdge_of_ne (Ne.symm differ) target

theorem Sound.moveOn {b : FlowBuilder} (sound : b.Sound) {target next : BlockId}
    (known : target.index < b.graph.blocks.length) (inside : next.index < b.graph.blocks.length)
    (differ : next ≠ b.current) (unfinished : (b.graph.block next).successors = []) :
    (b.moveOn target next).Sound where
  linked := sound.linked.addEdge sound.inside known
  inside := by simpa [FlowBuilder.moveOn] using inside
  unfinished := by rwa [show (b.moveOn target next).current = next from rfl, block_moveOn differ]
  exits := by simpa [FlowBuilder.moveOn] using sound.exits

def addBlock (b : FlowBuilder) : FlowBuilder :=
  { b with graph := b.graph.addBlock.1 }

theorem Sound.addBlock {b : FlowBuilder} (sound : b.Sound) : b.addBlock.Sound where
  linked := by
    intro id next way
    simp only [FlowBuilder.addBlock, FlowGraph.block_addBlock] at way
    have bound := sound.linked id next way
    simp only [FlowBuilder.addBlock, FlowGraph.length_addBlock]
    omega
  inside := by
    have bound := sound.inside
    simp only [FlowBuilder.addBlock, FlowGraph.length_addBlock]
    omega
  unfinished := by simpa [FlowBuilder.addBlock] using sound.unfinished
  exits := by
    have bound := sound.exits
    simp only [FlowBuilder.addBlock, FlowGraph.length_addBlock]
    omega

/-- The branches of a conditional and what follows it, when the block at hand forks. -/
def thenBlock (b : FlowBuilder) : BlockId := ⟨b.graph.blocks.length⟩

def elseBlock (b : FlowBuilder) : BlockId := ⟨b.graph.blocks.length + 1⟩

def joinBlock (b : FlowBuilder) : BlockId := ⟨b.graph.blocks.length + 2⟩

/-- The builder after the block at hand was finished with ways to two new blocks; it goes on in the
first of them. -/
def split (b : FlowBuilder) : FlowBuilder :=
  let graph := b.graph.addBlock.1.addBlock.1.addBlock.1
  { graph := (graph.addEdge b.current b.thenBlock).addEdge b.current b.elseBlock
    current := b.thenBlock }

@[simp] theorem length_split (b : FlowBuilder) :
    b.split.graph.blocks.length = b.graph.blocks.length + 3 := by
  simp [split]

theorem block_split (differ : id ≠ b.current) : b.split.graph.block id = b.graph.block id := by
  simp only [split]
  rw [FlowGraph.block_addEdge_of_ne (Ne.symm differ), FlowGraph.block_addEdge_of_ne (Ne.symm differ)]
  simp only [FlowGraph.block_addBlock]

theorem block_split_new (sound : b.Sound) (new : b.graph.blocks.length ≤ id.index) : b.split.graph.block id = {} := by
  have differ : id ≠ b.current := by
    intro same
    have bound := sound.inside
    rw [same] at new
    omega
  rw [block_split differ, FlowGraph.block_of_outside new]

theorem mem_successors_split (sound : b.Sound) (id next : BlockId) :
    next ∈ (b.split.graph.block id).successors
      ↔ (next ∈ (b.graph.block id).successors ∨ (id = b.current ∧ next = b.thenBlock)) ∨
        (id = b.current ∧ next = b.elseBlock) := by
  have bound := sound.inside
  have here : b.current.index < b.graph.addBlock.1.addBlock.1.addBlock.1.blocks.length := by
    simp only [FlowGraph.length_addBlock]
    omega
  have still : b.current.index
      < (b.graph.addBlock.1.addBlock.1.addBlock.1.addEdge b.current b.thenBlock).blocks.length := by
    rw [FlowGraph.length_addEdge]
    exact here
  simp only [split]
  rw [FlowGraph.mem_successors_addEdge still, FlowGraph.mem_successors_addEdge here]
  simp only [FlowGraph.block_addBlock]

theorem Sound.split {b : FlowBuilder} (sound : b.Sound) : b.split.Sound where
  linked := by
    intro id next way
    rw [length_split]
    rcases (mem_successors_split sound id next).1 way with (old | ⟨-, rfl⟩) | ⟨-, rfl⟩
    · have bound := sound.linked id next old
      omega
    · simp only [thenBlock]
      omega
    · simp only [elseBlock]
      omega
  inside := by
    rw [length_split]
    simp only [FlowBuilder.split, thenBlock]
    omega
  unfinished := by
    have new : b.graph.blocks.length ≤ b.split.current.index := Nat.le_refl _
    rw [block_split_new sound new]
  exits := by
    have bound := sound.exits
    rw [length_split]
    omega

theorem Sound.leave (sound : b.Sound) : (b.addBlock.moveOn FlowGraph.exit b.thenBlock).Sound := by
  have bound := sound.inside
  have new : b.thenBlock ≠ b.current := by
    intro same
    simp only [← same, thenBlock] at bound
    omega
  have larger := sound.addBlock
  refine larger.moveOn larger.exits ?_ new ?_
  · simp [FlowBuilder.addBlock, thenBlock]
  · simp [FlowBuilder.addBlock, thenBlock, FlowGraph.block_of_outside]

theorem grows_leave (b : FlowBuilder) : b.Grows (b.addBlock.moveOn FlowGraph.exit b.thenBlock) := by
  refine ⟨?_, ?_, .inr (Nat.le_refl _), [], (append_nil _).symm⟩
  · simp [FlowBuilder.moveOn, FlowBuilder.addBlock]
  · intro id inside differ
    have kept : (b.addBlock.moveOn FlowGraph.exit b.thenBlock).graph.block id = b.addBlock.graph.block id :=
      block_moveOn (b := b.addBlock) differ _ _
    exact kept.trans (FlowGraph.block_addBlock b.graph id)

end FlowBuilder

theorem FlowBuilder.sound_empty : FlowBuilder.Sound {} where
  linked := by
    intro id next way
    have empty : (FlowGraph.block {} id).successors = [] := by
      obtain ⟨index⟩ := id
      match index with
      | 0 => rfl
      | 1 => rfl
      | _ + 2 => rfl
    rw [empty] at way
    cases way
  inside := by decide
  unfinished := rfl
  exits := by decide

/-- A return: the way out is taken, and a block follows that nothing leads to. -/
theorem BuildM.run_leave {α : Type} (a : α) {b : FlowBuilder} (sound : b.Sound) :
    (do leaveTo FlowGraph.exit
        enter (← newBlock)
        return a : BuildM α).run b = (a, b.addBlock.moveOn FlowGraph.exit b.thenBlock) := by
  have later := FlowGraph.addBlock_addEdge sound.inside FlowGraph.exit
  have fresh : (⟨(b.graph.addEdge b.current FlowGraph.exit).blocks.length⟩ : BlockId) = b.thenBlock := by
    simp [FlowBuilder.thenBlock]
  exact congrArg (Prod.mk a) (congr (congrArg FlowBuilder.mk later) fresh)

/-- The two branches of a conditional, each in blocks of its own, and the block where they meet. -/
def BuildM.fork (thenBuild elseBuild : BuildM Unit) : BuildM ValueSource := do
  let before := (← get).current
  let thenBlock ← newBlock
  let elseBlock ← newBlock
  let join ← newBlock
  edge before thenBlock
  edge before elseBlock
  enter thenBlock
  thenBuild
  leaveTo join
  enter elseBlock
  elseBuild
  leaveTo join
  enter join
  return .notNone

namespace FlowBuilder

def afterThen (b : FlowBuilder) (thenBuild : BuildM Unit) : FlowBuilder :=
  (thenBuild.run b.split).2.moveOn b.joinBlock b.elseBlock

def afterElse (b : FlowBuilder) (thenBuild elseBuild : BuildM Unit) : FlowBuilder :=
  (elseBuild.run (b.afterThen thenBuild)).2.moveOn b.joinBlock b.joinBlock

end FlowBuilder

theorem BuildM.run_fork (thenBuild elseBuild : BuildM Unit) (b : FlowBuilder) :
    (fork thenBuild elseBuild).run b = (.notNone, b.afterElse thenBuild elseBuild) := by
  have second : (⟨b.graph.addBlock.1.blocks.length⟩ : BlockId) = b.elseBlock := by
    simp [FlowBuilder.elseBlock]
  have third : (⟨b.graph.addBlock.1.addBlock.1.blocks.length⟩ : BlockId) = b.joinBlock := by
    simp [FlowBuilder.joinBlock]
  unfold FlowBuilder.afterElse FlowBuilder.afterThen FlowBuilder.split
  rw [← second, ← third]
  rfl

namespace FlowBuilder

variable {b first second : FlowBuilder}

theorem block_afterThen (begun : b.split.Grows first) {id : BlockId}
    (inside : id.index < b.graph.blocks.length + 3) (differ : id ≠ b.thenBlock) :
    (first.moveOn b.joinBlock b.elseBlock).graph.block id = b.split.graph.block id := by
  have known : id.index < b.split.graph.blocks.length := by rwa [length_split]
  rw [block_moveOn (begun.ne_current known differ), begun.kept id known differ]

theorem length_le_afterThen (begun : b.split.Grows first) :
    b.graph.blocks.length + 3 ≤ first.graph.blocks.length := by
  have blocks := begun.blocks
  rwa [length_split] at blocks

theorem Sound.afterThen (sound : b.Sound) (ended : first.Sound) (begun : b.split.Grows first) :
    (first.moveOn b.joinBlock b.elseBlock).Sound := by
  have count := length_le_afterThen begun
  have known : b.elseBlock.index < b.split.graph.blocks.length := by
    simp [elseBlock]
  have differ : b.elseBlock ≠ b.split.current := by
    simp [elseBlock, FlowBuilder.split, thenBlock]
  have empty : first.graph.block b.elseBlock = {} := by
    rw [begun.kept _ known differ]
    exact block_split_new sound (Nat.le_succ _)
  refine ended.moveOn ?_ ?_ (begun.ne_current known differ) ?_
  · simp only [joinBlock]
    omega
  · simp only [elseBlock]
    omega
  · rw [empty]

theorem block_afterElse (begun : b.split.Grows first)
    (other : (first.moveOn b.joinBlock b.elseBlock).Grows second) {id : BlockId}
    (inside : id.index < b.graph.blocks.length + 3) (notThen : id ≠ b.thenBlock)
    (notElse : id ≠ b.elseBlock) :
    second.graph.block id = b.split.graph.block id ∧ id ≠ second.current := by
  have count := length_le_afterThen begun
  have known : id.index < (first.moveOn b.joinBlock b.elseBlock).graph.blocks.length := by
    simp only [moveOn, FlowGraph.length_addEdge]
    omega
  refine ⟨?_, other.ne_current known notElse⟩
  rw [other.kept id known notElse, block_afterThen begun inside notThen]

theorem block_join (sound : b.Sound) (begun : b.split.Grows first)
    (other : (first.moveOn b.joinBlock b.elseBlock).Grows second) :
    second.graph.block b.joinBlock = {} ∧ b.joinBlock ≠ second.current := by
  have notThen : b.joinBlock ≠ b.thenBlock := by simp [joinBlock, thenBlock]
  have notElse : b.joinBlock ≠ b.elseBlock := by simp [joinBlock, elseBlock]
  have inside : b.joinBlock.index < b.graph.blocks.length + 3 := Nat.lt_succ_self _
  have kept := block_afterElse begun other inside notThen notElse
  refine ⟨?_, kept.2⟩
  rw [kept.1]
  exact block_split_new sound (by simp [joinBlock])

theorem length_le_afterElse (begun : b.split.Grows first)
    (other : (first.moveOn b.joinBlock b.elseBlock).Grows second) :
    b.graph.blocks.length + 3 ≤ second.graph.blocks.length := by
  have count := length_le_afterThen begun
  have blocks := other.blocks
  simp only [moveOn, FlowGraph.length_addEdge] at blocks
  omega

theorem Sound.afterElse (sound : b.Sound) (begun : b.split.Grows first)
    (other : (first.moveOn b.joinBlock b.elseBlock).Grows second) (ended : second.Sound) :
    (second.moveOn b.joinBlock b.joinBlock).Sound := by
  have count := length_le_afterElse begun other
  obtain ⟨empty, differ⟩ := block_join sound begun other
  have inside : b.joinBlock.index < second.graph.blocks.length := by
    simp only [joinBlock]
    omega
  refine ended.moveOn inside inside differ ?_
  rw [empty]

theorem grows_afterElse (begun : b.split.Grows first)
    (other : (first.moveOn b.joinBlock b.elseBlock).Grows second) :
    b.Grows (second.moveOn b.joinBlock b.joinBlock) where
  blocks := by
    have count := length_le_afterElse begun other
    simp only [moveOn, FlowGraph.length_addEdge]
    omega
  kept := by
    intro id inside differ
    have old (new : BlockId) (later : b.graph.blocks.length ≤ new.index) : id ≠ new := by
      intro same
      subst same
      omega
    obtain ⟨kept, elsewhere⟩ := block_afterElse begun other (Nat.lt_of_lt_of_le inside (Nat.le_add_right _ 3))
      (old _ (Nat.le_refl _)) (old _ (Nat.le_succ _))
    rw [block_moveOn elsewhere, kept, block_split differ]
  current := .inr (by simp [moveOn, joinBlock])
  bindings := by
    obtain ⟨early, before⟩ := begun.bindings
    obtain ⟨late, after⟩ := other.bindings
    refine ⟨early ++ late, ?_⟩
    rw [← List.append_assoc]
    exact after.trans (congrArg (· ++ late) before)

end FlowBuilder

end SemanticChecker
