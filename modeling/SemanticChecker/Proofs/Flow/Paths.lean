import SemanticChecker.Proofs.Flow.Growth
import SemanticChecker.Proofs.Flow.Trace

/-! The ways through the graph of a body are the runs of the body. What can be read on the ways to a block is a language
of operations. Building adds to the languages of the block at hand and of the exit exactly what the runs of the part
that is built perform, and leaves those of all other blocks as they are. -/
namespace SemanticChecker

open List

theorem mem_word {read ops : List FlowOp} : read ∈ ({ops} : Language FlowOp) ↔ read = ops :=
  Set.mem_singleton_iff

theorem word_append (first second : List FlowOp) : ({first ++ second} : Language FlowOp) = {first} * {second} := by
  ext read
  simp [Language.mem_mul, mem_word, eq_comm]

namespace TraceM

variable {α β : Type}

/-- The operations of the runs that go on. -/
def done (x : TraceM α) : Language FlowOp :=
  {ops | ∃ value, ⟨ops, some value⟩ ∈ x.runs}

def returned (x : TraceM α) : Language FlowOp :=
  {ops | ⟨ops, none⟩ ∈ x.runs}

variable {x : TraceM α} {ops : List FlowOp}

theorem mem_done : ops ∈ x.done ↔ ∃ value, ⟨ops, some value⟩ ∈ x.runs :=
  Iff.rfl

theorem mem_returned : ops ∈ x.returned ↔ ⟨ops, none⟩ ∈ x.runs :=
  Iff.rfl

@[simp] theorem done_pure (value : α) : (pure value : TraceM α).done = 1 := by
  ext ops
  simp [mem_done, Language.mem_one]

@[simp] theorem returned_pure (value : α) : (pure value : TraceM α).returned = 0 := by
  ext ops
  simp [mem_returned]

@[simp] theorem done_perform (ops : List FlowOp) : (perform ops).done = {ops} := by
  ext other
  simp [mem_done, perform, mem_word]

@[simp] theorem returned_perform (ops : List FlowOp) : (perform ops).returned = 0 := by
  ext other
  simp [mem_returned, perform]

@[simp] theorem done_leave : (leave : TraceM α).done = 0 := by
  ext ops
  simp [mem_done, leave]

@[simp] theorem returned_leave : (leave : TraceM α).returned = 1 := by
  ext ops
  simp [mem_returned, leave, Language.mem_one]

@[simp] theorem done_either (x y : TraceM α) : (either x y).done = x.done + y.done := by
  ext ops
  simp [mem_done, either, Language.mem_add, exists_or]

@[simp] theorem returned_either (x y : TraceM α) : (either x y).returned = x.returned + y.returned := by
  ext ops
  simp [mem_returned, either, Language.mem_add]

theorem mem_map_ops : ops ∈ x.runs.map Trace.ops ↔ ops ∈ x.returned + x.done := by
  rw [mem_map, Language.mem_add]
  constructor
  · rintro ⟨⟨read, value⟩, run, rfl⟩
    cases value with
    | none => exact .inl run
    | some value => exact .inr ⟨value, run⟩
  · rintro (run | ⟨value, run⟩)
    · exact ⟨_, run, rfl⟩
    · exact ⟨_, run, rfl⟩

theorem mem_then {y : TraceM β} {value : Option β} :
    ⟨ops, value⟩ ∈ (x >>= fun _ => y).runs ↔ value = none ∧ ops ∈ x.returned ∨
      ∃ before ∈ x.done, ∃ after, ⟨after, value⟩ ∈ y.runs ∧ before ++ after = ops := by
  rw [runs_bind, mem_flatMap]
  constructor
  · rintro ⟨⟨before, early⟩, first, mem⟩
    cases early with
    | none =>
      cases mem_singleton.1 mem
      exact .inl ⟨rfl, first⟩
    | some a =>
      obtain ⟨⟨after, late⟩, second, same⟩ := mem_map.1 mem
      cases same
      exact .inr ⟨before, ⟨a, first⟩, after, second, rfl⟩
  · rintro (⟨rfl, first⟩ | ⟨before, ⟨a, first⟩, after, second, rfl⟩)
    · exact ⟨⟨ops, none⟩, first, mem_singleton.2 rfl⟩
    · exact ⟨⟨before, some a⟩, first, mem_map.2 ⟨⟨after, value⟩, second, rfl⟩⟩

theorem done_then (x : TraceM α) (y : TraceM β) : (x >>= fun _ => y).done = x.done * y.done := by
  ext ops
  simp only [mem_done, mem_then, Language.mem_mul, reduceCtorEq, false_and, false_or]
  constructor
  · rintro ⟨value, before, first, after, second, rfl⟩
    exact ⟨before, first, after, ⟨value, second⟩, rfl⟩
  · rintro ⟨before, first, after, ⟨value, second⟩, rfl⟩
    exact ⟨value, before, first, after, second, rfl⟩

theorem returned_then (x : TraceM α) (y : TraceM β) :
    (x >>= fun _ => y).returned = x.returned + x.done * y.returned := by
  ext ops
  simp only [mem_returned, mem_then, Language.mem_add, Language.mem_mul, true_and]

end TraceM

namespace FlowGraph

variable {graph later : FlowGraph}

def comes (graph : FlowGraph) (id : BlockId) : Language FlowOp :=
  {ops | ∃ path, graph.Leads path id ∧ graph.opsOn path = ops}

def passes (graph : FlowGraph) (id : BlockId) : Language FlowOp :=
  graph.comes id * {(graph.block id).ops}

variable {id : BlockId} {ops : List FlowOp} {source target : BlockId}

theorem mem_comes : ops ∈ graph.comes id ↔ ∃ path, graph.Leads path id ∧ graph.opsOn path = ops :=
  Iff.rfl

theorem mem_passes : ops ∈ graph.passes id ↔ ∃ path, graph.Leads path id ∧ graph.opsOn (path ++ [id]) = ops := by
  simp [passes, Language.mem_mul, mem_comes, mem_word, opsOn_concat]

theorem comes_congr (ways : ∀ id, (later.block id).successors = (graph.block id).successors)
    (ops : ∀ id, (graph.block id).successors ≠ [] → (later.block id).ops = (graph.block id).ops) (id : BlockId) :
    later.comes id = graph.comes id := by
  have leads : ∀ path, later.Leads path id ↔ graph.Leads path id := by
    refine fun path => ⟨fun h => h.mono fun other _ next way => ?_, fun h => h.mono fun other _ next way => ?_⟩
    · exact ways other ▸ way
    · exact (ways other).symm ▸ way
  ext read
  refine exists_congr fun path => ?_
  rw [leads]
  refine and_congr_right fun h => ?_
  rw [opsOn_congr fun other mem => ops other fun stuck => h.not_mem stuck mem]

theorem comes_addBlock (graph : FlowGraph) (id : BlockId) : graph.addBlock.1.comes id = graph.comes id :=
  comes_congr (by simp) (by simp) id

theorem comes_addBinding (graph : FlowGraph) (name : String) (span : Span) (id : BlockId) :
    (graph.addBinding name span).1.comes id = graph.comes id := by
  refine comes_congr (fun other => ?_) (fun other _ => ?_) id <;> rfl

/-- A way into a block that has no way out is the last of every way that takes it. -/
theorem leads_addEdge {path : List BlockId} (inside : source.index < graph.blocks.length)
    (final : (graph.block target).successors = []) (differ : target ≠ source) :
    (graph.addEdge source target).Leads path id ↔
      graph.Leads path id ∨ id = target ∧ ∃ before, path = before ++ [source] ∧ graph.Leads before source := by
  constructor
  · intro leads
    induction leads with
    | start => exact .inl .start
    | @step path id next before way ih =>
      rw [mem_successors_addEdge inside] at way
      rcases ih with old | ⟨rfl, _⟩
      · rcases way with way | ⟨rfl, rfl⟩
        · exact .inl (old.step way)
        · exact .inr ⟨rfl, path, rfl, old⟩
      · rcases way with way | ⟨same, _⟩
        · simp [final] at way
        · exact (differ same).elim
  · have kept : ∀ {path id}, graph.Leads path id → (graph.addEdge source target).Leads path id :=
      fun leads => leads.mono fun other _ next way => (mem_successors_addEdge inside ..).2 (.inl way)
    rintro (old | ⟨rfl, before, rfl, old⟩)
    · exact kept old
    · exact (kept old).step ((mem_successors_addEdge inside ..).2 (.inr ⟨rfl, rfl⟩))

theorem opsOn_addEdge (graph : FlowGraph) (source target : BlockId) (path : List BlockId) :
    (graph.addEdge source target).opsOn path = graph.opsOn path :=
  opsOn_congr fun _ _ => ops_addEdge ..

theorem comes_addEdge_self (inside : source.index < graph.blocks.length) (final : (graph.block target).successors = [])
    (differ : target ≠ source) :
    (graph.addEdge source target).comes target = graph.comes target + graph.passes source := by
  ext ops
  rw [Language.mem_add, mem_passes, mem_comes, mem_comes]
  constructor
  · rintro ⟨path, leads, rfl⟩
    rw [opsOn_addEdge]
    rcases (leads_addEdge inside final differ).1 leads with old | ⟨_, before, rfl, old⟩
    · exact .inl ⟨path, old, rfl⟩
    · exact .inr ⟨before, old, rfl⟩
  · rintro (⟨path, old, rfl⟩ | ⟨before, old, rfl⟩)
    · exact ⟨path, (leads_addEdge inside final differ).2 (.inl old), opsOn_addEdge ..⟩
    · exact ⟨_, (leads_addEdge inside final differ).2 (.inr ⟨rfl, before, rfl, old⟩), opsOn_addEdge ..⟩

theorem comes_addEdge_of_ne (inside : source.index < graph.blocks.length) (final : (graph.block target).successors = [])
    (differ : target ≠ source) (other : id ≠ target) : (graph.addEdge source target).comes id = graph.comes id := by
  ext ops
  refine exists_congr fun path => ?_
  rw [leads_addEdge inside final differ, opsOn_addEdge]
  simp [other]

theorem comes_of_outside (linked : graph.Linked) (outside : graph.blocks.length ≤ id.index) (differ : id ≠ entry) :
    graph.comes id = 0 := by
  ext ops
  simp only [mem_comes, Language.notMem_zero, iff_false]
  rintro ⟨path, leads, _⟩
  cases leads with
  | start => exact differ rfl
  | step before way =>
    have bound := linked _ _ way
    omega

end FlowGraph

namespace FlowBuilder

variable {b middle later : FlowBuilder}

def ends (b : FlowBuilder) : Language FlowOp :=
  b.graph.passes b.current

structure Ready (b : FlowBuilder) : Prop extends b.Sound where
  elsewhere : FlowGraph.exit ≠ b.current
  final : b.graph.block FlowGraph.exit = {}

theorem Ready.grow (ready : b.Ready) (grows : b.Grows later) (sound : later.Sound) : later.Ready where
  toSound := sound
  elsewhere := grows.ne_current ready.exits ready.elsewhere
  final := (grows.kept _ ready.exits ready.elsewhere).trans ready.final

/-- The graph was built for a part of a body with these runs: the block at hand is reached by those that go on, the exit
also by those that return, and all other blocks as before. -/
structure Follows {α : Type} (b later : FlowBuilder) (runs : TraceM α) : Prop where
  sound : later.Sound
  grows : b.Grows later
  ends : later.ends = b.ends * runs.done
  exits : later.graph.comes FlowGraph.exit = b.graph.comes FlowGraph.exit + b.ends * runs.returned
  others : ∀ id, id.index < b.graph.blocks.length → id ≠ FlowGraph.exit → later.graph.comes id = b.graph.comes id

namespace Follows

variable {α β : Type}

theorem refl (sound : b.Sound) (value : α) : b.Follows b (pure value : TraceM α) where
  sound := sound
  grows := .refl b
  ends := by simp
  exits := by simp
  others _ _ _ := rfl

theorem trans {x : TraceM α} {y : TraceM β} (first : b.Follows middle x) (second : middle.Follows later y) :
    b.Follows later (x >>= fun _ => y) where
  sound := second.sound
  grows := first.grows.trans second.grows
  ends := by rw [second.ends, first.ends, TraceM.done_then, mul_assoc]
  exits := by rw [second.exits, first.exits, first.ends, TraceM.returned_then, mul_add, add_assoc, mul_assoc]
  others id old inner := by
    rw [second.others id (Nat.lt_of_lt_of_le old first.grows.blocks) inner, first.others id old inner]

end Follows

theorem comes_emit (sound : b.Sound) (op : FlowOp) (id : BlockId) :
    (b.emit op).graph.comes id = b.graph.comes id := by
  have kept : ∀ other, b.current ≠ other → (b.emit op).graph.block other = b.graph.block other :=
    fun other differ => FlowGraph.block_addOp_of_ne differ op
  refine FlowGraph.comes_congr (fun other => ?_) (fun other leaves => ?_) id
  · by_cases same : b.current = other
    · rw [← same, sound.unfinished]
      exact (sound.emit op).unfinished
    · rw [kept other same]
  · refine congrArg FlowBlock.ops (kept other ?_)
    rintro rfl
    exact leaves sound.unfinished

theorem follows_emit (sound : b.Sound) (op : FlowOp) : b.Follows (b.emit op) (TraceM.perform [op]) where
  sound := sound.emit op
  grows := b.grows_emit op
  ends := by
    have ops : ((b.emit op).graph.block b.current).ops = (b.graph.block b.current).ops ++ [op] := by
      rw [FlowBuilder.emit, FlowGraph.block_addOp_self sound.inside]
    have here : (b.emit op).current = b.current := rfl
    rw [FlowBuilder.ends, FlowBuilder.ends, FlowGraph.passes, FlowGraph.passes, here, comes_emit sound, ops,
      word_append, TraceM.done_perform, mul_assoc]
  exits := by simp [comes_emit sound]
  others id _ _ := comes_emit sound op id

theorem follows_declare (sound : b.Sound) (name : String) (span : Span) :
    b.Follows (b.declare name span) (pure () : TraceM Unit) where
  sound := sound.declare name span
  grows := b.grows_declare name span
  ends := by
    have same : (b.declare name span).ends =
        (b.graph.addBinding name span).1.comes b.current * {(b.graph.block b.current).ops} := rfl
    rw [same, FlowGraph.comes_addBinding, TraceM.done_pure, mul_one]
    rfl
  exits := by
    rw [TraceM.returned_pure, mul_zero, add_zero]
    exact FlowGraph.comes_addBinding ..
  others id _ _ := FlowGraph.comes_addBinding ..

variable {id target : BlockId}

theorem comes_new (sound : b.Sound) (new : b.graph.blocks.length ≤ id.index) : b.graph.comes id = 0 := by
  refine FlowGraph.comes_of_outside sound.linked new ?_
  rintro rfl
  have bound := sound.exits
  simp only [FlowGraph.exit, FlowGraph.entry] at bound new
  omega

theorem comes_moveOn_self (sound : b.Sound) (final : (b.graph.block target).successors = [])
    (differ : target ≠ b.current) (next : BlockId) :
    (b.moveOn target next).graph.comes target = b.graph.comes target + b.ends :=
  FlowGraph.comes_addEdge_self sound.inside final differ

theorem comes_moveOn_of_ne (sound : b.Sound) (final : (b.graph.block target).successors = [])
    (differ : target ≠ b.current) (next : BlockId) (other : id ≠ target) :
    (b.moveOn target next).graph.comes id = b.graph.comes id :=
  FlowGraph.comes_addEdge_of_ne sound.inside final differ other

theorem ne_exit (ready : b.Ready) (new : b.graph.blocks.length ≤ id.index) : id ≠ FlowGraph.exit := by
  rintro rfl
  have bound := ready.exits
  omega

theorem follows_leave {α : Type} (ready : b.Ready) :
    b.Follows (b.addBlock.moveOn FlowGraph.exit b.thenBlock) (TraceM.leave : TraceM α) := by
  have same : ∀ id, b.addBlock.graph.comes id = b.graph.comes id := FlowGraph.comes_addBlock b.graph
  have final : (b.addBlock.graph.block FlowGraph.exit).successors = [] := by
    simp [FlowBuilder.addBlock, ready.final]
  have larger := ready.toSound.addBlock
  have others : ∀ id, id ≠ FlowGraph.exit →
      (b.addBlock.moveOn FlowGraph.exit b.thenBlock).graph.comes id = b.graph.comes id := by
    intro id differ
    rw [comes_moveOn_of_ne larger final ready.elsewhere _ differ, same]
  refine ⟨ready.toSound.leave, b.grows_leave, ?_, ?_, fun id _ differ => others id differ⟩
  · have unreached : (b.addBlock.moveOn FlowGraph.exit b.thenBlock).graph.comes b.thenBlock = 0 := by
      rw [others b.thenBlock (ne_exit ready (Nat.le_refl _))]
      exact comes_new ready.toSound (Nat.le_refl _)
    have here : (b.addBlock.moveOn FlowGraph.exit b.thenBlock).current = b.thenBlock := rfl
    rw [TraceM.done_leave, mul_zero, FlowBuilder.ends, FlowGraph.passes, here, unreached, zero_mul]
  · have whole : b.addBlock.ends = b.ends := by
      rw [FlowBuilder.ends, FlowBuilder.ends, FlowGraph.passes, FlowGraph.passes, same]
      simp [FlowBuilder.addBlock]
    rw [comes_moveOn_self larger final ready.elsewhere, same, whole, TraceM.returned_leave, mul_one]

theorem comes_split (sound : b.Sound) :
    b.split.graph.comes b.thenBlock = b.ends ∧ b.split.graph.comes b.elseBlock = b.ends ∧
      ∀ id, id ≠ b.thenBlock → id ≠ b.elseBlock → b.split.graph.comes id = b.graph.comes id := by
  let wide := b.graph.addBlock.1.addBlock.1.addBlock.1
  let forked := wide.addEdge b.current b.thenBlock
  have same : ∀ id, wide.comes id = b.graph.comes id := by
    intro id
    rw [FlowGraph.comes_addBlock, FlowGraph.comes_addBlock, FlowGraph.comes_addBlock]
  have block : ∀ id, wide.block id = b.graph.block id := by simp [wide]
  have bound := sound.inside
  have inside : b.current.index < wide.blocks.length := by
    simp only [wide, FlowGraph.length_addBlock]
    omega
  have still : b.current.index < forked.blocks.length := by
    rw [FlowGraph.length_addEdge]
    exact inside
  have new : ∀ id : BlockId, b.graph.blocks.length ≤ id.index → id ≠ b.current := by
    rintro id outside rfl
    omega
  have thenOut : b.graph.blocks.length ≤ b.thenBlock.index := Nat.le_refl _
  have elseOut : b.graph.blocks.length ≤ b.elseBlock.index := Nat.le_succ _
  have thenNew := new b.thenBlock thenOut
  have elseNew := new b.elseBlock elseOut
  have branches : b.thenBlock ≠ b.elseBlock := by simp [thenBlock, elseBlock]
  have thenFinal : (wide.block b.thenBlock).successors = [] := by
    rw [block, FlowGraph.block_of_outside thenOut]
  have elseFinal : (forked.block b.elseBlock).successors = [] := by
    rw [FlowGraph.block_addEdge_of_ne elseNew.symm, block, FlowGraph.block_of_outside elseOut]
  have passes : wide.passes b.current = b.ends := by
    rw [FlowBuilder.ends, FlowGraph.passes, FlowGraph.passes, same, block]
  refine ⟨?_, ?_, fun id notThen notElse => ?_⟩
  · calc b.split.graph.comes b.thenBlock
      _ = forked.comes b.thenBlock := FlowGraph.comes_addEdge_of_ne still elseFinal elseNew branches
      _ = wide.comes b.thenBlock + wide.passes b.current := FlowGraph.comes_addEdge_self inside thenFinal thenNew
      _ = b.ends := by rw [same, passes, comes_new sound thenOut, zero_add]
  · have forkedPasses : forked.passes b.current = b.ends := by
      rw [← passes, FlowGraph.passes, FlowGraph.passes, FlowGraph.ops_addEdge,
        FlowGraph.comes_addEdge_of_ne inside thenFinal thenNew thenNew.symm]
    calc b.split.graph.comes b.elseBlock
      _ = forked.comes b.elseBlock + forked.passes b.current := FlowGraph.comes_addEdge_self still elseFinal elseNew
      _ = wide.comes b.elseBlock + b.ends := by
        rw [FlowGraph.comes_addEdge_of_ne inside thenFinal thenNew branches.symm, forkedPasses]
      _ = b.ends := by rw [same, comes_new sound elseOut, zero_add]
  · calc b.split.graph.comes id
      _ = forked.comes id := FlowGraph.comes_addEdge_of_ne still elseFinal elseNew notElse
      _ = wide.comes id := FlowGraph.comes_addEdge_of_ne inside thenFinal thenNew notThen
      _ = b.graph.comes id := same id

theorem passes_of_empty {graph : FlowGraph} (empty : graph.block id = {}) : graph.passes id = graph.comes id := by
  have nothing : ({(graph.block id).ops} : Language FlowOp) = 1 := by
    rw [empty]
    rfl
  rw [FlowGraph.passes, nothing, mul_one]

theorem Ready.split (ready : b.Ready) : b.split.Ready where
  toSound := ready.toSound.split
  elsewhere := (ne_exit ready (Nat.le_refl _)).symm
  final := (block_split ready.elsewhere).trans ready.final

theorem Ready.afterThen {first : FlowBuilder} (ready : b.Ready) (ended : first.Sound) (begun : b.split.Grows first) :
    (first.moveOn b.joinBlock b.elseBlock).Ready := by
  have last := ready.split.grow begun ended
  refine ⟨ready.toSound.afterThen ended begun, (ne_exit ready (Nat.le_succ _)).symm, ?_⟩
  exact (block_moveOn last.elsewhere _ _).trans last.final

theorem ends_split (sound : b.Sound) : b.split.ends = b.ends := by
  rw [← (comes_split sound).1]
  exact passes_of_empty (block_split_new sound (Nat.le_refl _))

section Fork

variable {α : Type} {first second : FlowBuilder} {x y : TraceM α}

theorem joinBlock_apart (b : FlowBuilder) :
    b.joinBlock.index < b.split.graph.blocks.length ∧ b.joinBlock ≠ b.thenBlock ∧ b.joinBlock ≠ b.elseBlock := by
  simp [joinBlock, thenBlock, elseBlock]

/-- Where the first branch is finished, what reached the fork comes to the second, and the runs of the first to where
the branches meet. -/
theorem Follows.afterThen (ready : b.Ready) (inThen : b.split.Follows first x) :
    (first.moveOn b.joinBlock b.elseBlock).ends = b.ends ∧
      (first.moveOn b.joinBlock b.elseBlock).graph.comes b.joinBlock = b.ends * x.done ∧
      (first.moveOn b.joinBlock b.elseBlock).graph.comes FlowGraph.exit =
        b.graph.comes FlowGraph.exit + b.ends * x.returned ∧
      ∀ id, id.index < b.graph.blocks.length → id ≠ FlowGraph.exit →
        (first.moveOn b.joinBlock b.elseBlock).graph.comes id = b.graph.comes id := by
  have sound := ready.toSound
  obtain ⟨_, toElse, kept⟩ := comes_split sound
  obtain ⟨joinInside, joinThen, joinElse⟩ := joinBlock_apart b
  have joinOut : b.graph.blocks.length ≤ b.joinBlock.index := by simp [joinBlock]
  have elseOut : b.graph.blocks.length ≤ b.elseBlock.index := Nat.le_succ _
  have elseInside : b.elseBlock.index < b.split.graph.blocks.length := by simp [elseBlock]
  have final : (first.graph.block b.joinBlock).successors = [] := by
    rw [inThen.grows.kept _ joinInside joinThen, block_split_new sound joinOut]
  have elsewhere := inThen.grows.ne_current joinInside joinThen
  have others : ∀ id, id ≠ b.joinBlock →
      (first.moveOn b.joinBlock b.elseBlock).graph.comes id = first.graph.comes id :=
    fun id differ => comes_moveOn_of_ne inThen.sound final elsewhere _ differ
  have old : ∀ id : BlockId, id.index < b.graph.blocks.length →
      id ≠ b.joinBlock ∧ id ≠ b.thenBlock ∧ id ≠ b.elseBlock := by
    intro id inside
    refine ⟨?_, ?_, ?_⟩ <;> rintro rfl <;> simp only [joinBlock, thenBlock, elseBlock] at inside <;> omega
  refine ⟨?_, ?_, ?_, fun id inside inner => ?_⟩
  · have empty : (first.moveOn b.joinBlock b.elseBlock).graph.block b.elseBlock = {} := by
      rw [block_afterThen inThen.grows (by simp [elseBlock]) (by simp [elseBlock, thenBlock])]
      exact block_split_new sound elseOut
    calc (first.moveOn b.joinBlock b.elseBlock).ends
      _ = (first.moveOn b.joinBlock b.elseBlock).graph.comes b.elseBlock := passes_of_empty empty
      _ = first.graph.comes b.elseBlock := others _ joinElse.symm
      _ = b.ends := (inThen.others _ elseInside (ne_exit ready elseOut)).trans toElse
  · rw [comes_moveOn_self inThen.sound final elsewhere, inThen.others _ joinInside (ne_exit ready joinOut),
      kept _ joinThen joinElse, comes_new sound joinOut, zero_add, inThen.ends, ends_split sound]
  · obtain ⟨notJoin, notThen, notElse⟩ := old _ ready.exits
    rw [others _ notJoin, inThen.exits, kept _ notThen notElse, ends_split sound]
  · obtain ⟨notJoin, notThen, notElse⟩ := old id inside
    rw [others id notJoin, inThen.others id (by rw [length_split]; omega) inner, kept id notThen notElse]

/-- A conditional is followed by its branches, each in blocks of its own. -/
theorem Follows.fork (ready : b.Ready) (inThen : b.split.Follows first x)
    (inElse : (first.moveOn b.joinBlock b.elseBlock).Follows second y) :
    b.Follows (second.moveOn b.joinBlock b.joinBlock) (TraceM.either x y) := by
  obtain ⟨started, joined, left, kept⟩ := inThen.afterThen ready
  obtain ⟨empty, elsewhere⟩ := block_join ready.toSound inThen.grows inElse.grows
  have count := length_le_afterThen inThen.grows
  have length : (first.moveOn b.joinBlock b.elseBlock).graph.blocks.length = first.graph.blocks.length :=
    FlowGraph.length_addEdge ..
  have final : (second.graph.block b.joinBlock).successors = [] := by rw [empty]
  have joinInner : b.joinBlock ≠ FlowGraph.exit := ne_exit ready (by simp [joinBlock])
  refine ⟨ready.toSound.afterElse inThen.grows inElse.grows inElse.sound, grows_afterElse inThen.grows inElse.grows,
    ?_, ?_, fun id inside inner => ?_⟩
  · have still : (second.moveOn b.joinBlock b.joinBlock).graph.block b.joinBlock = {} :=
      (block_moveOn elsewhere _ _).trans empty
    have inside : b.joinBlock.index < (first.moveOn b.joinBlock b.elseBlock).graph.blocks.length := by
      rw [length]
      simp only [joinBlock]
      omega
    calc (second.moveOn b.joinBlock b.joinBlock).ends
      _ = (second.moveOn b.joinBlock b.joinBlock).graph.comes b.joinBlock := passes_of_empty still
      _ = second.graph.comes b.joinBlock + second.ends := comes_moveOn_self inElse.sound final elsewhere _
      _ = b.ends * x.done + b.ends * y.done := by rw [inElse.others _ inside joinInner, joined, inElse.ends, started]
      _ = b.ends * (TraceM.either x y).done := by rw [TraceM.done_either, mul_add]
  · rw [comes_moveOn_of_ne inElse.sound final elsewhere _ joinInner.symm, inElse.exits, left, started,
      TraceM.returned_either, mul_add, add_assoc]
  · have differ : id ≠ b.joinBlock := by
      rintro rfl
      simp only [joinBlock] at inside
      omega
    rw [comes_moveOn_of_ne inElse.sound final elsewhere _ differ, inElse.others id (by omega) inner,
      kept id inside inner]

end Fork

end FlowBuilder

/-- What is built declares names, answers as told, and follows runs that depend on the number of the next
declaration. -/
def Traces {α β : Type} (build : BuildM α) (lets : List FlowBinding) (answer : Nat → α) (runs : Nat → TraceM β) :
    Prop :=
  ∀ b : FlowBuilder, b.Ready → (build.run b).1 = answer b.graph.bindings.length ∧
    (build.run b).2.graph.bindings = b.graph.bindings ++ lets ∧
      b.Follows (build.run b).2 (runs b.graph.bindings.length)

namespace Traces

variable {α β γ δ : Type} {build : BuildM α} {lets more : List FlowBinding} {answer : Nat → α} {runs : Nat → TraceM β}

theorem pure (a : α) (value : β) : Traces (pure a) [] (fun _ => a) fun _ => (pure value : TraceM β) :=
  fun _ ready => ⟨rfl, (append_nil _).symm, .refl ready.toSound value⟩

/-- One part after another. The second may depend on the number of the declaration that was next before the first. -/
theorem bind {f : α → BuildM γ} {later : Nat → Nat → γ} {rest : Nat → Nat → TraceM δ}
    (first : Traces build lets answer runs) (second : ∀ next, Traces (f (answer next)) more (later next) (rest next)) :
    Traces (build >>= f) (lets ++ more) (fun next => later next (next + lets.length))
      fun next => runs next >>= fun _ => rest next (next + lets.length) := by
  intro b ready
  obtain ⟨answered, bindings, follows⟩ := first b ready
  have step : (build >>= f).run b = (f (build.run b).1).run (build.run b).2 := rfl
  have begun := second b.graph.bindings.length _ (ready.grow follows.grows follows.sound)
  rw [bindings, length_append] at begun
  rw [step, answered]
  exact ⟨begun.1, begun.2.1.trans (List.append_assoc ..), follows.trans begun.2.2⟩

theorem seq {after : BuildM γ} {c : γ} {rest : Nat → TraceM δ} (first : Traces build lets answer runs)
    (second : Traces after more (fun _ => c) rest) :
    Traces (build >>= fun _ => after) (lets ++ more) (fun _ => c)
      fun next => runs next >>= fun _ => rest (next + lets.length) :=
  first.bind (f := fun _ => after) fun _ => second

theorem returning (h : Traces build lets answer runs) (c : γ) :
    Traces (build >>= fun _ => Pure.pure c) lets (fun _ => c) runs :=
  fun b ready => ⟨rfl, (h b ready).2⟩

theorem congr {others : Nat → TraceM β} (h : Traces build lets answer runs) (same : ∀ next, others next = runs next) :
    Traces build lets answer others := by
  rw [funext same]
  exact h

theorem discard (h : Traces build lets answer runs) : Traces (discard build) lets (fun _ => ()) runs := by
  intro b ready
  obtain ⟨_, rest⟩ := h b ready
  exact ⟨rfl, rest⟩

theorem emit (op : FlowOp) : Traces (BuildM.emit op) [] (fun _ => ()) fun _ => TraceM.perform [op] :=
  fun _ ready => ⟨rfl, (append_nil _).symm, FlowBuilder.follows_emit ready.toSound op⟩

theorem newBinding (name : String) (span : Span) :
    Traces (BuildM.newBinding name span) [⟨name, span⟩] BindingId.mk fun _ => (Pure.pure () : TraceM Unit) :=
  fun _ ready => ⟨rfl, rfl, FlowBuilder.follows_declare ready.toSound name span⟩

theorem declaring {name : String} {span : Span} {f : BindingId → BuildM γ} {g : Nat → γ} {r : Nat → Nat → TraceM δ}
    (each : ∀ next, Traces (f ⟨next⟩) more (fun _ => g next) (r next)) :
    Traces (BuildM.newBinding name span >>= f) (⟨name, span⟩ :: more) g fun next => r next (next + 1) := by
  refine ((newBinding name span).bind each).congr fun next => ?_
  rw [pure_bind]
  rfl

theorem leave (a : α) (β : Type) :
    Traces (do BuildM.leaveTo FlowGraph.exit
               BuildM.enter (← BuildM.newBlock)
               return a) [] (fun _ => a) fun _ => (TraceM.leave : TraceM β) := by
  intro b ready
  rw [BuildM.run_leave a ready.toSound]
  exact ⟨rfl, (append_nil _).symm, FlowBuilder.follows_leave ready⟩

theorem fork {thenBuild elseBuild : BuildM Unit} {thenAnswer elseAnswer : Nat → Unit} {x y : Nat → TraceM β}
    (inThen : Traces thenBuild lets thenAnswer x) (inElse : Traces elseBuild more elseAnswer y) :
    Traces (BuildM.fork thenBuild elseBuild) (lets ++ more) (fun _ => .notNone)
      fun next => TraceM.either (x next) (y (next + lets.length)) := by
  intro b ready
  obtain ⟨_, bindings, follows⟩ := inThen b.split ready.split
  obtain ⟨_, bindings', follows'⟩ := inElse (b.afterThen thenBuild) (ready.afterThen follows.sound follows.grows)
  have before : (b.afterThen thenBuild).graph.bindings = b.graph.bindings ++ lets := bindings
  rw [before, length_append] at follows'
  rw [BuildM.run_fork]
  refine ⟨rfl, ?_, follows.fork ready follows'⟩
  calc (b.afterElse thenBuild elseBuild).graph.bindings
    _ = (b.afterThen thenBuild).graph.bindings ++ more := bindings'
    _ = b.graph.bindings ++ (lets ++ more) := by rw [before, List.append_assoc]

end Traces

end SemanticChecker
