import Mathlib.Logic.Relation
import SemanticChecker.Proofs.Flow.Exactness
import SemanticChecker.Proofs.LocalReads.Names
import SemanticChecker.Proofs.Substitution

/-! Graphs of bodies are well formed: nothing in them is out of range, no way leads back to where it started, and what an
operation mentions is declared on every way to it. Building adds one use for every read of a local in the body, to the
block at hand at that time, and none for any other name. In all blocks together, those that no way leads to included,
the uses are the reads, in some order. -/
namespace SemanticChecker

open List

namespace FlowOp

def declared : FlowOp → List BindingId
  | declare id _ => [id]
  | _ => []

/-- The bindings that have to be declared before an operation: all that it changes, tests, uses or copies. -/
def mentioned : FlowOp → List BindingId
  | declare _ (some (.binding source)) => [source]
  | declare _ _ => []
  | assign id (.binding source) => [id, source]
  | assign id _ => [id]
  | assume id _ => [id]
  | use id _ _ => [id]

def use? : FlowOp → Option (BindingId × Span)
  | .use binding _ span => some (binding, span)
  | _ => none

end FlowOp

def Declares (ops : List FlowOp) (id : BindingId) : Prop :=
  ∃ op ∈ ops, id ∈ op.declared

/-- Whether all that operations mention is declared by those before. -/
def Covers (ops : List FlowOp) : Prop :=
  ∀ before op after, ops = before ++ op :: after → ∀ id ∈ op.mentioned, Declares before id

theorem Declares.append {ops : List FlowOp} {id : BindingId} (h : Declares ops id) (more : List FlowOp) :
    Declares (ops ++ more) id := by
  obtain ⟨op, mem, declares⟩ := h
  exact ⟨op, mem_append_left _ mem, declares⟩

theorem Covers.concat {ops : List FlowOp} (h : Covers ops) {op : FlowOp} (next : ∀ id ∈ op.mentioned, Declares ops id) :
    Covers (ops ++ [op]) := by
  intro before other after split
  rcases eq_nil_or_concat after with rfl | ⟨front, last, rfl⟩
  · obtain ⟨rfl, same⟩ := append_inj' split rfl
    cases same
    exact next
  · rw [concat_eq_append, ← cons_append, ← append_assoc] at split
    exact h before other front (append_inj' split rfl).1

section Modify

variable {α β : Type} {f : α → α} {g : α → List β}

theorem flatMap_modify_eq (same : ∀ a, g (f a) = g a) (items : List α) (index : Nat) :
    (items.modify index f).flatMap g = items.flatMap g := by
  induction items generalizing index with
  | nil => cases index <;> rfl
  | cons first rest ih =>
    cases index with
    | zero => simp [same]
    | succ index => simp [ih]

theorem flatMap_modify_perm {more : List β} (adds : ∀ a, g (f a) = g a ++ more) {items : List α} {index : Nat}
    (inside : index < items.length) : ((items.modify index f).flatMap g).Perm (items.flatMap g ++ more) := by
  induction items generalizing index with
  | nil => cases inside
  | cons first rest ih =>
    cases index with
    | zero =>
      simp only [modify_zero_cons, flatMap_cons, adds, List.append_assoc]
      exact perm_append_comm.append_left _
    | succ index =>
      simp only [modify_succ_cons, flatMap_cons, List.append_assoc]
      exact (ih (Nat.lt_of_succ_lt_succ inside)).append_left _

end Modify

namespace FlowGraph

def useSites (graph : FlowGraph) : List (BindingId × Span) :=
  graph.blocks.flatMap fun block => block.ops.filterMap FlowOp.use?

/-- The uses of bindings in all blocks, by the names that the bindings were declared under. -/
def localReads (graph : FlowGraph) : List LocalRead :=
  graph.useSites.map fun use => (graph.bindingName use.1, use.2)

def nameOf? (graph : FlowGraph) (id : BindingId) : Option String :=
  (graph.bindings[id.index]?).map (·.name)

def Acyclic (graph : FlowGraph) : Prop :=
  ∀ id, ¬ Relation.TransGen (fun a b => b ∈ (graph.block a).successors) id id

/-- Whether a graph is well formed and the uses in it are the given reads. -/
structure Valid (graph : FlowGraph) (reads : List LocalRead) : Prop where
  acyclic : graph.Acyclic
  covered : ∀ id, ∀ word ∈ graph.passes id, Covers word
  bound : ∀ id, ∀ op ∈ (graph.block id).ops, ∀ binding ∈ op.declared ++ op.mentioned,
    binding.index < graph.bindings.length
  uses : (graph.useSites.map fun use => (graph.nameOf? use.1, use.2)).Perm
    (reads.map fun read => (some read.1, read.2))

section Names

variable {graph later : FlowGraph} {id : BindingId} {name : String}

theorem nameOf?_of_isPrefix (more : graph.bindings <+: later.bindings) (named : graph.nameOf? id = some name) :
    later.nameOf? id = some name := by
  obtain ⟨binding, found, rfl⟩ := Option.map_eq_some_iff.1 named
  obtain ⟨more, same⟩ := more
  refine Option.map_eq_some_iff.2 ⟨binding, ?_, rfl⟩
  rw [← same, getElem?_append_left (List.getElem?_eq_some_iff.1 found).1]
  exact found

theorem index_lt_of_nameOf? (named : graph.nameOf? id = some name) : id.index < graph.bindings.length := by
  obtain ⟨binding, found, _⟩ := Option.map_eq_some_iff.1 named
  exact (List.getElem?_eq_some_iff.1 found).1

theorem bindingName_eq (graph : FlowGraph) (id : BindingId) : graph.bindingName id = (graph.nameOf? id).getD "" := by
  unfold bindingName nameOf?
  cases graph.bindings[id.index]? <;> rfl

end Names

variable {graph : FlowGraph} {source target : BlockId} {reads : List LocalRead}

/-- A way to a block that no way leaves closes no circle. -/
theorem Acyclic.addEdge (h : graph.Acyclic) (inside : source.index < graph.blocks.length)
    (final : (graph.block target).successors = []) (differ : target ≠ source) :
    (graph.addEdge source target).Acyclic := by
  have stuck : ∀ next, next ∉ ((graph.addEdge source target).block target).successors := by
    simp [block_addEdge_of_ne differ.symm, final]
  have old : ∀ a b, Relation.TransGen (fun a b => b ∈ ((graph.addEdge source target).block a).successors) a b →
      Relation.TransGen (fun a b => b ∈ (graph.block a).successors) a b ∨ b = target := by
    intro a b ways
    induction ways with
    | single way =>
      exact ((mem_successors_addEdge inside target _ _).1 way).imp .single And.right
    | tail _ way ih =>
      rcases ih with before | rfl
      · exact ((mem_successors_addEdge inside target _ _).1 way).imp before.tail And.right
      · exact absurd way (stuck _)
  intro id circle
  rcases old id id circle with circle | rfl
  · exact h id circle
  · obtain ⟨next, way, _⟩ := Relation.TransGen.head'_iff.1 circle
    exact stuck next way

namespace Valid

theorem addBlock (h : graph.Valid reads) : graph.addBlock.1.Valid reads where
  acyclic := by simpa only [Acyclic, block_addBlock] using h.acyclic
  covered := by simpa only [passes, comes_addBlock, block_addBlock] using h.covered
  bound id op mem := h.bound id op (by rwa [block_addBlock] at mem)
  uses := by
    have same : graph.addBlock.1.useSites = graph.useSites := by simp [FlowGraph.addBlock, useSites]
    rw [same]
    exact h.uses

theorem addBinding (h : graph.Valid reads) (name : String) (span : Span) :
    (graph.addBinding name span).1.Valid reads where
  acyclic := h.acyclic
  covered id word mem := by
    rw [passes, comes_addBinding] at mem
    exact h.covered id word mem
  bound id op mem binding named :=
    Nat.lt_of_lt_of_le (h.bound id op mem binding named) (by simp [FlowGraph.addBinding])
  uses := by
    -- What was used before keeps its name.
    refine List.Perm.trans (List.Perm.of_eq (map_congr_left fun use mem => ?_)) h.uses
    obtain ⟨read, _, named⟩ := mem_map.1 (h.uses.subset (mem_map_of_mem mem))
    have named : graph.nameOf? use.1 = some read.1 := (congrArg Prod.fst named).symm
    rw [named, nameOf?_of_isPrefix (prefix_append _ _) named]

theorem addEdge (h : graph.Valid reads) (inside : source.index < graph.blocks.length)
    (empty : graph.block target = {}) (differ : target ≠ source) : (graph.addEdge source target).Valid reads := by
  have final : (graph.block target).successors = [] := by rw [empty]
  refine ⟨h.acyclic.addEdge inside final differ, fun id word mem => ?_, fun id op mem => ?_, ?_⟩
  · by_cases same : id = target
    · have still : (graph.addEdge source target).block target = {} :=
        (block_addEdge_of_ne differ.symm target).trans empty
      rw [same, FlowBuilder.passes_of_empty still, comes_addEdge_self inside final differ,
        ← FlowBuilder.passes_of_empty empty] at mem
      exact mem.elim (h.covered target word) (h.covered source word)
    · rw [passes, comes_addEdge_of_ne inside final differ same, ops_addEdge] at mem
      exact h.covered id word mem
  · rw [ops_addEdge] at mem
    exact h.bound id op mem
  · have same : (graph.addEdge source target).useSites = graph.useSites := by
      refine flatMap_modify_eq (fun block => ?_) graph.blocks source.index
      split <;> rfl
    rw [same]
    exact h.uses

end Valid

end FlowGraph

namespace FlowBuilder

variable {b later : FlowBuilder} {reads more : List LocalRead} {id : BindingId} {name : String}

/-- Whether a binding stands for a name and is declared on every way to the end of the block at hand. -/
def Binds (b : FlowBuilder) (name : String) (id : BindingId) : Prop :=
  b.graph.nameOf? id = some name ∧ ∀ word ∈ b.ends, Declares word id

theorem Binds.mono (h : b.Binds name id) (bindings : b.graph.bindings <+: later.graph.bindings)
    (ends : ∀ word ∈ later.ends, ∃ before ∈ b.ends, before <+: word) : later.Binds name id := by
  refine ⟨FlowGraph.nameOf?_of_isPrefix bindings h.1, fun word mem => ?_⟩
  obtain ⟨before, early, after, rfl⟩ := ends word mem
  exact (h.2 before early).append after

/-- Whether a builder went on to another with some part of a body. -/
def Reaches (b later : FlowBuilder) : Prop :=
  ∃ runs : TraceM Unit, b.Follows later runs

namespace Reaches

theorem bindings (h : b.Reaches later) : b.graph.bindings <+: later.graph.bindings := by
  obtain ⟨_, follows⟩ := h
  obtain ⟨more, same⟩ := follows.grows.bindings
  exact ⟨more, same.symm⟩

theorem binds (h : b.Reaches later) (known : b.Binds name id) : later.Binds name id := by
  refine known.mono h.bindings fun word mem => ?_
  obtain ⟨runs, follows⟩ := h
  rw [follows.ends] at mem
  obtain ⟨before, early, after, _, rfl⟩ := Language.mem_mul.1 mem
  exact ⟨before, early, prefix_append before after⟩

theorem ready (h : b.Reaches later) (ready : b.Ready) : later.Ready := by
  obtain ⟨_, follows⟩ := h
  exact ready.grow follows.grows follows.sound

theorem trans {last : FlowBuilder} (first : b.Reaches later) (second : later.Reaches last) : b.Reaches last := by
  obtain ⟨_, begun⟩ := first
  obtain ⟨_, ended⟩ := second
  exact ⟨_, begun.trans ended⟩

end Reaches

theorem valid_emit (sound : b.Sound) (valid : b.graph.Valid reads) {op : FlowOp}
    (known : ∀ id ∈ op.mentioned, ∃ name, b.Binds name id)
    (new : ∀ id ∈ op.declared, ∃ name, b.graph.nameOf? id = some name)
    (named : op.use?.toList.map (fun use => (b.graph.nameOf? use.1, use.2)) =
      more.map fun read => (some read.1, read.2)) : (b.emit op).graph.Valid (reads ++ more) := by
  have block : ∀ id, (b.emit op).graph.block id = { b.graph.block id with
      ops := (b.graph.block id).ops ++ if id = b.current then [op] else [] } := by
    intro id
    by_cases same : id = b.current
    · rw [if_pos same, same]
      exact FlowGraph.block_addOp_self sound.inside op
    · rw [if_neg same, append_nil]
      exact FlowGraph.block_addOp_of_ne (Ne.symm same) op
  refine ⟨?_, fun id word mem => ?_, fun id other mem binding mine => ?_, ?_⟩
  · simpa only [FlowGraph.Acyclic, block] using valid.acyclic
  · by_cases same : id = b.current
    · subst same
      have here : word ∈ (b.emit op).ends := mem
      rw [(follows_emit sound op).ends, TraceM.done_perform] at here
      obtain ⟨before, early, last, isOp, rfl⟩ := Language.mem_mul.1 here
      rw [mem_word.1 isOp]
      refine (valid.covered _ before early).concat fun id mem => ?_
      obtain ⟨_, _, declared⟩ := known id mem
      exact declared before early
    · rw [FlowGraph.passes, comes_emit sound, block, if_neg same, append_nil] at mem
      exact valid.covered id word mem
  · rw [block] at mem
    rcases mem_append.1 mem with old | isOp
    · exact valid.bound id other old binding mine
    · split at isOp
      · cases mem_singleton.1 isOp
        rcases mem_append.1 mine with declared | mentioned
        · obtain ⟨_, named⟩ := new binding declared
          exact FlowGraph.index_lt_of_nameOf? named
        · obtain ⟨_, named, _⟩ := known binding mentioned
          exact FlowGraph.index_lt_of_nameOf? named
      · cases isOp
  · have uses : (b.emit op).graph.useSites.Perm (b.graph.useSites ++ op.use?.toList) := by
      refine flatMap_modify_perm (fun block => ?_) sound.inside
      rw [filterMap_append]
      cases op <;> rfl
    rw [map_append, ← named]
    refine (uses.map _).trans ?_
    rw [map_append]
    exact valid.uses.append_right _

theorem valid_split (sound : b.Sound) (valid : b.graph.Valid reads) : b.split.graph.Valid reads := by
  have bound := sound.inside
  have new : ∀ id : BlockId, b.graph.blocks.length ≤ id.index → b.graph.block id = {} ∧ id ≠ b.current := by
    refine fun id outside => ⟨FlowGraph.block_of_outside outside, ?_⟩
    rintro rfl
    omega
  obtain ⟨thenEmpty, notThen⟩ := new b.thenBlock (Nat.le_refl _)
  obtain ⟨elseEmpty, notElse⟩ := new b.elseBlock (Nat.le_succ _)
  refine (valid.addBlock.addBlock.addBlock.addEdge ?_ ?_ notThen).addEdge ?_ ?_ notElse
  · simp only [FlowGraph.length_addBlock]
    omega
  · simpa only [FlowGraph.block_addBlock] using thenEmpty
  · simp only [FlowGraph.length_addEdge, FlowGraph.length_addBlock]
    omega
  · rw [FlowGraph.block_addEdge_of_ne notElse.symm]
    simpa only [FlowGraph.block_addBlock] using elseEmpty

theorem valid_leave (ready : b.Ready) (valid : b.graph.Valid reads) :
    (b.addBlock.moveOn FlowGraph.exit b.thenBlock).graph.Valid reads := by
  refine valid.addBlock.addEdge (Nat.lt_of_lt_of_le ready.inside (by simp)) ?_ ready.elsewhere
  rw [FlowGraph.block_addBlock, ready.final]

end FlowBuilder

/-- Building that keeps a graph valid, adds uses for the given reads to it, and answers as told. -/
def Building {α : Type} (b : FlowBuilder) (work : BuildM α) (reads : List LocalRead)
    (answer : α → FlowBuilder → Prop) : Prop :=
  ∀ done, b.Ready → b.graph.Valid done → b.Reaches (work.run b).2 ∧ (work.run b).2.graph.Valid (done ++ reads) ∧
    answer (work.run b).1 (work.run b).2

namespace Building

variable {α β : Type} {b : FlowBuilder} {reads more : List LocalRead}

theorem pure {a : α} {Q : α → FlowBuilder → Prop} (h : Q a b) : Building b (Pure.pure a) [] Q :=
  fun done ready valid => ⟨⟨Pure.pure (), .refl ready.toSound ()⟩, (append_nil done).symm ▸ valid, h⟩

variable {Q : α → FlowBuilder → Prop} {x : BuildM α} {f : α → BuildM β} {R : β → FlowBuilder → Prop}

theorem bind (first : Building b x reads Q)
    (second : ∀ a later, b.Reaches later → Q a later → Building later (f a) more R) :
    Building b (x >>= f) (reads ++ more) R := by
  intro done ready valid
  obtain ⟨reached, kept, answer⟩ := first done ready valid
  obtain ⟨further, all, last⟩ := second _ _ reached answer _ (reached.ready ready) kept
  rw [List.append_assoc] at all
  exact ⟨reached.trans further, all, last⟩

theorem quiet (first : Building b x [] Q)
    (second : ∀ a later, b.Reaches later → Q a later → Building later (f a) reads R) : Building b (x >>= f) reads R :=
  first.bind second

theorem before (first : Building b x reads Q)
    (second : ∀ a later, b.Reaches later → Q a later → Building later (f a) [] R) : Building b (x >>= f) reads R :=
  append_nil reads ▸ first.bind second

theorem perm (h : Building b x reads Q) (same : reads.Perm more) : Building b x more Q := by
  intro done ready valid
  obtain ⟨reached, kept, answer⟩ := h done ready valid
  exact ⟨reached, { kept with uses := kept.uses.trans ((same.append_left done).map _) }, answer⟩

theorem mono {R : α → FlowBuilder → Prop} (h : Building b x reads Q) (imp : ∀ a later, Q a later → R a later) :
    Building b x reads R :=
  fun done ready valid => ⟨(h done ready valid).1, (h done ready valid).2.1, imp _ _ (h done ready valid).2.2⟩

theorem discard (h : Building b x reads Q) : Building b (discard x) reads fun _ _ => True :=
  fun done ready valid => ⟨(h done ready valid).1, (h done ready valid).2.1, trivial⟩

theorem emit {op : FlowOp} (known : ∀ id ∈ op.mentioned, ∃ name, b.Binds name id)
    (new : ∀ id ∈ op.declared, ∃ name, b.graph.nameOf? id = some name)
    (named : op.use?.toList.map (fun use => (b.graph.nameOf? use.1, use.2)) =
      reads.map fun read => (some read.1, read.2)) :
    Building b (BuildM.emit op) reads fun _ later => ∀ id ∈ op.declared, ∀ word ∈ later.ends, Declares word id := by
  intro done ready valid
  have follows := FlowBuilder.follows_emit ready.toSound op
  refine ⟨⟨_, follows⟩, FlowBuilder.valid_emit ready.toSound valid known new named, fun id mem word passes => ?_⟩
  rw [show ((BuildM.emit op).run b).2.ends = _ from follows.ends, TraceM.done_perform] at passes
  obtain ⟨_, _, last, isOp, rfl⟩ := Language.mem_mul.1 passes
  exact ⟨op, mem_append_right _ (mem_word.1 isOp ▸ mem_singleton_self op), mem⟩

theorem newBinding (name : String) (span : Span) :
    Building b (BuildM.newBinding name span) [] fun id later => later.graph.nameOf? id = some name := by
  intro done ready valid
  refine ⟨⟨_, FlowBuilder.follows_declare ready.toSound name span⟩, ?_, ?_⟩
  · rw [append_nil]
    exact valid.addBinding name span
  · show ((b.graph.bindings ++ [⟨name, span⟩])[b.graph.bindings.length]?).map FlowBinding.name = some name
    rw [getElem?_concat_length]
    rfl

end Building

/-- Where a value comes from is declared. -/
def ValueSource.IsHeld (source : ValueSource) (b : FlowBuilder) : Prop :=
  ∀ id, source = .binding id → ∃ name, b.Binds name id

namespace FlowScope

/-- The names in scope. -/
def names (scope : FlowScope) : List String :=
  scope.map (·.1)

theorem lookup_eq_none {scope : FlowScope} {name : String} : scope.lookup name = none ↔ name ∉ scope.names := by
  rw [lookup_eq_none_iff, names, mem_map]
  grind

def Names (scope : FlowScope) (b : FlowBuilder) : Prop :=
  ∀ entry ∈ scope, b.Binds entry.1 entry.2

/-- Whether what names and a target stand for is declared. -/
structure Known (scope : FlowScope) (target : Option BindingId) (b : FlowBuilder) : Prop where
  names : scope.Names b
  target : ∀ id ∈ target, ∃ name, b.Binds name id

end FlowScope

namespace BuildM

variable {b : FlowBuilder} {scope : FlowScope} {target : Option BindingId}

theorem deliver_building (known : ∀ id ∈ target, ∃ name, b.Binds name id) {source : ValueSource}
    (held : source.IsHeld b) : Building b (deliver target source) [] ValueSource.IsHeld := by
  unfold deliver
  cases target with
  | none => exact .pure held
  | some binding =>
    refine .quiet (.emit (fun id mem => ?_) nofun rfl) fun _ later reached _ => .pure fun id isSource => ?_
    · cases source with
      | binding other =>
        rcases mem_cons.1 mem with rfl | mem
        · exact known _ rfl
        · exact held id (congrArg _ (mem_singleton.1 mem).symm)
      | _ => exact known id (congrArg some (mem_singleton.1 mem).symm)
    · obtain ⟨name, binds⟩ := held id isSource
      exact ⟨name, reached.binds binds⟩

theorem narrow_building (known : scope.Names b) (condition : Expr) (state : Narrowing → NoneState) :
    Building b (narrow (Narrowing.of? scope condition) state) [] fun _ _ => True := by
  cases found : Narrowing.of? scope condition with
  | none => exact .pure trivial
  | some guard =>
    simp only [Narrowing.of?, Option.bind_eq_bind, Option.bind_eq_some_iff] at found
    obtain ⟨⟨name, operator⟩, _, binding, looked, isGuard⟩ := found
    have same : guard.binding = binding := by
      cases operator <;> cases isGuard <;> rfl
    refine .mono (.emit (fun id mem => ?_) (fun _ mem => by cases mem) rfl) fun _ _ _ => trivial
    rw [mem_singleton.1 mem, same]
    exact ⟨name, known _ (mem_of_lookup looked)⟩

/-- A return ends the block at hand, and what follows goes to a block that no way leads to. -/
theorem leave_building (known : scope.Names b) : Building b (do
    leaveTo FlowGraph.exit
    enter (← newBlock)
    return scope) [] fun inner later => inner.Names later ∧ inner.names = scope.names := by
  intro done ready valid
  have reached : b.Reaches (b.addBlock.moveOn FlowGraph.exit b.thenBlock) := ⟨_, FlowBuilder.follows_leave ready⟩
  rw [run_leave scope ready.toSound, append_nil]
  exact ⟨reached, FlowBuilder.valid_leave ready valid, fun entry mem => reached.binds (known entry mem), rfl⟩

end BuildM

namespace FlowScope.Known

variable {b later : FlowBuilder} {scope : FlowScope} {target : Option BindingId} (h : scope.Known target b)

include h

theorem mono (imp : ∀ name id, b.Binds name id → later.Binds name id) : scope.Known target later :=
  ⟨fun entry mem => imp _ _ (h.names entry mem), fun id mem => (h.target id mem).imp fun _ => imp _ id⟩

theorem after (reached : b.Reaches later) : scope.Known target later :=
  h.mono fun _ _ => reached.binds

theorem nowhere : scope.Known none b :=
  ⟨h.names, nofun⟩

variable {α β : Type} {build : BuildM α} {answer : α → FlowBuilder → Prop} {reads more : List LocalRead}

/-- What names stand for is still declared after a part was built. -/
theorem seq {next : BuildM β} {last : β → FlowBuilder → Prop} (first : Building b build reads answer)
    (second : ∀ later, scope.Known target later → Building later next more last) :
    Building b (build >>= fun _ => next) (reads ++ more) last :=
  first.bind fun _ later reached _ => second later (h.after reached)

theorem deliver (first : Building b build reads answer) :
    Building b (build >>= fun _ => BuildM.deliver target .notNone) reads ValueSource.IsHeld :=
  first.before fun _ _ reached _ => BuildM.deliver_building (h.after reached).target nofun

theorem fork {thenBuild elseBuild : BuildM Unit} {Q R : Unit → FlowBuilder → Prop}
    (inThen : ∀ later, scope.Known target later → Building later thenBuild reads Q)
    (inElse : ∀ later, scope.Known target later → Building later elseBuild more R) :
    Building b (BuildM.fork thenBuild elseBuild) (reads ++ more) ValueSource.IsHeld := by
  intro done ready valid
  have same : ∀ word ∈ b.ends, ∃ before ∈ b.ends, before <+: word := fun word mem => ⟨word, mem, prefix_rfl⟩
  rw [BuildM.run_fork, ← List.append_assoc]
  obtain ⟨⟨x, begun⟩, kept, _⟩ := inThen b.split
    (h.mono fun _ _ known => known.mono prefix_rfl (FlowBuilder.ends_split ready.toSound ▸ same)) done ready.split
    (FlowBuilder.valid_split ready.toSound valid)
  obtain ⟨inside, notThen, _⟩ := FlowBuilder.joinBlock_apart b
  obtain ⟨more, bindings⟩ := begun.grows.bindings
  have joins : ((thenBuild.run b.split).2.graph.block b.joinBlock) = {} := by
    rw [begun.grows.kept _ inside notThen, FlowBuilder.block_split_new ready.toSound (by simp [FlowBuilder.joinBlock])]
  obtain ⟨⟨y, ended⟩, all, _⟩ := inElse (b.afterThen thenBuild)
    (h.mono fun _ _ known => known.mono ⟨more, bindings.symm⟩ ((begun.afterThen ready).1 ▸ same)) _
    (ready.afterThen begun.sound begun.grows)
    (kept.addEdge begun.sound.inside joins (begun.grows.ne_current inside notThen))
  obtain ⟨empty, elsewhere⟩ := FlowBuilder.block_join ready.toSound begun.grows ended.grows
  exact ⟨⟨_, begun.fork ready ended⟩, all.addEdge ended.sound.inside empty elsewhere, fun _ held => by cases held⟩

theorem declare {binding : BindingId} {name : String} (named : b.graph.nameOf? binding = some name)
    {value : Option ValueSource} (known : ∀ id ∈ (FlowOp.declare binding value).mentioned, ∃ name, b.Binds name id) :
    Building b (BuildM.emit (.declare binding value)) [] fun _ later =>
      scope.Known (some binding) later ∧ later.Binds name binding := by
  intro done ready valid
  have emitted : Building b (BuildM.emit (.declare binding value)) [] _ :=
    .emit known (fun id mem => ⟨name, mem_singleton.1 mem ▸ named⟩) rfl
  obtain ⟨reached, kept, declared⟩ := emitted done ready valid
  have binds := And.intro (FlowGraph.nameOf?_of_isPrefix reached.bindings named) (declared binding (mem_singleton_self _))
  refine ⟨reached, kept, ⟨(h.after reached).names, fun id mem => ?_⟩, binds⟩
  cases mem
  exact ⟨name, binds⟩

end FlowScope.Known

namespace BuildM

mutual

/-- By induction on the source: every name that is in scope where an operation is built is declared there, and building
adds a use for every read. -/
theorem evaluate_building (scope : FlowScope) (kind : UseKind) (target : Option BindingId) : ∀ (e : Expr)
    (b : FlowBuilder), scope.Known target b →
      Building b (evaluate scope kind target e) (e.localReads scope.names) ValueSource.IsHeld
  | ⟨.literal value, _⟩, b, h => by
    cases value <;> exact deliver_building h.target nofun
  | ⟨.ident name, span⟩, b, h => by
    rw [evaluate, Expr.localReads]
    cases found : scope.lookup name with
    | none =>
      rw [readOf_of_not_mem (FlowScope.lookup_eq_none.1 found)]
      exact deliver_building h.target nofun
    | some binding =>
      have mem := mem_of_lookup found
      have known : b.Binds name binding := h.names _ mem
      have isLocal : name ∈ scope.names := mem_map_of_mem mem
      rw [readOf_of_mem isLocal]
      refine .before (.emit (fun id mem => ⟨name, mem_singleton.1 mem ▸ known⟩) nofun ?_) fun _ later reached _ =>
        deliver_building (h.after reached).target ?_
      · exact congrArg (fun known => [(known, span)]) known.1
      · rintro id ⟨⟩
        exact ⟨name, reached.binds known⟩
  | ⟨.tuple items, _⟩, b, h => by
    rw [evaluate]
    exact h.deliver (evaluateAll_building scope .read items b h.nowhere)
  | ⟨.list items, _⟩, b, h => by
    rw [evaluate]
    exact h.deliver (evaluateAll_building scope .read items b h.nowhere)
  | ⟨.dict entries, _⟩, b, h => by
    rw [evaluate]
    exact h.deliver (evaluateEntries_building scope entries b h.nowhere)
  | ⟨.assign ⟨place, span⟩ value, _⟩, b, h => by
    have given := (evaluate_building scope .read none value b h.nowhere).discard
    have read := h.seq given fun later known =>
      known.deliver (evaluate_building scope .read none ⟨place, span⟩ later known.nowhere).discard
    cases place with
    | ident name =>
      rw [evaluate]
      refine h.deliver (evaluate_building scope .read (scope.lookup name) value b ⟨h.names, fun id mem => ?_⟩).discard
      exact ⟨name, h.names _ (mem_of_lookup mem)⟩
    | field object name =>
      rw [evaluate]
      refine (h.seq given fun later known => known.deliver
        (evaluate_building scope .fieldAccess none object later known.nowhere).discard).perm ?_
      exact perm_append_comm
    | _ =>
      rw [evaluate]
      · exact read.perm perm_append_comm
      all_goals nofun
  | ⟨.call ⟨callee, span⟩ _ arguments, _⟩, b, h => by
    have passed := fun later (known : scope.Known target later) =>
      known.deliver (evaluateAll_building scope .argument arguments later known.nowhere)
    have read := h.seq (evaluate_building scope .read none ⟨callee, span⟩ b h.nowhere).discard passed
    cases callee with
    | field object name =>
      rw [evaluate]
      exact h.seq (evaluate_building scope .receiver none object b h.nowhere).discard passed
    | _ =>
      rw [evaluate]
      · exact read
      all_goals nofun
  | ⟨.field object _, _⟩, b, h => by
    rw [evaluate]
    exact h.deliver (evaluate_building scope .fieldAccess none object b h.nowhere).discard
  | ⟨.binary operator left right, _⟩, b, h => by
    rw [evaluate]
    exact h.seq (evaluate_building scope _ none left b h.nowhere).discard fun later known =>
      known.deliver (evaluate_building scope _ none right later known.nowhere).discard
  | ⟨.cond condition thenBranch elseBranch, _⟩, b, h => by
    have whole := h.seq (evaluate_building scope .read none condition b h.nowhere).discard fun _ known => known.fork
      (fun _ known => (narrow_building known.names condition Narrowing.inThen).quiet fun _ later reached _ =>
        statements_building target thenBranch scope later (known.after reached))
      (fun _ known => (narrow_building known.names condition Narrowing.inElse).quiet fun _ later reached _ =>
        otherwise_building target elseBranch scope later (known.after reached))
    simp only [evaluate, Expr.localReads]
    simpa only [fork, bind_assoc] using whole

theorem evaluateAll_building (scope : FlowScope) (kind : UseKind) : ∀ (items : List Expr) (b : FlowBuilder),
    scope.Known none b → Building b (evaluateAll scope kind items) (Expr.readsOfEach scope.names items) fun _ _ => True
  | [], _, _ => .pure trivial
  | item :: rest, b, h =>
    h.seq (evaluate_building scope kind none item b h).discard (evaluateAll_building scope kind rest)

theorem evaluateEntries_building (scope : FlowScope) : ∀ (entries : List (Expr × Expr)) (b : FlowBuilder),
    scope.Known none b →
      Building b (evaluateEntries scope entries) (Expr.readsOfEntries scope.names entries) fun _ _ => True
  | [], _, _ => .pure trivial
  | (key, value) :: rest, b, h =>
    h.seq (evaluate_building scope .read none key b h).discard fun later known =>
      known.seq (evaluate_building scope .read none value later known).discard (evaluateEntries_building scope rest)

theorem otherwise_building (target : Option BindingId) : ∀ (branch : Option (List Statement)) (scope : FlowScope)
    (b : FlowBuilder), scope.Known target b →
      Building b (otherwise scope target branch) (Statement.readsOfBranch scope.names branch) fun _ _ => True
  | none, _, _, _ => .pure trivial
  | some branch, scope, b, h => statements_building target branch scope b h

theorem statements_building (target : Option BindingId) : ∀ (block : List Statement) (scope : FlowScope)
    (b : FlowBuilder), scope.Known target b →
      Building b (statements scope target block) (Statement.readsOfEach scope.names block) fun _ _ => True
  | [], _, _, _ => .pure trivial
  | first :: rest, scope, b, h => by
    rw [statements, Statement.readsOfEach]
    refine (statement_building _ first scope b ⟨h.names, fun id mem => ?_⟩).bind fun inner later reached ⟨known, same⟩ => ?_
    · split at mem
      · exact h.target id mem
      · cases mem
    · rw [← same]
      exact statements_building target rest inner later ⟨known, (h.after reached).target⟩

theorem statement_building (target : Option BindingId) : ∀ (statement : Statement) (scope : FlowScope)
    (b : FlowBuilder), scope.Known target b → Building b (BuildM.statement scope target statement)
      (statement.localReads scope.names) fun inner later =>
        inner.Names later ∧ inner.names = statement.localsAfter scope.names
  | .bind name type none span, scope, b, h => by
    rw [statement]
    refine (Building.newBinding name span).quiet fun binding b₁ reached named => ?_
    refine ((h.after reached).declare named fun _ mem => (not_mem_nil mem).elim).quiet fun _ b₂ _ ⟨known, binds⟩ => .pure ⟨?_, rfl⟩
    exact forall_mem_cons.2 ⟨binds, known.names⟩
  | .bind name type (some value) span, scope, b, h => by
    rw [statement]
    refine (Building.newBinding name span).quiet fun binding b₁ reached named => ?_
    have h := h.after reached
    split
    · refine (h.declare named fun _ mem => (not_mem_nil mem).elim).quiet fun _ b₂ _ ⟨known, binds⟩ => ?_
      refine (evaluate_building scope .read _ value b₂ known).discard.before fun _ b₃ reached _ => .pure ⟨?_, rfl⟩
      exact forall_mem_cons.2 ⟨reached.binds binds, (known.after reached).names⟩
    · refine (evaluate_building scope .read none value b₁ h.nowhere).before fun source b₂ reached held => ?_
      refine ((h.after reached).declare (FlowGraph.nameOf?_of_isPrefix reached.bindings named) fun id mem => ?_).quiet
        fun _ b₃ _ ⟨known, binds⟩ => .pure ⟨forall_mem_cons.2 ⟨binds, known.names⟩, rfl⟩
      cases source with
      | binding other => exact held id (congrArg _ (mem_singleton.1 mem).symm)
      | _ => cases mem
  | .expression value, scope, b, h => by
    rw [statement]
    exact (evaluate_building scope .read target value b h).discard.before fun _ _ reached _ =>
      .pure ⟨(h.after reached).names, rfl⟩
  | .ret none span, scope, b, h => by
    rw [statement]
    exact leave_building h.names
  | .ret (some value) span, scope, b, h => by
    rw [statement]
    exact (evaluate_building scope .read none value b h.nowhere).discard.before fun _ _ reached _ =>
      leave_building (h.after reached).names

end

theorem parameters_building (declared : List (String × Span)) (scope : FlowScope) (b : FlowBuilder)
    (known : scope.Names b) : Building b (parameters scope declared) [] fun inner later =>
      inner.Names later ∧ inner.names = (declared.map (·.1)).reverse ++ scope.names := by
  induction declared generalizing scope b with
  | nil => exact .pure ⟨known, rfl⟩
  | cons first rest ih =>
    have start : scope.Known none b := ⟨known, fun _ mem => by cases mem⟩
    obtain ⟨name, span⟩ := first
    rw [parameters]
    refine (Building.newBinding name span).quiet fun binding b₁ reached named => ?_
    refine ((start.after reached).declare named fun _ mem => (not_mem_nil mem).elim).quiet fun _ b₂ _ declared => ?_
    refine Building.mono (ih _ b₂ (forall_mem_cons.2 ⟨declared.2, declared.1.names⟩))
      fun inner later named => ⟨named.1, ?_⟩
    simpa [FlowScope.names] using named.2

end BuildM

namespace FlowGraph

theorem valid_empty : Valid {} [] := by
  have none : ∀ id, block {} id = {} := by
    rintro ⟨_ | _ | index⟩ <;> rfl
  refine ⟨fun id circle => ?_, fun id word mem before op after split => ?_, fun id op mem => ?_, .nil⟩
  · obtain ⟨next, way, _⟩ := Relation.TransGen.head'_iff.1 circle
    rw [none] at way
    cases way
  · obtain ⟨path, leads, rfl⟩ := mem_passes.1 mem
    rw [(FlowBuilder.leads_empty.1 leads).1, nil_append] at split
    simp [opsOn, none] at split
  · rw [none] at mem
    cases mem

theorem valid_ofBody (parameters : List (String × Span)) (body : Block) :
    (ofBody parameters body).Valid (Statement.readsOfEach (parameters.map (·.1)).reverse body) := by
  have built : Building {} (BuildM.parameters [] parameters >>= fun scope => BuildM.statements scope none body)
      (Statement.readsOfEach (parameters.map (·.1)).reverse body) fun _ _ => True := by
    refine (BuildM.parameters_building parameters [] {} nofun).quiet fun scope b _ ⟨known, same⟩ => ?_
    rw [← same.trans (append_nil _)]
    exact BuildM.statements_building none body scope b ⟨known, nofun⟩
  obtain ⟨reached, valid, _⟩ := built [] FlowBuilder.ready_empty valid_empty
  have ready := reached.ready FlowBuilder.ready_empty
  exact valid.addEdge ready.inside ready.final ready.elsewhere

/-- The uses in the graph of a body are the reads of locals in the body, where the parameters are in scope. -/
theorem localReads_ofBody (parameters : List (String × Span)) (body : Block) :
    (ofBody parameters body).localReads.Perm (Statement.readsOfEach (parameters.map (·.1)).reverse body) := by
  have uses := (valid_ofBody parameters body).uses.map fun use => (use.1.getD "", use.2)
  rw [map_map, map_map] at uses
  refine List.Perm.trans (.of_eq ?_) (uses.trans (.of_eq ?_))
  · exact map_congr_left fun use _ => congrArg (·, use.2) (bindingName_eq _ use.1)
  · exact map_id _

/-- In the graph of a body every way leads to a block, and every operation is on bindings of the graph, of which the
analysis has a state in every block. No way leads back to where it started; nothing happens at the exit, and no way
leaves it. What an operation assigns, tests, uses or copies is declared before it on every way from the entry. -/
theorem ofBody_wellFormed (parameters : List (String × Span)) (body : Block) :
    let graph := ofBody parameters body
    graph.Linked ∧
      (∀ id, ∀ op ∈ (graph.block id).ops, ∀ binding ∈ op.declared ++ op.mentioned,
        binding.index < graph.bindings.length) ∧
      ((FlowEntries.ofGraph graph).length = graph.blocks.length ∧
        ∀ id state, (FlowEntries.ofGraph graph).get id = some state → state.length = graph.bindings.length) ∧
      graph.Acyclic ∧ graph.block exit = {} ∧
      ∀ path id before op after, graph.Leads path id → (graph.block id).ops = before ++ op :: after →
        ∀ binding ∈ op.mentioned, ∃ value, .declare binding value ∈ graph.opsOn path ++ before := by
  have valid := valid_ofBody parameters body
  obtain ⟨linked, nonempty, final, _⟩ := ofBody_ways parameters body
  obtain ⟨_, rested⟩ := (FlowEntries.searching_initial _ nonempty).propagate linked
  refine ⟨linked, valid.bound, ⟨rested.length, rested.sized⟩, valid.acyclic, final,
    fun path id before op after leads split binding mem => ?_⟩
  have read : (ofBody parameters body).opsOn path ++ before ++ op :: after ∈ (ofBody parameters body).passes id :=
    mem_passes.2 ⟨path, leads, by rw [opsOn_concat, split, List.append_assoc]⟩
  obtain ⟨other, earlier, declares⟩ := valid.covered id _ read _ op after rfl binding mem
  cases other with
  | declare id value => exact ⟨value, mem_singleton.1 declares ▸ earlier⟩
  | _ => cases declares

end FlowGraph

end SemanticChecker
