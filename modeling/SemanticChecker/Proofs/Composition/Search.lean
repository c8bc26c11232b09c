import Mathlib.Data.List.Chain
import Mathlib.Data.List.Perm.Subperm
import SemanticChecker.Composition.Resolver
import SemanticChecker.Proofs.Composition.Merge
import SemanticChecker.Proofs.Soundness.Fits

/-! How to argue about the search through composition lists: what holds of its state is kept by every
part of the search, and a part that is finished leaves the stack as it was and adds to what is known. -/
namespace SemanticChecker

open List hiding modify

structure CompositionSearch.Advances (s later : CompositionSearch) : Prop where
  stack : later.stack = s.stack
  memo : s.memo <:+ later.memo
  issues : s.issues <+: later.issues

theorem CompositionSearch.Advances.refl (s : CompositionSearch) : s.Advances s :=
  ⟨rfl, suffix_refl _, prefix_refl _⟩

theorem CompositionSearch.Advances.trans {s later last : CompositionSearch} (first : s.Advances later)
    (second : later.Advances last) : s.Advances last :=
  ⟨second.stack.trans first.stack, first.memo.trans second.memo, first.issues.trans second.issues⟩

/-- The members of a cycle in order; cycles with the same members have the same key. -/
def memberKey (members : List StructId) : List StructId :=
  members.mergeSort fun a b => decide (a.index ≤ b.index)

namespace SearchM

theorem noteCycle_cases (members : List StructId) (s : CompositionSearch) :
    memberKey members ∈ s.reported ∧
        ((noteCycle members).run s).2 = { s with cyclic := s.cyclic ++ members } ∨
      memberKey members ∉ s.reported ∧ ((noteCycle members).run s).2 =
        { s with
          cyclic := s.cyclic ++ members
          reported := memberKey members :: s.reported
          issues := s.issues ++ [.cycle members] } := by
  by_cases known : memberKey members ∈ s.reported
  · refine .inl ⟨known, ?_⟩
    simp only [noteCycle, modify, StateT.run_modifyGet, memberKey] at known ⊢
    rw [if_pos known]
    rfl
  · refine .inr ⟨known, ?_⟩
    simp only [noteCycle, modify, StateT.run_modifyGet, memberKey] at known ⊢
    rw [if_neg known]
    rfl

end SearchM

/-- Part of the search from a state of a kind: it ends in a state of that kind, is finished with its own
structs then, and answers as told. -/
def Searches {α : Type} (inv : CompositionSearch → Prop) (s : CompositionSearch) (part : SearchM α)
    (answer : α → CompositionSearch → Prop) : Prop :=
  inv s → s.Advances (part.run s).2 ∧ inv (part.run s).2 ∧ answer (part.run s).1 (part.run s).2

namespace Searches

variable {α β : Type} {inv : CompositionSearch → Prop} {s : CompositionSearch}

theorem pure {a : α} {Q : α → CompositionSearch → Prop} (h : Q a s) : Searches inv s (Pure.pure a) Q :=
  fun holds => ⟨.refl s, holds, h⟩

variable {Q : α → CompositionSearch → Prop} {x : SearchM α} {R : β → CompositionSearch → Prop}

theorem bind {f : α → SearchM β} (first : Searches inv s x Q)
    (second : ∀ a later, s.Advances later → inv later → Q a later → Searches inv later (f a) R) :
    Searches inv s (x >>= f) R := by
  intro holds
  obtain ⟨advances, kept, answer⟩ := first holds
  obtain ⟨further, last, answer⟩ := second _ _ advances kept answer kept
  exact ⟨advances.trans further, last, answer⟩

theorem mono {R : α → CompositionSearch → Prop} (h : Searches inv s x Q)
    (more : ∀ a later, s.Advances later → inv later → Q a later → R a later) : Searches inv s x R := by
  intro holds
  obtain ⟨advances, kept, answer⟩ := h holds
  exact ⟨advances, kept, more _ _ advances kept answer⟩

theorem get_bind {f : CompositionSearch → SearchM β} (h : inv s → Searches inv s (f s) R) :
    Searches inv s (get >>= f) R :=
  fun holds => h holds holds

theorem finish {id : StructId} {resolution : Resolution} {issues : List CompositionIssue}
    (keeps : inv s → inv { s with memo := (id, resolution) :: s.memo, issues := s.issues ++ issues }) :
    Searches inv s (SearchM.finish id resolution issues) fun _ later => (id, resolution) ∈ later.memo :=
  fun holds => ⟨⟨rfl, suffix_cons _ _, prefix_append _ _⟩, keeps holds, mem_cons_self⟩

theorem noteCycle {members : List StructId} (keeps : inv s → inv ((SearchM.noteCycle members).run s).2) :
    Searches inv s (SearchM.noteCycle members) fun _ later => later.cyclic = s.cyclic ++ members := by
  intro holds
  have kept := keeps holds
  rcases SearchM.noteCycle_cases members s with ⟨_, run⟩ | ⟨_, run⟩ <;> rw [run] at kept ⊢
  · exact ⟨⟨rfl, suffix_refl _, prefix_refl _⟩, kept, rfl⟩
  · exact ⟨⟨rfl, suffix_refl _, prefix_append _ _⟩, kept, rfl⟩

theorem within {id : StructId} {next : α → SearchM β} (push : inv s → inv { s with stack := s.stack ++ [id] })
    (inner : Searches inv { s with stack := s.stack ++ [id] } x Q)
    (rest : ∀ a last, last.stack = s.stack ++ [id] → inv last → Q a last →
      inv { last with stack := s.stack } ∧ Searches inv { last with stack := s.stack } (next a) R) :
    Searches inv s (do SearchM.push id; let a ← x; SearchM.pop; next a) R := by
  intro holds
  obtain ⟨advances, kept, answer⟩ := inner (push holds)
  let last := (x.run { s with stack := s.stack ++ [id] }).2
  let found := (x.run { s with stack := s.stack ++ [id] }).1
  have run : (do SearchM.push id; let a ← x; SearchM.pop; next a : SearchM β).run s =
      (next found).run { last with stack := s.stack } := by
    have popped : last.stack.dropLast = s.stack := by rw [advances.stack, dropLast_concat]
    change (next found).run { last with stack := last.stack.dropLast } = _
    rw [popped]
  obtain ⟨kept, rest⟩ := rest _ last advances.stack kept answer
  obtain ⟨further, kept, answer⟩ := rest kept
  rw [run]
  exact ⟨⟨further.stack, advances.memo.trans further.memo, advances.issues.trans further.issues⟩, kept, answer⟩

end Searches

namespace DeclTable

/-- Whether a struct names another declared struct in its composition list. -/
def Composes (table : DeclTable) (a b : StructId) : Prop :=
  ∃ own, table.struct? a = some own ∧ b ∈ own.shape.composes.map (·.id) ∧ (table.struct? b).isSome

/-- Different structs each of which composes the next, and the last the first. -/
structure IsCycle (table : DeclTable) (members : List StructId) : Prop where
  nonempty : members ≠ []
  nodup : members.Nodup
  composes : (members ++ members.take 1).IsChain table.Composes

theorem IsCycle.of_path {table : DeclTable} {path : List StructId} {id : StructId}
    (chain : path.IsChain table.Composes) (nodup : path.Nodup) (mem : id ∈ path)
    (back : ∀ top ∈ path.getLast?, table.Composes top id) : table.IsCycle (path.dropWhile (· != id)) := by
  obtain ⟨before, after, rfl⟩ := append_of_mem mem
  have absent : ∀ other ∈ before, (other != id) = true := by
    intro other ho
    refine bne_iff_ne.2 fun same => ?_
    exact (nodup_append.1 nodup).2.2 other ho id mem_cons_self same
  have members : (before ++ id :: after).dropWhile (· != id) = id :: after := by
    rw [dropWhile_append_of_pos absent, dropWhile_cons_of_neg (by simp)]
  rw [members]
  refine ⟨cons_ne_nil _ _, (nodup_append.1 nodup).2.1, ?_⟩
  refine isChain_append.2 ⟨chain.right_of_append, isChain_singleton _, fun top last first head => ?_⟩
  cases head
  exact back top (by simpa using last)

theorem length_le_of_declared {table : DeclTable} {ids : List StructId} (nodup : ids.Nodup)
    (declared : ∀ id ∈ ids, (table.struct? id).isSome) : ids.length ≤ table.structs.length := by
  have inside : ids ⊆ (List.range table.structs.length).map StructId.mk := by
    intro id mem
    obtain ⟨own, found⟩ := Option.isSome_iff_exists.1 (declared id mem)
    exact mem_map.2 ⟨id.index, mem_range.2 (List.getElem?_eq_some_iff.1 found).1, rfl⟩
  simpa using (subperm_of_subset nodup inside).length_le

end DeclTable

def CompositionIssue.members? : CompositionIssue → Option (List StructId)
  | cycle members => some members
  | _ => none

variable {members : List StructId} {issues : List CompositionIssue} {id : StructId}

theorem CompositionIssue.members?_eq_some {issue : CompositionIssue} :
    issue.members? = some members ↔ issue = .cycle members := by
  cases issue <;> simp [members?]

def cyclesOf (issues : List CompositionIssue) : List (List StructId) :=
  issues.filterMap CompositionIssue.members?

theorem mem_cyclesOf : members ∈ cyclesOf issues ↔ .cycle members ∈ issues := by
  simp [cyclesOf, CompositionIssue.members?_eq_some]

theorem cyclesOf_append (issues more : List CompositionIssue) :
    cyclesOf (issues ++ more) = cyclesOf issues ++ cyclesOf more :=
  filterMap_append

theorem cyclesOf_eq_nil (none : ∀ members, .cycle members ∉ issues) : cyclesOf issues = [] :=
  eq_nil_iff_forall_not_mem.2 fun members mem => none members (mem_cyclesOf.1 mem)

def OnReported (issues : List CompositionIssue) (id : StructId) : Prop :=
  ∃ members ∈ cyclesOf issues, id ∈ members

theorem OnReported.ne_nil (h : OnReported issues id) : cyclesOf issues ≠ [] := by
  obtain ⟨members, mem, _⟩ := h
  exact ne_nil_of_mem mem

theorem OnReported.mono {later : List CompositionIssue} (h : OnReported issues id) (grows : issues <+: later) :
    OnReported later id := by
  obtain ⟨more, rfl⟩ := grows
  obtain ⟨members, reported, mem⟩ := h
  exact ⟨members, by simp [cyclesOf_append, reported], mem⟩

/-- What is reported other than cycles: what merging members comes to. -/
def mergeIssues (issues : List CompositionIssue) : List CompositionIssue :=
  issues.filter (·.members?.isNone)

theorem mergeIssues_eq_self (none : cyclesOf issues = []) : mergeIssues issues = issues :=
  filter_eq_self.2 fun issue mem => by
    rw [filterMap_eq_nil_iff.1 none issue mem]
    rfl

/-- Whether a struct was found to be on a cycle. -/
def Resolution.isCycle : Resolution → Bool
  | cycle _ _ => true
  | _ => false

theorem Resolution.isCycle_compose (table : DeclTable) (own : StructDef) (parents : List (Ty × Layout)) (tainted : Bool) :
    (own.compose table parents tainted).1.isCycle = false := by
  rw [StructDef.compose]
  split <;> rfl

/-- What stands for a composition list where `finished` are the structs that are finished: layouts of parents that are.
As long as there are no cycles, these are all declared parents, in order. -/
structure Merges (table : DeclTable) (issues : List CompositionIssue) (finished : List (StructId × Resolution))
    (composed : List ComposedParent) (parents : List (ComposedParent × Layout)) (tainted : Bool) : Prop where
  finished : ∀ pair ∈ parents, pair.1 ∈ composed ∧ ∃ done, (pair.1.id, done) ∈ finished ∧ done.layout = pair.2
  all : cyclesOf issues = [] → parents.map (·.1) = composed.filter fun parent => (table.struct? parent.id).isSome
  tainted : cyclesOf issues = [] → tainted = composed.any fun parent => (table.struct? parent.id).isNone

def StructDef.composeOf (own : StructDef) (table : DeclTable) (parents : List (ComposedParent × Layout))
    (tainted : Bool) : Resolution × List CompositionIssue :=
  own.compose table (parents.map fun pair => (pair.1.type, pair.2)) tainted

/-- How a struct came to be finished and what was reported then, where `rest` is what was finished before it. Its own
layout is all there is of a struct on a cycle. Any other struct is finished after all its parents and composed of
them. -/
def ComposedFrom (table : DeclTable) (issues : List CompositionIssue) (rest : List (StructId × Resolution))
    (id : StructId) (done : Resolution × List CompositionIssue) : Prop :=
  ∃ own, table.struct? id = some own ∧
    (cyclesOf issues ≠ [] ∧ (∃ members, done = (.cycle members own.ownLayout, [])) ∨
      (∀ above, table.Composes id above → ∃ done, (above, done) ∈ rest) ∧
      ∃ (parents : List (ComposedParent × Layout)) (tainted : Bool), done = own.composeOf table parents tainted ∧
        Merges table issues rest own.shape.composes parents tainted)

/-- Finished structs, the last first, and what was reported of them, the first first: each is finished once and
composed of those that were finished before. -/
inductive Traced (table : DeclTable) (issues : List CompositionIssue) :
    List (StructId × Resolution) → List CompositionIssue → Prop
  | nil : Traced table issues [] []
  | cons {id : StructId} {done : Resolution × List CompositionIssue} {rest : List (StructId × Resolution)}
    {listed : List CompositionIssue} (before : Traced table issues rest listed) (fresh : ∀ entry ∈ rest, entry.1 ≠ id)
    (composed : ComposedFrom table issues rest id done) : Traced table issues ((id, done.1) :: rest) (listed ++ done.2)

section

variable {table : DeclTable} {issues later listed : List CompositionIssue} {memo : List (StructId × Resolution)}

theorem cyclesOf_ne_nil (grows : issues <+: later) (some : cyclesOf issues ≠ []) : cyclesOf later ≠ [] := by
  obtain ⟨more, rfl⟩ := grows
  rw [cyclesOf_append]
  exact append_ne_nil_of_left_ne_nil some _

variable {finished : List (StructId × Resolution)} {composed : List ComposedParent}
  {parents : List (ComposedParent × Layout)} {tainted : Bool}

theorem Merges.mono (h : Merges table issues finished composed parents tainted) (grows : issues <+: later) :
    Merges table later finished composed parents tainted where
  finished := h.finished
  all none := h.all (not_not.1 fun some => cyclesOf_ne_nil grows some none)
  tainted none := h.tainted (not_not.1 fun some => cyclesOf_ne_nil grows some none)

theorem Merges.complete (h : Merges table issues finished composed parents tainted) (none : cyclesOf issues = [])
    {parent : ComposedParent} (mem : parent ∈ composed) (declared : (table.struct? parent.id).isSome) :
    ∃ layout, (parent, layout) ∈ parents := by
  have isOne : parent ∈ parents.map (·.1) := by
    rw [h.all none]
    exact mem_filter.2 ⟨mem, declared⟩
  obtain ⟨pair, isPair, rfl⟩ := mem_map.1 isOne
  exact ⟨pair.2, isPair⟩

theorem Traced.mono (h : Traced table issues memo listed) (grows : issues <+: later) : Traced table later memo listed := by
  induction h with
  | nil => exact .nil
  | cons _ fresh composed ih =>
    refine .cons ih fresh (composed.imp fun own => .imp id ?_)
    exact .imp (.imp_left (cyclesOf_ne_nil grows))
      (.imp_right fun ⟨parents, tainted, same, merges⟩ => ⟨parents, tainted, same, merges.mono grows⟩)

theorem Traced.declared (h : Traced table issues memo listed) : ∀ entry ∈ memo, (table.struct? entry.1).isSome := by
  induction h with
  | nil => exact fun _ mem => by cases mem
  | cons _ _ composed ih =>
    obtain ⟨own, found, _⟩ := composed
    exact forall_mem_cons.2 ⟨by rw [found]; rfl, ih⟩

end

theorem mem_memberKey : id ∈ memberKey members ↔ id ∈ members := by
  rw [memberKey, mem_mergeSort]

/-- What holds all through the search, if it only goes to structs `inside`. The stack is a path through
composition lists; what is finished is off the stack; what is reported as a cycle is one, each set of
members once; and just the members of these count as cyclic, and of the finished ones are finished as such. -/
structure CompositionSearch.Sound (table : DeclTable) (inside : StructId → Prop) (s : CompositionSearch) : Prop where
  path : s.stack.IsChain table.Composes
  nodup : s.stack.Nodup
  stack : ∀ id ∈ s.stack, (table.struct? id).isSome ∧ inside id
  memo : ∀ entry ∈ s.memo, entry.1 ∉ s.stack ∧ inside entry.1
  traced : Traced table s.issues s.memo (mergeIssues s.issues)
  cycles : ∀ members ∈ cyclesOf s.issues, table.IsCycle members ∧ ∀ id ∈ members, inside id
  reported : s.reported = ((cyclesOf s.issues).map memberKey).reverse
  once : s.reported.Nodup
  marked : ∀ id, id ∈ s.cyclic ↔ OnReported s.issues id
  settled : ∀ entry ∈ s.memo, entry.2.isCycle = true ↔ OnReported s.issues entry.1

namespace CompositionSearch.Sound

variable {table : DeclTable} {inside : StructId → Prop} {s : CompositionSearch} {id : StructId}

theorem initial : CompositionSearch.Sound table inside {} := by
  refine ⟨.nil, nodup_nil, ?_, ?_, .nil, ?_, rfl, nodup_nil, ?_, ?_⟩ <;> simp [cyclesOf, OnReported]

theorem push (h : s.Sound table inside) (declared : (table.struct? id).isSome) (isInside : inside id)
    (composes : ∀ top ∈ s.stack.getLast?, table.Composes top id) (closed : id ∉ s.stack)
    (unfinished : ∀ entry ∈ s.memo, entry.1 ≠ id) :
    CompositionSearch.Sound table inside { s with stack := s.stack ++ [id] } :=
  { h with
    path := isChain_append.2 ⟨h.path, isChain_singleton _, fun top last first head => by
      cases head
      exact composes top last⟩
    nodup := nodup_append.2 ⟨h.nodup, by simp, fun other mem last same => by
      rw [mem_singleton.1 same]
      exact fun same => closed (same ▸ mem)⟩
    stack := forall_mem_append.2 ⟨h.stack, by simpa using ⟨declared, isInside⟩⟩
    memo := fun entry mem => by
      refine ⟨fun onStack => ?_, (h.memo entry mem).2⟩
      rcases mem_append.1 onStack with onStack | last
      · exact (h.memo entry mem).1 onStack
      · exact unfinished entry mem (mem_singleton.1 last) }

theorem pop {stack : List StructId} (h : s.Sound table inside) (top : s.stack = stack ++ [id]) :
    CompositionSearch.Sound table inside { s with stack } :=
  { h with
    path := (top ▸ h.path).left_of_append
    nodup := (nodup_append.1 (top ▸ h.nodup)).1
    stack := fun other mem => h.stack other (top ▸ mem_append_left _ mem)
    memo := fun entry mem => ⟨fun onStack => (h.memo entry mem).1 (top ▸ mem_append_left _ onStack),
      (h.memo entry mem).2⟩ }

theorem onReported_noteCycle (h : s.Sound table inside) (members : List StructId) (id : StructId) :
    OnReported ((SearchM.noteCycle members).run s).2.issues id ↔ OnReported s.issues id ∨ id ∈ members := by
  rcases SearchM.noteCycle_cases members s with ⟨known, run⟩ | ⟨_, run⟩ <;> rw [run]
  · refine ⟨.inl, fun either => either.elim (fun old => old) fun mem => ?_⟩
    rw [h.reported, mem_reverse] at known
    obtain ⟨other, reported, same⟩ := mem_map.1 known
    exact ⟨other, reported, by rwa [← mem_memberKey, same, mem_memberKey]⟩
  · simp [OnReported, cyclesOf, CompositionIssue.members?, or_and_right, exists_or]

/-- The structs of a cycle that is noted are on the stack, so no struct that is finished is among them. -/
theorem noteCycle (h : s.Sound table inside) (onStack : id ∈ s.stack)
    (back : ∀ top ∈ s.stack.getLast?, table.Composes top id) :
    CompositionSearch.Sound table inside ((SearchM.noteCycle (s.stack.dropWhile (· != id))).run s).2 := by
  have isCycle := DeclTable.IsCycle.of_path h.path h.nodup onStack back
  have inStack : s.stack.dropWhile (· != id) ⊆ s.stack := (dropWhile_suffix _).subset
  have noted := h.onReported_noteCycle (s.stack.dropWhile (· != id))
  have marked : ∀ other, other ∈ s.cyclic ++ s.stack.dropWhile (· != id) ↔
      OnReported ((SearchM.noteCycle (s.stack.dropWhile (· != id))).run s).2.issues other := by
    intro other
    rw [mem_append, h.marked, noted]
  have settled : ∀ entry ∈ s.memo, entry.2.isCycle = true ↔
      OnReported ((SearchM.noteCycle (s.stack.dropWhile (· != id))).run s).2.issues entry.1 := by
    intro entry mem
    have off : entry.1 ∉ s.stack.dropWhile (· != id) := fun isMember => (h.memo entry mem).1 (inStack isMember)
    rw [h.settled entry mem, noted, or_iff_left off]
  rcases SearchM.noteCycle_cases (s.stack.dropWhile (· != id)) s with ⟨known, run⟩ | ⟨new, run⟩ <;>
    rw [run] at marked settled ⊢
  · exact { h with marked, settled }
  · have cycles : cyclesOf (s.issues ++ [.cycle (s.stack.dropWhile (· != id))]) =
        cyclesOf s.issues ++ [s.stack.dropWhile (· != id)] := cyclesOf_append _ _
    refine { h with
      traced := ?_
      cycles := ?_
      reported := ?_
      once := nodup_cons.2 ⟨new, h.once⟩
      marked, settled }
    · have unchanged : mergeIssues (s.issues ++ [.cycle (s.stack.dropWhile (· != id))]) = mergeIssues s.issues := by
        simp [mergeIssues, CompositionIssue.members?]
      rw [unchanged]
      exact h.traced.mono (prefix_append _ _)
    · rw [cycles]
      refine forall_mem_append.2 ⟨h.cycles, forall_mem_singleton.2 ⟨isCycle, fun member mem => ?_⟩⟩
      exact (h.stack member (inStack mem)).2
    · rw [cycles, map_append, reverse_append, ← h.reported]
      rfl

theorem finish {done : Resolution × List CompositionIssue} (h : s.Sound table inside)
    (isInside : inside id) (closed : id ∉ s.stack) (fresh : ∀ entry ∈ s.memo, entry.1 ≠ id)
    (none : cyclesOf done.2 = []) (mark : done.1.isCycle = true ↔ id ∈ s.cyclic)
    (composed : ComposedFrom table s.issues s.memo id done) :
    CompositionSearch.Sound table inside
      { s with memo := (id, done.1) :: s.memo, issues := s.issues ++ done.2 } := by
  have cycles : cyclesOf (s.issues ++ done.2) = cyclesOf s.issues := by
    rw [cyclesOf_append, none, append_nil]
  have onReported : ∀ other, OnReported (s.issues ++ done.2) other ↔ OnReported s.issues other := fun other => by
    rw [OnReported, cycles, OnReported]
  refine { h with
    memo := forall_mem_cons.2 ⟨⟨closed, isInside⟩, h.memo⟩
    traced := ?_
    cycles := cycles ▸ h.cycles
    reported := cycles ▸ h.reported
    marked := fun other => (h.marked other).trans (onReported other).symm
    settled := ?_ }
  · have grown : mergeIssues (s.issues ++ done.2) = mergeIssues s.issues ++ done.2 := by
      rw [mergeIssues, filter_append, ← mergeIssues, ← mergeIssues, mergeIssues_eq_self none]
    rw [grown]
    exact (Traced.cons h.traced fresh composed).mono (prefix_append _ _)
  · simp only [onReported]
    exact forall_mem_cons.2 ⟨mark.trans (h.marked id), h.settled⟩

end CompositionSearch.Sound

/-- What composing a struct ends with: it is finished; or it is not declared; or it is on the stack, and then the top
of the stack is on a cycle. -/
inductive CompositionSearch.Settles (table : DeclTable) (s : CompositionSearch) (id : StructId) :
    Resolution → CompositionSearch → Prop
  | finished {resolution : Resolution} {later : CompositionSearch} (mem : (id, resolution) ∈ later.memo) :
    Settles table s id resolution later
  | missing {later : CompositionSearch} (undeclared : table.struct? id = none) :
    Settles table s id (.cycle [id] { id, name := table.names.struct id }) later
  | closes {members : List StructId} {fallback : Layout} {later : CompositionSearch} (onStack : id ∈ s.stack)
    (reported : ∀ top ∈ s.stack.getLast?, OnReported later.issues top) :
    Settles table s id (.cycle members fallback) later

namespace SearchM

open CompositionSearch

variable {table : DeclTable} {inside : StructId → Prop}

theorem parents_sound {resolve : StructId → SearchM Resolution} {stack : List StructId} {heir : StructId} :
    ∀ (composed : List ComposedParent) (_ : ∀ parent ∈ composed, ∀ s, s.stack = stack ++ [heir] →
        Searches (Sound table inside) s (resolve parent.id) (s.Settles table parent.id))
      (s : CompositionSearch), s.stack = stack ++ [heir] → Searches (Sound table inside) s (parents resolve composed)
      fun found later => (∃ named : List (ComposedParent × Layout),
        found.1 = named.map (fun pair => (pair.1.type, pair.2)) ∧
        Merges table later.issues later.memo composed named found.2.isSome) ∧
        ∀ parent ∈ composed, (table.struct? parent.id).isSome →
          OnReported later.issues heir ∨ ∃ done, (parent.id, done) ∈ later.memo
  | [], _, s, _ => .pure ⟨⟨[], rfl, fun _ mem => (by cases mem), fun _ => rfl, fun _ => rfl⟩, fun _ mem => by cases mem⟩
  | parent :: rest, each, s, same => by
    obtain ⟨first, others⟩ := forall_mem_cons.1 each
    refine .bind (first s same) fun resolution later advances sound settles => ?_
    refine .bind (parents_sound rest others later (advances.stack.trans same))
      fun (layouts, tainted) last further sound' ⟨⟨named, isNamed, merges⟩, complete⟩ => ?_
    have before : ∀ pair ∈ named, pair.1 ∈ parent :: rest ∧
        ∃ done, (pair.1.id, done) ∈ last.memo ∧ done.layout = pair.2 := fun pair mem =>
      ⟨mem_cons_of_mem _ (merges.finished pair mem).1, (merges.finished pair mem).2⟩
    have either : (table.struct? parent.id).isSome → OnReported last.issues heir ∨ ∃ done, (parent.id, done) ∈ last.memo := by
      intro known
      cases settles with
      | finished mem => exact .inr ⟨_, further.memo.subset mem⟩
      | missing undeclared => simp [undeclared] at known
      | closes _ reported => exact .inl ((reported heir (by simp [same])).mono further.issues)
    have all := forall_mem_cons.2 ⟨either, complete⟩
    -- A parent that is not on a cycle is finished and comes first; one on a cycle is left out.
    have joined : resolution.isCycle = false → ∃ named : List (ComposedParent × Layout),
        (parent.type, resolution.layout) :: layouts = named.map (fun pair => (pair.1.type, pair.2)) ∧
        Merges table last.issues last.memo (parent :: rest) named tainted.isSome := by
      intro isOther
      have mem : (parent.id, resolution) ∈ last.memo := by
        cases settles with
        | finished mem => exact further.memo.subset mem
        | missing _ => cases isOther
        | closes _ _ => cases isOther
      have declared : (table.struct? parent.id).isSome := sound'.traced.declared _ mem
      refine ⟨(parent, resolution.layout) :: named, congrArg (List.cons _) isNamed, ?_, fun none => ?_, fun none => ?_⟩
      · exact forall_mem_cons.2 ⟨⟨mem_cons_self, resolution, mem, rfl⟩, before⟩
      · rw [filter_cons, if_pos declared, map_cons, merges.all none]
      · rw [any_cons, merges.tainted none, Option.isNone_eq_false_iff.2 declared, Bool.false_or]
    cases resolution with
    | resolved layout => exact .pure ⟨joined rfl, all⟩
    | missingOverride layout unmet => exact .pure ⟨joined rfl, all⟩
    | cycle members fallback =>
      have undeclared : cyclesOf last.issues = [] → table.struct? parent.id = none := by
        intro none
        cases settles with
        | finished mem =>
          exact absurd none (((sound.settled _ mem).1 rfl).mono further.issues).ne_nil
        | missing undeclared => exact undeclared
        | closes _ reported => exact absurd none ((reported heir (by simp [same])).mono further.issues).ne_nil
      refine .pure ⟨⟨named, isNamed, before, fun none => ?_, fun none => ?_⟩, all⟩
      · simpa [undeclared none] using merges.all none
      · simp [undeclared none]

/-- Composing a struct that the top of the stack composes keeps what holds all through the search. The
depth is never used up: the structs on the stack are different and declared. -/
theorem resolve_sound (closed : ∀ a b, table.Composes a b → inside a → inside b) :
    ∀ (depth : Nat) (id : StructId) (s : CompositionSearch), table.structs.length < depth + s.stack.length →
      ((table.struct? id).isSome → inside id ∧ ∀ top ∈ s.stack.getLast?, table.Composes top id) →
      Searches (Sound table inside) s (resolve table depth id) (s.Settles table id)
  | 0, id, s, enough, _ => by
    intro sound
    have few := DeclTable.length_le_of_declared sound.nodup fun id mem => (sound.stack id mem).1
    omega
  | depth + 1, id, s, enough, reached => by
    rw [resolve]
    refine .get_bind fun sound => ?_
    cases looked : s.memo.lookup id with
    | some done => exact .pure (.finished (mem_of_lookup looked))
    | none =>
      cases found : table.struct? id with
      | none => exact .pure (.missing found)
      | some own =>
        have declared : (table.struct? id).isSome := by rw [found]; rfl
        obtain ⟨isInside, composes⟩ := reached declared
        dsimp only
        split
        · rename_i onStack
          refine .bind (.noteCycle fun sound => sound.noteCycle onStack composes) fun _ later _ noted cyclic => ?_
          refine .pure (.closes onStack fun top last => (noted.marked top).1 ?_)
          -- The top of the stack is the last member of the cycle that is noted.
          obtain ⟨before, same⟩ := dropWhile_suffix (l := s.stack) (· != id)
          rw [← same, getLast?_append_of_ne_nil _
            (DeclTable.IsCycle.of_path sound.path sound.nodup onStack composes).nonempty] at last
          rw [cyclic]
          exact mem_append_right _ (mem_of_getLast? last)
        · rename_i offStack
          have fresh : ∀ entry ∈ s.memo, entry.1 ≠ id := fun entry mem same =>
            bne_iff_ne.1 (lookup_eq_none_iff.1 looked entry mem) same.symm
          refine .within (fun sound => sound.push declared isInside composes offStack fresh)
            (parents_sound own.shape.composes (fun parent isOne s same => ?_) _ rfl)
            fun (layouts, tainted) last stack sound ⟨⟨parents, same, merges⟩, complete⟩ =>
              ⟨sound.pop stack, .get_bind fun popped => ?_⟩
          · refine resolve_sound closed depth parent.id s ?_ fun known => ?_
            · rw [same, length_append, length_singleton]
              omega
            · have step : table.Composes id parent.id := ⟨own, found, mem_map_of_mem isOne, known⟩
              refine ⟨closed id parent.id step isInside, fun top last => ?_⟩
              rw [same, getLast?_concat] at last
              cases last
              exact step
          · have unfinished : ∀ entry ∈ last.memo, entry.1 ≠ id := by
              intro entry mem same
              refine (sound.memo entry mem).1 ?_
              rw [stack, same]
              exact mem_concat_self
            split
            · rename_i isCyclic
              exact .bind (.finish fun popped => popped.finish isInside offStack unfinished rfl (iff_of_true rfl isCyclic)
                ⟨own, found, .inl ⟨((popped.marked id).1 isCyclic).ne_nil, _, rfl⟩⟩) fun _ _ _ _ mem => .pure (.finished mem)
            · rename_i notCyclic
              dsimp only at same
              subst same
              have none := cyclesOf_eq_nil (own.cycle_notMem_compose table (parents.map fun pair => (pair.1.type, pair.2))
                tainted.isSome)
              have finished : ∀ above, table.Composes id above → ∃ done, (above, done) ∈ last.memo := by
                rintro _ ⟨other, again, mem, declared⟩
                cases found.symm.trans again
                obtain ⟨parent, isOne, rfl⟩ := mem_map.1 mem
                exact (complete parent isOne declared).resolve_left fun reported => notCyclic ((popped.marked id).2 reported)
              exact .bind (.finish fun popped => popped.finish isInside offStack unfinished none
                (iff_of_false (by simp [Resolution.isCycle_compose]) notCyclic)
                ⟨own, found, .inr ⟨finished, parents, tainted.isSome, rfl, merges⟩⟩) fun _ _ _ _ mem => .pure (.finished mem)

theorem resolveEach_sound (closed : ∀ a b, table.Composes a b → inside a → inside b) :
    ∀ (group : List StructId) (s : CompositionSearch), s.stack = [] → (∀ id ∈ group, inside id) →
      Searches (Sound table inside) s (resolveEach table group) fun _ later =>
        ∀ id ∈ group, (table.struct? id).isSome → ∃ done, (id, done) ∈ later.memo
  | [], _, _, _ => .pure fun _ mem => by cases mem
  | id :: rest, s, empty, all => by
    obtain ⟨first, others⟩ := forall_mem_cons.1 all
    have settles := resolve_sound closed (table.structs.length + 1) id s (by omega) fun _ =>
      ⟨first, fun top last => by rw [empty] at last; cases last⟩
    have finished : Searches (Sound table inside) s (discard (resolve table (table.structs.length + 1) id))
        fun _ later => (table.struct? id).isSome → ∃ done, (id, done) ∈ later.memo := by
      intro sound
      obtain ⟨advances, kept, settles⟩ := settles sound
      refine ⟨advances, kept, fun known => ?_⟩
      generalize ((resolve table (table.structs.length + 1) id).run s).1 = resolution at settles
      cases settles with
      | finished mem => exact ⟨_, mem⟩
      | missing undeclared => simp [undeclared] at known
      | closes onStack _ => simp [empty] at onStack
    refine .bind finished fun _ later advances _ found => ?_
    refine (resolveEach_sound closed rest later (advances.stack.trans empty) others).mono
      fun _ last further _ others => ?_
    refine forall_mem_cons.2 ⟨fun known => ?_, others⟩
    obtain ⟨done, mem⟩ := found known
    exact ⟨done, further.memo.subset mem⟩

end SearchM

end SemanticChecker
