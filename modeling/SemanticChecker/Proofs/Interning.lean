import Mathlib
import SemanticChecker.Ty.Table

/-! Tables of types. Whatever is done to a table, its numbers and the types they stand for stay in one to
one correspondence: a type is entered once, a number keeps its type, and the parts of a type have smaller
numbers than the type, so that following the numbers of parts comes to an end. -/
namespace SemanticChecker

open List

namespace TypeNode

variable {node : TypeNode} {f g : TypeId → Ty}

theorem type_congr (h : ∀ part ∈ node.parts, f part = g part) : node.type f = node.type g := by
  have all : ∀ {ids : List TypeId}, (∀ id ∈ ids, f id = g id) → ids.map f = ids.map g :=
    fun h => map_congr_left h
  cases node with
  | tuple slots => exact congrArg Ty.tuple (all h)
  | list element => exact congrArg Ty.list (h element (by simp [parts]))
  | dict key value => rw [type, type, h key (by simp [parts]), h value (by simp [parts])]
  | struct id arguments => exact congrArg (Ty.struct id) (all h)
  | function parameters returns =>
    rw [type, type, all fun id mem => h id (mem_append_left _ mem),
      all fun id mem => h id (mem_append_right _ mem)]
  | bounded name bound arguments => exact congrArg (Ty.bounded name bound) (all h)
  | primitive _ | enum _ | parameter _ | slot _ | error => rfl

end TypeNode

namespace TypeTable

/-- Whether a number has been given. -/
def Has (table : TypeTable) (id : TypeId) : Prop :=
  id.index < table.size

instance (table : TypeTable) (id : TypeId) : Decidable (table.Has id) :=
  inferInstanceAs (Decidable (id.index < table.size))

/-- What every table keeps to: parts come before the types they are parts of, an entry holds the type that
its parts make up, and no type is entered twice. -/
structure Interned (table : TypeTable) : Prop where
  parts : ∀ (index : Nat) (entry : TypeEntry), table.entries[index]? = some entry →
    ∀ part ∈ entry.node.parts, part.index < index
  types : ∀ (index : Nat) (entry : TypeEntry), table.entries[index]? = some entry →
    entry.type = entry.node.type table.lookup
  nodes : (table.entries.map (·.node)).Nodup

/-- What an operation leaves alone: entries stay where they are, and slots are not handed out again. -/
structure Extends (table later : TypeTable) : Prop where
  entries : table.entries <+: later.entries
  nextSlot : table.nextSlot ≤ later.nextSlot

theorem Extends.refl (table : TypeTable) : table.Extends table :=
  ⟨prefix_refl _, Nat.le_refl _⟩

theorem Extends.trans {table later last : TypeTable} (first : table.Extends later) (second : later.Extends last) :
    table.Extends last :=
  ⟨first.entries.trans second.entries, Nat.le_trans first.nextSlot second.nextSlot⟩

variable {table last : TypeTable} {id : TypeId} {t : Ty} {steps : List (Op × TypeId)}

theorem entry_of_getElem? {entry : TypeEntry} (found : table.entries[id.index]? = some entry) :
    table.entry id = entry := by
  rw [TypeTable.entry, found, Option.getD_some]

theorem Has.getElem? (h : table.Has id) : table.entries[id.index]? = some (table.entry id) := by
  rw [TypeTable.entry, getElem?_eq_getElem h, Option.getD_some]

namespace Extends

variable {table later : TypeTable} {id : TypeId}

theorem has (h : table.Extends later) (known : table.Has id) : later.Has id :=
  Nat.lt_of_lt_of_le known h.entries.length_le

theorem entry (h : table.Extends later) (known : table.Has id) : later.entry id = table.entry id := by
  obtain ⟨more, same⟩ := h.entries
  refine entry_of_getElem? ?_
  rw [← same, getElem?_append_left known]
  exact known.getElem?

theorem lookup (h : table.Extends later) (known : table.Has id) : later.lookup id = table.lookup id :=
  congrArg TypeEntry.type (h.entry known)

end Extends

namespace Interned

variable {table : TypeTable}

variable {id part a b : TypeId}

theorem lookup_eq (h : table.Interned) (id : TypeId) :
    table.lookup id = (table.entry id).node.type table.lookup := by
  by_cases known : table.Has id
  · exact h.types id.index _ known.getElem?
  · rw [TypeTable.lookup, TypeTable.entry, getElem?_eq_none (Nat.le_of_not_lt known)]
    rfl

end Interned

structure Enters (table : TypeTable) (t : Ty) (done : TypeTable × TypeId) : Prop where
  interned : done.1.Interned
  grows : table.Extends done.1
  has : done.1.Has done.2
  type : done.1.lookup done.2 = t

section Intern

variable {table : TypeTable} {node : TypeNode}

theorem node_of_findIdx? {index : Nat} (found : table.entries.findIdx? (·.node = node) = some index) :
    table.Has ⟨index⟩ ∧ (table.entry ⟨index⟩).node = node := by
  obtain ⟨bound, holds, _⟩ := findIdx?_eq_some_iff_getElem.1 found
  have here : table.entry ⟨index⟩ = table.entries[index] :=
    entry_of_getElem? (getElem?_eq_getElem bound)
  exact ⟨bound, by rw [here]; exact of_decide_eq_true holds⟩

theorem node_intern (table : TypeTable) (node : TypeNode) :
    ((table.intern node).1.entry (table.intern node).2).node = node := by
  rw [intern]
  split
  · rename_i index found
    exact (node_of_findIdx? found).2
  · rw [entry_of_getElem? (getElem?_concat_length ..)]

theorem Interned.intern (h : table.Interned) (node : TypeNode) (known : ∀ part ∈ node.parts, table.Has part) :
    table.Enters (node.type table.lookup) (table.intern node) := by
  rw [TypeTable.intern]
  split
  · rename_i index found
    obtain ⟨has, same⟩ := node_of_findIdx? found
    refine ⟨h, .refl table, has, ?_⟩
    rw [h.lookup_eq, same]
  · rename_i missing
    let later : TypeTable := { table with entries := table.entries ++ [⟨node, node.type table.lookup⟩] }
    have grows : table.Extends later := ⟨prefix_append _ _, Nat.le_refl _⟩
    have kept : ∀ node : TypeNode, (∀ part ∈ node.parts, table.Has part) →
        node.type table.lookup = node.type later.lookup := fun node known =>
      TypeNode.type_congr fun part mem => (grows.lookup (known part mem)).symm
    have either : ∀ index entry, later.entries[index]? = some entry →
        table.entries[index]? = some entry ∨ index = table.size ∧ entry = ⟨node, node.type table.lookup⟩ := by
      intro index entry here
      rw [getElem?_append] at here
      split at here
      · exact .inl here
      · obtain ⟨low, rfl⟩ := List.getElem?_eq_some_iff.1 here
        rw [length_singleton] at low
        exact .inr ⟨by rw [size]; omega, getElem_singleton _⟩
    have last : later.entries[table.size]? = some ⟨node, node.type table.lookup⟩ := getElem?_concat_length ..
    refine ⟨⟨fun index entry here part mem => ?_, fun index entry here => ?_, ?_⟩, grows, ?_, ?_⟩
    · rcases either index entry here with here | ⟨rfl, rfl⟩
      · exact h.parts index entry here part mem
      · exact known part mem
    · rcases either index entry here with here | ⟨rfl, rfl⟩
      · rw [h.types index entry here]
        refine kept _ fun part mem => Nat.lt_trans (h.parts index entry here part mem) ?_
        exact (List.getElem?_eq_some_iff.1 here).1
      · exact kept node known
    · rw [map_append, nodup_append]
      refine ⟨h.nodes, by simp, fun a ha b hb => ?_⟩
      obtain ⟨entry, mem, rfl⟩ := mem_map.1 ha
      rw [map_singleton, mem_singleton] at hb
      rw [hb]
      exact of_decide_eq_false (findIdx?_eq_none_iff.1 missing entry mem)
    · exact (List.getElem?_eq_some_iff.1 last).1
    · exact congrArg TypeEntry.type (entry_of_getElem? last)

end Intern

theorem Enters.after {later : TypeTable} {done : TypeTable × TypeId} (h : later.Enters t done)
    (grows : table.Extends later) : table.Enters t done :=
  ⟨h.interned, grows.trans h.grows, h.has, h.type⟩

structure EntersAll (table : TypeTable) (ts : List Ty) (done : TypeTable × List TypeId) : Prop where
  interned : done.1.Interned
  grows : table.Extends done.1
  has : ∀ id ∈ done.2, done.1.Has id
  types : done.2.map done.1.lookup = ts

theorem type_of_findIdx? {index : Nat} (found : table.entries.findIdx? (·.type = t) = some index) :
    table.Has ⟨index⟩ ∧ table.lookup ⟨index⟩ = t := by
  obtain ⟨bound, holds, _⟩ := findIdx?_eq_some_iff_getElem.1 found
  have here : table.entry ⟨index⟩ = table.entries[index] :=
    entry_of_getElem? (getElem?_eq_getElem bound)
  exact ⟨bound, by rw [lookup, here]; exact of_decide_eq_true holds⟩

mutual

theorem Interned.enter : ∀ (t : Ty) {table : TypeTable}, table.Interned → table.Enters t (table.enter t)
  | t, table, h => by
    unfold TypeTable.enter
    split
    · rename_i index found
      obtain ⟨has, type⟩ := type_of_findIdx? found
      exact ⟨h, .refl table, has, type⟩
    · match t with
      | .primitive kind => exact h.intern (.primitive kind) nofun
      | .tuple slots =>
        have parts := Interned.enterAll slots h
        have whole := (parts.interned.intern (.tuple _) parts.has).after parts.grows
        rw [TypeNode.type, parts.types] at whole
        exact whole
      | .list element =>
        have part := Interned.enter element h
        have whole := (part.interned.intern (.list _) (by simpa [TypeNode.parts] using part.has)).after
          part.grows
        rw [TypeNode.type, part.type] at whole
        exact whole
      | .dict key value =>
        have first := Interned.enter key h
        have second := Interned.enter value first.interned
        have known : ∀ part ∈ TypeNode.parts (.dict (table.enter key).2 ((table.enter key).1.enter value).2),
            ((table.enter key).1.enter value).1.Has part := by
          simpa [TypeNode.parts] using ⟨second.grows.has first.has, second.has⟩
        have whole := (second.interned.intern _ known).after (first.grows.trans second.grows)
        rw [TypeNode.type, second.grows.lookup first.has, first.type, second.type] at whole
        exact whole
      | .struct id arguments =>
        have parts := Interned.enterAll arguments h
        have whole := (parts.interned.intern (.struct id _) parts.has).after parts.grows
        rw [TypeNode.type, parts.types] at whole
        exact whole
      | .enum id => exact h.intern (.enum id) nofun
      | .function parameters returns =>
        have first := Interned.enterAll parameters h
        have second := Interned.enterAll returns first.interned
        have known : ∀ part ∈ TypeNode.parts (.function (table.enterAll parameters).2
            ((table.enterAll parameters).1.enterAll returns).2),
            ((table.enterAll parameters).1.enterAll returns).1.Has part :=
          forall_mem_append.2 ⟨fun id mem => second.grows.has (first.has id mem), second.has⟩
        have whole := (second.interned.intern _ known).after (first.grows.trans second.grows)
        rw [TypeNode.type, second.types, map_congr_left fun id mem => second.grows.lookup (first.has id mem),
          first.types] at whole
        exact whole
      | .parameter name => exact h.intern (.parameter name) nofun
      | .bounded name bound arguments =>
        have parts := Interned.enterAll arguments h
        have whole := (parts.interned.intern (.bounded name bound _) parts.has).after parts.grows
        rw [TypeNode.type, parts.types] at whole
        exact whole
      | .slot index => exact h.intern (.slot index) nofun
      | .error => exact h.intern .error nofun

theorem Interned.enterAll : ∀ (ts : List Ty) {table : TypeTable}, table.Interned →
    table.EntersAll ts (table.enterAll ts)
  | [], table, h => ⟨h, .refl table, fun _ mem => (by cases mem), rfl⟩
  | t :: ts, table, h => by
    have first := Interned.enter t h
    have rest := Interned.enterAll ts first.interned
    unfold TypeTable.enterAll
    refine ⟨rest.interned, first.grows.trans rest.grows,
      forall_mem_cons.2 ⟨rest.grows.has first.has, rest.has⟩, ?_⟩
    rw [map_cons, rest.types]
    exact congrArg (· :: ts) ((rest.grows.lookup first.has).trans first.type)

end

theorem Interned.freshSlot {table : TypeTable} (h : table.Interned) :
    table.freshSlot.1.Interned ∧ table.Extends table.freshSlot.1 ∧ table.freshSlot.1.Has table.freshSlot.2 ∧
      (table.freshSlot.1.entry table.freshSlot.2).node = .slot table.nextSlot ∧
      table.nextSlot < table.freshSlot.1.nextSlot := by
  let counted : TypeTable := { table with nextSlot := table.nextSlot + 1 }
  have same : counted.Interned := ⟨h.parts, h.types, h.nodes⟩
  have done := same.intern (.slot table.nextSlot) nofun
  exact ⟨done.interned, ⟨done.grows.entries, Nat.le_of_succ_le done.grows.nextSlot⟩, done.has,
    node_intern counted _, done.grows.nextSlot⟩

/-- What can be done to a table. Whatever takes numbers of types takes numbers of that table. -/
inductive Op where
  | intern (node : TypeNode)
  | freshSlot
  | substitute (parameters : List (String × TypeId)) (slots : List (Nat × TypeId)) (id : TypeId)
  | ofReturns (returns : List TypeId)

namespace Op

def ids : Op → List TypeId
  | intern node => node.parts
  | freshSlot => []
  | substitute parameters slots id => id :: (parameters.map (·.2) ++ slots.map (·.2))
  | ofReturns returns => returns

def run (table : TypeTable) : Op → TypeTable × TypeId
  | intern node => table.intern node
  | freshSlot => table.freshSlot
  | substitute parameters slots id => table.substitute parameters slots id
  | ofReturns returns => table.ofReturns returns

def isFresh : Op → Bool
  | freshSlot => true
  | _ => false

end Op

/-- Operations done one after the other, each with the number that it gave. -/
inductive Run : TypeTable → List (Op × TypeId) → TypeTable → Prop
  | nil (table : TypeTable) : Run table [] table
  | cons {table last : TypeTable} {op : Op} {id : TypeId} {steps : List (Op × TypeId)}
    (known : ∀ id ∈ op.ids, table.Has id) (gives : (op.run table).2 = id) (rest : Run (op.run table).1 steps last) :
    Run table ((op, id) :: steps) last

theorem Interned.op {table : TypeTable} (h : table.Interned) (op : Op) (known : ∀ id ∈ op.ids, table.Has id) :
    (op.run table).1.Interned ∧ table.Extends (op.run table).1 ∧ (op.run table).1.Has (op.run table).2 := by
  cases op with
  | intern node =>
    have done := h.intern node known
    exact ⟨done.interned, done.grows, done.has⟩
  | freshSlot =>
    obtain ⟨interned, grows, has, _⟩ := h.freshSlot
    exact ⟨interned, grows, has⟩
  | substitute parameters slots id =>
    have done : table.Enters _ ((Op.substitute parameters slots id).run table) := h.enter _
    exact ⟨done.interned, done.grows, done.has⟩
  | ofReturns returns =>
    rcases returns with _ | ⟨single, _ | ⟨second, rest⟩⟩
    · have done := h.intern .unit fun _ mem => by cases mem
      exact ⟨done.interned, done.grows, done.has⟩
    · exact ⟨h, .refl table, known single mem_cons_self⟩
    · have done := h.intern (.tuple (single :: second :: rest)) known
      exact ⟨done.interned, done.grows, done.has⟩

theorem Interned.run (h : table.Interned) (ran : table.Run steps last) :
    last.Interned ∧ table.Extends last ∧ ∀ step ∈ steps, last.Has step.2 := by
  induction ran with
  | nil table => exact ⟨h, .refl table, fun _ mem => by cases mem⟩
  | cons known gives _ ih =>
    obtain ⟨interned, grows, has⟩ := h.op _ known
    rw [gives] at has
    obtain ⟨last, more, rest⟩ := ih interned
    exact ⟨last, grows.trans more, forall_mem_cons.2 ⟨more.has has, rest⟩⟩

end TypeTable

end SemanticChecker
