import SemanticChecker.Ty.Unifier

/-! A table that numbers types. Each type is entered once, after its parts, so that a number stands for
one type and the numbers of parts are smaller; nothing is ever removed. The table also hands out slots.
Types are told apart by the numbers of their parts, however large they are, and the types in a table have
their parts in common in memory. -/
namespace SemanticChecker

structure TypeId where
  index : Nat
  deriving DecidableEq, Repr, Inhabited

/-- A type whose parts are given by their numbers. -/
inductive TypeNode where
  | primitive (kind : Primitive)
  | tuple (slots : List TypeId)
  | list (element : TypeId)
  | dict (key value : TypeId)
  | struct (id : StructId) (arguments : List TypeId)
  | enum (id : EnumId)
  | function (parameters returns : List TypeId)
  | parameter (name : String)
  | bounded (name bound : String) (arguments : List TypeId)
  | slot (index : Nat)
  | error
  deriving DecidableEq, Repr

namespace TypeNode

def unit : TypeNode := .tuple []

def parts : TypeNode → List TypeId
  | .tuple slots => slots
  | .list element => [element]
  | .dict key value => [key, value]
  | .struct _ arguments => arguments
  | .function parameters returns => parameters ++ returns
  | .bounded _ _ arguments => arguments
  | _ => []

def type (part : TypeId → Ty) : TypeNode → Ty
  | .primitive kind => .primitive kind
  | .tuple slots => .tuple (slots.map part)
  | .list element => .list (part element)
  | .dict key value => .dict (part key) (part value)
  | .struct id arguments => .struct id (arguments.map part)
  | .enum id => .enum id
  | .function parameters returns => .function (parameters.map part) (returns.map part)
  | .parameter name => .parameter name
  | .bounded name bound arguments => .bounded name bound (arguments.map part)
  | .slot index => .slot index
  | .error => .error

end TypeNode

/-- A type in a table, by its parts and as a whole. -/
structure TypeEntry where
  node : TypeNode
  type : Ty

structure TypeTable where
  entries : List TypeEntry := []
  nextSlot : Nat := 0

namespace TypeTable

def size (table : TypeTable) : Nat :=
  table.entries.length

def isEmpty (table : TypeTable) : Bool :=
  table.entries.isEmpty

/-- The entry with a number; a number that was never given stands for the error type. -/
def entry (table : TypeTable) (id : TypeId) : TypeEntry :=
  (table.entries[id.index]?).getD ⟨.error, .error⟩

def lookup (table : TypeTable) (id : TypeId) : Ty :=
  (table.entry id).type

/-- The number of a type whose parts are entered already; it is entered unless it is there. -/
def intern (table : TypeTable) (node : TypeNode) : TypeTable × TypeId :=
  match table.entries.findIdx? (·.node = node) with
  | some index => (table, ⟨index⟩)
  | none =>
    ({ table with entries := table.entries ++ [⟨node, node.type table.lookup⟩] }, ⟨table.size⟩)

def initialNodes : List TypeNode :=
  [.error] ++ Primitive.all.map .primitive ++ [.unit]

def initial : TypeTable :=
  initialNodes.foldl (fun table node => (table.intern node).1) {}

mutual

/-- Enters a type, its parts first. The parts of a type that is entered already are entered too. -/
def enter (table : TypeTable) (t : Ty) : TypeTable × TypeId :=
  match table.entries.findIdx? (·.type = t) with
  | some index => (table, ⟨index⟩)
  | none =>
    match t with
    | .primitive kind => table.intern (.primitive kind)
    | .tuple slots =>
      let (table, slots) := enterAll table slots
      table.intern (.tuple slots)
    | .list element =>
      let (table, element) := enter table element
      table.intern (.list element)
    | .dict key value =>
      let (table, key) := enter table key
      let (table, value) := enter table value
      table.intern (.dict key value)
    | .struct id arguments =>
      let (table, arguments) := enterAll table arguments
      table.intern (.struct id arguments)
    | .enum id => table.intern (.enum id)
    | .function parameters returns =>
      let (table, parameters) := enterAll table parameters
      let (table, returns) := enterAll table returns
      table.intern (.function parameters returns)
    | .parameter name => table.intern (.parameter name)
    | .bounded name bound arguments =>
      let (table, arguments) := enterAll table arguments
      table.intern (.bounded name bound arguments)
    | .slot index => table.intern (.slot index)
    | .error => table.intern .error

def enterAll (table : TypeTable) : List Ty → TypeTable × List TypeId
  | [] => (table, [])
  | t :: ts =>
    let (table, id) := enter table t
    let (table, ids) := enterAll table ts
    (table, id :: ids)

end

/-- Replaces slots and type parameters of a type in the table, and enters what comes out. -/
def substitute (table : TypeTable) (parameters : List (String × TypeId)) (slots : List (Nat × TypeId))
    (id : TypeId) : TypeTable × TypeId :=
  table.enter ((table.lookup id).substitute (parameters.map fun (name, t) => (name, table.lookup t))
    (slots.map fun (index, t) => (index, table.lookup t)))

def ofReturns (table : TypeTable) : List TypeId → TypeTable × TypeId
  | [] => table.intern .unit
  | [single] => (table, single)
  | many => table.intern (.tuple many)

def freshSlot (table : TypeTable) : TypeTable × TypeId :=
  { table with nextSlot := table.nextSlot + 1 }.intern (.slot table.nextSlot)

/-- A fresh slot for every type parameter of a list, by name; of two parameters of one name the last
counts. -/
def instantiate (table : TypeTable) : List Ty → TypeTable × List (String × TypeId)
  | [] => (table, [])
  | t :: ts =>
    match t.parameterName? with
    | none => instantiate table ts
    | some name =>
      let (table, slot) := table.freshSlot
      let (table, rest) := instantiate table ts
      (table, (name, slot) :: rest)

/-- Unifies two types and enters every type that was resolved on the way. -/
def unify (table : TypeTable) (u : Unifier) (expected found : Ty) :
    TypeTable × Unifier × Option UnifyError :=
  let outcome := u.unify expected found
  ((table.enterAll outcome.resolved).1, outcome.unifier, outcome.clash)

end TypeTable

end SemanticChecker
