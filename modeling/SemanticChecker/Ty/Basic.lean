import SemanticChecker.Primitive

/-! Types as terms. Two types are the same exactly when the terms are equal, so nothing below needs a
store of types; `Ty.Table` numbers them where numbers are wanted. -/
namespace SemanticChecker

/-- The position of a struct among the declared structs. -/
structure StructId where
  index : Nat
  deriving DecidableEq, Repr, Inhabited

/-- The position of an enum among the declared enums. -/
structure EnumId where
  index : Nat
  deriving DecidableEq, Repr, Inhabited

/-- The position of a function among the declared functions. -/
structure FunctionId where
  index : Nat
  deriving DecidableEq, Repr, Inhabited

inductive Ty where
  | primitive (kind : Primitive)
  /-- A fixed sequence of slots; the number of slots is part of the type. -/
  | tuple (slots : List Ty)
  | list (element : Ty)
  | dict (key value : Ty)
  | struct (id : StructId) (arguments : List Ty)
  | enum (id : EnumId)
  | function (parameters returns : List Ty)
  /-- A type parameter that any type may stand for. -/
  | parameter (name : String)
  /-- A type parameter restricted to the types that satisfy a bound. -/
  | bounded (name bound : String) (arguments : List Ty)
  | slot (index : Nat)
  /-- What stands where a type could not be found. -/
  | error
  deriving Repr, Inhabited

/-- A bound applied to arguments, as it restricts a type parameter. -/
structure BoundRef where
  name : String
  arguments : List Ty := []

namespace Ty

/-- Induction over types and lists of types at once. -/
theorem byParts {motive : Ty → Prop} {Q : List Ty → Prop} (primitive : ∀ kind, motive (.primitive kind))
    (tuple : ∀ slots, Q slots → motive (.tuple slots)) (list : ∀ element, motive element → motive (.list element))
    (dict : ∀ key value, motive key → motive value → motive (.dict key value))
    (struct : ∀ id arguments, Q arguments → motive (.struct id arguments)) (enum : ∀ id, motive (.enum id))
    (function : ∀ parameters returns, Q parameters → Q returns → motive (.function parameters returns))
    (parameter : ∀ name, motive (.parameter name))
    (bounded : ∀ name bound arguments, Q arguments → motive (.bounded name bound arguments))
    (slot : ∀ index, motive (.slot index)) (error : motive .error) (nil : Q [])
    (cons : ∀ t ts, motive t → Q ts → Q (t :: ts)) (t : Ty) : motive t :=
  @Ty.rec motive Q primitive tuple list dict struct enum function parameter bounded slot error nil cons t

def unit : Ty := .tuple []

/-- What a call yields: nothing, its only result, or the tuple of its results. -/
def ofReturns : List Ty → Ty
  | [] => unit
  | [single] => single
  | many => .tuple many

def parameterName? : Ty → Option String
  | .parameter name => some name
  | .bounded name _ _ => some name
  | _ => none

def ofParameter (name : String) : Option BoundRef → Ty
  | some bound => .bounded name bound.name bound.arguments
  | none => .parameter name

def primitive? : Ty → Option Primitive
  | .primitive kind => some kind
  | _ => none

def isError : Ty → Bool
  | .error => true
  | _ => false

mutual

/-- Whether two types are equal. A part that two types share in memory is not looked into, so types
that are built up from shared parts are compared in the number of parts. -/
def decEq (a b : Ty) : Decidable (a = b) :=
  withPtrEqDecEq a b fun _ =>
    if form : a.ctorIdx = b.ctorIdx then
      match a, b, form with
      | .primitive k, .primitive l, _ => decidable_of_iff (k = l) (by simp)
      | .tuple as, .tuple bs, _ =>
        match decEqAll as bs with
        | isTrue h => isTrue (h ▸ rfl)
        | isFalse h => isFalse fun e => h (Ty.tuple.inj e)
      | .list x, .list y, _ =>
        match decEq x y with
        | isTrue h => isTrue (h ▸ rfl)
        | isFalse h => isFalse fun e => h (Ty.list.inj e)
      | .dict k v, .dict l w, _ =>
        match decEq k l with
        | isFalse h => isFalse fun e => h (Ty.dict.inj e).1
        | isTrue hk =>
          match decEq v w with
          | isTrue hv => isTrue (hk ▸ hv ▸ rfl)
          | isFalse h => isFalse fun e => h (Ty.dict.inj e).2
      | .struct i as, .struct j bs, _ =>
        if hi : i = j then
          match decEqAll as bs with
          | isTrue h => isTrue (hi ▸ h ▸ rfl)
          | isFalse h => isFalse fun e => h (Ty.struct.inj e).2
        else isFalse fun e => hi (Ty.struct.inj e).1
      | .enum i, .enum j, _ => decidable_of_iff (i = j) (by simp)
      | .function ps rs, .function qs ts, _ =>
        match decEqAll ps qs with
        | isFalse h => isFalse fun e => h (Ty.function.inj e).1
        | isTrue hp =>
          match decEqAll rs ts with
          | isTrue hr => isTrue (hp ▸ hr ▸ rfl)
          | isFalse h => isFalse fun e => h (Ty.function.inj e).2
      | .parameter m, .parameter n, _ => decidable_of_iff (m = n) (by simp)
      | .bounded m b as, .bounded n c bs, _ =>
        if hn : m = n ∧ b = c then
          match decEqAll as bs with
          | isTrue h => isTrue (hn.1 ▸ hn.2 ▸ h ▸ rfl)
          | isFalse h => isFalse fun e => h (Ty.bounded.inj e).2.2
        else isFalse fun e => hn ⟨(Ty.bounded.inj e).1, (Ty.bounded.inj e).2.1⟩
      | .slot i, .slot j, _ => decidable_of_iff (i = j) (by simp)
      | .error, .error, _ => isTrue rfl
    else isFalse fun h => form (congrArg Ty.ctorIdx h)

def decEqAll : (as bs : List Ty) → Decidable (as = bs)
  | [], [] => isTrue rfl
  | [], _ :: _ => isFalse nofun
  | _ :: _, [] => isFalse nofun
  | a :: as, b :: bs =>
    match decEq a b with
    | isFalse h => isFalse fun e => h (List.cons.inj e).1
    | isTrue ha =>
      match decEqAll as bs with
      | isTrue h => isTrue (ha ▸ h ▸ rfl)
      | isFalse h => isFalse fun e => h (List.cons.inj e).2

end

instance : DecidableEq Ty := decEq

/-- The copy of a type among `known` ones, if it is there. Types that are built up from such copies have
parts in common in memory. -/
def shareWith (known : List Ty) (t : Ty) : Ty :=
  (known.find? (· = t)).getD t

@[simp] theorem shareWith_eq (known : List Ty) (t : Ty) : t.shareWith known = t := by
  rw [shareWith]
  cases found : known.find? (· = t) with
  | none => rfl
  | some s => simpa using List.find?_some found

mutual

/-- Whether a type has a part that satisfies `p` among its leaves: primitives, enums, parameters,
slots and the error type. Arguments of bounds are not looked into. -/
def anyLeaf (p : Ty → Bool) : Ty → Bool
  | .tuple slots => anyLeafAll p slots
  | .list element => anyLeaf p element
  | .dict key value => anyLeaf p key || anyLeaf p value
  | .struct _ arguments => anyLeafAll p arguments
  | .function parameters returns => anyLeafAll p parameters || anyLeafAll p returns
  | t => p t

def anyLeafAll (p : Ty → Bool) : List Ty → Bool
  | [] => false
  | t :: ts => anyLeaf p t || anyLeafAll p ts

end

def isSlot (p : Nat → Bool) : Ty → Bool
  | .slot index => p index
  | _ => false

def mentions (index : Nat) (t : Ty) : Bool :=
  t.anyLeaf (isSlot (· == index))

def hasSlot (t : Ty) : Bool :=
  t.anyLeaf (isSlot fun _ => true)

/-- Whether the type must not reach code generation: it mentions the error type, a slot or, where no
type parameter is in scope, a type parameter. -/
def isUnresolved (allowParameters : Bool) (t : Ty) : Bool :=
  t.anyLeaf fun
    | .error => true
    | .slot _ => true
    | .parameter _ => !allowParameters
    | .bounded _ _ _ => !allowParameters
    | _ => false

end Ty

end SemanticChecker
