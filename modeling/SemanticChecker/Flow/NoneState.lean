/-! What is known about a binding at one point of a body: whether it holds None. -/
namespace SemanticChecker

inductive NoneState where
  | unknown
  | definitelyNone
  | definitelyNotNone
  /-- None on some path to this point, perhaps. -/
  | maybeNone
  deriving DecidableEq, Repr, Inhabited

namespace NoneState

def all : List NoneState :=
  [unknown, definitelyNone, definitelyNotNone, maybeNone]

def name : NoneState → String
  | unknown => "Unknown"
  | definitelyNone => "DefinitelyNone"
  | definitelyNotNone => "DefinitelyNotNone"
  | maybeNone => "MaybeNone"

def ofName? (text : String) : Option NoneState :=
  all.find? fun state => state.name == text

/-- What is known where two paths meet: what both agree on, else that it may be None. -/
def join (a b : NoneState) : NoneState :=
  if a = b then a else maybeNone

@[simp] theorem join_self (a : NoneState) : a.join a = a := by
  simp [join]

theorem join_comm (a b : NoneState) : a.join b = b.join a := by
  cases a <;> cases b <;> rfl

end NoneState

inductive UseKind where
  | read
  | receiver
  | fieldAccess
  | argument
  /-- An operand of an arithmetic or ordering operator. -/
  | operand
  deriving DecidableEq, Repr

namespace UseKind

def all : List UseKind :=
  [read, receiver, fieldAccess, argument, operand]

def name : UseKind → String
  | read => "Read"
  | receiver => "Receiver"
  | fieldAccess => "FieldAccess"
  | argument => "Argument"
  | operand => "Operand"

def ofName? (text : String) : Option UseKind :=
  all.find? fun kind => kind.name == text

/-- Whether the use needs a value; only a plain read can do with None. -/
def requiresValue : UseKind → Bool
  | read => false
  | _ => true

def describe : UseKind → String
  | read => "read"
  | receiver => "used as a method receiver"
  | fieldAccess => "used for field access"
  | argument => "passed as an argument"
  | operand => "used as an operand"

end UseKind

def NoneState.forbids (state : NoneState) (kind : UseKind) : Bool :=
  match state with
  | .unknown => true
  | .definitelyNone => kind.requiresValue
  | .maybeNone => kind.requiresValue
  | .definitelyNotNone => false

end SemanticChecker
