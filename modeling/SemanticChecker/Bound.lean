import SemanticChecker.Ty.Basic

/-! Bounds on type parameters. A bound admits a set of primitive kinds, and perhaps enums, or asks for
methods. A bound that asks for methods has parameters of its own; checking a type against it answers
what each of them stands for. -/
namespace SemanticChecker

/-- A place in the signature of a method that a bound asks for. -/
inductive BoundSlot where
  /-- The bound's own parameter with this position. -/
  | parameter (index : Nat)
  | primitive (kind : Primitive)
  deriving DecidableEq, Repr

structure RequiredMethod where
  name : String
  parameters : List BoundSlot
  returns : List BoundSlot
  deriving DecidableEq, Repr

inductive Bound where
  | kinds (admitted : List Primitive) (admitsEnums : Bool)
  | methods (parameters : Nat) (required : List RequiredMethod)
  deriving DecidableEq, Repr

def Bound.parameterCount : Bound → Nat
  | .kinds _ _ => 0
  | .methods parameters _ => parameters

inductive BoundError where
  | unknown (bound : String)
  | notAdmitted (bound : String)
  | missingMethod (bound method : String)
  | methodShape (bound method : String)
  /-- A parameter of the bound would have to stand for two types. -/
  | inconsistent (bound : String) (parameter : Nat)
  deriving DecidableEq, Repr

def BoundError.message : BoundError → String
  | unknown bound => s!"unknown bound '{bound}'"
  | notAdmitted bound => s!"it is not admitted by '{bound}'"
  | missingMethod bound method => s!"'{bound}' requires a method '{method}'"
  | methodShape bound method => s!"method '{method}' does not have the shape '{bound}' requires"
  | inconsistent bound parameter =>
    s!"the methods bind parameter {parameter} of '{bound}' inconsistently"

/-- The function type of a method of a type, if the type has the method. -/
abbrev MethodLookup := Ty → String → Option Ty

/-- The bounds that are known, by name; of two entries for one name the first counts. -/
structure BoundTable where
  entries : List (String × Bound)

namespace BoundTable

/-- Lists are collections of their elements: `len() -> int64` and `get(int64) -> I`. -/
def collection : Bound :=
  .methods 1
    [⟨"len", [], [.primitive .int64]⟩,
      ⟨"get", [.primitive .int64], [.parameter 0]⟩]

def standard : BoundTable :=
  let signed := Primitive.all.filter Primitive.isSigned
  let unsigned := Primitive.all.filter Primitive.isUnsigned
  let integer := Primitive.all.filter Primitive.isInteger
  let floating := Primitive.all.filter Primitive.isFloat
  let numeric := Primitive.all.filter Primitive.isNumeric
  ⟨[("Signed", .kinds signed false),
    ("Unsigned", .kinds unsigned false),
    ("Integer", .kinds integer false),
    ("Floating", .kinds floating false),
    ("Numeric", .kinds numeric false),
    ("Ordered", .kinds numeric true),
    ("Collection", collection)]⟩

def register (table : BoundTable) (name : String) (bound : Bound) : BoundTable :=
  ⟨(name, bound) :: table.entries⟩

def find? (table : BoundTable) (name : String) : Option Bound :=
  table.entries.lookup name

def parameterCount? (table : BoundTable) (name : String) : Option Nat :=
  (table.find? name).map Bound.parameterCount

/-- What the parameters of a bound stand for, as far as it is known. -/
abbrev Assignment := List (Option Ty)

def matchSlot (bound method : String) (found : Assignment) : BoundSlot → Ty → Except BoundError Assignment
  | .primitive kind, actual =>
    if actual = .primitive kind then .ok found else .error (.methodShape bound method)
  | .parameter index, actual =>
    match found[index]? with
    | none => .ok found
    | some none => .ok (found.set index (some actual))
    | some (some existing) =>
      if existing = actual then .ok found else .error (.inconsistent bound index)

def matchSlots (bound method : String) :
    Assignment → List (BoundSlot × Ty) → Except BoundError Assignment
  | found, [] => .ok found
  | found, (slot, actual) :: rest =>
    match matchSlot bound method found slot actual with
    | .ok found => matchSlots bound method found rest
    | .error error => .error error

def matchMethod (bound : String) (methods : MethodLookup) (t : Ty) (found : Assignment)
    (required : RequiredMethod) : Except BoundError Assignment :=
  match methods t required.name with
  | none => .error (.missingMethod bound required.name)
  | some (.function parameters returns) =>
    if parameters.length = required.parameters.length ∧ returns.length = required.returns.length then
      matchSlots bound required.name found
        ((required.parameters ++ required.returns).zip (parameters ++ returns))
    else
      .error (.methodShape bound required.name)
  | some _ => .error (.methodShape bound required.name)

def matchMethods (bound : String) (methods : MethodLookup) (t : Ty) :
    Assignment → List RequiredMethod → Except BoundError Assignment
  | found, [] => .ok found
  | found, required :: rest =>
    match matchMethod bound methods t found required with
    | .ok found => matchMethods bound methods t found rest
    | .error error => .error error

/-- Whether a type parameter with a bound of its own satisfies another: the bounds are the same, or
every kind the one admits is admitted by the other. -/
def entails (table : BoundTable) (own : BoundRef) (bound : String) (required : Bound) :
    Except BoundError (List Ty) :=
  if own.name = bound then .ok own.arguments
  else match table.find? own.name, required with
    | some (.kinds ownKinds ownEnums), .kinds admitted admitsEnums =>
      if ownKinds.all (admitted.contains ·) && (!ownEnums || admitsEnums) then .ok []
      else .error (.notAdmitted bound)
    | _, _ => .error (.notAdmitted bound)

/-- Whether a type that is not a bounded type parameter satisfies a bound. -/
def satisfiedBy (methods : MethodLookup) (t : Ty) (bound : String) : Bound → Except BoundError (List Ty)
  | .kinds admitted admitsEnums =>
    let accepted := match t with
      | .primitive kind => admitted.contains kind
      | .enum _ => admitsEnums
      | _ => false
    if accepted then .ok [] else .error (.notAdmitted bound)
  | .methods parameters required =>
    match matchMethods bound methods t (List.replicate parameters none) required with
    | .ok found => .ok (found.map (·.getD .error))
    | .error error => .error error

/-- The arguments a bound is applied to must be what its parameters stand for. Slots and the error
type, on either side where they can stand, pass. -/
def compareArguments (bound : String) : Nat → List (Ty × Ty) → Except BoundError Unit
  | _, [] => .ok ()
  | index, (argument, binding) :: rest =>
    let free := match argument with
      | .slot _ => true
      | .error => true
      | _ => false
    if !free && argument != binding && !binding.isError then .error (.inconsistent bound index)
    else compareArguments bound (index + 1) rest

/-- Checks a type against a bound and answers what the bound's parameters stand for. The error type and
slots pass unchecked. -/
def check (table : BoundTable) (methods : MethodLookup) (t : Ty) (bound : BoundRef) :
    Except BoundError (List Ty) :=
  match table.find? bound.name with
  | none => .error (.unknown bound.name)
  | some required =>
    let bindings := match t with
      | .error => none
      | .slot _ => none
      | .bounded _ own arguments => some (table.entails ⟨own, arguments⟩ bound.name required)
      | t => some (satisfiedBy methods t bound.name required)
    match bindings with
    | none => .ok []
    | some (.error error) => .error error
    | some (.ok bindings) =>
      match compareArguments bound.name 0 (bound.arguments.zip bindings) with
      | .ok () => .ok bindings
      | .error error => .error error

/-- Whether a type satisfies a bound whose own parameters are left open. -/
def satisfies (table : BoundTable) (methods : MethodLookup) (t : Ty) (name : String) : Bool :=
  match table.check methods t { name } with
  | .ok _ => true
  | .error _ => false

/-- The method that a type parameter has because its bound asks for it. -/
def method? (table : BoundTable) (bound : BoundRef) (name : String) : Option Ty :=
  match table.find? bound.name with
  | some (.methods _ required) =>
    let fill : BoundSlot → Ty
      | .parameter index => (bound.arguments[index]?).getD .error
      | .primitive kind => .primitive kind
    (required.find? (·.name == name)).map fun method =>
      .function (method.parameters.map fill) (method.returns.map fill)
  | _ => none

end BoundTable

end SemanticChecker
