import SemanticChecker.Diagnostic
import SemanticChecker.Primitive
import SemanticChecker.Text.Decimal
import SemanticChecker.Text.Quoted

/-! Enumerations: named variants over values of one primitive kind. Reading a definition gives every
variant its value and refuses a definition with a name or a value used twice. -/
namespace SemanticChecker

inductive EnumValue where
  | int (value : Int)
  | float (value : Float)
  | str (value : String)

namespace EnumValue

def text : EnumValue → String
  | int value => toString value
  | float value => FloatText.inMessage value
  | str value => Quoted.text value

/-- Whether two values may not stand in one enumeration together; zero and minus zero may not. -/
def clashes : EnumValue → EnumValue → Bool
  | int a, int b => a == b
  | float a, float b => a == b
  | str a, str b => a == b
  | _, _ => false

/-- The order of two values of one kind. Floats are in their total order, texts in the order of
their code points. -/
def compare? : EnumValue → EnumValue → Option Ordering
  | int a, int b => some (compare a b)
  | float a, float b => some (compare (FloatText.orderKey a) (FloatText.orderKey b))
  | str a, str b => some (compareOfLessAndEq a b)
  | _, _ => none

end EnumValue

/-- The value a literal gives to a variant of an enumeration over `backing`. -/
def Literal.enumValue? (backing : Primitive) : Literal → Option EnumValue
  | .integer value =>
    if backing.isInteger then some (.int value)
    else if backing.isFloat then some (.float (FloatText.ofInt value))
    else .none
  | .float value => if backing.isFloat then some (.float value) else .none
  | .string value => if backing = .str then some (.str value) else .none
  | _ => .none

/-- What a declaration says about an enumeration. -/
structure EnumDef where
  name : String
  backing : Primitive
  variants : List VariantDecl
  span : Span := {}

structure EnumVariant where
  name : String
  value : EnumValue

/-- An enumeration whose variants all have their values. -/
structure EnumInfo where
  name : String
  backing : Primitive
  variants : List EnumVariant
  span : Span := {}

def EnumInfo.variant? (info : EnumInfo) (name : String) : Option (Nat × EnumVariant) :=
  (info.variants.zipIdx.find? fun (v, _) => v.name == name).map fun (v, index) => (index, v)

inductive EnumErrorKind where
  | duplicateName (variant : String)
  | duplicateValue (first second : String) (value : EnumValue)
  | missingValue (variant : String)
  | valueMismatch (variant : String)
  | invalidBacking

structure EnumError where
  kind : EnumErrorKind
  enum : String
  backing : Primitive
  span : Span

namespace EnumError

def message (e : EnumError) : String :=
  match e.kind with
  | .duplicateName variant => s!"enum '{e.enum}' declares variant '{variant}' more than once"
  | .duplicateValue first second value =>
    s!"variants '{first}' and '{second}' of enum '{e.enum}' share the value {value.text}"
  | .missingValue variant =>
    s!"variant '{variant}' of {e.backing.name}-backed enum '{e.enum}' needs an explicit value"
  | .valueMismatch variant =>
    s!"value of variant '{variant}' does not fit the {e.backing.name} backing of enum '{e.enum}'"
  | .invalidBacking => s!"enum '{e.enum}' cannot be backed by {e.backing.name}"

def code (e : EnumError) : DiagnosticCode :=
  match e.kind with
  | .duplicateName _ | .duplicateValue .. => .duplicateVariant
  | _ => .enumValueMismatch

def diagnostic (e : EnumError) : Diagnostic :=
  { code := e.code, message := e.message, span := some e.span }

end EnumError

namespace EnumDef

def hasBacking (definition : EnumDef) : Bool :=
  definition.backing.isNumeric || definition.backing == .str

def fault (definition : EnumDef) (kind : EnumErrorKind) (span : Span) : EnumError :=
  ⟨kind, definition.name, definition.backing, span⟩

/-- The value of a variant: the one written, or for integers the one after the latest value. -/
def value (definition : EnumDef) (latest : Option Int) (variant : VariantDecl) :
    Except EnumErrorKind EnumValue :=
  match variant.value with
  | some literal =>
    match literal.enumValue? definition.backing with
    | some value => .ok value
    | none => .error (.valueMismatch variant.name)
  | none =>
    if definition.backing.isInteger then
      .ok (.int (match latest with
        | some value => value + 1
        | none => 0))
    else .error (.missingValue variant.name)

def fits (definition : EnumDef) : EnumValue → Bool
  | .int value => definition.backing.holds value
  | _ => true

def take (definition : EnumDef) (taken : List EnumVariant) (latest : Option Int)
    (variant : VariantDecl) : Except EnumErrorKind EnumVariant := do
  if taken.any fun earlier => earlier.name == variant.name then
    throw (.duplicateName variant.name)
  let value ← definition.value latest variant
  unless definition.fits value do
    throw (.valueMismatch variant.name)
  match taken.find? fun earlier => earlier.value.clashes value with
  | some earlier => throw (.duplicateValue earlier.name variant.name value)
  | none => return ⟨variant.name, value⟩

/-- The variants in order; `latest` is the last integer given to one of them. -/
def takeAll (definition : EnumDef) (taken : List EnumVariant) (latest : Option Int) :
    List VariantDecl → Except EnumError (List EnumVariant)
  | [] => .ok taken
  | variant :: rest =>
    match definition.take taken latest variant with
    | .error kind => .error (definition.fault kind variant.span)
    | .ok next =>
      let latest := match next.value with
        | .int value => some value
        | _ => latest
      takeAll definition (taken ++ [next]) latest rest

def validate (definition : EnumDef) : Except EnumError EnumInfo := do
  unless definition.hasBacking do
    throw (definition.fault .invalidBacking definition.span)
  let variants ← definition.takeAll [] none definition.variants
  return ⟨definition.name, definition.backing, variants, definition.span⟩

end EnumDef

end SemanticChecker
