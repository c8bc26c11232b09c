import SemanticChecker.Enumeration
import SemanticChecker.Ty.Basic

/-! The enumerations of a program by their numbers. A number is handed out before the definition is
read, so that other declarations can already name the enumeration. -/
namespace SemanticChecker

inductive EnumEntry where
  | reserved
  | defined (info : EnumInfo)
  | rejected

structure EnumRegistry where
  entries : List EnumEntry := []

namespace EnumRegistry

def size (registry : EnumRegistry) : Nat :=
  registry.entries.length

def isEmpty (registry : EnumRegistry) : Bool :=
  registry.entries.isEmpty

def reserve (registry : EnumRegistry) : EnumId × EnumRegistry :=
  (⟨registry.size⟩, ⟨registry.entries ++ [.reserved]⟩)

/-- Enters what reading the definition gave; an unknown number is passed over in silence. -/
def install (registry : EnumRegistry) (id : EnumId) (read : Except EnumError EnumInfo) :
    Option EnumError × EnumRegistry :=
  if id.index < registry.size then
    match read with
    | .ok info => (none, ⟨registry.entries.set id.index (.defined info)⟩)
    | .error e => (some e, ⟨registry.entries.set id.index .rejected⟩)
  else (none, registry)

def define (registry : EnumRegistry) (definition : EnumDef) : Except EnumError EnumId × EnumRegistry :=
  let (id, reserved) := registry.reserve
  match reserved.install id definition.validate with
  | (none, registry) => (.ok id, registry)
  | (some e, registry) => (.error e, registry)

def get? (registry : EnumRegistry) (id : EnumId) : Option EnumInfo :=
  match registry.entries[id.index]? with
  | some (.defined info) => some info
  | _ => none

def isRejected (registry : EnumRegistry) (id : EnumId) : Bool :=
  match registry.entries[id.index]? with
  | some .rejected => true
  | _ => false

def variant? (registry : EnumRegistry) (id : EnumId) (name : String) : Option (Nat × EnumVariant) :=
  registry.get? id >>= fun info => info.variant? name

/-- The positions of the variants from the least to the greatest value; equal values keep their order. -/
def ordering (registry : EnumRegistry) (id : EnumId) : List Nat :=
  match registry.get? id with
  | none => []
  | some info =>
    let sorted := info.variants.zipIdx.mergeSort fun (a, _) (b, _) =>
      a.value.compare? b.value != some .gt
    sorted.map (·.2)

def compareVariants? (registry : EnumRegistry) (id : EnumId) (a b : String) : Option Ordering := do
  let (_, left) ← registry.variant? id a
  let (_, right) ← registry.variant? id b
  left.value.compare? right.value

end EnumRegistry

end SemanticChecker
