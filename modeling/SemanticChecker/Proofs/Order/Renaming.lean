import Mathlib.Logic.Function.Basic
import SemanticChecker.Declared.Table
import SemanticChecker.Ty.Slots

/-! Numbering the structs, enumerations and functions of a program in another way, and slots from another number on. No
operation on types looks at a number, other than for whether two of them are the same. -/
namespace SemanticChecker

/-- Other numbers for structs, enumerations and functions, and how far slots are moved. -/
structure Renaming where
  struct : StructId → StructId
  enum : EnumId → EnumId
  function : FunctionId → FunctionId
  shift : Nat
  struct_injective : Function.Injective struct
  enum_injective : Function.Injective enum

/-- Whether structs and enumerations are called what they were called before. -/
structure TypeNames.Keeps (ρ : Renaming) (names others : TypeNames) : Prop where
  struct : ∀ id, others.struct (ρ.struct id) = names.struct id
  enum : ∀ id, others.enum (ρ.enum id) = names.enum id

namespace Ty

mutual

def rename (ρ : Renaming) : Ty → Ty
  | .primitive kind => .primitive kind
  | .tuple slots => .tuple (renameAll ρ slots)
  | .list element => .list (rename ρ element)
  | .dict key value => .dict (rename ρ key) (rename ρ value)
  | .struct id arguments => .struct (ρ.struct id) (renameAll ρ arguments)
  | .enum id => .enum (ρ.enum id)
  | .function parameters returns => .function (renameAll ρ parameters) (renameAll ρ returns)
  | .parameter name => .parameter name
  | .bounded name bound arguments => .bounded name bound (renameAll ρ arguments)
  | .slot index => .slot (index + ρ.shift)
  | .error => .error

def renameAll (ρ : Renaming) : List Ty → List Ty
  | [] => []
  | t :: ts => rename ρ t :: renameAll ρ ts

end

variable (ρ : Renaming)

@[simp] theorem renameAll_eq_map (ts : List Ty) : renameAll ρ ts = ts.map (rename ρ) := by
  induction ts with
  | nil => rfl
  | cons t ts ih => rw [renameAll, ih, List.map_cons]

@[simp] theorem rename_unit : Ty.unit.rename ρ = .unit :=
  rfl

@[simp] theorem isError_rename (t : Ty) : (t.rename ρ).isError = t.isError := by
  cases t <;> rfl

@[simp] theorem rename_eq_error {t : Ty} : t.rename ρ = .error ↔ t = .error := by
  cases t <;> simp [rename]

@[simp] theorem rename_eq_primitive {t : Ty} {kind : Primitive} : t.rename ρ = .primitive kind ↔ t = .primitive kind := by
  cases t <;> simp [rename]

@[simp] theorem parameterName?_rename (t : Ty) : (t.rename ρ).parameterName? = t.parameterName? := by
  cases t <;> rfl

@[simp] theorem primitive?_rename (t : Ty) : (t.rename ρ).primitive? = t.primitive? := by
  cases t <;> rfl

theorem rename_ofReturns (returns : List Ty) : (ofReturns returns).rename ρ = ofReturns (returns.map (rename ρ)) := by
  match returns with
  | [] => rfl
  | [_] => rfl
  | _ :: _ :: _ => simp [ofReturns, rename]

theorem rename_injective {t u : Ty} (h : t.rename ρ = u.rename ρ) : t = u := by
  have structs := fun i j => @Function.Injective.eq_iff _ _ _ ρ.struct_injective i j
  have enums := fun i j => @Function.Injective.eq_iff _ _ _ ρ.enum_injective i j
  induction t using byParts (Q := fun ts => ∀ us, renameAll ρ ts = renameAll ρ us → ts = us) generalizing u with
  | nil us => cases us <;> simp_all
  | cons _ _ first rest us => cases us <;> grind [renameAll]
  | _ => cases u <;> grind [rename]

@[simp] theorem rename_inj {t u : Ty} : t.rename ρ = u.rename ρ ↔ t = u :=
  ⟨rename_injective ρ, congrArg _⟩

@[simp] theorem rename_beq (t u : Ty) : (t.rename ρ == u.rename ρ) = (t == u) := by
  rw [Bool.eq_iff_iff, beq_iff_eq, beq_iff_eq, rename_inj]

end Ty

namespace Instantiation

def rename (ρ : Renaming) (σ : Instantiation) : Instantiation :=
  σ.map fun (name, t) => (name, t.rename ρ)

variable (ρ : Renaming) (σ : Instantiation)

@[simp] theorem get?_rename (name : String) : (σ.rename ρ).get? name = (σ.get? name).map (Ty.rename ρ) := by
  induction σ with
  | nil => rfl
  | cons entry σ ih =>
    obtain ⟨other, t⟩ := entry
    simp only [rename, get?, List.map_cons, List.lookup_cons] at ih ⊢
    cases name == other
    · exact ih
    · rfl

theorem rename_ofPairs (pairs : List (String × Ty)) :
    (ofPairs pairs).rename ρ = ofPairs (pairs.map fun (name, t) => (name, t.rename ρ)) := by
  simp [rename, ofPairs]

theorem rename_ofArguments (parameters arguments : List Ty) :
    (ofArguments parameters arguments).rename ρ =
      ofArguments (parameters.map (Ty.rename ρ)) (arguments.map (Ty.rename ρ)) := by
  have names : (parameters.map (Ty.rename ρ)).filterMap Ty.parameterName? = parameters.filterMap Ty.parameterName? := by
    rw [List.filterMap_map]
    exact congrArg (List.filterMap · parameters) (funext fun t => Ty.parameterName?_rename ρ t)
  rw [ofArguments, rename_ofPairs, ofArguments, names, List.zip_map_right]
  rfl

end Instantiation

namespace Ty

variable (ρ : Renaming)

theorem rename_replace (σ : Instantiation) (t : Ty) : (t.replace σ).rename ρ = (t.rename ρ).replace (σ.rename ρ) := by
  induction t using byParts (Q := fun ts => renameAll ρ (replaceAll σ ts) = replaceAll (σ.rename ρ) (renameAll ρ ts)) with
  | parameter name | bounded name =>
    rw [replace, rename, replace, Instantiation.get?_rename]
    cases σ.get? name <;> rfl
  | _ => simp_all [rename, replace, replaceAll]

@[simp] theorem rename_instantiate (σ : Instantiation) (t : Ty) :
    (t.instantiate σ).rename ρ = (t.rename ρ).instantiate (σ.rename ρ) := by
  rw [instantiate_eq_replace, instantiate_eq_replace, rename_replace]

theorem slots_rename (t : Ty) : (t.rename ρ).slots = t.slots.map (· + ρ.shift) := by
  induction t using byParts (Q := fun ts => slotsAll (renameAll ρ ts) = (slotsAll ts).map (· + ρ.shift)) <;>
    simp_all [rename, slots, slotsAll]

@[simp] theorem hasSlot_rename (t : Ty) : (t.rename ρ).hasSlot = t.hasSlot := by
  simp [hasSlot, anyLeaf_isSlot, slots_rename]

@[simp] theorem mentions_rename (index : Nat) (t : Ty) : (t.rename ρ).mentions (index + ρ.shift) = t.mentions index := by
  rw [Bool.eq_iff_iff, mentions_iff, mentions_iff, slots_rename]
  simp

theorem rename_fill {value other : Nat → Ty} (same : ∀ index, other (index + ρ.shift) = (value index).rename ρ) (t : Ty) :
    (t.fill value).rename ρ = (t.rename ρ).fill other := by
  induction t using byParts (Q := fun ts => renameAll ρ (fillAll value ts) = fillAll other (renameAll ρ ts)) <;>
    simp_all [rename, fill, fillAll]

theorem anyLeaf_rename {p : Ty → Bool} (same : ∀ t, p (t.rename ρ) = p t) (t : Ty) : (t.rename ρ).anyLeaf p = t.anyLeaf p := by
  induction t using byParts (Q := fun ts => anyLeafAll p (renameAll ρ ts) = anyLeafAll p ts) with
  | nil => rfl
  | cons | tuple | list | dict | struct | function => simp_all [rename, anyLeaf, anyLeafAll]
  | _ => exact same _

@[simp] theorem isUnresolved_rename (allowParameters : Bool) (t : Ty) :
    (t.rename ρ).isUnresolved allowParameters = t.isUnresolved allowParameters :=
  anyLeaf_rename ρ (fun t => by cases t <;> rfl) t

theorem isRepetition_map (ts : List Ty) : isRepetition (ts.map (rename ρ)) = isRepetition ts := by
  match ts with
  | [] => rfl
  | [_] => rfl
  | _ :: _ :: _ => simp [isRepetition, Function.comp_def]

variable {ρ} {names others : TypeNames} {p : Ty → Bool}

theorem describe_rename_of_leaves (keeps : names.Keeps ρ others) (isSlot : ∀ index, p (.slot index) = true) {t : Ty}
    (free : t.anyLeaf p = false) : (t.rename ρ).describe others = t.describe names := by
  induction t using byParts (Q := fun ts => anyLeafAll p ts = false →
      describeEach others (renameAll ρ ts) = describeEach names ts ∧
      describeFirst others (renameAll ρ ts) = describeFirst names ts) with
  | tuple slots ih =>
    rw [rename, describe, describe, (ih free).1, (ih free).2, renameAll_eq_map, isRepetition_map, List.length_map]
  | _ => simp_all [rename, describe, describeEach, describeFirst, anyLeaf, anyLeafAll, keeps.struct, keeps.enum]

/-- A type that may reach code generation has no slots, and is shown as before. -/
theorem describe_rename (keeps : names.Keeps ρ others) {allowParameters : Bool} {t : Ty}
    (resolved : t.isUnresolved allowParameters = false) : (t.rename ρ).describe others = t.describe names :=
  describe_rename_of_leaves keeps (fun _ => rfl) resolved

end Ty

namespace Signature

def rename (ρ : Renaming) (s : Signature) : Signature where
  typeParameters := s.typeParameters.map (Ty.rename ρ)
  params := s.params.map fun (name, t) => (name, t.rename ρ)
  returns := s.returns.map (Ty.rename ρ)

variable (ρ : Renaming) (s : Signature)

@[simp] theorem typeParameters_rename : (s.rename ρ).typeParameters = s.typeParameters.map (Ty.rename ρ) :=
  rfl

@[simp] theorem params_rename : (s.rename ρ).params = s.params.map fun (name, t) => (name, t.rename ρ) :=
  rfl

@[simp] theorem returns_rename : (s.rename ρ).returns = s.returns.map (Ty.rename ρ) :=
  rfl

@[simp] theorem parameterTypes_rename : (s.rename ρ).parameterTypes = s.parameterTypes.map (Ty.rename ρ) := by
  simp [parameterTypes, Function.comp_def]

@[simp] theorem type_rename : (s.rename ρ).type = s.type.rename ρ := by
  simp [type, Ty.rename]

@[simp] theorem result_rename : (s.rename ρ).result = s.result.rename ρ := by
  simp [result, Ty.rename_ofReturns]

@[simp] theorem isGeneric_rename : (s.rename ρ).isGeneric = s.isGeneric := by
  simp [isGeneric]

@[simp] theorem rename_instantiate (σ : Instantiation) :
    (s.instantiate σ).rename ρ = (s.rename ρ).instantiate (σ.rename ρ) := by
  simp [rename, instantiate, Function.comp_def]

end Signature

/-- The same numbers for everything declared, with slots moved by another distance. -/
def Renaming.shiftedBy (ρ : Renaming) (shift : Nat) : Renaming :=
  { ρ with shift }

def Symbol.rename (ρ : Renaming) : Symbol → Symbol
  | struct id => struct (ρ.struct id)
  | enum id => enum (ρ.enum id)
  | function id => function (ρ.function id)
  | typeAlias => typeAlias

def ComposedParent.rename (ρ : Renaming) (parent : ComposedParent) : ComposedParent :=
  { parent with id := ρ.struct parent.id, type := parent.type.rename ρ }

def FieldDef.rename (ρ : Renaming) (field : FieldDef) : FieldDef :=
  { field with type := field.type.rename ρ }

def MethodDef.rename (ρ : Renaming) (method : MethodDef) : MethodDef :=
  { method with signature := method.signature.rename ρ }

def StructShape.rename (ρ : Renaming) (shape : StructShape) : StructShape where
  typeParameters := shape.typeParameters.map (Ty.rename ρ)
  composes := shape.composes.map (ComposedParent.rename ρ)
  fields := shape.fields.map (FieldDef.rename ρ)
  methods := shape.methods.map (MethodDef.rename ρ)

namespace StructDef

def rename (ρ : Renaming) (own : StructDef) : StructDef :=
  { own with id := ρ.struct own.id, shape := own.shape.rename ρ }

variable (ρ : Renaming) (own : StructDef)

@[simp] theorem typeParameters_rename : (own.rename ρ).typeParameters = own.typeParameters.map (Ty.rename ρ) :=
  rfl

@[simp] theorem selfType_rename : (own.rename ρ).selfType = own.selfType.rename ρ := by
  rw [selfType, selfType, Ty.rename, Ty.renameAll_eq_map]
  rfl

@[simp] theorem instantiation_rename (arguments : List Ty) :
    (own.rename ρ).instantiation (arguments.map (Ty.rename ρ)) = (own.instantiation arguments).rename ρ :=
  (Instantiation.rename_ofArguments ρ own.typeParameters arguments).symm

end StructDef

def FunctionDef.rename (ρ : Renaming) (own : FunctionDef) : FunctionDef :=
  { own with id := ρ.function own.id, signature := own.signature.rename ρ }

def EnumSource.rename (ρ : Renaming) (source : EnumSource) : EnumSource :=
  { source with id := ρ.enum source.id }

end SemanticChecker
