import SemanticChecker.Ty.Describe
import SemanticChecker.Ty.Substitution

/-! Signatures of functions and methods. -/
namespace SemanticChecker

structure Signature where
  typeParameters : List Ty := []
  params : List (String × Ty) := []
  returns : List Ty := []

namespace Signature

def parameterTypes (s : Signature) : List Ty :=
  s.params.map (·.2)

def type (s : Signature) : Ty :=
  .function s.parameterTypes s.returns

def result (s : Signature) : Ty :=
  Ty.ofReturns s.returns

def isGeneric (s : Signature) : Bool :=
  !s.typeParameters.isEmpty

def instantiate (σ : Instantiation) (s : Signature) : Signature :=
  { s with
    params := s.params.map fun (name, t) => (name, t.instantiate σ)
    returns := s.returns.map (Ty.instantiate σ) }

@[simp] theorem typeParameters_instantiate (σ : Instantiation) (s : Signature) :
    (s.instantiate σ).typeParameters = s.typeParameters :=
  rfl

theorem type_instantiate (σ : Instantiation) (s : Signature) :
    (s.instantiate σ).type = s.type.instantiate σ := by
  simp [type, parameterTypes, instantiate, Ty.instantiate_eq_replace, Ty.replace, Ty.replaceAll_eq_map,
    Function.comp_def]

/-- The signature under a name, such as `area(scale: float64) -> float64`. -/
def render (names : TypeNames) (name : String) (s : Signature) : String :=
  let params := s.params.map fun (name, t) => name ++ ": " ++ t.describe names
  let call := name ++ "(" ++ ", ".intercalate params ++ ")"
  match s.returns with
  | [] => call
  | returns => call ++ " -> " ++ (Ty.ofReturns returns).describe names

end Signature

end SemanticChecker
