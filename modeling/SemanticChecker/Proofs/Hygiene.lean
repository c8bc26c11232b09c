import Mathlib
import SemanticChecker.Proofs.Mirror.Program

/-! The typed program, whatever is reported about it. No type that is stored in it has a slot, and all type parameters
that it mentions are in scope where it stands. There is one exception: a bound may take a method with type parameters of
its own, and these may then be stored anywhere. -/
namespace SemanticChecker

open List

namespace Ty

mutual

/-- A type and all types inside it, also those that the bound of a type parameter is applied to. -/
def parts : Ty → List Ty
  | .bounded name bound arguments => .bounded name bound arguments :: partsAll arguments
  | .tuple slots => .tuple slots :: partsAll slots
  | .list element => .list element :: parts element
  | .dict key value => .dict key value :: (parts key ++ parts value)
  | .struct id arguments => .struct id arguments :: partsAll arguments
  | .function parameters returns => .function parameters returns :: (partsAll parameters ++ partsAll returns)
  | .primitive kind => [.primitive kind]
  | .enum id => [.enum id]
  | .parameter name => [.parameter name]
  | .slot index => [.slot index]
  | .error => [.error]

def partsAll : List Ty → List Ty
  | [] => []
  | t :: ts => parts t ++ partsAll ts

end

section Parts

variable {arities : Arities} {known : String → Prop} {t : Ty} (h : t.Fits (arities.within True known))
include h

theorem Fits.parts : FitAll (arities.within True known) t.parts := by
  induction t using byParts (Q := fun ts => FitAll (arities.within True known) ts →
      FitAll (arities.within True known) (partsAll ts)) with
  | bounded _ _ _ ih => exact ⟨h, ih h.2.2⟩
  | _ => simp_all [Fits, FitAll, Ty.parts, partsAll, fitAll_append]

theorem Fits.ne_slot (index : Nat) : t ≠ .slot index := by
  rintro rfl
  exact h

theorem Fits.parameter_known {name : String} (named : t.parameterName? = some name) : known name := by
  cases t with
  | parameter other =>
    cases named
    exact h
  | bounded other bound arguments =>
    cases named
    exact h.1
  | _ => cases named

end Parts

end Ty

namespace CheckReport

/-- No type that is stored in a typed program has a slot anywhere in it, whatever is reported about the program. And
if the methods that bounds ask for mention no type parameters of their own, every type parameter that it mentions
is one of the function or method it is stored in, or of the struct that owns it. -/
theorem types_in_scope (options : CheckOptions) (units : List SourceUnit) :
    let report := ofUnits options units
    ∀ entry ∈ report.program.stored, ∀ part ∈ entry.2.parts,
      (∀ index, part ≠ .slot index) ∧
      (report.context.boundMethodsClosed = true →
        ∀ name, part.parameterName? = some name → name ∈ Ty.namesOf entry.1) := by
  intro report entry stored part mem
  have regular : report.context.Regular True := context_regular options units (.inl trivial)
  constructor
  · have fits := ((regular.checkBodies (.inl trivial : True ∨ _)).2 trivial {}).1 entry stored
    exact (Ty.fitAll_iff.1 (Ty.Fits.parts fits) part mem).ne_slot
  · intro closed name named
    have fits := ((regular.checkBodies (.inr closed : False ∨ _)).2 trivial {}).1 entry stored
    exact ((Ty.fitAll_iff.1 (Ty.Fits.parts fits) part mem).parameter_known named).resolve_left id

/-- `struct Crate[T] { item: T; get() -> T }`, whose method answers the field, `struct Labelled[A](Crate[List[A]])`, and
`open[E](labelled: Labelled[E]) -> List[E]`, which binds `found` to `labelled.get()` and answers `labelled.item`. -/
def crateUnit : SourceUnit :=
  let type (name : String) (arguments : List TypeExpr) : TypeExpr := ⟨.named name arguments, {}⟩
  let read (name : String) : Expr := ⟨.ident name, {}⟩
  let member (object : Expr) (name : String) : Expr := ⟨.field object name, {}⟩
  let crate : StructDecl :=
    { name := "Crate", typeParameters := [{ name := "T" }], fields := [{ name := "item", type := type "T" [] }]
      methods := [{ name := "get", returns := [type "T" []], body := some [.ret (some (member (read "self") "item")) {}] }] }
  let labelled : StructDecl :=
    { name := "Labelled", typeParameters := [{ name := "A" }], composes := [type "Crate" [type "List" [type "A" []]]] }
  let openIt : FunctionDecl :=
    { name := "open", typeParameters := [{ name := "E" }]
      parameters := [{ name := "labelled", type := type "Labelled" [type "E" []] }]
      returns := [type "List" [type "E" []]]
      body := some [
        .bind "found" none (some ⟨.call (member (read "labelled") "get") [] [], {}⟩) {},
        .ret (some (member (read "labelled") "item")) {}] }
  { id := ⟨0⟩, declarations := [.struct crate, .struct labelled, .function openIt] }

/-- The inherited field of `Labelled` mentions the type parameter of `Labelled`. -/
theorem types_in_scope_crate :
    (ofUnits {} [crateUnit]).context.boundMethodsClosed = true ∧
    ([.parameter "A"], .list (.parameter "A")) ∈ (ofUnits {} [crateUnit]).program.stored ∧
    .parameter "A" ∈ Ty.parts (.list (.parameter "A")) ∧ "A" ∈ Ty.namesOf [.parameter "A"] := by
  have closed : (ofUnits {} [crateUnit]).context.boundMethodsClosed = true := by decide +kernel
  have stored : ([.parameter "A"], .list (.parameter "A")) ∈ (ofUnits {} [crateUnit]).program.stored :=
    mem_of_getElem? (i := 9) (by decide +kernel)
  have part : Ty.parameter "A" ∈ Ty.parts (.list (.parameter "A")) := by simp [Ty.parts]
  exact ⟨closed, stored, part, (types_in_scope {} [crateUnit] _ stored _ part).2 closed "A" rfl⟩

/-- The bound of `first` finds a type parameter of the method `get`, and `main`, which has a type parameter of its own, is
handed on with it. -/
def strayUnit : SourceUnit :=
  let unit := collectionUnit [{ name := "U" }] "U"
  let made : Expr := ⟨.call ⟨.ident "Bag", {}⟩ [] [], {}⟩
  let main : FunctionDecl :=
    { name := "main", typeParameters := [{ name := "T" }]
      body := some [.bind "x" none (some ⟨.call ⟨.ident "first", {}⟩ [] [made], {}⟩) {}] }
  { unit with declarations := unit.declarations.dropLast ++ [.function main] }

theorem stray_type_eligible : (ofUnits {} [strayUnit]).isEligible = true ∧
    ([.parameter "T"], .parameter "U") ∈ (ofUnits {} [strayUnit]).program.stored := by
  constructor
  · cbv
  · exact mem_of_getElem? (i := 19) (by cbv)

end CheckReport

end SemanticChecker
