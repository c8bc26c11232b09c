import Mathlib
import SemanticChecker.Check.Program
import SemanticChecker.Proofs.Soundness.Program

/-! The report of a check. A program without errors obeys the typing rules, and no type without a meaning
reaches code generation. The guard before code generation has nothing to add, with one exception: a bound may
take a method with type parameters of its own, and these may then reach a function that has none. -/
namespace SemanticChecker

theorem Compositions.external_diagnostics (compositions : Compositions) (table : DeclTable) :
    External (compositions.diagnostics table) := by
  intro d hd
  obtain ⟨issue, _, rfl⟩ := List.mem_map.1 hd
  show issue.code ≠ .internal
  cases issue <;> nofun

namespace CheckReport

section Unguarded

variable (options : CheckOptions) (units : List SourceUnit)

/-- The context of a program is regular where the error type is admitted, and in any case if no error is reported while
its declarations are collected. -/
theorem context_regular {error : Prop} (quiet : error ∨ Harmless (Collected.ofUnits .standard units).diagnostics) :
    (unguarded options units).context.Regular error where
  bounds := rfl
  table := Collected.ofUnits_formed quiet
  aliases := by
    show AliasTable.Fits (((Collected.ofUnits .standard units).declared.table.arities .standard).within error _)
      (Collected.ofUnits .standard units).declared.aliases
    rw [Collected.arities_ofUnits, Collected.aliases_ofUnits]
    exact Collected.resolved_aliases quiet
  compositions := rfl
  enums := quiet.imp_right (Collected.ofUnits_enums .standard units)
  methods := .inr (Collected.ofUnits_methods .standard units)

theorem external_unguarded : External (unguarded options units).log.entries := by
  let context := (unguarded options units).context
  let collected := Collected.ofUnits .standard units
  have regular := context_regular options units (.inl trivial : True ∨ _)
  obtain ⟨bodies, added, external, _⟩ := (regular.checkBodies (.inl trivial : True ∨ _)).1 {}
  have reported : (context.checkBodies.run {}).2.diagnostics = bodies := added
  refine DiagnosticLog.external_reportAll ?_ (reported ▸ external)
  refine DiagnosticLog.external_reportAll ?_ (context.external_checkPending collected.pending)
  refine DiagnosticLog.external_reportAll ?_ (context.compositions.external_diagnostics context.table)
  exact DiagnosticLog.external_reportAll external_nil (Collected.ofUnits_external .standard units)

theorem unguarded_hasErrors_eq_false : (unguarded options units).log.hasErrors = false ↔
    let context := (unguarded options units).context
    let collected := Collected.ofUnits .standard units
    Harmless collected.diagnostics ∧ Harmless (context.compositions.diagnostics context.table) ∧
      Harmless (collected.pending.flatMap context.checkPending) ∧ Harmless (context.checkBodies.run {}).2.diagnostics := by
  refine DiagnosticLog.reportAll_hasErrors_eq_false.trans ?_
  rw [DiagnosticLog.reportAll_hasErrors_eq_false, DiagnosticLog.reportAll_hasErrors_eq_false,
    DiagnosticLog.reportAll_hasErrors_eq_false, and_assoc, and_assoc, and_assoc]
  exact and_iff_right rfl

theorem unguarded_sound (lenient : Prop) (noErrors : (unguarded options units).log.hasErrors = false)
    (closed : lenient ∨ (unguarded options units).context.boundMethodsClosed = true) :
    (∀ site ∈ (unguarded options units).program.sites, site.Fits (unguarded options units).context False lenient) ∧
      ((unguarded options units).context.Strict False →
        (unguarded options units).program.Typed (unguarded options units).context) := by
  let context := (unguarded options units).context
  obtain ⟨collected, _, _, bodies⟩ := (unguarded_hasErrors_eq_false options units).1 noErrors
  have regular := context_regular options units (.inr collected : False ∨ _)
  obtain ⟨new, added, _, answer⟩ := (regular.checkBodies closed).1 {}
  have reported : (context.checkBodies.run {}).2.diagnostics = new := added
  exact (answer (reported ▸ bodies)).2

variable {options units}

/-- A type that must not stand at its site is reported; `lenient` lets type parameters stand anywhere. -/
theorem hasErrors_of_unresolved {lenient : Prop} {site : TypeSite} {generic : Bool}
    (closed : lenient ∨ (unguarded options units).context.boundMethodsClosed = true)
    (member : site ∈ (unguarded options units).program.sites) (scope : lenient ∨ site.generic = true → generic = true)
    (unresolved : site.type.isUnresolved generic = true) : (unguarded options units).log.hasErrors = true := by
  refine Decidable.byContradiction fun noErrors => ?_
  obtain ⟨fits, _⟩ := unguarded_sound options units lenient (Bool.eq_false_iff.2 noErrors) closed
  exact Bool.eq_false_iff.1 ((fits site member).not_unresolved fun _ => scope) unresolved

end Unguarded

theorem findUnresolved?_eq_none {program : TypedProgram} :
    program.findUnresolved? = none ↔ ∀ site ∈ program.sites, site.isUnresolved = false := by
  simp [TypedProgram.findUnresolved?]

theorem hasErrors_guard (names : TypeNames) (program : TypedProgram) (log : DiagnosticLog) :
    (guard names program log).hasErrors = (log.hasErrors || program.findUnresolved?.isSome) := by
  unfold guard
  split
  · rename_i site found
    rw [found]
    split
    · rename_i failed
      simp [failed]
    · exact log.hasErrors_report _
  · rename_i found
    simp [found]

/-- The guard adds nothing where what it looks for is reported already. -/
theorem guard_of_reported {names : TypeNames} {program : TypedProgram} {log : DiagnosticLog}
    (reported : ∀ site ∈ program.sites, site.isUnresolved = true → log.hasErrors = true) :
    guard names program log = log := by
  unfold guard
  split
  · rename_i site found
    rw [if_pos (reported site (List.mem_of_find?_eq_some found) (List.find?_some found))]
  · rfl

/-- A program with a type that must not reach code generation has an error that is reported before the guard
runs. That holds of every type which is not known, or not yet found. It holds of type parameters outside their
scope, and the guard then never reports an internal error, if the methods that bounds ask for mention no type
parameters of their own. A program that is handed on has no such type in any case. -/
theorem unresolved_reported (options : CheckOptions) (units : List SourceUnit) :
    (∀ site ∈ (unguarded options units).program.sites, site.type.isUnresolved true = true →
      (unguarded options units).log.hasErrors = true) ∧
    ((unguarded options units).context.boundMethodsClosed = true →
      (∀ site ∈ (unguarded options units).program.sites, site.isUnresolved = true →
        (unguarded options units).log.hasErrors = true) ∧
      ofUnits options units = unguarded options units ∧
      ∀ entry ∈ (ofUnits options units).log.entries, entry.code ≠ .internal) ∧
    ((ofUnits options units).isEligible = true →
      ∀ site ∈ (ofUnits options units).program.sites, site.isUnresolved = false) := by
  refine ⟨fun site member unresolved => ?_, fun closed => ?_, fun eligible => ?_⟩
  · exact hasErrors_of_unresolved (.inl trivial) member (fun _ => rfl) unresolved
  · have reported : ∀ site ∈ (unguarded options units).program.sites, site.isUnresolved = true →
        (unguarded options units).log.hasErrors = true :=
      fun site member => hasErrors_of_unresolved (.inr closed) member fun known => known.resolve_left id
    have same : ofUnits options units = unguarded options units := by
      rw [ofUnits, guard_of_reported reported]
    rw [same]
    exact ⟨reported, rfl, external_unguarded options units⟩
  · have noErrors : (ofUnits options units).log.hasErrors = false := by
      simp only [isEligible, Bool.and_eq_true, Bool.not_eq_true'] at eligible
      exact eligible.1
    rw [ofUnits, hasErrors_guard, Bool.or_eq_false_iff, Option.isSome_eq_false_iff, Option.isNone_iff_eq_none] at noErrors
    exact findUnresolved?_eq_none.1 noErrors.2

/-- `struct Bag { len() -> int64; get(i: int64) -> item }`, with bodies and with type parameters for `get`,
then `first[C: Collection[I], I](c: C) -> I`, which answers `c.get(0)`, and `main`, which calls `first(Bag())`.
What `I` stands for is found from `get`. -/
def collectionUnit (parameters : List TypeParameter) (item : String) : SourceUnit :=
  let type (name : String) : TypeExpr := ⟨.named name [], {}⟩
  let answer (kind : ExprKind) : Option Block := some [.ret (some ⟨kind, {}⟩) {}]
  let len : FunctionDecl :=
    { name := "len", returns := [type "int64"], body := answer (.literal (.integer 0)) }
  let get : FunctionDecl :=
    { name := "get", typeParameters := parameters, parameters := [{ name := "i", type := type "int64" }]
      returns := [type item], body := answer (.literal .none) }
  let first : FunctionDecl :=
    { name := "first"
      typeParameters := [{ name := "C", bound := some { name := "Collection", arguments := [type "I"] } }, { name := "I" }]
      parameters := [{ name := "c", type := type "C" }]
      returns := [type "I"]
      body := answer (.call ⟨.field ⟨.ident "c", {}⟩ "get", {}⟩ [] [⟨.literal (.integer 0), {}⟩]) }
  let made : Expr := ⟨.call ⟨.ident "Bag", {}⟩ [] [], {}⟩
  let main : FunctionDecl :=
    { name := "main", body := some [.bind "x" none (some ⟨.call ⟨.ident "first", {}⟩ [] [made], {}⟩) {}] }
  { id := ⟨0⟩, declarations := [.struct { name := "Bag", methods := [len, get] }, .function first, .function main] }

theorem unresolved_reported_collection :
    (unguarded {} [collectionUnit [] "int64"]).context.boundMethodsClosed = true ∧
    (ofUnits {} [collectionUnit [] "int64"]).isEligible = true ∧
    ofUnits {} [collectionUnit [] "int64"] = unguarded {} [collectionUnit [] "int64"] ∧
    (∀ entry ∈ (ofUnits {} [collectionUnit [] "int64"]).log.entries, entry.code ≠ .internal) ∧
    ∀ site ∈ (ofUnits {} [collectionUnit [] "int64"]).program.sites, site.isUnresolved = false := by
  have closed : (unguarded {} [collectionUnit [] "int64"]).context.boundMethodsClosed = true := by decide +kernel
  have eligible : (ofUnits {} [collectionUnit [] "int64"]).isEligible = true := by cbv
  obtain ⟨_, quiet, resolved⟩ := unresolved_reported {} [collectionUnit [] "int64"]
  obtain ⟨_, same, external⟩ := quiet closed
  exact ⟨closed, eligible, same, external, resolved eligible⟩

/-- The condition cannot be left out: a type parameter of `get` itself reaches `main`, which has none, and no
error is reported before the guard finds it. -/
theorem type_parameter_escapes :
    (unguarded {} [collectionUnit [{ name := "U" }] "U"]).log.hasErrors = false ∧
    (ofUnits {} [collectionUnit [{ name := "U" }] "U"]).log.entries.map Diagnostic.code = [.internal] := by
  constructor <;> cbv

/-- A program that is checked without errors obeys the typing rules at every node: each declared function,
method and default has its typed counterpart, and in that every expression, statement and block has a type by
the rule of its form. -/
theorem checked_typed (options : CheckOptions) (units : List SourceUnit)
    (noErrors : (ofUnits options units).log.hasErrors = false)
    (integer : options.defaultInteger.isInteger = true) (float : options.defaultFloat.isFloat = true) :
    (ofUnits options units).program.Typed (ofUnits options units).context := by
  rw [ofUnits, hasErrors_guard, Bool.or_eq_false_iff] at noErrors
  exact (unguarded_sound options units True noErrors.1 (.inl trivial)).2 ⟨id, integer, float⟩

/-- `struct Counter { total: int64 = 0; step() -> int64 }`, where `step` adds 1 to `total` and answers it, and
`main(again: bool) -> int64`, which answers `c.step()` of a new `Counter` in one branch and `c.total` in the
other. -/
def counterUnit : SourceUnit :=
  let int : TypeExpr := ⟨.named "int64" [], {}⟩
  let read (name : String) : Expr := ⟨.ident name, {}⟩
  let total (object : String) : Expr := ⟨.field (read object) "total", {}⟩
  let one : Expr := ⟨.literal (.integer 1), {}⟩
  let step : FunctionDecl :=
    { name := "step", returns := [int]
      body := some [
        .expression ⟨.assign (total "self") ⟨.binary .add (total "self") one, {}⟩, {}⟩,
        .ret (some (total "self")) {}] }
  let counter : StructDecl :=
    { name := "Counter", methods := [step]
      fields := [{ name := "total", type := int, default := some ⟨.literal (.integer 0), {}⟩ }] }
  let main : FunctionDecl :=
    { name := "main", parameters := [{ name := "again", type := ⟨.named "bool" [], {}⟩ }], returns := [int]
      body := some [
        .bind "c" none (some ⟨.call (read "Counter") [] [], {}⟩) {},
        .expression ⟨.cond (read "again")
          [.ret (some ⟨.call ⟨.field (read "c") "step", {}⟩ [] [], {}⟩) {}]
          (some [.expression (total "c")]), {}⟩] }
  { id := ⟨0⟩, declarations := [.struct counter, .function main] }

theorem checked_typed_counter :
    (ofUnits {} [counterUnit]).log.hasErrors = false ∧
    (ofUnits {} [counterUnit]).program.Typed (ofUnits {} [counterUnit]).context := by
  have noErrors : (ofUnits {} [counterUnit]).log.hasErrors = false := by decide +kernel
  exact ⟨noErrors, checked_typed {} [counterUnit] noErrors rfl rfl⟩

end CheckReport

end SemanticChecker
