import SemanticChecker.Check.Declaration
import SemanticChecker.Diagnostic.Log

/-! Work that reports what is wrong and goes on with a stand-in. What it promises holds only if it
reports no error; that it takes no report back, and never reports an internal error, holds always. -/
namespace SemanticChecker

open List

/-- A state that keeps diagnostics. -/
class Reports (σ : Type) where
  diagnostics : σ → List Diagnostic

instance : Reports CheckState := ⟨CheckState.diagnostics⟩

instance : Reports Findings := ⟨Findings.diagnostics⟩

/-- Diagnostics that are no errors. -/
def Harmless (ds : List Diagnostic) : Prop :=
  ∀ d ∈ ds, d.isError = false

/-- Diagnostics about the program that is checked, and not about the check itself. -/
def External (ds : List Diagnostic) : Prop :=
  ∀ d ∈ ds, d.code ≠ .internal

variable {ds es : List Diagnostic} {α : Type} {Q : α → Prop}

@[simp] theorem harmless_append : Harmless (ds ++ es) ↔ Harmless ds ∧ Harmless es :=
  forall_mem_append

@[simp] theorem external_append : External (ds ++ es) ↔ External ds ∧ External es :=
  forall_mem_append

@[simp] theorem harmless_nil : Harmless [] := fun _ h => by cases h

@[simp] theorem external_nil : External [] := fun _ h => by cases h

/-- The work adds diagnostics to those before it, and if none of them is an error, it answers as told. -/
def Ensures {σ α : Type} [Reports σ] (work : StateM σ α) (answer : α → Prop) : Prop :=
  ∀ s : σ, ∃ new, Reports.diagnostics (work.run s).2 = Reports.diagnostics s ++ new ∧ External new ∧
    (Harmless new → answer (work.run s).1)

namespace Ensures

variable {σ α β : Type} [Reports σ]

theorem pure {a : α} {Q : α → Prop} (h : Q a) : Ensures (Pure.pure a : StateM σ α) Q :=
  fun _ => ⟨[], (append_nil _).symm, external_nil, fun _ => h⟩

variable {Q : α → Prop} {x : StateM σ α} {R : β → Prop}

theorem mono {R : α → Prop} (h : Ensures x Q) (more : ∀ a, Q a → R a) : Ensures x R := by
  intro s
  obtain ⟨new, added, external, answer⟩ := h s
  exact ⟨new, added, external, fun harmless => more _ (answer harmless)⟩

/-- What the first part answers may be used in what the second is asked to answer, and only there: the
second part runs whether or not the first reported an error. -/
theorem bind {f : α → StateM σ β} (first : Ensures x Q) (second : ∀ a, Ensures (f a) fun b => Q a → R b) :
    Ensures (x >>= f) R := by
  intro s
  obtain ⟨new, added, external, answer⟩ := first s
  obtain ⟨more, further, other, last⟩ := second (x.run s).1 (x.run s).2
  refine ⟨new ++ more, ?_, external_append.2 ⟨external, other⟩, fun harmless => ?_⟩
  · rw [← List.append_assoc, ← added]
    exact further
  · obtain ⟨before, after⟩ := harmless_append.1 harmless
    exact last after (answer before)

theorem silent (same : ∀ s : σ, Reports.diagnostics (x.run s).2 = Reports.diagnostics s) (h : ∀ s, Q (x.run s).1) :
    Ensures x Q :=
  fun s => ⟨[], by rw [same, append_nil], external_nil, fun _ => h s⟩

end Ensures

/-- Work that answers as told, whatever it reports. -/
def Finds {σ α : Type} (work : StateM σ α) (answer : α → Prop) : Prop :=
  ∀ s : σ, answer (work.run s).1

namespace Finds

variable {σ α β : Type}

theorem pure {a : α} {Q : α → Prop} (h : Q a) : Finds (Pure.pure a : StateM σ α) Q :=
  fun _ => h

variable {x : StateM σ α} {f : α → StateM σ β} {R : β → Prop} {c : Prop} {next : PUnit → StateM σ β}

theorem bind {Q : α → Prop} (first : Finds x Q) (second : ∀ a, Q a → Finds (f a) R) : Finds (x >>= f) R :=
  fun s => second _ (first s) _

theorem after (second : ∀ a, Finds (f a) R) : Finds (x >>= f) R :=
  fun _ => second _ _

theorem check [Decidable c] {x : StateM σ PUnit} (rest : Finds (next ⟨⟩) R) :
    Finds (if c then next ⟨⟩ else x >>= next) R := by
  split
  · exact rest
  · exact after fun _ => rest

end Finds

theorem Ensures.finding {σ : Type} [Reports σ] {x : StateM σ α} {R : α → Prop} (h : Ensures x Q) (found : Finds x R) :
    Ensures x fun a => Q a ∧ R a := by
  intro s
  obtain ⟨new, added, external, answer⟩ := h s
  exact ⟨new, added, external, fun harmless => ⟨answer harmless, found s⟩⟩

namespace CheckContext

variable (ctx : CheckContext)

theorem checkStructs_eq_mapM (owns : List StructDef) : ctx.checkStructs owns = owns.mapM ctx.checkStruct := by
  induction owns with
  | nil => rfl
  | cons own rest ih => rw [checkStructs, mapM_cons, ih]

theorem checkFunctions_eq_mapM (owns : List FunctionDef) : ctx.checkFunctions owns = owns.mapM ctx.checkFunction := by
  induction owns with
  | nil => rfl
  | cons own rest ih => rw [checkFunctions, mapM_cons, ih]

end CheckContext

/-- Work that answers as told: in any case if `always` holds, and if it reports no error otherwise. -/
def Yields {σ α : Type} [Reports σ] (always : Prop) (work : StateM σ α) (answer : α → Prop) : Prop :=
  Ensures work answer ∧ (always → Finds work answer)

namespace Yields

variable {σ α β : Type} [Reports σ] {always : Prop} {x : StateM σ α} {Q R : α → Prop}

theorem pure {a : α} (h : Q a) : Yields always (Pure.pure a : StateM σ α) Q :=
  ⟨.pure h, fun _ => .pure h⟩

theorem mono (h : Yields always x Q) (more : ∀ a, Q a → R a) : Yields always x R :=
  ⟨h.1.mono more, fun on s => more _ (h.2 on s)⟩

theorem bind {f : α → StateM σ β} {S : β → Prop} (first : Yields always x Q)
    (second : ∀ a, Yields always (f a) fun b => Q a → S b) : Yields always (x >>= f) S :=
  ⟨first.1.bind fun a => (second a).1, fun on s => (second _).2 on _ (first.2 on s)⟩

/-- What the first part answers in any case is known to the second. -/
theorem after {f : α → StateM σ β} {S : β → Prop} (first : Yields True x Q) (second : ∀ a, Q a → Yields always (f a) S) :
    Yields always (x >>= f) S := by
  refine ⟨fun s => ?_, fun on s => (second _ (first.2 trivial s)).2 on _⟩
  obtain ⟨new, added, external, _⟩ := first.1 s
  obtain ⟨more, further, other, last⟩ := (second _ (first.2 trivial s)).1 (x.run s).2
  refine ⟨new ++ more, ?_, external_append.2 ⟨external, other⟩, fun harmless => last (harmless_append.1 harmless).2⟩
  rw [← List.append_assoc, ← added]
  exact further

variable {c : Prop} {report : StateM σ PUnit} {next : PUnit → StateM σ α}

theorem check [Decidable c] (h : Yields always report fun _ => always)
    (rest : Yields always (next ⟨⟩) fun a => c ∨ always → Q a) :
    Yields always (if c then next ⟨⟩ else report >>= next) Q := by
  split
  · exact rest.mono fun _ answer => answer (.inl ‹_›)
  · exact h.bind fun _ => rest.mono fun _ answer on => answer (.inr on)

theorem refuse [Decidable c] (h : Yields always report fun _ => always)
    (rest : Yields always (next ⟨⟩) fun a => always ∨ ¬ c → Q a) :
    Yields always (if c then report >>= next else next ⟨⟩) Q := by
  split
  · exact h.bind fun _ => rest.mono fun _ answer on => answer (.inl on)
  · exact rest.mono fun _ answer => answer (.inr ‹_›)

/-- What is reported if it does not hold is known where nothing is reported. -/
theorem of_ensures (h : Ensures x Q) : Yields always x fun a => always ∨ Q a :=
  ⟨h.mono fun _ => .inr, fun on _ => .inl on⟩

theorem of_finds (reports : Ensures x fun _ => True) (h : Finds x Q) : Yields always x Q :=
  ⟨(reports.finding h).mono fun _ => And.right, fun _ => h⟩

end Yields

theorem Problem.isError_diagnostic (problem : Problem) (names : TypeNames) (span : Span) :
    (problem.diagnostic names span).isError = true := by
  cases problem <;> rfl

theorem Problem.code_ne_internal (problem : Problem) : problem.code ≠ .internal := by
  cases problem <;> nofun

theorem ResolveError.isError_diagnostic (error : ResolveError) (span : Span) :
    (error.diagnostic span).isError = true := by
  cases error <;> rfl

theorem ResolveError.code_ne_internal (error : ResolveError) : error.code ≠ .internal := by
  cases error <;> nofun

theorem EnumError.isError_diagnostic (error : EnumError) : error.diagnostic.isError = true := by
  obtain ⟨kind, _, _, _⟩ := error
  cases kind <;> rfl

theorem EnumError.code_ne_internal (error : EnumError) : error.code ≠ .internal := by
  obtain ⟨kind, _, _, _⟩ := error
  cases kind <;> nofun

theorem CheckM.reportAll_ensures (external : External ds) : Ensures (CheckM.reportAll ds) fun _ => Harmless ds :=
  fun _ => ⟨ds, rfl, external, fun harmless => harmless⟩

theorem CheckM.freshSlot_ensures : Ensures CheckM.freshSlot fun t => ∃ index, t = .slot index :=
  .silent (fun _ => rfl) fun s => ⟨s.nextSlot, rfl⟩

theorem BodyContext.report_ensures (body : BodyContext) (span : Span) (problem : Problem) (Q : Unit → Prop) :
    Ensures (body.report span problem) Q := by
  refine (CheckM.reportAll_ensures ?_).mono fun _ harmless => ?_
  · simpa [External, Problem.diagnostic] using problem.code_ne_internal
  · have reported := harmless _ (mem_singleton.2 rfl)
    rw [problem.isError_diagnostic] at reported
    cases reported

theorem BodyContext.report_yields (body : BodyContext) (always : Prop) (span : Span) (problem : Problem) :
    Yields always (body.report span problem) fun _ => always :=
  ⟨body.report_ensures span problem _, fun on _ => on⟩

theorem BodyContext.refused_yields (body : BodyContext) {always : Prop} {span : Span} {problem : Problem} {a : α}
    (h : always → Q a) : Yields always (do body.report span problem; return a) Q :=
  (body.report_yields always span problem).bind fun _ => .pure h

theorem BodyContext.refused (body : BodyContext) {span : Span} {problem : Problem} {a : α} :
    Ensures (do body.report span problem; return a) Q :=
  (body.report_ensures span problem fun _ => False).bind fun _ => .pure False.elim

theorem BodyContext.expectAssignable_ensures (body : BodyContext) (role : Role) (expected found : Ty)
    (span : Span) : Ensures (body.expectAssignable role expected found span)
      fun _ => body.program.isAssignable expected found = true := by
  rw [expectAssignable]
  split
  · exact .pure ‹_›
  · exact body.report_ensures _ _ _

theorem BodyContext.expectStored_ensures (body : BodyContext) (role : Role) (expected : Option Ty) (found : Ty)
    (span : Span) : Ensures (body.expectStored role expected found span)
      fun _ => ∀ t ∈ expected, body.program.isAssignable t found = true := by
  cases expected with
  | none => exact .pure fun _ h => by cases h
  | some t =>
    refine (body.expectAssignable_ensures role t found span).mono fun _ stored s same => ?_
    cases same
    exact stored

theorem FindM.report_ensures {d : Diagnostic} (isError : d.isError = true) (external : d.code ≠ .internal)
    (Q : Unit → Prop) : Ensures (FindM.report d) Q := by
  refine fun _ => ⟨[d], rfl, by simpa [External] using external, fun harmless => ?_⟩
  have reported := harmless _ (mem_singleton.2 rfl)
  rw [isError] at reported
  cases reported

theorem external_map_inSource (h : External ds) (unit : UnitId) : External (ds.map fun d => d.inSource unit) := by
  intro d hd
  obtain ⟨source, hs, rfl⟩ := mem_map.1 hd
  exact h source hs

theorem harmless_map_inSource {unit : UnitId} (h : Harmless (ds.map fun d => d.inSource unit)) : Harmless ds :=
  fun d hd => h (d.inSource unit) (mem_map_of_mem hd)

theorem CheckM.inSource_ensures {x : CheckM α} (h : Ensures x Q) (unit : UnitId) :
    Ensures (CheckM.inSource unit x) Q := by
  intro s
  obtain ⟨new, added, external, answer⟩ := h { s with diagnostics := [] }
  refine ⟨new.map fun d => d.inSource unit, ?_, external_map_inSource external unit,
    fun harmless => answer (harmless_map_inSource harmless)⟩
  exact congrArg (fun ds => s.diagnostics ++ ds.map fun d => d.inSource unit)
    (added.trans (nil_append new))

theorem CheckM.inSource_finds {x : CheckM α} (h : Finds x Q) (unit : UnitId) : Finds (CheckM.inSource unit x) Q :=
  fun s => h { s with diagnostics := [] }

theorem CheckM.inSource_yields {always : Prop} {x : CheckM α} (h : Yields always x Q) (unit : UnitId) :
    Yields always (CheckM.inSource unit x) Q :=
  ⟨inSource_ensures h.1 unit, fun on => inSource_finds (h.2 on) unit⟩

namespace DiagnosticLog

theorem hasErrors_report (log : DiagnosticLog) (d : Diagnostic) :
    (log.report d).hasErrors = (log.hasErrors || d.isError) := by
  have notice : ((if log.suppressed = 0 then log.limit.toList.map limitNotice else []).any
      Diagnostic.isError) = false := by
    split
    · cases log.limit <;> rfl
    · rfl
  rw [report]
  split
  · simp only [suppress, hasErrors, any_append, notice, Bool.or_false]
    by_cases failed : d.isError = true
    · simp [failed]
    · simp [Bool.eq_false_iff.2 failed]
  · simp [hasErrors, Bool.or_assoc]

/-- A limit on what is kept never hides that the run failed. -/
theorem hasErrors_reportAll (log : DiagnosticLog) (ds : List Diagnostic) :
    (log.reportAll ds).hasErrors = (log.hasErrors || ds.any Diagnostic.isError) := by
  induction ds generalizing log with
  | nil => simp
  | cons d ds ih =>
    change ((log.report d).reportAll ds).hasErrors = _
    rw [ih, hasErrors_report, any_cons, Bool.or_assoc]

variable {log : DiagnosticLog} {ds : List Diagnostic}

theorem reportAll_hasErrors_eq_false : (log.reportAll ds).hasErrors = false ↔ log.hasErrors = false ∧ Harmless ds := by
  simp [hasErrors_reportAll, Harmless]

theorem external_report (h : External log.entries) {d : Diagnostic} (external : d.code ≠ .internal) :
    External (log.report d).entries := by
  rw [report]
  split
  · refine external_append.2 ⟨h, ?_⟩
    split
    · intro e he
      obtain ⟨limit, _, rfl⟩ := mem_map.1 he
      nofun
    · exact external_nil
  · exact external_append.2 ⟨h, by simpa [External] using external⟩

theorem external_reportAll (h : External log.entries) (external : External ds) :
    External (log.reportAll ds).entries := by
  induction ds generalizing log with
  | nil => exact h
  | cons d ds ih =>
    obtain ⟨first, rest⟩ := forall_mem_cons.1 external
    exact ih (external_report h first) rest

end DiagnosticLog

end SemanticChecker
