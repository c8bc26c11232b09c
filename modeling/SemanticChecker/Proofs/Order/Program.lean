import SemanticChecker.Proofs.DiagnosticLimit
import SemanticChecker.Proofs.Order.Checked

/-! The check of a program in another order. Both checks come to what the bodies of the program come to, each checked by
itself: under other numbers, and with what is reported in another order. -/
namespace SemanticChecker

open List

theorem ReportsAlike.harmless {first second : List Diagnostic} (h : ReportsAlike first second)
    (harmless : Harmless second) : Harmless first := by
  induction h with
  | nil => exact harmless_nil
  | cons alike _ ih =>
    obtain ⟨here, others⟩ := forall_mem_cons.1 harmless
    refine forall_mem_cons.2 ⟨?_, ih others⟩
    rcases alike with rfl | errors
    · exact here
    · cases errors.2.symm.trans here

theorem DiagnosticLog.entries_kept_of_le {limit : Nat} {stream : List Diagnostic} (fits : stream.length ≤ limit) :
    (kept limit stream).entries = stream := by
  rw [kept, take_of_length_le fits, if_neg (Nat.not_lt.2 fits), append_nil]

namespace CheckM.Repeats

variable {α β : Type} {rename : Renaming → α → α} {ρ : Renaming} {outcomes others : List (α × List Diagnostic)}
  (each : List.Forall₂ (Repeats rename ρ) outcomes others)

include each

theorem reportsAlike : ReportsAlike (outcomes.flatMap Prod.snd) (others.flatMap Prod.snd) := by
  induction each with
  | nil => exact .nil
  | cons first _ ih => exact first.2.append ih

theorem forall_iff {P : α → Prop} (same : ∀ shift a, P (rename (ρ.shiftedBy shift) a) ↔ P a) :
    (∀ a ∈ others.map Prod.fst, P a) ↔ ∀ a ∈ outcomes.map Prod.fst, P a := by
  induction each with
  | nil => rfl
  | cons first _ ih =>
    obtain ⟨⟨shift, answer⟩, _⟩ := first
    rw [map_cons, map_cons, forall_mem_cons, forall_mem_cons, ih, answer, same]

theorem map_eq {P : α → Prop} {view view' : α → β}
    (same : ∀ shift a, P a → view' (rename (ρ.shiftedBy shift) a) = view a)
    (holds : ∀ a ∈ outcomes.map Prod.fst, P a) :
    (others.map Prod.fst).map view' = (outcomes.map Prod.fst).map view := by
  induction each with
  | nil => rfl
  | cons first _ ih =>
    obtain ⟨⟨shift, answer⟩, _⟩ := first
    obtain ⟨here, later⟩ := forall_mem_cons.1 holds
    rw [map_cons, map_cons, map_cons, map_cons, ih later, answer, same shift _ here]

end CheckM.Repeats

namespace CheckContext

variable (ctx : CheckContext)

/-- What bodies report, each by itself. -/
def reported : List Diagnostic :=
  ctx.structOutcomes.flatMap Prod.snd ++ ctx.functionOutcomes.flatMap Prod.snd

def Resolved : Prop :=
  (∀ struct ∈ ctx.structOutcomes.map Prod.fst, struct.Resolved) ∧
    ∀ function ∈ ctx.functionOutcomes.map Prod.fst, function.Resolved

end CheckContext

open CheckReport in
/-- In another order the same is known before bodies are checked, and nothing is reported until then. -/
theorem Reordered.contexts {options : CheckOptions} {units others : List SourceUnit} (h : Reordered units others)
    (harmless : Harmless (stages options units)) :
    (∃ ρ : Renaming, ∀ shift,
      (unguarded options units).context.Renames (ρ.shiftedBy shift) (unguarded options others).context) ∧
    stages options others = ((unguarded options others).context.checkBodies.run {}).2.diagnostics := by
  have parts := harmless
  rw [stages, harmless_append, harmless_append, harmless_append] at parts
  obtain ⟨⟨⟨collected, composed⟩, pending⟩, _⟩ := parts
  obtain ⟨nothing, ρ, renames⟩ := h.collected collected
  have numbered := (Collected.ofUnits_regular .standard units).numbered
  have numbered' := (Collected.ofUnits_regular .standard others).numbered
  have compositions := fun shift => Compositions.ofTable_renames (renames shift).declared.table numbered numbered'
    (Compositions.issues_eq_nil composed)
  have contexts : ∀ shift,
      (unguarded options units).context.Renames (ρ.shiftedBy shift) (unguarded options others).context :=
    fun shift => ⟨(renames shift).declared, (renames shift).enums, (compositions shift).1, rfl, rfl⟩
  refine ⟨⟨ρ, contexts⟩, ?_⟩
  have issues : (unguarded options others).context.compositions.diagnostics (unguarded options others).context.table =
      [] :=
    congrArg (List.map _) (compositions 0).2
  have satisfied : (Collected.ofUnits .standard others).pending.flatMap (unguarded options others).context.checkPending =
      [] := by
    rw [flatMap_eq_nil_iff]
    intro bound mem
    obtain ⟨mine, isMine, rfl⟩ := (renames 0).pending bound mem
    exact ((contexts 0).checkPending_alike mine).eq_nil fun d isOne => pending d (mem_flatMap.2 ⟨mine, isMine, isOne⟩)
  simp only [stages, nothing, issues, satisfied, nil_append]

namespace CheckReport

/-- Whether two checks show the same program: the same structs, enumerations and functions, and those of one name alike. -/
structure ShowsSame (report other : CheckReport) : Prop where
  structs : (other.program.structs.map (TypedStruct.shown other.context.names)).Perm
    (report.program.structs.map (TypedStruct.shown report.context.names))
  enums : (other.program.enums.map (TypedEnum.shown other.context.names)).Perm
    (report.program.enums.map (TypedEnum.shown report.context.names))
  functions : (other.program.functions.map (TypedFunction.shown other.context.names)).Perm
    (report.program.functions.map (TypedFunction.shown report.context.names))
  struct_eq : ∀ struct ∈ report.program.structs, ∀ struct' ∈ other.program.structs, struct'.name = struct.name →
    struct'.shown other.context.names = struct.shown report.context.names
  enum_eq : ∀ typed ∈ report.program.enums, ∀ typed' ∈ other.program.enums, typed'.name = typed.name →
    typed'.shown other.context.names = typed.shown report.context.names
  function_eq : ∀ function ∈ report.program.functions, ∀ function' ∈ other.program.functions,
    function'.name = function.name → function'.shown other.context.names = function.shown report.context.names

variable {options : CheckOptions} {units others : List SourceUnit}

/-- What a check in another order comes to, in terms of what the bodies come to by themselves. -/
structure Reproduces (ctx : CheckContext) (names : TypeNames) (program : TypedProgram) (reports : List Diagnostic) :
    Prop where
  reports : ∃ alike, ReportsAlike ctx.reported alike ∧ reports.Perm alike
  resolved : program.findUnresolved? = none ↔ ctx.Resolved
  structs : ctx.Resolved → (program.structs.map (TypedStruct.shown names)).Perm
    ((ctx.structOutcomes.map Prod.fst).map (TypedStruct.shown ctx.names))
  enums : (program.enums.map (TypedEnum.shown names)).Perm (ctx.typedEnums.map (TypedEnum.shown ctx.names))
  functions : ctx.Resolved → (program.functions.map (TypedFunction.shown names)).Perm
    ((ctx.functionOutcomes.map Prod.fst).map (TypedFunction.shown ctx.names))

theorem reproduces (h : Reordered units others) (harmless : Harmless (stages options units)) :
    Reproduces (unguarded options units).context (unguarded options others).context.names
      (unguarded options others).program (stages options others) := by
  obtain ⟨⟨ρ, contexts⟩, stagesEq⟩ := h.contexts harmless
  obtain ⟨structs, functions, eachStruct, eachFunction, structsPerm, functionsPerm, reports⟩ :=
    CheckContext.Renames.checkBodies contexts
  have keeps := fun shift => (contexts shift).table.names
  refine ⟨⟨_, (CheckM.Repeats.reportsAlike eachStruct).append (CheckM.Repeats.reportsAlike eachFunction), ?_⟩,
    ?_, fun resolved => ?_, ?_, fun resolved => ?_⟩
  · rw [stagesEq]
    exact reports
  · rw [TypedProgram.findUnresolved?_eq_none, CheckContext.Resolved,
      ← CheckM.Repeats.forall_iff eachStruct fun shift struct => struct.resolved_rename _,
      ← CheckM.Repeats.forall_iff eachFunction fun shift function => function.resolved_rename _]
    exact and_congr (forall_congr' fun _ => imp_congr_left structsPerm.mem_iff)
      (forall_congr' fun _ => imp_congr_left functionsPerm.mem_iff)
  · exact (structsPerm.map _).trans (.of_eq (CheckM.Repeats.map_eq eachStruct
      (fun shift _ resolved => TypedStruct.shown_rename (keeps shift) resolved) resolved.1))
  · refine ((contexts 0).typedEnums.map _).trans (.of_eq ?_)
    rw [map_map]
    exact map_congr_left fun typed _ => TypedEnum.shown_rename (keeps 0) typed
  · exact (functionsPerm.map _).trans (.of_eq (CheckM.Repeats.map_eq eachFunction
      (fun shift _ resolved => TypedFunction.shown_rename (keeps shift) resolved) resolved.2))

theorem nodup_program (harmless : Harmless (stages options units)) :
    let program := (unguarded options units).program
    (program.structs.map TypedStruct.name).Nodup ∧ (program.functions.map TypedFunction.name).Nodup ∧
      (program.enums.map TypedEnum.name).Nodup := by
  have parts := harmless
  rw [stages, harmless_append, harmless_append, harmless_append] at parts
  obtain ⟨structs, functions, enums⟩ :=
    Collected.nodup_ofUnits .standard (Collected.ofUnits_harmless.1 parts.1.1.1).1
  refine ⟨?_, ?_, ?_⟩
  · rw [← CheckContext.names_checkStructs (unguarded options units).context _ {}] at structs
    exact structs
  · rw [← CheckContext.names_checkFunctions (unguarded options units).context _
      ((unguarded options units).context.checkStructs _ {}).2] at functions
    exact functions
  · show ((unguarded options units).context.typedEnums.map TypedEnum.name).Nodup
    rw [List.Nodup, pairwise_map] at enums
    rw [List.Nodup, pairwise_map, CheckContext.typedEnums, pairwise_filterMap]
    refine enums.imp fun differ typed isOne other isOther => ?_
    obtain ⟨_, _, rfl⟩ := Option.map_eq_some_iff.1 isOne
    obtain ⟨_, _, rfl⟩ := Option.map_eq_some_iff.1 isOther
    exact differ

theorem findUnresolved?_of_harmless (harmless : Harmless (stream options units)) :
    (unguarded options units).program.findUnresolved? = none := by
  obtain ⟨silent, guardedSilent⟩ := harmless_append.1 harmless
  cases found : (unguarded options units).program.findUnresolved? with
  | none => rfl
  | some site =>
    have noErrors : ¬ (stages options units).any Diagnostic.isError = true := by
      rw [any_eq_true]
      rintro ⟨d, mem, failed⟩
      cases (silent d mem).symm.trans failed
    rw [guarded, found] at guardedSilent
    simp only [if_neg noErrors] at guardedSilent
    cases guardedSilent _ (mem_singleton.2 rfl)

theorem shown_eq_of_perm {α β : Type} {items others : List α} {shown shown' : α → β} {nameOf : α → String}
    (shownName : β → String) (keeps : ∀ a, shownName (shown a) = nameOf a)
    (keeps' : ∀ a, shownName (shown' a) = nameOf a) (perm : (others.map shown').Perm (items.map shown))
    (nodup : (items.map nameOf).Nodup) :
    ∀ a ∈ items, ∀ b ∈ others, nameOf b = nameOf a → shown' b = shown a := by
  intro a isItem b isOther sameName
  obtain ⟨c, isItem', same⟩ := mem_map.1 (perm.subset (mem_map_of_mem isOther))
  have named : nameOf c = nameOf a := by rw [← keeps c, same, keeps', sameName]
  rw [← same, inj_on_of_nodup_map nodup isItem' isItem named]

/-- Without errors, everything that is reported is reported in any other order, and the same program is shown. -/
theorem stream_perm (h : Reordered units others) (harmless : Harmless (stream options units)) :
    (stream options others).Perm (stream options units) ∧ (ofUnits options units).ShowsSame (ofUnits options others) := by
  have silent := (harmless_append.1 harmless).1
  have mine := reproduces (.refl units) silent
  have yours := reproduces h silent
  have none := findUnresolved?_of_harmless harmless
  have resolved := mine.resolved.1 none
  obtain ⟨alike, reports, perm⟩ := mine.reports
  obtain ⟨alike', reports', perm'⟩ := yours.reports
  -- Either check reports what the bodies report by themselves.
  have quiet := reports.harmless fun d mem => silent d (perm.symm.subset mem)
  rw [reports.eq_of_harmless quiet] at perm
  rw [reports'.eq_of_harmless quiet] at perm'
  have structs := (yours.structs resolved).trans (mine.structs resolved).symm
  have enums := yours.enums.trans mine.enums.symm
  have functions := (yours.functions resolved).trans (mine.functions resolved).symm
  obtain ⟨structNames, functionNames, enumNames⟩ := nodup_program silent
  refine ⟨?_, structs, enums, functions,
    shown_eq_of_perm ShownStruct.name (fun _ => rfl) (fun _ => rfl) structs structNames,
    shown_eq_of_perm ShownEnum.name (fun _ => rfl) (fun _ => rfl) enums enumNames,
    shown_eq_of_perm ShownFunction.name (fun _ => rfl) (fun _ => rfl) functions functionNames⟩
  rw [stream, stream, guarded, guarded, none, yours.resolved.2 resolved]
  exact (perm'.trans perm.symm).append_right []

variable (options) in
/-- Whether a program is eligible does not depend on the order of its units and of the declarations in them. Where no
error is reported, none is in any other order. The same is reported, up to the order of reports, and as many of them are
suppressed; if none is, the log keeps the same. The same structs, enumerations and functions are shown with the same
types everywhere. -/
theorem verdict_in_any_order {units others : List SourceUnit} (h : Reordered units others) :
    let report := ofUnits options units
    let reordered := ofUnits options others
    reordered.isEligible = report.isEligible ∧
    (report.log.hasErrors = false → reordered.log.hasErrors = false ∧
      (stream options others).Perm (stream options units) ∧
      reordered.log.suppressed = report.log.suppressed ∧
      (report.log.suppressed = 0 → reordered.log.entries.Perm report.log.entries) ∧
      report.ShowsSame reordered) := by
  intro report reordered
  have noErrors : ∀ units, (ofUnits options units).log.hasErrors = false ↔ Harmless (stream options units) := by
    intro units
    rw [log_ofUnits, DiagnosticLog.hasErrors_kept, any_eq_false]
    simp only [Bool.not_eq_true, Harmless]
  refine ⟨?_, fun silent => ?_⟩
  · rw [isEligible_ofUnits, isEligible_ofUnits]
    by_cases harmless : Harmless (stream options units)
    · have perm := (stream_perm h harmless).1
      rw [perm.any_eq, perm.isEmpty_eq]
    · have failed : ∀ {units}, ¬ Harmless (stream options units) →
          (stream options units).any Diagnostic.isError = true := by
        intro units failed
        rw [← noErrors, log_ofUnits, DiagnosticLog.hasErrors_kept] at failed
        exact Bool.of_not_eq_false failed
      have failed' : ¬ Harmless (stream options others) := fun harmless' =>
        harmless fun d mem => harmless' d ((stream_perm h.symm harmless').1.subset mem)
      rw [failed harmless, failed failed', Bool.not_true, Bool.false_and, Bool.false_and]
  · have harmless := (noErrors units).1 silent
    obtain ⟨perm, shows⟩ := stream_perm h harmless
    have log : report.log = .kept options.maxDiagnostics (stream options units) := log_ofUnits
    have log' : reordered.log = .kept options.maxDiagnostics (stream options others) := log_ofUnits
    refine ⟨(noErrors others).2 fun d mem => harmless d (perm.subset mem), perm, ?_, fun complete => ?_, shows⟩
    · rw [log, log', DiagnosticLog.kept, DiagnosticLog.kept, perm.length_eq]
    · rw [log, DiagnosticLog.kept] at complete
      have fits : (stream options units).length ≤ options.maxDiagnostics := Nat.le_of_sub_eq_zero complete
      rw [log, log', DiagnosticLog.entries_kept_of_le fits, DiagnosticLog.entries_kept_of_le (perm.length_eq ▸ fits)]
      exact perm

/-- Two functions that may read None, around a generic struct that both construct. -/
def hazyUnit (order : List Declaration → List Declaration) : SourceUnit :=
  let int : TypeExpr := ⟨.named "int64" [], {}⟩
  let read (name : String) : Expr := ⟨.ident name, {}⟩
  let one : Expr := ⟨.literal (.integer 1), {}⟩
  let box : StructDecl :=
    { name := "Box", typeParameters := [{ name := "T" }], fields := [{ name := "item", type := ⟨.named "T" [], {}⟩ }] }
  let hazy (name : String) : FunctionDecl :=
    { name, parameters := [{ name := "sure", type := ⟨.named "bool" [], {}⟩ }], returns := [int]
      body := some [
        .bind name (some int) (some ⟨.literal .none, {}⟩) {},
        .expression ⟨.cond (read "sure") [.expression ⟨.assign (read name) one, {}⟩] none, {}⟩,
        .ret (some ⟨.field ⟨.call (read "Box") [] [⟨.binary .add (read name) one, {}⟩], {}⟩ "item", {}⟩) {}] }
  { id := ⟨0⟩, declarations := order [.function (hazy "first"), .struct box, .function (hazy "second")] }

theorem hazyUnit_reordered : Reordered [hazyUnit id] [hazyUnit List.reverse] :=
  ⟨[hazyUnit List.reverse], .cons ⟨rfl, rfl, (reverse_perm _).symm⟩ .nil, .refl _⟩

theorem verdict_in_any_order_hazy :
    Reordered [hazyUnit id] [hazyUnit List.reverse] ∧ (ofUnits {} [hazyUnit id]).log.hasErrors = false ∧
    (stream {} [hazyUnit id]).length = 2 ∧ (stream {} [hazyUnit List.reverse]).Perm (stream {} [hazyUnit id]) ∧
    (ofUnits {} [hazyUnit id]).ShowsSame (ofUnits {} [hazyUnit List.reverse]) := by
  have noErrors : (ofUnits {} [hazyUnit id]).log.hasErrors = false := by cbv
  have same := (verdict_in_any_order {} hazyUnit_reordered).2 noErrors
  exact ⟨hazyUnit_reordered, noErrors, by cbv, same.2.1, same.2.2.2.2⟩

/-- Under a limit the log keeps what is reported first, and that depends on the order. -/
theorem kept_warnings_by_order :
    Reordered [hazyUnit id] [hazyUnit List.reverse] ∧
    (ofUnits { maxDiagnostics := 1 } [hazyUnit id]).log.hasErrors = false ∧
    ¬ (ofUnits { maxDiagnostics := 1 } [hazyUnit List.reverse]).log.entries.Perm
      (ofUnits { maxDiagnostics := 1 } [hazyUnit id]).log.entries := by
  have kept : (ofUnits { maxDiagnostics := 1 } [hazyUnit id]).log.entries.map Diagnostic.message =
      ["'first' may be None when used as an operand", "too many diagnostics; stopped reporting after 1"] := by cbv
  have kept' : (ofUnits { maxDiagnostics := 1 } [hazyUnit List.reverse]).log.entries.map Diagnostic.message =
      ["'second' may be None when used as an operand", "too many diagnostics; stopped reporting after 1"] := by cbv
  refine ⟨hazyUnit_reordered, by cbv, fun perm => ?_⟩
  have messages := perm.map Diagnostic.message
  rw [kept, kept'] at messages
  exact absurd messages (by decide)

end CheckReport

end SemanticChecker
