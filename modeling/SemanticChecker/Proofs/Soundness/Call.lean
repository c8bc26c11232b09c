import SemanticChecker.Proofs.Soundness.OpenCall
import SemanticChecker.Proofs.Soundness.Stored

/-! The check of calls. A call that is closed without a report has a type argument for every type parameter;
with these in place of the parameters, every argument may be stored in its parameter, and the result is
what is declared. -/
namespace SemanticChecker

open List

theorem CheckContext.external_checkPending (ctx : CheckContext) (pending : List PendingBound) :
    External (pending.flatMap ctx.checkPending) := by
  intro d hd
  obtain ⟨one, _, hd⟩ := mem_flatMap.1 hd
  unfold checkPending at hd
  split at hd
  · cases hd
  · rename_i own _
    obtain ⟨⟨parameter, argument⟩, _, found⟩ := mem_filterMap.1 hd
    obtain ⟨⟨name, bound⟩, _, found⟩ := Option.bind_eq_some_iff.1 found
    dsimp only at found
    split at found
    · cases found
    · rename_i cause _
      cases found
      exact (Problem.unsatisfiedBound argument bound.name name own.decl.name cause).code_ne_internal

theorem CheckM.freshSlots_yields (always : Prop) (parameters : List Ty) :
    Yields always (CheckM.freshSlots parameters) fun slots =>
      slots.map Prod.fst = Ty.namesOf parameters ∧ ∀ entry ∈ slots, ∃ index, entry.2 = .slot index := by
  induction parameters with
  | nil => exact .pure ⟨rfl, fun _ h => by cases h⟩
  | cons parameter rest others =>
    rw [CheckM.freshSlots, Ty.namesOf, filterMap_cons]
    cases parameter.parameterName? with
    | none => exact others
    | some name =>
      have fresh : Yields always CheckM.freshSlot fun t => ∃ index, t = .slot index :=
        ⟨CheckM.freshSlot_ensures, fun _ s => ⟨s.nextSlot, rfl⟩⟩
      refine fresh.bind fun slot => others.bind fun slots => .pure ?_
      rintro ⟨names, more⟩ first
      exact ⟨congrArg (name :: ·) names, forall_mem_cons.2 ⟨first, more⟩⟩

theorem BoundTable.ArgumentMatches.fill {argument binding : Ty} (h : ArgumentMatches argument binding)
    (closed : binding.hasSlot = false) (value : Nat → Ty) : ArgumentMatches (argument.fill value) binding := by
  rcases h with isError | same | isError
  · exact .inl (congrArg (Ty.fill value) isError)
  · exact .inr (.inl ((congrArg (Ty.fill value) same).trans (Ty.fill_closed closed)))
  · exact .inr (.inr isError)

theorem Unifier.unify_slot {u : Unifier} {expected : Ty} {index : Nat} (isSlot : u.resolve expected = .slot index)
    {t : Ty} (closed : t.hasSlot = false) (isType : t.isError = false) :
    (u.unify expected t).unifier = u.bind index t ∧ (u.unify expected t).clash = none := by
  have free : t.mentions index = false := by
    rw [Bool.eq_false_iff, Ne, Ty.mentions_iff, Ty.hasSlot_eq_false_iff.1 closed]
    exact not_mem_nil
  have asked : (Ty.slot index).need t = .bind index t [] := by
    cases t with
    | slot other => cases closed
    | error => cases isType
    | _ => simp [Ty.need, UnifyNeed.ofSlot, free]
  rw [Unifier.unify, isSlot, resolve_eq_fill u t, Ty.fill_closed closed, asked]
  simp [Unifier.solve]

theorem Unifier.resolve_unify_slot {u : Unifier} {index : Nat} (unbound : u.resolve (.slot index) = .slot index)
    {t : Ty} (closed : t.hasSlot = false) (isType : t.isError = false) :
    (u.unify (.slot index) t).unifier.resolve (.slot index) = t := by
  rw [(unify_slot unbound closed isType).1, resolve_eq_fill, Ty.fill, value_bind, if_pos rfl]

/-- A bound of which the type argument is found and satisfies it, and the arguments are what was found with it. -/
def OpenCall.Meets (ctx : CheckContext) (call : OpenCall) (goal : BodyContext.BoundGoal) : Prop :=
  ∃ candidate bindings, call.closed? goal.slot = some candidate ∧
    ctx.checkBound candidate { name := goal.bound.name } = .ok bindings ∧
    ∀ pair ∈ (goal.bound.arguments.map fun t => call.unifier.resolve (t.instantiate call.slots)).zip bindings,
      BoundTable.ArgumentMatches pair.1 pair.2 ∧ pair.2.hasSlot = false

theorem OpenCall.Meets.grows {ctx : CheckContext} {P : Ty → Prop} {call later : OpenCall}
    (sound : call.unifier.Sound P) (grows : call.Grows P later) {goal : BodyContext.BoundGoal}
    (h : call.Meets ctx goal) : later.Meets ctx goal := by
  obtain ⟨candidate, bindings, closed, satisfied, each⟩ := h
  have ext := (grows.unifier sound).2
  refine ⟨candidate, bindings, closed?_of_extends ext closed, satisfied, ?_⟩
  obtain ⟨value, filled⟩ := ext
  have same : (goal.bound.arguments.map fun t => later.unifier.resolve (t.instantiate later.slots)) =
      (goal.bound.arguments.map fun t => call.unifier.resolve (t.instantiate call.slots)).map (Ty.fill value) := by
    rw [map_map, grows.slots]
    exact map_congr_left fun t _ => filled _
  rw [same, zip_map_left]
  refine forall_mem_map.2 fun pair mem => ?_
  exact ⟨(each pair mem).1.fill (each pair mem).2 value, (each pair mem).2⟩

namespace BodyContext

variable {body : BodyContext} {always holds : Prop} {P : Ty → Prop}

theorem unify_yields (body : BodyContext) (always : Prop) (hereditary : Ty.Hereditary P) (u : Unifier) (role : Role)
    (expected found : Ty) (span : Span) : Yields always (body.unify u role expected found span) fun later =>
      later = (u.unify expected found).unifier ∧
        ((expected = .error ∨ P expected) → P found → u.Continues P later) := by
  unfold BodyContext.unify
  dsimp only
  split
  · exact (body.report_yields always _ _).bind fun _ => .pure fun _ => ⟨rfl, .unify hereditary⟩
  · exact .pure ⟨rfl, .unify hereditary⟩

def Lowers (body : BodyContext) (always holds : Prop) (P : Ty → Prop) (type : TypeExpr) : Prop :=
  Yields always (body.lowerType type) fun found => holds → ∀ t, found = some t → P t

theorem bindTypeArguments_yields (hereditary : Ty.Hereditary P) :
    ∀ (pairs : List (Ty × TypeExpr)) (call : OpenCall), (∀ pair ∈ pairs, body.Lowers always holds P pair.2) →
      Yields always (body.bindTypeArguments call pairs) fun later => holds →
        (∀ name t, call.slots.get? name = some t → ∃ index, t = .slot index) → call.Grows P later
  | [], _, _ => .pure fun _ _ => .refl
  | (parameter, argument) :: rest, call, lowers => by
    obtain ⟨first, others⟩ := forall_mem_cons.1 lowers
    rw [bindTypeArguments]
    refine first.bind fun found => ?_
    split
    · rename_i slot t known
      refine (body.unify_yields always hereditary _ _ _ _ _).bind fun u => ?_
      refine (bindTypeArguments_yields hereditary rest _ others).mono fun later more unified lowered known' slots => ?_
      obtain ⟨name, _, isSlot⟩ := Option.bind_eq_some_iff.1 known
      obtain ⟨index, rfl⟩ := slots name slot isSlot
      exact (OpenCall.Grows.of_unifier (unified.2 (.inr (hereditary.slot index)) (lowered known' t rfl))).trans
        (more known' slots)
    · exact (bindTypeArguments_yields hereditary rest _ others).mono fun later more _ => more

theorem openCall_yields (hereditary : Ty.Hereditary P) (shape : CallShape) {typeArguments : List TypeExpr}
    (lowers : ∀ type ∈ typeArguments, body.Lowers always holds P type) (argumentCount : Nat) (span : Span) :
    Yields always (body.openCall shape typeArguments argumentCount span) fun call => holds →
      ∀ inside place, shape.Within inside place → call.Within inside place ∧ call.unifier.Sound P ∧
        call.shape = shape ∧ (always ∨ shape.required ≤ argumentCount ∧ argumentCount ≤ shape.params.length) := by
  unfold openCall
  dsimp only
  refine .refuse (body.report_yields always _ _) ?_
  refine (CheckM.freshSlots_yields always shape.typeParameters).bind fun slots => ?_
  simp only [Bool.or_eq_true, decide_eq_true_eq, not_or, Nat.not_lt]
  split
  · exact .pure fun fresh count _ inside place within =>
      ⟨OpenCall.within_start within fresh.1 fresh.2, OpenCall.sound_empty hereditary, rfl, count⟩
  · split
    · refine (bindTypeArguments_yields hereditary _ _ fun pair mem => lowers _ (of_mem_zip mem).2).mono ?_
      intro call grows fresh count known inside place within
      have start := OpenCall.within_start within fresh.1 fresh.2
      have grows := grows known fun name t found => (start.named name t found).2
      exact ⟨start.grows grows, (grows.unifier (OpenCall.sound_empty hereditary)).1, grows.shape, count⟩
    · exact (body.report_yields always _ _).bind fun _ => .pure fun _ fresh count _ inside place within =>
        ⟨OpenCall.within_start within fresh.1 fresh.2, OpenCall.sound_empty hereditary, rfl, count⟩

theorem acceptArgument_yields (body : BodyContext) (hereditary : Ty.Hereditary P)
    (strict : always ∨ ∀ t, P t → t.Errorless) (call : OpenCall) (position : Nat) (parameter : Ty)
    (value : TypedExpr) (span : Span) :
    Yields always (body.acceptArgument call position parameter value span) fun later =>
      P parameter → P value.type → value.type.hasSlot = false → call.Grows P later ∧
        (always ∨ (call.unifier.Sound P → later.Admits body.program parameter value.type)) := by
  have grows : P parameter → P value.type →
      call.Grows P { call with unifier := (call.unifier.unify parameter value.type).unifier } :=
    fun left right => .of_unifier (.unify hereditary (.inr left) right)
  unfold acceptArgument
  dsimp only
  split
  · rename_i agreed
    refine .pure fun left right closed => ⟨grows left right, strict.imp_right fun errorless sound => ?_⟩
    have after := ((grows left right).unifier sound).1.holds
    exact OpenCall.admits_of_agrees closed (errorless _ (after.resolve hereditary left)) (errorless _ right)
      ((sound.settled.unify parameter value.type).2.2 agreed)
  · refine .check (body.report_yields always _ _) (.pure fun passed left right _ => ⟨grows left right, ?_⟩)
    refine passed.symm.imp_right fun stored _ => ?_
    split at stored
    · exact ⟨_, ‹_›, stored⟩
    · cases stored

theorem unifyBound_yields (body : BodyContext) (always : Prop) (hereditary : Ty.Hereditary P) (role : Role)
    (span : Span) : ∀ (pairs : List (Ty × Ty)) (u : Unifier), Yields always (body.unifyBound role span u pairs)
      fun later => (∀ pair ∈ pairs, BoundTable.ArgumentAgrees pair.1 pair.2 ∧
          (pair.2 = .error ∨ P pair.2 ∧ pair.2.hasSlot = false)) →
        u.Continues P later ∧ (u.Sound P → pairs.length ≤ 1 → ∀ pair ∈ pairs, u.resolve pair.1 = pair.1 →
          BoundTable.ArgumentMatches (later.resolve pair.1) pair.2)
  | [], _ => .pure fun _ => ⟨.refl, fun _ _ _ mem => by cases mem⟩
  | (argument, binding) :: rest, u => by
    have only : (argument, binding) :: rest = [(argument, binding)] ∨ ¬ (rest.length + 1 ≤ 1) := by
      cases rest <;> simp
    rw [unifyBound]
    split
    · rename_i isError
      have isError : binding = .error := by cases binding <;> first | rfl | cases isError
      refine (unifyBound_yields body always hereditary role span rest u).mono fun later more fit => ?_
      refine ⟨(more fun pair hp => fit pair (mem_cons_of_mem _ hp)).1, fun _ single pair mem _ => ?_⟩
      rw [only.resolve_right (not_not.2 single), mem_singleton] at mem
      exact mem ▸ .inr (.inr isError)
    · rename_i isType
      refine (body.unify_yields always hereditary u role argument binding span).bind fun next => ?_
      refine (unifyBound_yields body always hereditary role span rest next).mono fun later more unified fit => ?_
      obtain ⟨⟨agrees, known⟩, others⟩ := forall_mem_cons.1 fit
      have known := known.resolve_left fun isError => isType (by rw [show binding = .error from isError]; rfl)
      have first : u.Continues P next := by
        refine unified.2 ?_ known.1
        rcases agrees with ⟨index, rfl⟩ | isError | same | isError
        · exact .inr (hereditary.slot index)
        · exact .inl isError
        · exact .inr ((show argument = binding from same) ▸ known.1)
        · exact absurd (show binding = .error from isError) fun same => isType (by rw [same]; rfl)
      refine ⟨first.trans (more others).1, fun sound single pair mem resolved => ?_⟩
      rw [only.resolve_right (not_not.2 single), mem_singleton] at mem
      subst mem
      obtain ⟨sound, _⟩ := first sound
      obtain ⟨value, filled⟩ := ((more others).1 sound).2
      rw [filled]
      refine BoundTable.ArgumentMatches.fill ?_ known.2 value
      rcases agrees with ⟨index, rfl⟩ | isError | same | isError
      · rw [unified.1]
        exact .inr (.inl (Unifier.resolve_unify_slot resolved known.2 (by simpa using isType)))
      · rw [show argument = .error from isError, Unifier.resolve_eq_fill]
        exact .inl rfl
      · rw [show argument = binding from same, Unifier.resolve_eq_fill, Ty.fill_closed known.2]
        exact .inr (.inl rfl)
      · exact .inr (.inr isError)

def Binds (body : BodyContext) (P : Ty → Prop) : Prop :=
  ∀ candidate bound bindings, P candidate → candidate.hasSlot = false →
    body.program.checkBound candidate bound = .ok bindings →
      (∀ t ∈ bindings, t = .error ∨ P t ∧ t.hasSlot = false) ∧
        ∀ pair ∈ bound.arguments.zip bindings, BoundTable.ArgumentAgrees pair.1 pair.2

section Goals

variable (hereditary : Ty.Hereditary P) (binds : holds → body.Binds P) (span : Span)

include hereditary binds

theorem meetGoal_yields (call : OpenCall) (goal : BoundGoal) (candidate : Ty) :
    Yields always (body.meetGoal call goal candidate span) fun later => holds → P candidate →
      call.unifier.Sound P → call.closed? goal.slot = some candidate →
        call.Grows P later ∧ (always ∨ (goal.bound.arguments.length ≤ 1 → later.Meets body.program goal)) := by
  unfold meetGoal
  dsimp only
  split
  · rename_i bindings done
    refine (body.unifyBound_yields always hereditary _ span _ _).bind fun u => .pure fun unified known fits sound closed => ?_
    have noSlot : candidate.hasSlot = false := by
      obtain ⟨noSlot, rfl⟩ := OpenCall.closed?_eq_some.1 closed
      exact noSlot
    obtain ⟨all, agree⟩ := binds known _ _ _ fits noSlot done
    obtain ⟨continues, matched⟩ := unified fun pair mem => ⟨agree pair mem, all _ (of_mem_zip mem).2⟩
    have ext := (continues sound).2
    refine ⟨.of_unifier continues, .inr fun single => ?_⟩
    refine ⟨candidate, bindings, OpenCall.closed?_of_extends ext closed, (BoundTable.check_iff.1 done).1, ?_⟩
    have same : (goal.bound.arguments.map fun t => u.resolve (t.instantiate call.slots)) =
        (goal.bound.arguments.map fun t => call.unifier.resolve (t.instantiate call.slots)).map u.resolve := by
      rw [map_map]
      exact map_congr_left fun t _ => (ext.resolve_resolve sound.settled _).symm
    rw [same, zip_map_left]
    refine forall_mem_map.2 fun pair mem => ⟨?_, ?_⟩
    · refine matched sound (by simp; omega) pair mem ?_
      obtain ⟨t, _, resolved⟩ := mem_map.1 (of_mem_zip mem).1
      rw [← resolved, sound.settled.resolve_resolve]
    · rcases all _ (of_mem_zip mem).2 with isError | fits
      · exact congrArg Ty.hasSlot isError
      · exact fits.2
  · exact (body.report_yields always _ _).bind fun _ => .pure fun on _ _ _ _ => ⟨.refl, .inl on⟩

/-- What one pass over bounds comes to: those of which the type argument is found are met, and the others are left. -/
structure PassesGoals (body : BodyContext) (always : Prop) (P : Ty → Prop) (call : OpenCall) (goals : List BoundGoal)
    (answer : OpenCall × List BoundGoal) : Prop where
  grows : call.Grows P answer.1
  left : answer.2.Sublist goals
  met : always ∨ ∀ goal ∈ goals, goal.bound.arguments.length ≤ 1 → goal ∈ answer.2 ∨ answer.1.Meets body.program goal
  stuck : answer.2.length = goals.length → answer.1 = call ∧ ∀ goal ∈ goals, call.closed? goal.slot = none

theorem boundPass_yields : ∀ (goals : List BoundGoal) (call : OpenCall),
    Yields always (body.boundPass span call goals) fun answer => holds → call.unifier.Sound P →
      (∀ goal ∈ goals, ∃ index, goal.slot = .slot index) → body.PassesGoals always P call goals answer
  | [], _ => .pure fun _ _ _ =>
    ⟨.refl, .refl _, .inr fun _ mem => (by cases mem), fun _ => ⟨rfl, fun _ mem => by cases mem⟩⟩
  | goal :: rest, call => by
    rw [boundPass]
    split
    · rename_i isOpen
      refine (boundPass_yields rest call).bind fun answer => .pure fun passed known sound slots => ?_
      obtain ⟨grows, left, met, stuck⟩ := passed known sound (forall_mem_cons.1 slots).2
      refine ⟨grows, left.cons_cons goal, met.imp_right fun met => ?_, fun same => ?_⟩
      · refine forall_mem_cons.2 ⟨fun _ => .inl mem_cons_self, fun other mem single => ?_⟩
        exact (met other mem single).imp_left (mem_cons_of_mem goal)
      · obtain ⟨same, others⟩ := stuck (Nat.succ.inj same)
        exact ⟨same, forall_mem_cons.2 ⟨isOpen, others⟩⟩
    · rename_i candidate closed
      refine (meetGoal_yields hereditary binds span call goal candidate).bind fun next => ?_
      refine (boundPass_yields rest next).mono fun answer passed meets known sound slots => ?_
      obtain ⟨⟨index, isSlot⟩, others⟩ := forall_mem_cons.1 slots
      have fits : P candidate := by
        obtain ⟨_, rfl⟩ := OpenCall.closed?_eq_some.1 closed
        exact sound.holds.resolve hereditary (isSlot ▸ hereditary.slot index)
      obtain ⟨first, isMet⟩ := meets known fits sound closed
      have later := (first.unifier sound).1
      obtain ⟨grows, left, met, stuck⟩ := passed known later others
      refine ⟨first.trans grows, left.cons goal, ?_, fun same => ?_⟩
      · rcases isMet with on | isMet
        · exact .inl on
        · refine met.imp_right fun met => forall_mem_cons.2 ⟨fun single => .inr ?_, met⟩
          exact (isMet single).grows later grows
      · have := left.length_le
        rw [length_cons] at same
        omega

theorem boundPasses_yields : ∀ (passes : Nat) (call : OpenCall) (goals : List BoundGoal),
    Yields always (body.boundPasses span passes call goals) fun later => holds → call.unifier.Sound P →
      (∀ goal ∈ goals, ∃ index, goal.slot = .slot index) → call.Grows P later ∧
        (always ∨ (goals.length < passes → ∀ goal ∈ goals, goal.bound.arguments.length ≤ 1 →
          later.Meets body.program goal ∨ later.closed? goal.slot = none))
  | 0, _, _ => .pure fun _ _ _ => ⟨.refl, .inr fun none => absurd none (Nat.not_lt_zero _)⟩
  | passes + 1, call, goals => by
    rw [boundPasses]
    refine (boundPass_yields hereditary binds span goals call).bind fun answer => ?_
    dsimp only
    split
    · rename_i same
      refine .pure fun passed known sound slots => ?_
      obtain ⟨grows, _, _, stuck⟩ := passed known sound slots
      obtain ⟨unchanged, isOpen⟩ := stuck same
      exact ⟨grows, .inr fun _ goal mem _ => .inr (unchanged ▸ isOpen goal mem)⟩
    · rename_i fewer
      refine (boundPasses_yields passes _ _).mono fun later more passed known sound slots => ?_
      obtain ⟨grows, left, met, _⟩ := passed known sound slots
      have next := (grows.unifier sound).1
      obtain ⟨further, final⟩ := more known next fun goal mem => slots goal (left.subset mem)
      refine ⟨grows.trans further, ?_⟩
      rcases met with on | met
      · exact .inl on
      · refine final.imp_right fun final enough goal mem single => ?_
        rcases met goal mem single with isLeft | isMet
        · have := left.length_le
          exact final (by omega) goal isLeft single
        · exact .inl (isMet.grows next further)

end Goals

theorem boundGoals_slot {inside place : Place} {call : OpenCall} (h : call.Within inside place) :
    ∀ goal ∈ boundGoals call, goal.parameter ∈ Ty.namesOf call.shape.typeParameters ∧
      call.slots.get? goal.parameter = some goal.slot ∧ ∃ index, goal.slot = .slot index := by
  intro goal mem
  obtain ⟨parameter, _, found⟩ := mem_filterMap.1 mem
  obtain ⟨⟨name, bound⟩, _, found⟩ := Option.bind_eq_some_iff.1 found
  obtain ⟨slot, isSlot, same⟩ := Option.bind_eq_some_iff.1 found
  cases same
  exact ⟨(h.named name slot isSlot).1, isSlot, (h.named name slot isSlot).2⟩

/-- What types mention in a body where some type parameters are known. -/
abbrev place (body : BodyContext) (error : Prop) (known : String → Prop) : Place :=
  body.program.arities.within error known

abbrev Open (body : BodyContext) (error : Prop) (known : String → Prop) : Ty → Prop :=
  Ty.Fits (body.place error known).withSlots

/-- What is known in a body: its program is regular, and all types mention what is known. If that is not everything,
bounds must find no methods with type parameters of their own. -/
structure Regular (error : Prop) (known : String → Prop) (body : BodyContext) : Prop where
  program : body.program.Regular error
  closed : (∀ name, known name) ∨ body.program.boundMethodsClosed = true
  typeParameters : ∀ t ∈ body.typeParameters, t.Fits (body.place error known)
  result : body.result.Fits (body.place error known)

section Written

variable (body : BodyContext) (error : Prop) (known : String → Prop)

/-- A written type that cannot be read is reported; where the error type stands for it, the error type is admitted. -/
theorem lowerType_yields (type : TypeExpr) : Yields error (body.lowerType type) fun found =>
    body.Regular error known → (found.getD .error).Fits (body.place error known) := by
  let scope := body.program.declared.scope body.module body.typeParameters
  have lowered := scope.lowerReported_yields body.program.bounds type error
  unfold lowerType
  dsimp only
  refine (Yields.of_ensures (CheckM.reportAll_ensures lowered.1.fresh.1)).bind fun _ => ?_
  refine (Yields.of_ensures (CheckM.reportAll_ensures (body.program.external_checkPending _))).bind fun _ => ?_
  refine .pure fun _ quiet h => ?_
  obtain ⟨unread, fits⟩ := lowered.fresh quiet
  have suits := Declarations.scope_within h.program.table.named h.program.aliases body.module h.typeParameters
  have answer : (((scope.lowerReported type).run {}).1.getD .error).Fits (body.place error known) := by
    cases found : ((scope.lowerReported type).run {}).1 with
    | none => exact unread found
    | some t => exact fits t found _ suits
  exact answer

theorem lowerWritten_yields (type : Option TypeExpr) : Yields error (body.lowerWritten type) fun written =>
    body.Regular error known → ∀ found ∈ written, (found.getD .error).Fits (body.place error known) := by
  cases type with
  | none => exact .pure fun _ _ mem => by cases mem
  | some type =>
    refine (body.lowerType_yields error known type).bind fun lowered => .pure fun fits h => ?_
    rintro _ ⟨⟩
    exact fits h

theorem lowers_open (type : TypeExpr) :
    body.Lowers error (body.Regular error known) (body.Open error known) type := by
  refine (body.lowerType_yields error known type).mono fun found lowered h t same => ?_
  rw [same] at lowered
  exact (lowered h).withSlots

end Written

variable {place : Place} {error : Prop} {known : String → Prop} {call : OpenCall}

theorem foundTypeArguments_yields (body : BodyContext) (admits : always → place.error) (call : OpenCall) (span : Span)
    (parameters : List Ty) : Yields always (body.foundTypeArguments call span parameters) fun found =>
      (∀ name t, call.slots.get? name = some t → ∃ index, t = .slot index) →
      call.unifier.Holds (Ty.Fits place.withSlots) → (∀ t ∈ parameters, ∃ name, t.parameterName? = some name) →
      (∀ name ∈ Ty.namesOf parameters, ∃ t, call.slots.get? name = some t) →
        (∀ t ∈ found, t.Fits place) ∧ (always ∨ call.Finds (Ty.namesOf parameters) found) := by
  induction parameters with
  | nil => exact .pure fun _ _ _ _ => ⟨fun _ h => (by cases h), .inr ⟨rfl, fun _ h => by cases h⟩⟩
  | cons parameter rest others =>
    rw [foundTypeArguments]
    split
    · rename_i unnamed
      refine others.mono fun found _ _ _ all => ?_
      obtain ⟨name, named⟩ := all parameter mem_cons_self
      rw [unnamed] at named
      cases named
    · rename_i name named
      have names : Ty.namesOf (parameter :: rest) = name :: Ty.namesOf rest := by
        rw [Ty.namesOf, filterMap_cons, named]
        rfl
      rw [names]
      split
      · rename_i missing
        refine others.mono fun found _ _ _ _ slots => ?_
        obtain ⟨t, known⟩ := slots name mem_cons_self
        rw [known] at missing
        cases missing
      · rename_i t closed
        refine others.bind fun found => .pure fun more isSlot holds all slots => ?_
        obtain ⟨slot, known, closed⟩ := Option.map_eq_some_iff.1 closed
        obtain ⟨fits, finds⟩ := more isSlot holds (forall_mem_cons.1 all).2 (forall_mem_cons.1 slots).2
        refine ⟨forall_mem_cons.2 ⟨?_, fits⟩, finds.imp_right fun finds => ?_⟩
        · obtain ⟨index, rfl⟩ := isSlot name slot known
          exact OpenCall.closed?_fits holds (t := .slot index) trivial closed
        · exact ⟨congrArg Nat.succ finds.count, forall_mem_cons.2 ⟨⟨slot, known, closed⟩, finds.each⟩⟩
      · refine (body.report_yields always _ _).bind fun _ => others.bind fun found => .pure ?_
        intro more on isSlot holds all slots
        obtain ⟨fits, _⟩ := more isSlot holds (forall_mem_cons.1 all).2 (forall_mem_cons.1 slots).2
        exact ⟨forall_mem_cons.2 ⟨admits on, fits⟩, .inl on⟩

/-- A call that is closed has type arguments and a result that fit; type parameters of what is called are not left in
them, and neither are slots. Without a report it has all its type arguments, which satisfy their bounds, and yields what
is declared. -/
theorem closeCall_yields (admits : always → place.error) (binds : holds → body.Binds (Ty.Fits place.withSlots))
    (call : OpenCall) (span : Span) : Yields always (body.closeCall call span) fun answer => holds →
      ∀ inside, call.Within inside place → call.unifier.Sound (Ty.Fits place.withSlots) →
      (∀ t ∈ call.shape.typeParameters, ∃ name, t.parameterName? = some name) →
        (∀ t ∈ answer.1, t.Fits place) ∧ answer.2.Fits place ∧ (always ∨
          ∃ later, call.Grows (Ty.Fits place.withSlots) later ∧
            later.Finds (Ty.namesOf later.shape.typeParameters) answer.1 ∧
            answer.2 = .ofReturns (later.shape.returns.map (Ty.instantiate (later.shape.instantiation answer.1))) ∧
            ∀ goal ∈ boundGoals call, goal.bound.arguments.length ≤ 1 → later.Meets body.program goal) := by
  have passes := @boundPasses_yields body always holds _ (Ty.hereditary_fits place) binds span
  unfold closeCall
  dsimp only
  refine (passes _ call _).bind fun later => ?_
  refine (body.foundTypeArguments_yields admits later span _).bind fun found => .pure ?_
  intro finds passed known inside within sound named
  have goals := boundGoals_slot within
  obtain ⟨grows, met⟩ := passed known sound fun goal mem => (goals goal mem).2.2
  have closing := within.grows grows
  have fits := (grows.unifier sound).1.holds
  obtain ⟨found_fit, finds⟩ := finds (fun name t isSlot => (closing.named name t isSlot).2) fits (grows.shape ▸ named)
    closing.slots
  rcases finds with on | finds
  · refine ⟨found_fit, ?_, .inl on⟩
    have returns : (Ty.ofReturns (later.shape.returns.map (Ty.instantiate later.slots))).Fits place.withSlots :=
      Ty.fits_ofReturns (forall_mem_map.2 fun t mem => closing.instantiate (closing.shape.returns t mem))
    cases done : later.closed? (Ty.ofReturns (later.shape.returns.map (Ty.instantiate later.slots))) with
    | none => exact admits on
    | some t => exact OpenCall.closed?_fits fits returns done
  · rw [closing.closed?_returns finds fits]
    refine ⟨found_fit, closing.returns_fits finds fits, met.imp_right fun met => ?_⟩
    refine ⟨later, grows, finds, rfl, fun goal mem single => ?_⟩
    refine (met (Nat.lt_succ_self _) goal mem single).resolve_right fun isOpen => ?_
    obtain ⟨known, isSlot, _⟩ := goals goal mem
    rw [← grows.shape] at known
    obtain ⟨t, there⟩ := Instantiation.get?_of_mem finds.count known
    obtain ⟨slot, same, closed⟩ := finds.each _ (Instantiation.mem_zip_of_get? there)
    rw [grows.slots, isSlot] at same
    cases same
    rw [isOpen] at closed
    cases closed

theorem Regular.binds (h : body.Regular error known) : body.Binds (body.Open error known) := by
  intro candidate bound bindings fits closed done
  obtain ⟨all, agree⟩ := h.program.checkBound_fits (fits.closed closed) h.closed done
  exact ⟨fun t mem => (all t mem).imp_right fun fits => ⟨fits.withSlots, fits.hasSlot⟩, agree⟩

theorem Open.errorless (clean : ¬ error) {t : Ty} (h : body.Open error known t) : t.Errorless := by
  refine h.anyLeaf fun t fits => ?_
  cases t with
  | error => exact absurd fits clean
  | _ => rfl

end BodyContext

/-- Every type that a call is checked against mentions no type parameters but those known and its own. -/
structure CallShape.Regular (error : Prop) (ctx : CheckContext) (known : String → Prop) (shape : CallShape) : Prop where
  typeParameters : ∀ t ∈ shape.typeParameters, t.IsParameter (ctx.arities.within error fun _ => True)
  params : ∀ t ∈ shape.params, t.Fits (ctx.arities.opening error known (Ty.namesOf shape.typeParameters))
  returns : ∀ t ∈ shape.returns, t.Fits (ctx.arities.opening error known (Ty.namesOf shape.typeParameters))

namespace CallShape.Regular

variable {error : Prop} {ctx : CheckContext} {known : String → Prop}

theorem within {shape : CallShape} (h : shape.Regular error ctx known) : shape.Within
    (ctx.arities.opening error known (Ty.namesOf shape.typeParameters)) (ctx.arities.within error known) where
  opens :=
    { arities := rfl
      kept := fun _ => Or.resolve_right
      inner := fun _ outside _ => (Or.resolve_left · outside)
      error := id
      closedInside := fun _ => id
      closed := fun _ => id }
  params := h.params
  returns := h.returns

theorem ofTypes {name : String} {params returns : List Ty}
    (h : (Ty.function params returns).Fits (ctx.arities.within error known)) :
    (CallShape.ofTypes name params returns).Regular error ctx known where
  typeParameters _ mem := by cases mem
  params t mem := (Ty.fitAll_iff.1 h.1 t mem).opening _
  returns t mem := (Ty.fitAll_iff.1 h.2 t mem).opening _

theorem ofSignature {name : String} {signature : Signature} (h : signature.Seen error ctx.arities known) :
    (CallShape.ofSignature name signature).Regular error ctx known :=
  ⟨h.typeParameters, Ty.fitAll_iff.1 h.type.1, Ty.fitAll_iff.1 h.type.2⟩

end CallShape.Regular

namespace CheckContext.Regular

variable {error : Prop} {ctx : CheckContext} (h : ctx.Regular error)
include h

section Struct

variable {id : StructId} {own : StructDef} (found : ctx.table.struct? id = some own)
include found

theorem selfType_fits : own.selfType.Fits (ctx.arities.within error (· ∈ Ty.namesOf own.typeParameters)) := by
  refine ⟨?_, Ty.fitAll_iff.2 fun t mem => ?_⟩
  · have arity := h.table.arity id own found
    obtain rfl := h.table.numbered id own found
    simp [Arities.within, CheckContext.arities, DeclTable.arities, found, arity]
  · exact ((h.table.structs id own found).typeParameters t mem).within fun name named =>
      Ty.mem_namesOf.2 ⟨t, mem, named⟩

theorem field_fits {layout : Layout} (laid : ctx.layout? id = some layout) :
    ∀ field ∈ layout.fields, field.type.Fits (ctx.arities.within error (· ∈ Ty.namesOf own.typeParameters)) := by
  refine fun field member => ((h.layout_obeys laid).fields field member).within fun name knows => ?_
  obtain ⟨other, same, mem⟩ := knows
  cases found.symm.trans same
  exact mem

theorem ofLayout_regular {layout : Layout} (laid : ctx.layout? id = some layout) (known : String → Prop) :
    (CallShape.ofLayout own layout).Regular error ctx known := by
  have mine : ∀ t : Ty, t.Fits (ctx.arities.within error (· ∈ Ty.namesOf own.typeParameters)) →
      t.Fits (ctx.arities.opening error known (Ty.namesOf own.typeParameters)) := fun t fits =>
    fits.mono ⟨rfl, fun _ => .inr, fun _ mem _ _ => .inl mem, fun h => h⟩ fun _ => False.elim
  refine ⟨fun t mem => ((h.table.structs id own found).typeParameters t mem).anywhere, ?_, ?_⟩
  · exact forall_mem_map.2 fun field member => mine _ (h.field_fits found laid field member)
  · exact forall_mem_singleton.2 (mine _ (h.selfType_fits found))

end Struct

theorem signature_seen {id : FunctionId} {own : FunctionDef} (found : ctx.table.function? id = some own)
    (known : String → Prop) : own.signature.Seen error ctx.arities known :=
  (h.table.functions own (mem_of_getElem? found)).seen fun _ => False.elim

theorem functionType_fits {id : FunctionId} {own : FunctionDef} (found : ctx.table.function? id = some own)
    (plain : own.signature.isGeneric = false) (known : String → Prop) :
    own.signature.type.Fits (ctx.arities.within error known) := by
  have none : own.signature.typeParameters = [] := by simpa [Signature.isGeneric] using plain
  have seen := (h.signature_seen found known).type
  rw [none] at seen
  exact seen.of_opening_nil

end CheckContext.Regular

namespace BodyContext

/-- What is known where an expression stands. -/
structure Knows (body : BodyContext) (error : Prop) (known : String → Prop) (env : Env) : Prop where
  regular : body.Regular error known
  env : ∀ entry ∈ env, entry.2.Fits (body.place error known)

/-- Whether all types in an expression fit, and all of it obeys the typing rules. -/
structure Accepts (body : BodyContext) (error : Prop) (known : String → Prop) (env : Env) (e : TypedExpr) : Prop where
  fits : Ty.FitAll (body.place error known) e.stored
  typed : body.program.Strict error → ExprTyping body.program body.result env e

/-- Whether all types in what is called fit, and it has a shape that it may be called with. -/
structure AcceptsTarget (body : BodyContext) (error : Prop) (known : String → Prop) (env : Env) (target : CallTarget) :
    Prop where
  fits : Ty.FitAll (body.place error known) target.callee.stored
  found : target.shape = none → error
  shape : ∀ shape ∈ target.shape, shape.Regular error body.program known
  typed : body.program.Strict error → ∀ shape ∈ target.shape,
    CalleeTyping body.program body.result env target.callee shape

section Targets

variable {body : BodyContext} {error : Prop} {known : String → Prop} {env : Env}

theorem Accepts.type {e : TypedExpr} (h : body.Accepts error known env e) : e.type.Fits (body.place error known) :=
  e.type_fits h.fits

theorem Accepts.of_error {e : TypedExpr} (on : error) (fits : Ty.FitAll (body.place error known) e.stored) :
    body.Accepts error known env e :=
  ⟨fits, fun strict => absurd on strict.clean⟩

theorem AcceptsTarget.some {callee : Callee} {shape : CallShape} (fits : Ty.FitAll (body.place error known) callee.stored)
    (regular : shape.Regular error body.program known)
    (typed : body.program.Strict error → CalleeTyping body.program body.result env callee shape) :
    body.AcceptsTarget error known env ⟨callee, .some shape⟩ := by
  refine ⟨fits, nofun, ?_, fun strict => ?_⟩
  · rintro _ ⟨⟩
    exact regular
  · rintro _ ⟨⟩
    exact typed strict

theorem AcceptsTarget.none {callee : Callee} (on : error) (fits : Ty.FitAll (body.place error known) callee.stored) :
    body.AcceptsTarget error known env ⟨callee, .none⟩ :=
  ⟨fits, fun _ => on, fun _ mem => (by cases mem), fun _ _ mem => by cases mem⟩

theorem functionTarget_accepted (h : body.Knows error known env) {id : FunctionId}
    (inside : id.index < body.program.table.functions.length) :
    body.AcceptsTarget error known env (body.functionTarget id) := by
  have found : body.program.table.function? id = .some _ := getElem?_eq_getElem inside
  rw [functionTarget, found]
  exact .some trivial (.ofSignature (h.regular.program.signature_seen found known)) fun _ => .function found

variable (body error known env)

theorem constructTarget_yields (id : StructId) (span : Span) : Yields error (body.constructTarget id span) fun target =>
    body.Knows error known env → id.index < body.program.table.structs.length →
      body.AcceptsTarget error known env target := by
  unfold constructTarget
  dsimp only
  split
  · rename_i own layout found laid
    refine .check (body.report_yields _ _ _) (.pure fun concrete h _ => .some trivial ?_ fun strict => ?_)
    · exact h.regular.program.ofLayout_regular found laid known
    · exact .construct found laid (concrete.resolve_right strict.clean)
  · rename_i missing
    refine .pure fun h inside => ?_
    have found := getElem?_eq_getElem inside
    obtain ⟨layout, laid⟩ := h.regular.program.layout_exists found
    exact (missing _ _ found laid).elim

theorem valueTarget_yields (value : TypedExpr) (span : Span) : Yields error (body.valueTarget value span) fun target =>
    body.Accepts error known env value → body.AcceptsTarget error known env target := by
  unfold valueTarget
  split
  · rename_i params returns isFunction
    refine .pure fun accepts => .some accepts.fits (.ofTypes ?_) fun strict => ?_
    · exact isFunction ▸ accepts.type
    · exact .value (accepts.typed strict) isFunction
  · rename_i isError
    refine .pure fun accepts => .none ?_ accepts.fits
    have fits := accepts.type
    rwa [isError] at fits
  · exact body.refused_yields fun on accepts => .none on accepts.fits

theorem memberTarget_yields (callee : Callee) (receiver : Ty) (name : String) (method : Option Ty) (span : Span) :
    Yields error (body.memberTarget callee receiver name method span) fun target =>
      ((method = .none → error) → Ty.FitAll (body.place error known) callee.stored) →
      (∀ params returns, method = .some (.function params returns) →
        (Ty.function params returns).Fits (body.place error known) ∧ (body.program.Strict error →
          CalleeTyping body.program body.result env callee (.ofTypes name params returns))) →
      body.AcceptsTarget error known env target := by
  unfold memberTarget
  split
  · refine .pure fun fits accepts => ?_
    obtain ⟨found, typed⟩ := accepts _ _ rfl
    exact .some (fits nofun) (.ofTypes found) typed
  · exact body.refused_yields fun on fits _ => .none on (fits fun _ => on)

theorem methodTarget_yields (receiver : TypedExpr) (name : String) (calleeSpan span : Span) :
    Yields error (body.methodTarget receiver name calleeSpan span) fun target => body.Knows error known env →
      body.Accepts error known env receiver → body.AcceptsTarget error known env target := by
  unfold methodTarget
  split
  · rename_i id arguments isStruct
    split
    · rename_i origin signature found
      refine .pure fun h accepts => .some accepts.fits (.ofSignature ?_) fun strict => ?_
      · exact h.regular.program.structMethod_seen (isStruct ▸ accepts.type) found
      · exact .method (accepts.typed strict) isStruct found
    · refine (body.memberTarget_yields error known env _ _ name _ span).mono fun target reached h accepts => ?_
      have fits : ∀ t, body.program.fieldType? id arguments name = some t → t.Fits (body.place error known) :=
        fun t => h.regular.program.fieldType_fits (isStruct ▸ accepts.type)
      refine reached (fun missing => ⟨?_, accepts.fits⟩) fun params returns found => ⟨fits _ found, fun strict => ?_⟩
      · cases found : body.program.fieldType? id arguments name with
        | none => exact missing found
        | some t => exact fits t found
      · exact .value (.field (accepts.typed strict) isStruct (by rw [found]; rfl)) (by rw [found]; rfl)
  · rename_i parameter bound arguments isBounded
    refine (body.memberTarget_yields error known env _ _ name _ span).mono fun target reached h accepts => ?_
    refine reached (fun _ => accepts.fits) fun params returns found => ⟨?_, fun strict => ?_⟩
    · exact h.regular.program.boundMethod_fits (isBounded ▸ accepts.type) found
    · exact .boundMethod (accepts.typed strict) isBounded found
  · rename_i isError
    refine .pure fun _ accepts => .none ?_ accepts.fits
    have fits := accepts.type
    rwa [isError] at fits
  · refine (body.memberTarget_yields error known env _ _ name _ span).mono fun target reached h accepts => ?_
    refine reached (fun _ => accepts.fits) fun params returns found => ⟨?_, fun strict => ?_⟩
    · exact Ty.builtinMethod_fits accepts.type found
    · exact .builtin (accepts.typed strict) found

end Targets

end BodyContext

end SemanticChecker
