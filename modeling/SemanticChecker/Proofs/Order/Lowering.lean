import SemanticChecker.Proofs.Alias.Unfolding
import SemanticChecker.Proofs.Order.Tables

/-! Written types under other numbers. Where names stand for the same, a written type is given the same meaning, asks
for the same bounds, and the same is reported. -/
namespace SemanticChecker

open List

/-- Whether diagnostics are the same, or both errors. What an error tells may name a slot. -/
def Diagnostic.Alike (first second : Diagnostic) : Prop :=
  second = first ∨ first.isError = true ∧ second.isError = true

theorem Diagnostic.Alike.refl (d : Diagnostic) : d.Alike d :=
  .inl rfl

theorem Diagnostic.Alike.inSource {first second : Diagnostic} (h : first.Alike second) (unit : UnitId) :
    (first.inSource unit).Alike (second.inSource unit) :=
  h.imp (congrArg (Diagnostic.inSource · unit)) id

abbrev ReportsAlike (first second : List Diagnostic) : Prop :=
  List.Forall₂ Diagnostic.Alike first second

namespace ReportsAlike

variable {first second : List Diagnostic}

theorem refl (ds : List Diagnostic) : ReportsAlike ds ds :=
  List.forall₂_same.2 fun d _ => .refl d

theorem append {more others : List Diagnostic} (h : ReportsAlike first second) (h' : ReportsAlike more others) :
    ReportsAlike (first ++ more) (second ++ others) :=
  rel_append h h'

theorem inSource (h : ReportsAlike first second) (unit : UnitId) :
    ReportsAlike (first.map (·.inSource unit)) (second.map (·.inSource unit)) :=
  List.forall₂_map_left_iff.2 (List.forall₂_map_right_iff.2 (h.imp fun _ _ h => h.inSource unit))

theorem eq_of_harmless (h : ReportsAlike first second) (harmless : Harmless first) : second = first := by
  induction h with
  | nil => rfl
  | cons alike _ ih =>
    obtain ⟨here, others⟩ := forall_mem_cons.1 harmless
    rw [ih others, alike.resolve_right fun errors => by rw [here] at errors; cases errors.1]

end ReportsAlike

def AllErrors (ds : List Diagnostic) : Prop :=
  ∀ d ∈ ds, d.isError = true

theorem AllErrors.eq_nil {ds : List Diagnostic} (h : AllErrors ds) (harmless : Harmless ds) : ds = [] :=
  eq_nil_iff_forall_not_mem.2 fun d mem => Bool.noConfusion ((h d mem).symm.trans (harmless d mem))

abbrev ErrorsAlike (first second : List Diagnostic) : Prop :=
  List.Forall₂ (fun d d' => d.isError = true ∧ d'.isError = true) first second

namespace ErrorsAlike

variable {first second : List Diagnostic}

theorem reports (h : ErrorsAlike first second) : ReportsAlike first second :=
  h.imp fun _ _ => .inr

theorem eq_nil (h : ErrorsAlike first second) (harmless : Harmless first) : second = [] := by
  cases h with
  | nil => rfl
  | cons failed _ => cases failed.1.symm.trans (harmless _ mem_cons_self)

theorem allErrors (h : ErrorsAlike first second) : AllErrors second := by
  induction h with
  | nil => exact fun _ mem => by cases mem
  | cons failed _ ih => exact forall_mem_cons.2 ⟨failed.2, ih⟩

end ErrorsAlike

/-- Whether two computations do the same: from states that are alike they come to states that are alike, and `f` gives
the answer of the second from that of the first. -/
def Follows {σ α β : Type} (like : σ → σ → Prop) (f : α → β) (work : StateM σ α) (other : StateM σ β) : Prop :=
  ∀ s s', like s s' → (other.run s').1 = f (work.run s).1 ∧ like (work.run s).2 (other.run s').2

namespace Follows

variable {σ α β γ δ : Type} {like : σ → σ → Prop} {f : α → β} {g : γ → δ}

theorem pure {a : α} {b : β} (same : b = f a) : Follows like f (Pure.pure a) (Pure.pure b) :=
  fun _ _ alike => ⟨same, alike⟩

theorem bind {x : StateM σ α} {y : StateM σ β} {k : α → StateM σ γ} {l : β → StateM σ δ} (first : Follows like f x y)
    (second : ∀ a, Follows like g (k a) (l (f a))) : Follows like g (x >>= k) (y >>= l) := by
  intro s s' alike
  obtain ⟨same, later⟩ := first s s' alike
  have step : (y >>= l).run s' = (l (y.run s').1).run (y.run s').2 := rfl
  rw [step, same]
  exact second (x.run s).1 _ _ later

theorem changing {change change' : σ → σ} (keeps : ∀ s s', like s s' → like (change s) (change' s')) :
    Follows like id (modify change : StateM σ Unit) (modify change' : StateM σ Unit) :=
  fun s s' alike => ⟨rfl, keeps s s' alike⟩

end Follows

def PendingBound.rename (ρ : Renaming) (pending : PendingBound) : PendingBound :=
  { pending with owner := ρ.struct pending.owner, arguments := pending.arguments.map (Ty.rename ρ) }

def BoundRef.rename (ρ : Renaming) (bound : BoundRef) : BoundRef :=
  { bound with arguments := bound.arguments.map (Ty.rename ρ) }

namespace TypeHead

def rename (ρ : Renaming) : TypeHead → TypeHead
  | type t => type (t.rename ρ)
  | list => list
  | dict => dict
  | struct id arity => struct (ρ.struct id) arity
  | typeAlias name => typeAlias name

variable (ρ : Renaming)

@[simp] theorem arity_rename (head : TypeHead) : (head.rename ρ).arity = head.arity := by
  cases head <;> rfl

@[simp] theorem aliases_rename (head : TypeHead) : (head.rename ρ).aliases = head.aliases := by
  cases head <;> rfl

theorem applied_rename {types others : String → Ty} (same : ∀ name, others name = (types name).rename ρ)
    (arguments : List Ty) (head : TypeHead) :
    (head.rename ρ).applied others (arguments.map (Ty.rename ρ)) = (head.applied types arguments).rename ρ := by
  cases head with
  | type t => rfl
  | list => rcases arguments with _ | ⟨_, _ | ⟨_, _⟩⟩ <;> rfl
  | dict => rcases arguments with _ | ⟨_, _ | ⟨_, _ | ⟨_, _⟩⟩⟩ <;> rfl
  | struct id arity => simp [rename, applied, Ty.rename]
  | typeAlias name => exact same name

end TypeHead

theorem DeclTable.Renames.resolveName {ρ : Renaming} {table others : DeclTable} (h : table.Renames ρ others)
    (module : ModulePath) (name : String) : others.resolveName module name =
      (table.resolveName module name).map fun found => (found.1, found.2.rename ρ) := by
  rw [DeclTable.resolveName, DeclTable.resolveName]
  induction module.candidates name with
  | nil => rfl
  | cons candidate rest ih =>
    rw [findSome?_cons, findSome?_cons, h.lookup]
    cases table.lookup candidate with
    | none => exact ih
    | some symbol => rfl

namespace TypeScope

theorem head?_rename {ρ : Renaming} {scope other : TypeScope} (table : scope.table.Renames ρ other.table)
    (module : other.module = scope.module) (parameters : other.parameters = scope.parameters.map (Ty.rename ρ))
    (name : String) : other.head? name = (scope.head? name).map (TypeHead.rename ρ) := by
  have parameter : other.parameter? name = (scope.parameter? name).map (Ty.rename ρ) := by
    rw [parameter?, parameter?, parameters, ← map_reverse, find?_map]
    congr 2
    exact funext fun t => by simp
  rw [head?, head?, parameter]
  cases scope.parameter? name with
  | some t => rfl
  | none =>
    simp only [Option.map_none]
    cases Primitive.ofName? name with
    | some kind => rfl
    | none =>
      simp only
      split
      · rfl
      · split
        · rfl
        · rw [module, table.resolveName]
          cases scope.table.resolveName scope.module name with
          | none => cases builtinAlias? name <;> rfl
          | some found =>
            obtain ⟨qualified, symbol⟩ := found
            cases symbol with
            | struct id =>
              simp only [Option.map_some, Symbol.rename, TypeHead.ofSymbol?, table.struct?]
              cases scope.table.struct? id <;> rfl
            | _ => rfl

end TypeScope

section Meaning

def HeadsRename (ρ : Renaming) (heads others : String → Option TypeHead) : Prop :=
  ∀ name, others name = (heads name).map (TypeHead.rename ρ)

variable {ρ : Renaming} {heads others : String → Option TypeHead}

mutual

theorem TypeExpr.resolves_rename (same : HeadsRename ρ heads others) :
    ∀ type : TypeExpr, type.Resolves others ↔ type.Resolves heads
  | ⟨.named name arguments, _⟩ => by
    rw [TypeExpr.Resolves, TypeExpr.Resolves, TypeExprKind.Resolves, TypeExprKind.Resolves,
      TypeExpr.resolveAll_rename same arguments, same]
    cases heads name <;> simp
  | ⟨.tuple elements, _⟩ => TypeExpr.resolveAll_rename same elements
  | ⟨.repeated element _, _⟩ => element.resolves_rename same
  | ⟨.function parameters returns, _⟩ =>
    and_congr (TypeExpr.resolveAll_rename same parameters) (TypeExpr.resolveAll_rename same returns)

theorem TypeExpr.resolveAll_rename (same : HeadsRename ρ heads others) :
    ∀ types : List TypeExpr, TypeExpr.ResolveAll others types ↔ TypeExpr.ResolveAll heads types
  | [] => Iff.rfl
  | type :: rest => and_congr (type.resolves_rename same) (TypeExpr.resolveAll_rename same rest)

end

mutual

theorem TypeExpr.aliases_rename (same : HeadsRename ρ heads others) :
    ∀ type : TypeExpr, type.aliases others = type.aliases heads
  | ⟨.named name arguments, _⟩ => by
    rw [TypeExpr.aliases, TypeExpr.aliases, TypeExprKind.aliases, TypeExprKind.aliases,
      TypeExpr.aliasesAll_rename same arguments, same]
    cases heads name <;> simp
  | ⟨.tuple elements, _⟩ => TypeExpr.aliasesAll_rename same elements
  | ⟨.repeated element _, _⟩ => element.aliases_rename same
  | ⟨.function parameters returns, _⟩ =>
    congrArg₂ (· ++ ·) (TypeExpr.aliasesAll_rename same parameters) (TypeExpr.aliasesAll_rename same returns)

theorem TypeExpr.aliasesAll_rename (same : HeadsRename ρ heads others) :
    ∀ types : List TypeExpr, TypeExpr.aliasesAll others types = TypeExpr.aliasesAll heads types
  | [] => rfl
  | type :: rest => congrArg₂ (· ++ ·) (type.aliases_rename same) (TypeExpr.aliasesAll_rename same rest)

end

variable {types types' : String → Ty}

mutual

theorem TypeExpr.meaning_rename (same : HeadsRename ρ heads others)
    (alike : ∀ name, types' name = (types name).rename ρ) : ∀ type : TypeExpr,
      type.meaning others types' = (type.meaning heads types).rename ρ
  | ⟨.named name arguments, _⟩ => by
    rw [TypeExpr.meaning, TypeExpr.meaning, TypeExprKind.meaning, TypeExprKind.meaning,
      TypeExpr.meanings_rename same alike arguments, same]
    cases heads name with
    | none => rfl
    | some head => exact head.applied_rename ρ alike _
  | ⟨.tuple elements, _⟩ => by
    simp only [TypeExpr.meaning, TypeExprKind.meaning, TypeExpr.meanings_rename same alike elements, Ty.rename, Ty.renameAll_eq_map]
  | ⟨.repeated element arity, _⟩ => by
    simp only [TypeExpr.meaning, TypeExprKind.meaning, Ty.rename, Ty.renameAll_eq_map, map_replicate]
    exact congrArg _ (congrArg _ (element.meaning_rename same alike))
  | ⟨.function parameters returns, _⟩ => by
    simp only [TypeExpr.meaning, TypeExprKind.meaning, TypeExpr.meanings_rename same alike parameters,
      TypeExpr.meanings_rename same alike returns, Ty.rename, Ty.renameAll_eq_map]

theorem TypeExpr.meanings_rename (same : HeadsRename ρ heads others)
    (alike : ∀ name, types' name = (types name).rename ρ) : ∀ exprs : List TypeExpr,
      TypeExpr.meanings others types' exprs = (TypeExpr.meanings heads types exprs).map (Ty.rename ρ)
  | [] => rfl
  | type :: rest => congrArg₂ List.cons (type.meaning_rename same alike) (TypeExpr.meanings_rename same alike rest)

end

theorem TypeHead.applications_rename (ρ : Renaming) (span : Span) (arguments : List Ty) (head : TypeHead) :
    (head.rename ρ).applications span (arguments.map (Ty.rename ρ)) =
      (head.applications span arguments).map (PendingBound.rename ρ) := by
  cases head with
  | struct id arity =>
    simp only [TypeHead.rename, TypeHead.applications, isEmpty_map]
    split <;> simp [PendingBound.rename]
  | _ => rfl

mutual

theorem TypeExpr.applications_rename (same : HeadsRename ρ heads others)
    (alike : ∀ name, types' name = (types name).rename ρ) : ∀ type : TypeExpr,
      type.applications others types' = (type.applications heads types).map (PendingBound.rename ρ)
  | ⟨.named name arguments, span⟩ => by
    rw [TypeExpr.applications, TypeExpr.applications, TypeExprKind.applications, TypeExprKind.applications,
      TypeExpr.applicationsAll_rename same alike arguments, TypeExpr.meanings_rename same alike arguments, same, map_append]
    cases heads name with
    | none => rfl
    | some head => simp only [Option.map_some, head.applications_rename]
  | ⟨.tuple elements, _⟩ => TypeExpr.applicationsAll_rename same alike elements
  | ⟨.repeated element _, _⟩ => element.applications_rename same alike
  | ⟨.function parameters returns, _⟩ => by
    simp only [TypeExpr.applications, TypeExprKind.applications, TypeExpr.applicationsAll_rename same alike parameters,
      TypeExpr.applicationsAll_rename same alike returns, map_append]

theorem TypeExpr.applicationsAll_rename (same : HeadsRename ρ heads others)
    (alike : ∀ name, types' name = (types name).rename ρ) : ∀ exprs : List TypeExpr,
      TypeExpr.applicationsAll others types' exprs =
        (TypeExpr.applicationsAll heads types exprs).map (PendingBound.rename ρ)
  | [] => rfl
  | type :: rest => by
    rw [TypeExpr.applicationsAll, TypeExpr.applicationsAll, type.applications_rename same alike,
      TypeExpr.applicationsAll_rename same alike rest, map_append]

end

end Meaning

/-- Whether the same bounds are still to be checked. -/
def Lowering.Alike (ρ : Renaming) (s s' : Lowering) : Prop :=
  s'.pending = s.pending.map (PendingBound.rename ρ)

def LowerFollows {α β : Type} (ρ : Renaming) (f : α → β) (work : LowerM α) (other : LowerM β) : Prop :=
  Follows (Lowering.Alike ρ) (Except.map f) work.run other.run

namespace LowerFollows

variable {ρ : Renaming} {α β γ δ : Type} {f : α → β} {g : γ → δ}

theorem pure {a : α} {b : β} (same : b = f a) : LowerFollows ρ f (Pure.pure a) (Pure.pure b) :=
  Follows.pure (congrArg Except.ok same)

theorem throw (error : ResolveError) :
    LowerFollows ρ f (MonadExcept.throw error : LowerM α) (MonadExcept.throw error : LowerM β) :=
  Follows.pure rfl

theorem bind {x : LowerM α} {y : LowerM β} {k : α → LowerM γ} {l : β → LowerM δ} (first : LowerFollows ρ f x y)
    (second : ∀ a, LowerFollows ρ g (k a) (l (f a))) : LowerFollows ρ g (x >>= k) (y >>= l) := by
  refine Follows.bind (k := ExceptT.bindCont k) (l := ExceptT.bindCont l) first fun result => ?_
  cases result with
  | ok a => exact second a
  | error e => exact Follows.pure rfl

theorem addPending (pending : PendingBound) :
    LowerFollows ρ id (LowerM.addPending pending) (LowerM.addPending (pending.rename ρ)) := by
  intro s s' alike
  refine ⟨rfl, ?_⟩
  have added : s'.pending ++ [pending.rename ρ] = (s.pending ++ [pending]).map (PendingBound.rename ρ) := by
    rw [map_append, ← show s'.pending = _ from alike]
    rfl
  exact added

theorem expectArguments (name : String) (expected found : Nat) :
    LowerFollows ρ id (expectArguments name expected found) (expectArguments name expected found) := by
  unfold SemanticChecker.expectArguments
  split
  · exact .pure rfl
  · exact .throw _

end LowerFollows

structure TypeScope.Renames (ρ : Renaming) (scope other : TypeScope) : Prop where
  table : scope.table.Renames ρ other.table
  module : other.module = scope.module
  parameters : other.parameters = scope.parameters.map (Ty.rename ρ)
  aliasOf : ∀ name, scope.table.lookup name = some .typeAlias →
    LowerFollows ρ (Ty.rename ρ) (scope.aliasOf name) (other.aliasOf name)

namespace TypeScope.Renames

variable {ρ : Renaming} {scope other : TypeScope}

theorem extend (h : scope.Renames ρ other) (parameters : List Ty) :
    (scope.extend parameters).Renames ρ (other.extend (parameters.map (Ty.rename ρ))) :=
  { h with parameters := by simp [TypeScope.extend, h.parameters] }

theorem apply_follows (h : scope.Renames ρ other) {name : String} {head : TypeHead}
    (found : scope.head? name = some head) (span : Span) (arguments : List Ty) :
    LowerFollows ρ (Ty.rename ρ) (head.apply scope.aliasOf span arguments)
      ((head.rename ρ).apply other.aliasOf span (arguments.map (Ty.rename ρ))) := by
  cases head with
  | type t => exact .pure rfl
  | list => rcases arguments with _ | ⟨_, _ | ⟨_, _⟩⟩ <;> exact .pure rfl
  | dict => rcases arguments with _ | ⟨_, _ | ⟨_, _ | ⟨_, _⟩⟩⟩ <;> exact .pure rfl
  | struct id arity =>
    rw [TypeHead.rename, TypeHead.apply, TypeHead.apply, isEmpty_map]
    split
    · exact .pure (by rw [Ty.rename, Ty.renameAll_eq_map])
    · exact .bind (.addPending _) fun _ => .pure (by rw [Ty.rename, Ty.renameAll_eq_map])
  | typeAlias qualified => exact h.aliasOf qualified (DeclTable.lookup_of_heads found)

mutual

theorem lower_follows (h : scope.Renames ρ other) :
    ∀ type : TypeExpr, LowerFollows ρ (Ty.rename ρ) (type.lower scope) (type.lower other)
  | ⟨.named name arguments, _⟩ => by
    rw [TypeExpr.lower, TypeExpr.lower, TypeExprKind.lower, TypeExprKind.lower,
      head?_rename h.table h.module h.parameters]
    cases found : scope.head? name with
    | none => exact .throw _
    | some head =>
      simp only [Option.map_some, TypeHead.arity_rename]
      exact .bind (.expectArguments _ _ _) fun _ =>
        .bind (h.lowerAll_follows arguments) fun _ => h.apply_follows found _ _
  | ⟨.tuple elements, _⟩ =>
    .bind (h.lowerAll_follows elements) fun _ => .pure (by rw [Ty.rename, Ty.renameAll_eq_map])
  | ⟨.repeated element arity, _⟩ =>
    .bind (h.lower_follows element) fun _ => .pure (by rw [Ty.rename, Ty.renameAll_eq_map, map_replicate])
  | ⟨.function parameters returns, _⟩ =>
    .bind (h.lowerAll_follows parameters) fun _ => .bind (h.lowerAll_follows returns) fun _ =>
      .pure (by rw [Ty.rename, Ty.renameAll_eq_map, Ty.renameAll_eq_map])

theorem lowerAll_follows (h : scope.Renames ρ other) : ∀ types : List TypeExpr,
    LowerFollows ρ (List.map (Ty.rename ρ)) (TypeExpr.lowerAll scope types) (TypeExpr.lowerAll other types)
  | [] => .pure rfl
  | type :: rest => .bind (h.lower_follows type) fun _ => .bind (h.lowerAll_follows rest) fun _ => .pure rfl

end

end TypeScope.Renames

/-- Whether the same was found: the same bounds to be checked, and as many errors. -/
structure Findings.Alike (ρ : Renaming) (s s' : Findings) : Prop where
  pending : s'.pending = s.pending.map (PendingBound.rename ρ)
  diagnostics : ErrorsAlike s.diagnostics s'.diagnostics

theorem Findings.Alike.empty (ρ : Renaming) : Findings.Alike ρ {} {} :=
  ⟨rfl, .nil⟩

abbrev FindFollows {α β : Type} (ρ : Renaming) (f : α → β) (work : FindM α) (other : FindM β) : Prop :=
  Follows (Findings.Alike ρ) f work other

namespace FindFollows

variable {ρ : Renaming} {α β : Type} {f : α → β}

theorem report {d d' : Diagnostic} (failed : d.isError = true ∧ d'.isError = true) :
    FindFollows ρ id (FindM.report d) (FindM.report d') :=
  .changing fun _ _ found => ⟨found.pending, rel_append found.diagnostics (.cons failed .nil)⟩

theorem reporting (span : Span) {work : LowerM α} {other : LowerM β} (follows : LowerFollows ρ f work other) :
    FindFollows ρ (Option.map f) (FindM.reporting span work) (FindM.reporting span other) := by
  obtain ⟨same, pending⟩ := follows {} {} rfl
  have added : FindFollows ρ id (modify fun s => { s with pending := s.pending ++ (work.run.run {}).2.pending })
      (modify fun s => { s with pending := s.pending ++ (other.run.run {}).2.pending }) :=
    .changing fun s s' found =>
      ⟨(congrArg₂ _ found.pending pending).trans (map_append).symm, found.diagnostics⟩
  refine .bind added fun _ => ?_
  rw [show (other {}).1 = (work {}).1.map f from same]
  cases (work {}).1 with
  | ok value => exact .pure rfl
  | error error => exact .bind (report ⟨error.isError_diagnostic _, error.isError_diagnostic _⟩) fun _ => .pure rfl

theorem forgetting {γ δ : Type} {g : γ → δ} {x : FindM α} {y : FindM β} {k : α → FindM γ} {l : β → FindM δ}
    (first : FindFollows ρ f x y) (second : ∀ a, FindFollows ρ g (k a) (l (f a))) : FindFollows ρ g
      (do
        let before := (← get).pending
        let a ← x
        modify fun s => { s with pending := before }
        k a)
      (do
        let before := (← get).pending
        let b ← y
        modify fun s => { s with pending := before }
        l b) := by
  intro s s' alike
  obtain ⟨same, later⟩ := first s s' alike
  have next := second (x.run s).1 { (x.run s).2 with pending := s.pending } { (y.run s').2 with pending := s'.pending }
    ⟨alike.pending, later.diagnostics⟩
  rw [← same] at next
  exact next

end FindFollows

namespace TypeScope.Renames

variable {ρ : Renaming} {scope other : TypeScope} (h : scope.Renames ρ other)

include h

theorem lowerReported_follows (type : TypeExpr) :
    FindFollows ρ (Option.map (Ty.rename ρ)) (scope.lowerReported type) (other.lowerReported type) :=
  FindFollows.reporting _ (h.lower_follows type)

theorem lowerOrError_follows (type : TypeExpr) :
    FindFollows ρ (Ty.rename ρ) (scope.lowerOrError type) (other.lowerOrError type) :=
  .bind (h.lowerReported_follows type) fun found => .pure (by cases found <;> rfl)

theorem lowerBound_follows (bounds : BoundTable) (bound : BoundExpr) :
    LowerFollows ρ (BoundRef.rename ρ) (scope.lowerBound bounds bound) (other.lowerBound bounds bound) := by
  rw [lowerBound, lowerBound]
  cases bounds.parameterCount? bound.name with
  | none => exact .throw _
  | some expected =>
    exact .bind (.expectArguments _ _ _) fun _ => .bind (h.lowerAll_follows _) fun _ => .pure rfl

theorem declareParameters_follows (bounds : BoundTable) : ∀ (parameters : List TypeParameter) (done : List Ty),
    FindFollows ρ (List.map (Ty.rename ρ)) (scope.declareParameters bounds done parameters)
      (other.declareParameters bounds (done.map (Ty.rename ρ)) parameters)
  | [], _ => .pure rfl
  | parameter :: rest, done => by
    have next : ∀ bound : Option BoundRef, FindFollows ρ (List.map (Ty.rename ρ))
        (scope.declareParameters bounds (done ++ [Ty.ofParameter parameter.name bound]) rest)
        (other.declareParameters bounds
          (done.map (Ty.rename ρ) ++ [Ty.ofParameter parameter.name (bound.map (BoundRef.rename ρ))]) rest) := by
      intro bound
      have one : [Ty.ofParameter parameter.name (bound.map (BoundRef.rename ρ))] =
          [Ty.ofParameter parameter.name bound].map (Ty.rename ρ) := by
        cases bound with
        | none => rfl
        | some bound => simp [Ty.ofParameter, Ty.rename, BoundRef.rename]
      rw [one, ← map_append]
      exact declareParameters_follows bounds rest _
    rw [declareParameters, declareParameters]
    cases parameter.bound with
    | none => exact next none
    | some bound =>
      refine .bind (FindFollows.reporting _ ?_) next
      have inner := h.extend (done ++ (parameter :: rest).map fun p => Ty.parameter p.name)
      rw [map_append, map_map] at inner
      exact inner.lowerBound_follows bounds bound

theorem lowerParams_follows : ∀ params : List ParameterDecl,
    FindFollows ρ (List.map fun (name, t) => (name, t.rename ρ)) (scope.lowerParams params) (other.lowerParams params)
  | [] => .pure rfl
  | _ :: rest => .bind (h.lowerOrError_follows _) fun _ => .bind (lowerParams_follows rest) fun _ => .pure rfl

theorem lowerReturns_follows : ∀ types : List TypeExpr,
    FindFollows ρ (List.map (Ty.rename ρ)) (scope.lowerReturns types) (other.lowerReturns types)
  | [] => .pure rfl
  | _ :: rest => .bind (h.lowerOrError_follows _) fun _ => .bind (lowerReturns_follows rest) fun _ => .pure rfl

theorem lowerSignature_follows (bounds : BoundTable) (decl : FunctionDecl) :
    FindFollows ρ (Signature.rename ρ) (scope.lowerSignature bounds decl) (other.lowerSignature bounds decl) :=
  .bind (h.declareParameters_follows bounds _ []) fun typeParameters =>
    .bind ((h.extend typeParameters).lowerParams_follows _) fun _ =>
      .bind ((h.extend typeParameters).lowerReturns_follows _) fun _ => .pure rfl

theorem lowerFields_follows : ∀ fields : List FieldDecl,
    FindFollows ρ (List.map (FieldDef.rename ρ)) (Declarations.lowerFields scope fields)
      (Declarations.lowerFields other fields)
  | [] => .pure rfl
  | _ :: rest => .bind (h.lowerOrError_follows _) fun _ => .bind (lowerFields_follows rest) fun _ => .pure rfl

theorem lowerMethods_follows (bounds : BoundTable) : ∀ methods : List FunctionDecl,
    FindFollows ρ (List.map (MethodDef.rename ρ)) (Declarations.lowerMethods bounds scope methods)
      (Declarations.lowerMethods bounds other methods)
  | [] => .pure rfl
  | _ :: rest =>
    .bind (h.lowerSignature_follows bounds _) fun _ => .bind (lowerMethods_follows bounds rest) fun _ => .pure rfl

theorem lowerParents_follows (table table' : DeclTable) (name : String) : ∀ parents : List TypeExpr,
    FindFollows ρ (List.map (ComposedParent.rename ρ)) (Declarations.lowerParents table scope name parents)
      (Declarations.lowerParents table' other name parents)
  | [] => .pure rfl
  | parent :: rest => by
    have others := lowerParents_follows table table' name rest
    rw [Declarations.lowerParents, Declarations.lowerParents]
    refine .bind (h.lowerReported_follows parent) fun found => ?_
    cases found with
    | none => exact others
    | some t =>
      cases t with
      | struct id arguments =>
        exact .bind others fun _ => .pure (by simp [ComposedParent.rename, Ty.rename])
      | _ => exact .bind (FindFollows.report ⟨rfl, rfl⟩) fun _ => others

end TypeScope.Renames

/-- Whether declarations hold the same under other numbers, and aliases came to the same types. -/
structure Declarations.Renames (ρ : Renaming) (declared others : Declarations) : Prop where
  table : declared.table.Renames ρ others.table
  aliases : ∀ name, declared.table.lookup name = some .typeAlias →
    others.aliases.type? name = (declared.aliases.type? name).map (Ty.rename ρ)

namespace Declarations.Renames

variable {ρ : Renaming} {declared others : Declarations} (h : declared.Renames ρ others)

include h

theorem scope (module : ModulePath) (parameters : List Ty) :
    (declared.scope module parameters).Renames ρ (others.scope module (parameters.map (Ty.rename ρ))) where
  table := h.table
  module := rfl
  parameters := rfl
  aliasOf name isAlias := by
    simp only [Declarations.scope, h.aliases name isAlias]
    cases declared.aliases.type? name with
    | none => exact .throw _
    | some t => exact .pure rfl

theorem lowerStruct_follows (bounds : BoundTable) (own : StructDef) : FindFollows ρ (StructShape.rename ρ)
    (declared.lowerStruct bounds own) (others.lowerStruct bounds (own.rename ρ)) :=
  .bind ((h.scope own.module []).declareParameters_follows bounds _ []) fun typeParameters =>
    have inner := (h.scope own.module []).extend typeParameters
    .bind (inner.lowerParents_follows _ _ _ _) fun _ => .bind (inner.lowerFields_follows _) fun _ =>
      .bind (inner.lowerMethods_follows bounds _) fun _ => .pure rfl

theorem lowerEnum_follows (source : EnumSource) :
    FindFollows ρ id (declared.lowerEnum source) (others.lowerEnum (source.rename ρ)) := by
  refine FindFollows.forgetting ((h.scope source.module []).lowerReported_follows source.decl.backing) fun backing => ?_
  cases backing with
  | none => exact .pure rfl
  | some t =>
    cases t with
    | primitive kind => exact .pure rfl
    | _ => exact .bind (FindFollows.report ⟨rfl, rfl⟩) fun _ => .pure rfl

end Declarations.Renames

end SemanticChecker
