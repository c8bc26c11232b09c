import SemanticChecker.Proofs.Soundness.Lowering

/-! The meaning of a written type without any work: whether every name in it stands for something, which aliases it
names, and its type once these have types. Lowering it answers that type wherever the aliases it names can be had, and
answers nothing where a name stands for nothing. -/
namespace SemanticChecker

open List

/-- Work on written types that succeeds with an answer and keeps what is known. The bounds to be checked afterwards are
those of before and more, among them the ones that it finds. -/
def Gives {α : Type} (known : Lowering → Prop) (work : LowerM α) (answer : α) (found : List PendingBound) : Prop :=
  ∀ s : Lowering, known s →
    ∃ later, work.run.run s = (.ok answer, later) ∧ known later ∧ s.pending ++ found ⊆ later.pending

namespace Gives

variable {α β : Type} {known : Lowering → Prop} {found more : List PendingBound}

theorem pure (a : α) : Gives known (Pure.pure a) a [] :=
  fun s inv => ⟨s, rfl, inv, by rw [append_nil]; exact List.Subset.refl _⟩

theorem mono {work : LowerM α} {a : α} (h : Gives known work a more) (less : found ⊆ more) : Gives known work a found :=
  fun s inv => (h s inv).imp fun _ ran =>
    have grown := append_subset.1 ran.2.2
    ⟨ran.1, ran.2.1, append_subset.2 ⟨grown.1, List.Subset.trans less grown.2⟩⟩

theorem bind {x : LowerM α} {f : α → LowerM β} {a : α} {b : β} (first : Gives known x a found)
    (second : Gives known (f a) b more) : Gives known (x >>= f) b (found ++ more) := by
  intro s inv
  obtain ⟨middle, ran, kept, grown⟩ := first s inv
  obtain ⟨last, ran', kept', grown'⟩ := second middle kept
  have step : (x >>= f).run.run s = (ExceptT.bindCont f (x.run.run s).1).run (x.run.run s).2 := rfl
  refine ⟨last, ?_, kept', ?_⟩
  · rw [step, ran]
    exact ran'
  · obtain ⟨before, after⟩ := append_subset.1 grown'
    rw [← List.append_assoc]
    exact append_subset.2 ⟨List.Subset.trans grown before, after⟩

theorem bind_pure {x : LowerM α} {a : α} (first : Gives known x a found) (f : α → β) :
    Gives known (x >>= fun a => Pure.pure (f a)) (f a) found := by
  have answer : Gives known (Pure.pure (f a)) (f a) [] := .pure (f a)
  exact (first.bind answer).mono (subset_append_left _ _)

theorem addPending {bound : PendingBound} (stable : ∀ s, known s → known { s with pending := s.pending ++ [bound] }) :
    Gives known (LowerM.addPending bound) () [bound] :=
  fun s inv => ⟨{ s with pending := s.pending ++ [bound] }, rfl, stable s inv, List.Subset.refl _⟩

theorem expectArguments (name : String) {expected found : Nat} (count : found = expected) :
    Gives known (expectArguments name expected found) () [] := by
  simp only [SemanticChecker.expectArguments, count, if_true]
  exact .pure ()

end Gives

/-- Work on written types that takes what is known on, step by step. An answer comes with what holds of it then, and a
failure with what holds of it since the work began. -/
def Moves {α : Type} (known : Lowering → Prop) (step : Lowering → Lowering → Prop)
    (fault : Lowering → Lowering → ResolveError → Prop) (work : LowerM α) (answer : Lowering → α → Prop) : Prop :=
  ∀ s, known s →
    (∀ a, (work.run.run s).1 = .ok a →
      known (work.run.run s).2 ∧ step s (work.run.run s).2 ∧ answer (work.run.run s).2 a) ∧
    ∀ e, (work.run.run s).1 = .error e → fault s (work.run.run s).2 e

namespace Moves

/-- Steps that may follow one another, where a failure that is no cycle may come at any time. -/
structure Laws (known : Lowering → Prop) (step : Lowering → Lowering → Prop)
    (fault : Lowering → Lowering → ResolveError → Prop) : Prop where
  refl : ∀ {now}, known now → step now now
  trans : ∀ {a b c}, step a b → step b c → step a c
  pending : ∀ {now}, known now → ∀ bound, known { now with pending := now.pending ++ [bound] } ∧
    step now { now with pending := now.pending ++ [bound] }
  thrown : ∀ {now error}, known now → (∀ members, error ≠ .aliasCycle members) → fault now now error
  carried : ∀ {a b c error}, step a b → fault b c error → fault a c error

variable {α β : Type} {known : Lowering → Prop} {step : Lowering → Lowering → Prop}
  {fault : Lowering → Lowering → ResolveError → Prop} (laws : Laws known step fault)

include laws

theorem pure {a : α} {answer : Lowering → α → Prop} (h : ∀ now, known now → answer now a) :
    Moves known step fault (Pure.pure a) answer :=
  fun _ inv => ⟨fun _ done => (by cases done; exact ⟨inv, laws.refl inv, h _ inv⟩), fun _ failed => by cases failed⟩

theorem throw {error : ResolveError} {answer : Lowering → α → Prop} (plain : ∀ members, error ≠ .aliasCycle members) :
    Moves known step fault (MonadExcept.throw error : LowerM α) answer :=
  fun _ inv => ⟨fun _ done => (by cases done), fun _ failed => by cases failed; exact laws.thrown inv plain⟩

theorem addPending (bound : PendingBound) : Moves known step fault (LowerM.addPending bound) fun _ _ => True :=
  fun _ inv => ⟨fun _ _ => ⟨(laws.pending inv bound).1, (laws.pending inv bound).2, trivial⟩, fun _ failed => by cases failed⟩

theorem expectArguments {name : String} {expected found : Nat} :
    Moves known step fault (expectArguments name expected found) fun _ _ => found = expected := by
  unfold SemanticChecker.expectArguments
  split
  · rename_i same
    exact .pure laws fun _ _ => same
  · exact .throw laws (by simp)

theorem bind {x : LowerM α} {f : α → LowerM β} {P : Lowering → α → Prop} {Q : Lowering → β → Prop}
    (first : Moves known step fault x P) (stable : ∀ a now later, step now later → P now a → P later a)
    (second : ∀ a, Moves known step fault (f a) fun later b => P later a → Q later b) :
    Moves known step fault (x >>= f) Q := by
  intro s inv
  have ran : (x >>= f).run.run s = (ExceptT.bindCont f (x.run.run s).1).run (x.run.run s).2 := rfl
  rw [ran]
  obtain ⟨answered, failed⟩ := first s inv
  cases result : (x.run.run s).1 with
  | ok a =>
    obtain ⟨kept, moved, holds⟩ := answered a result
    obtain ⟨answered', failed'⟩ := second a _ kept
    refine ⟨fun b done => ?_, fun e failing => laws.carried moved (failed' e failing)⟩
    obtain ⟨kept', moved', holds'⟩ := answered' b done
    exact ⟨kept', laws.trans moved moved', holds' (stable a _ _ moved' holds)⟩
  | error e => exact ⟨fun b done => (by cases done), fun _ failing => by cases failing; exact failed e result⟩

end Moves

namespace TypeHead

/-- The aliases that a head stands for. -/
def aliases : TypeHead → List String
  | typeAlias name => [name]
  | _ => []

/-- The type of a head applied to arguments, where aliases have types. -/
def applied (types : String → Ty) (arguments : List Ty) : TypeHead → Ty
  | type t => t
  | list =>
    match arguments with
    | [element] => .list element
    | _ => .error
  | dict =>
    match arguments with
    | [key, value] => .dict key value
    | _ => .error
  | struct id _ => .struct id arguments
  | typeAlias name => types name

theorem applied_congr {types others : String → Ty} {head : TypeHead} (same : ∀ name ∈ head.aliases, types name = others name)
    (arguments : List Ty) : head.applied types arguments = head.applied others arguments := by
  cases head with
  | typeAlias name => exact same name (by simp [aliases])
  | _ => rfl

def applications (span : Span) (arguments : List Ty) : TypeHead → List PendingBound
  | struct id _ => if arguments.isEmpty then [] else [⟨id, arguments, span⟩]
  | _ => []

theorem apply_gives {known : Lowering → Prop} {aliasOf : String → LowerM Ty} {types : String → Ty} {head : TypeHead}
    {span : Span} {arguments : List Ty} (each : ∀ name ∈ head.aliases, Gives known (aliasOf name) (types name) [])
    (stable : ∀ bound ∈ head.applications span arguments, ∀ s, known s →
      known { s with pending := s.pending ++ [bound] }) :
    Gives known (head.apply aliasOf span arguments) (head.applied types arguments)
      (head.applications span arguments) := by
  cases head with
  | type t => exact .pure t
  | list => rcases arguments with _ | ⟨_, _ | ⟨_, _⟩⟩ <;> exact .pure _
  | dict => rcases arguments with _ | ⟨_, _ | ⟨_, _ | ⟨_, _⟩⟩⟩ <;> exact .pure _
  | struct id arity =>
    rw [applications] at stable ⊢
    rw [apply, applied]
    split
    · exact .pure _
    · rename_i some
      rw [if_neg some] at stable
      exact .bind (.addPending (stable _ (mem_singleton.2 rfl))) (.pure _)
  | typeAlias name => exact each name (by simp [aliases])

end TypeHead

section Meaning

variable (heads : String → Option TypeHead)

mutual

/-- Whether every name stands for something and is applied to as many arguments as that takes. -/
def TypeExpr.Resolves : TypeExpr → Prop
  | ⟨kind, _⟩ => kind.Resolves

def TypeExprKind.Resolves : TypeExprKind → Prop
  | .named name arguments =>
    (∃ head, heads name = some head ∧ arguments.length = head.arity) ∧ TypeExpr.ResolveAll arguments
  | .tuple elements => TypeExpr.ResolveAll elements
  | .repeated element _ => element.Resolves
  | .function parameters returns => TypeExpr.ResolveAll parameters ∧ TypeExpr.ResolveAll returns

def TypeExpr.ResolveAll : List TypeExpr → Prop
  | [] => True
  | type :: rest => type.Resolves ∧ TypeExpr.ResolveAll rest

end

mutual

/-- The aliases that are named anywhere in an expression. -/
def TypeExpr.aliases : TypeExpr → List String
  | ⟨kind, _⟩ => kind.aliases

def TypeExprKind.aliases : TypeExprKind → List String
  | .named name arguments => (heads name).toList.flatMap TypeHead.aliases ++ TypeExpr.aliasesAll arguments
  | .tuple elements => TypeExpr.aliasesAll elements
  | .repeated element _ => element.aliases
  | .function parameters returns => TypeExpr.aliasesAll parameters ++ TypeExpr.aliasesAll returns

def TypeExpr.aliasesAll : List TypeExpr → List String
  | [] => []
  | type :: rest => type.aliases ++ TypeExpr.aliasesAll rest

end

variable (types : String → Ty)

mutual

def TypeExpr.meaning : TypeExpr → Ty
  | ⟨kind, _⟩ => kind.meaning

def TypeExprKind.meaning : TypeExprKind → Ty
  | .named name arguments =>
    match heads name with
    | some head => head.applied types (TypeExpr.meanings arguments)
    | none => .error
  | .tuple elements => .tuple (TypeExpr.meanings elements)
  | .repeated element arity => .tuple (List.replicate arity element.meaning)
  | .function parameters returns => .function (TypeExpr.meanings parameters) (TypeExpr.meanings returns)

def TypeExpr.meanings : List TypeExpr → List Ty
  | [] => []
  | type :: rest => type.meaning :: TypeExpr.meanings rest

end

mutual

/-- The structs that an expression applies to arguments, where aliases have types. -/
def TypeExpr.applications : TypeExpr → List PendingBound
  | ⟨kind, span⟩ => kind.applications span

def TypeExprKind.applications (span : Span) : TypeExprKind → List PendingBound
  | .named name arguments =>
    TypeExpr.applicationsAll arguments ++
      match heads name with
      | some head => head.applications span (TypeExpr.meanings heads types arguments)
      | none => []
  | .tuple elements => TypeExpr.applicationsAll elements
  | .repeated element _ => element.applications
  | .function parameters returns => TypeExpr.applicationsAll parameters ++ TypeExpr.applicationsAll returns

def TypeExpr.applicationsAll : List TypeExpr → List PendingBound
  | [] => []
  | type :: rest => type.applications ++ TypeExpr.applicationsAll rest

end

end Meaning

section Lowering

variable {scope : TypeScope} {known : Lowering → Prop} {types : String → Ty}

mutual

theorem TypeExpr.lower_gives : ∀ type : TypeExpr, type.Resolves scope.head? →
    (∀ name ∈ type.aliases scope.head?, Gives known (scope.aliasOf name) (types name) []) →
    (∀ bound ∈ type.applications scope.head? types, ∀ s, known s → known { s with pending := s.pending ++ [bound] }) →
      Gives known (type.lower scope) (type.meaning scope.head? types) (type.applications scope.head? types)
  | ⟨.named name arguments, span⟩, resolves, each, stable => by
    obtain ⟨⟨head, found, count⟩, inside⟩ := resolves
    simp only [TypeExpr.aliases, TypeExprKind.aliases, found, Option.toList_some, flatMap_singleton,
      forall_mem_append] at each
    simp only [TypeExpr.applications, TypeExprKind.applications, found, forall_mem_append] at stable
    simp only [TypeExpr.lower, TypeExprKind.lower, TypeExpr.meaning, TypeExprKind.meaning, TypeExpr.applications,
      TypeExprKind.applications, found]
    exact (Gives.expectArguments name count).bind
      (.bind (TypeExpr.lowerAll_gives arguments inside each.2 stable.1) (TypeHead.apply_gives each.1 stable.2))
  | ⟨.tuple elements, _⟩, resolves, each, stable => by
    rw [TypeExpr.lower, TypeExprKind.lower, TypeExpr.meaning, TypeExprKind.meaning]
    exact (TypeExpr.lowerAll_gives elements resolves each stable).bind_pure _
  | ⟨.repeated element arity, _⟩, resolves, each, stable => by
    rw [TypeExpr.lower, TypeExprKind.lower, TypeExpr.meaning, TypeExprKind.meaning]
    exact (TypeExpr.lower_gives element resolves each stable).bind_pure _
  | ⟨.function parameters returns, _⟩, resolves, each, stable => by
    simp only [TypeExpr.aliases, TypeExprKind.aliases, forall_mem_append] at each
    simp only [TypeExpr.applications, TypeExprKind.applications, forall_mem_append] at stable
    rw [TypeExpr.lower, TypeExprKind.lower, TypeExpr.meaning, TypeExprKind.meaning, TypeExpr.applications,
      TypeExprKind.applications]
    exact .bind (TypeExpr.lowerAll_gives parameters resolves.1 each.1 stable.1)
      ((TypeExpr.lowerAll_gives returns resolves.2 each.2 stable.2).bind_pure _)

theorem TypeExpr.lowerAll_gives : ∀ written : List TypeExpr, TypeExpr.ResolveAll scope.head? written →
    (∀ name ∈ TypeExpr.aliasesAll scope.head? written, Gives known (scope.aliasOf name) (types name) []) →
    (∀ bound ∈ TypeExpr.applicationsAll scope.head? types written, ∀ s, known s →
      known { s with pending := s.pending ++ [bound] }) →
      Gives known (TypeExpr.lowerAll scope written) (TypeExpr.meanings scope.head? types written)
        (TypeExpr.applicationsAll scope.head? types written)
  | [], _, _, _ => by
    rw [TypeExpr.lowerAll, TypeExpr.meanings]
    exact .pure []
  | type :: rest, resolves, each, stable => by
    simp only [TypeExpr.aliasesAll, forall_mem_append] at each
    simp only [TypeExpr.applicationsAll, forall_mem_append] at stable
    rw [TypeExpr.ResolveAll] at resolves
    rw [TypeExpr.lowerAll, TypeExpr.meanings, TypeExpr.applicationsAll]
    exact .bind (TypeExpr.lower_gives type resolves.1 each.1 stable.1)
      ((TypeExpr.lowerAll_gives rest resolves.2 each.2 stable.2).bind_pure _)

end

/-- What is known of an answer to an expression: all names stand for something, all its aliases were called, and it is
the meaning of the expression where aliases have the types that they were called with. -/
structure TypeExpr.Answered (heads : String → Option TypeHead) (called : String → Ty → Prop) (type : TypeExpr) (t : Ty) :
    Prop where
  resolves : type.Resolves heads
  calls : ∀ name ∈ type.aliases heads, ∃ t, called name t
  meaning : ∀ types, (∀ name ∈ type.aliases heads, ∀ t, called name t → t = types name) → t = type.meaning heads types

structure TypeExpr.AnsweredAll (heads : String → Option TypeHead) (called : String → Ty → Prop) (written : List TypeExpr)
    (ts : List Ty) : Prop where
  resolves : TypeExpr.ResolveAll heads written
  calls : ∀ name ∈ TypeExpr.aliasesAll heads written, ∃ t, called name t
  meaning : ∀ types, (∀ name ∈ TypeExpr.aliasesAll heads written, ∀ t, called name t → t = types name) →
    ts = TypeExpr.meanings heads types written

section Moving

variable {heads : String → Option TypeHead} {called other : String → Ty → Prop}

theorem TypeExpr.Answered.mono {type : TypeExpr} {t : Ty} (more : ∀ name t, called name t → other name t)
    (h : type.Answered heads called t) : type.Answered heads other t where
  resolves := h.resolves
  calls name mem := (h.calls name mem).imp (more name)
  meaning types same := h.meaning types fun name mem t isCalled => same name mem t (more name t isCalled)

theorem TypeExpr.AnsweredAll.mono {written : List TypeExpr} {ts : List Ty} (more : ∀ name t, called name t → other name t)
    (h : TypeExpr.AnsweredAll heads called written ts) : TypeExpr.AnsweredAll heads other written ts where
  resolves := h.resolves
  calls name mem := (h.calls name mem).imp (more name)
  meaning types same := h.meaning types fun name mem t isCalled => same name mem t (more name t isCalled)

end Moving

section Moving

variable {known : Lowering → Prop} {step : Lowering → Lowering → Prop}
  {fault : Lowering → Lowering → ResolveError → Prop} {called : Lowering → String → Ty → Prop}
  (laws : Moves.Laws known step fault)
  (stable : ∀ now later, step now later → ∀ name t, called now name t → called later name t)

include laws

theorem TypeHead.apply_moves {aliasOf : String → LowerM Ty} {head : TypeHead}
    (each : ∀ name ∈ head.aliases, Moves known step fault (aliasOf name) fun now => called now name) (span : Span)
    (arguments : List Ty) : Moves known step fault (head.apply aliasOf span arguments) fun now t =>
      (∀ name ∈ head.aliases, ∃ t, called now name t) ∧
        ∀ types, (∀ name ∈ head.aliases, ∀ t, called now name t → t = types name) → t = head.applied types arguments := by
  have plain : ∀ {t : Ty}, head.aliases = [] → (∀ types, t = head.applied types arguments) →
      Moves known step fault (pure t) fun now t => (∀ name ∈ head.aliases, ∃ t, called now name t) ∧
        ∀ types, (∀ name ∈ head.aliases, ∀ t, called now name t → t = types name) → t = head.applied types arguments := by
    intro t none same
    refine .pure laws fun now _ => ⟨fun name mem => ?_, fun types _ => same types⟩
    rw [none] at mem
    cases mem
  cases head with
  | type t => exact plain rfl fun _ => rfl
  | list => rcases arguments with _ | ⟨_, _ | ⟨_, _⟩⟩ <;> exact plain rfl fun _ => rfl
  | dict => rcases arguments with _ | ⟨_, _ | ⟨_, _ | ⟨_, _⟩⟩⟩ <;> exact plain rfl fun _ => rfl
  | struct id arity =>
    rw [apply]
    split
    · exact plain rfl fun _ => rfl
    · refine .bind laws (.addPending laws _) (fun _ _ _ _ h => h) fun _ => ?_
      exact .pure laws fun now _ _ => ⟨fun _ mem => (by cases mem), fun _ _ => rfl⟩
  | typeAlias name =>
    intro s inv
    obtain ⟨answered, failed⟩ := each name (by simp [aliases]) s inv
    refine ⟨fun t done => ?_, failed⟩
    obtain ⟨kept, moved, isCalled⟩ := answered t done
    refine ⟨kept, moved, fun other mem => ⟨t, ?_⟩, fun types same => same name (by simp [aliases]) t isCalled⟩
    rw [mem_singleton.1 mem]
    exact isCalled

include stable

mutual

/-- An expression is given a meaning only where all its names stand for something and all its aliases can be had; it
is then the meaning of the expression for what they stand for. -/
theorem TypeExpr.lower_moves : ∀ type : TypeExpr, (∀ name ∈ type.aliases scope.head?,
    Moves known step fault (scope.aliasOf name) fun now => called now name) →
      Moves known step fault (type.lower scope) fun now => type.Answered scope.head? (called now)
  | ⟨.named name arguments, span⟩, each => by
    rw [TypeExpr.lower, TypeExprKind.lower]
    cases found : scope.head? name with
    | none => exact .throw laws (by simp)
    | some head =>
      simp only [TypeExpr.aliases, TypeExprKind.aliases, found, Option.toList_some, flatMap_singleton,
        forall_mem_append] at each
      refine .bind laws (.expectArguments laws) (fun _ _ _ _ h => h) fun _ => ?_
      refine .bind laws (TypeExpr.lowerAll_moves arguments each.2) (fun _ _ _ moved => .mono (stable _ _ moved))
        fun ts => ?_
      intro s inv
      obtain ⟨answered, failed⟩ := TypeHead.apply_moves laws each.1 span ts s inv
      refine ⟨fun t done => ?_, failed⟩
      obtain ⟨kept, moved, calls, applied⟩ := answered t done
      refine ⟨kept, moved, fun inside count => ⟨⟨⟨head, found, count⟩, inside.resolves⟩, ?_, fun types same => ?_⟩⟩
      · simp only [TypeExpr.aliases, TypeExprKind.aliases, found, Option.toList_some, flatMap_singleton]
        exact forall_mem_append.2 ⟨calls, inside.calls⟩
      · simp only [TypeExpr.aliases, TypeExprKind.aliases, found, Option.toList_some, flatMap_singleton,
          forall_mem_append] at same
        simp only [TypeExpr.meaning, TypeExprKind.meaning, found]
        rw [applied types same.1, inside.meaning types same.2]
  | ⟨.tuple elements, span⟩, each => by
    rw [TypeExpr.lower, TypeExprKind.lower]
    refine .bind laws (TypeExpr.lowerAll_moves elements each) (fun _ _ _ moved => .mono (stable _ _ moved)) fun ts => ?_
    refine .pure laws fun now _ inside => ⟨inside.resolves, inside.calls, fun types same => ?_⟩
    rw [TypeExpr.meaning, TypeExprKind.meaning, inside.meaning types same]
  | ⟨.repeated element arity, span⟩, each => by
    rw [TypeExpr.lower, TypeExprKind.lower]
    refine .bind laws (TypeExpr.lower_moves element each) (fun _ _ _ moved => .mono (stable _ _ moved)) fun t => ?_
    refine .pure laws fun now _ inside => ⟨inside.resolves, inside.calls, fun types same => ?_⟩
    rw [TypeExpr.meaning, TypeExprKind.meaning, inside.meaning types same]
  | ⟨.function parameters returns, span⟩, each => by
    simp only [TypeExpr.aliases, TypeExprKind.aliases, forall_mem_append] at each
    rw [TypeExpr.lower, TypeExprKind.lower]
    refine .bind laws (TypeExpr.lowerAll_moves parameters each.1) (fun _ _ _ moved => .mono (stable _ _ moved))
      fun ts => ?_
    refine .bind laws (TypeExpr.lowerAll_moves returns each.2) (fun _ _ _ moved => .mono (stable _ _ moved))
      fun us => ?_
    refine .pure laws fun now _ right left => ⟨⟨left.resolves, right.resolves⟩, ?_, fun types same => ?_⟩
    · simp only [TypeExpr.aliases, TypeExprKind.aliases]
      exact forall_mem_append.2 ⟨left.calls, right.calls⟩
    · simp only [TypeExpr.aliases, TypeExprKind.aliases, forall_mem_append] at same
      rw [TypeExpr.meaning, TypeExprKind.meaning, left.meaning types same.1, right.meaning types same.2]

theorem TypeExpr.lowerAll_moves : ∀ written : List TypeExpr, (∀ name ∈ TypeExpr.aliasesAll scope.head? written,
    Moves known step fault (scope.aliasOf name) fun now => called now name) →
      Moves known step fault (TypeExpr.lowerAll scope written) fun now =>
        TypeExpr.AnsweredAll scope.head? (called now) written
  | [], _ => by
    rw [TypeExpr.lowerAll]
    exact .pure laws fun _ _ => ⟨trivial, fun _ mem => (by cases mem), fun _ _ => by rw [TypeExpr.meanings]⟩
  | type :: rest, each => by
    simp only [TypeExpr.aliasesAll, forall_mem_append] at each
    rw [TypeExpr.lowerAll]
    refine .bind laws (TypeExpr.lower_moves type each.1) (fun _ _ _ moved => .mono (stable _ _ moved)) fun t => ?_
    refine .bind laws (TypeExpr.lowerAll_moves rest each.2) (fun _ _ _ moved => .mono (stable _ _ moved)) fun ts => ?_
    refine .pure laws fun now _ others first => ⟨⟨first.resolves, others.resolves⟩, ?_, fun types same => ?_⟩
    · rw [TypeExpr.aliasesAll]
      exact forall_mem_append.2 ⟨first.calls, others.calls⟩
    · rw [TypeExpr.aliasesAll, forall_mem_append] at same
      rw [TypeExpr.meanings, first.meaning types same.1, others.meaning types same.2]

end

end Moving

theorem TypeExpr.resolves_of_lower {scope : TypeScope} {type : TypeExpr} {s : Lowering} {t : Ty}
    (done : ((type.lower scope).run.run s).1 = .ok t) : type.Resolves scope.head? := by
  have moves : Moves (fun _ => True) (fun _ _ => True) (fun _ _ _ => True) (type.lower scope) fun _ =>
      type.Answered scope.head? fun _ _ => True :=
    type.lower_moves (by constructor <;> simp) (fun _ _ _ _ _ _ => trivial)
      fun name _ s _ => ⟨fun _ _ => ⟨trivial, trivial, trivial⟩, fun _ _ => trivial⟩
  exact ((moves s trivial).1 t done).2.2.resolves

theorem TypeExpr.lower_eq_ok {type : TypeExpr}
    (each : ∀ name ∈ type.aliases scope.head?, Gives (fun _ => True) (scope.aliasOf name) (types name) [])
    (s : Lowering) (t : Ty) : ((type.lower scope).run.run s).1 = .ok t ↔
      type.Resolves scope.head? ∧ type.meaning scope.head? types = t := by
  constructor
  · intro done
    have resolves := TypeExpr.resolves_of_lower done
    obtain ⟨later, ran, _⟩ := TypeExpr.lower_gives type resolves each (fun _ _ _ _ => trivial) s trivial
    rw [ran] at done
    cases done
    exact ⟨resolves, rfl⟩
  · rintro ⟨resolves, rfl⟩
    obtain ⟨later, ran, _⟩ := TypeExpr.lower_gives type resolves each (fun _ _ _ _ => trivial) s trivial
    rw [ran]

end Lowering

section Congruence

variable {heads : String → Option TypeHead} {types others : String → Ty}

mutual

theorem TypeExpr.meaning_congr : ∀ type : TypeExpr, (∀ name ∈ type.aliases heads, types name = others name) →
    type.meaning heads types = type.meaning heads others
  | ⟨.named name arguments, _⟩, same => by
    simp only [TypeExpr.aliases, TypeExprKind.aliases, forall_mem_append] at same
    simp only [TypeExpr.meaning, TypeExprKind.meaning, TypeExpr.meanings_congr arguments same.2]
    cases found : heads name with
    | none => rfl
    | some head => exact TypeHead.applied_congr (by simpa [found] using same.1) _
  | ⟨.tuple elements, _⟩, same => by
    simp only [TypeExpr.meaning, TypeExprKind.meaning, TypeExpr.meanings_congr elements same]
  | ⟨.repeated element _, _⟩, same => by
    simp only [TypeExpr.meaning, TypeExprKind.meaning, TypeExpr.meaning_congr element same]
  | ⟨.function parameters returns, _⟩, same => by
    simp only [TypeExpr.aliases, TypeExprKind.aliases, forall_mem_append] at same
    simp only [TypeExpr.meaning, TypeExprKind.meaning, TypeExpr.meanings_congr parameters same.1,
      TypeExpr.meanings_congr returns same.2]

theorem TypeExpr.meanings_congr : ∀ written : List TypeExpr,
    (∀ name ∈ TypeExpr.aliasesAll heads written, types name = others name) →
      TypeExpr.meanings heads types written = TypeExpr.meanings heads others written
  | [], _ => by
    rw [TypeExpr.meanings, TypeExpr.meanings]
  | type :: rest, same => by
    simp only [TypeExpr.aliasesAll, forall_mem_append] at same
    rw [TypeExpr.meanings, TypeExpr.meanings, TypeExpr.meaning_congr type same.1, TypeExpr.meanings_congr rest same.2]

end

end Congruence

section Named

variable {heads : String → Option TypeHead} {member : String}

mutual

theorem TypeExpr.head_of_alias : ∀ type : TypeExpr, member ∈ type.aliases heads →
    ∃ name, heads name = some (.typeAlias member)
  | ⟨.named name arguments, _⟩, mem => by
    rw [TypeExpr.aliases, TypeExprKind.aliases, mem_append] at mem
    rcases mem with mem | mem
    · cases found : heads name with
      | none => simp [found] at mem
      | some head =>
        cases head with
        | typeAlias other =>
          have same : member = other := by simpa [found, TypeHead.aliases] using mem
          exact ⟨name, same ▸ found⟩
        | _ => simp [found, TypeHead.aliases] at mem
    · exact TypeExpr.head_of_aliasAll arguments mem
  | ⟨.tuple elements, _⟩, mem => TypeExpr.head_of_aliasAll elements mem
  | ⟨.repeated element _, _⟩, mem => TypeExpr.head_of_alias element mem
  | ⟨.function parameters returns, _⟩, mem => by
    rw [TypeExpr.aliases, TypeExprKind.aliases, mem_append] at mem
    exact mem.elim (TypeExpr.head_of_aliasAll parameters) (TypeExpr.head_of_aliasAll returns)

theorem TypeExpr.head_of_aliasAll : ∀ written : List TypeExpr, member ∈ TypeExpr.aliasesAll heads written →
    ∃ name, heads name = some (.typeAlias member)
  | [], mem => by simp [TypeExpr.aliasesAll] at mem
  | type :: rest, mem => by
    rw [TypeExpr.aliasesAll, mem_append] at mem
    exact mem.elim (TypeExpr.head_of_alias type) (TypeExpr.head_of_aliasAll rest)

end

end Named

end SemanticChecker
