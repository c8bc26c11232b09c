import Mathlib.Logic.Basic
import Mathlib.Tactic.ByContra
import SemanticChecker.Check.Body

/-! Where locals are read. A name that is in scope as a local is read wherever it stands, except as the place that an
assignment writes to. The type that a name is given in a typed body tells which local it is taken for. -/
namespace SemanticChecker

abbrev LocalRead := String × Span

def readOf (locals : List String) (name : String) (span : Span) : List LocalRead :=
  if name ∈ locals then [(name, span)] else []

theorem readOf_of_mem {locals : List String} {name : String} (h : name ∈ locals) (span : Span) :
    readOf locals name span = [(name, span)] :=
  if_pos h

theorem readOf_of_not_mem {locals : List String} {name : String} (h : name ∉ locals) (span : Span) :
    readOf locals name span = [] :=
  if_neg h

/-- The locals in scope after a statement: a name is in scope after its declaration, not in it. -/
def Statement.localsAfter (locals : List String) : Statement → List String
  | .bind name _ _ _ => name :: locals
  | _ => locals

mutual

def Expr.localReads (locals : List String) : Expr → List LocalRead
  | ⟨.literal _, _⟩ => []
  | ⟨.tuple items, _⟩ => Expr.readsOfEach locals items
  | ⟨.list items, _⟩ => Expr.readsOfEach locals items
  | ⟨.dict entries, _⟩ => Expr.readsOfEntries locals entries
  | ⟨.ident name, span⟩ => readOf locals name span
  | ⟨.assign ⟨.ident _, _⟩ value, _⟩ => value.localReads locals
  | ⟨.assign target value, _⟩ => target.localReads locals ++ value.localReads locals
  | ⟨.call callee _ arguments, _⟩ => callee.localReads locals ++ Expr.readsOfEach locals arguments
  | ⟨.field object _, _⟩ => object.localReads locals
  | ⟨.binary _ left right, _⟩ => left.localReads locals ++ right.localReads locals
  | ⟨.cond condition thenBranch elseBranch, _⟩ =>
    condition.localReads locals ++ (Statement.readsOfEach locals thenBranch ++ Statement.readsOfBranch locals elseBranch)

def Expr.readsOfEach (locals : List String) : List Expr → List LocalRead
  | [] => []
  | item :: rest => item.localReads locals ++ Expr.readsOfEach locals rest

def Expr.readsOfEntries (locals : List String) : List (Expr × Expr) → List LocalRead
  | [] => []
  | (key, value) :: rest => key.localReads locals ++ (value.localReads locals ++ Expr.readsOfEntries locals rest)

def Expr.readsOfOption (locals : List String) : Option Expr → List LocalRead
  | none => []
  | some value => value.localReads locals

def Statement.localReads (locals : List String) : Statement → List LocalRead
  | .bind _ _ initializer _ => Expr.readsOfOption locals initializer
  | .expression value => value.localReads locals
  | .ret value _ => Expr.readsOfOption locals value

def Statement.readsOfEach (locals : List String) : List Statement → List LocalRead
  | [] => []
  | statement :: rest => statement.localReads locals ++ Statement.readsOfEach (statement.localsAfter locals) rest

def Statement.readsOfBranch (locals : List String) : Option (List Statement) → List LocalRead
  | none => []
  | some branch => Statement.readsOfEach locals branch

end

structure NameUse where
  name : String
  span : Span
  type : Ty
  /-- The type of the local of that name, if one is in scope. -/
  found : Option Ty
  /-- Whether it is the place that an assignment writes to. -/
  written : Bool

namespace NameUse

def read? (use : NameUse) : Option LocalRead :=
  if use.found.isSome && !use.written then some (use.name, use.span) else none

/-- Whether it has the type of the local that is in scope, or none if no local is. -/
def Resolved (use : NameUse) : Prop :=
  use.type = use.found.getD .error

end NameUse

def TypedStatement.scopeAfter (env : Env) : TypedStatement → Env
  | .bind name t _ _ => (name, t) :: env
  | _ => env

mutual

/-- The names that stand in a typed expression, in the scope of some locals. -/
def TypedExpr.names (env : Env) : TypedExpr → List NameUse
  | ⟨kind, t, span⟩ => kind.names env t span

def TypedExprKind.names (env : Env) (t : Ty) (span : Span) : TypedExprKind → List NameUse
  | .literal _ => []
  | .enumVariant _ _ _ => []
  | .tuple items => TypedExpr.namesOfEach env items
  | .list items => TypedExpr.namesOfEach env items
  | .dict entries => TypedExpr.namesOfEntries env entries
  | .ident name => [⟨name, span, t, env.lookup name, false⟩]
  | .functionRef _ => []
  | .assign ⟨.ident name, placeType, placeSpan⟩ value =>
    ⟨name, placeSpan, placeType, env.lookup name, true⟩ :: value.names env
  | .assign target value => target.names env ++ value.names env
  | .call callee _ arguments => callee.names env ++ TypedExpr.namesOfEach env arguments
  | .field object _ => object.names env
  | .tupleSlot tuple _ => tuple.names env
  | .binary _ left right => left.names env ++ right.names env
  | .cond condition thenBranch elseBranch =>
    condition.names env ++ (thenBranch.names env ++ TypedBlock.namesOfOption env elseBranch)

def Callee.names (env : Env) : Callee → List NameUse
  | .function _ => []
  | .method receiver _ _ => receiver.names env
  | .builtin receiver _ => receiver.names env
  | .boundMethod receiver _ => receiver.names env
  | .construct _ => []
  | .value value => value.names env

def TypedExpr.namesOfEach (env : Env) : List TypedExpr → List NameUse
  | [] => []
  | item :: rest => item.names env ++ TypedExpr.namesOfEach env rest

def TypedExpr.namesOfEntries (env : Env) : List (TypedExpr × TypedExpr) → List NameUse
  | [] => []
  | (key, value) :: rest => key.names env ++ (value.names env ++ TypedExpr.namesOfEntries env rest)

def TypedExpr.namesOfOption (env : Env) : Option TypedExpr → List NameUse
  | none => []
  | some value => value.names env

def TypedStatement.names (env : Env) : TypedStatement → List NameUse
  | .bind _ _ initializer _ => TypedExpr.namesOfOption env initializer
  | .expression value => value.names env
  | .ret value _ => TypedExpr.namesOfOption env value

def TypedStatement.namesOfEach (env : Env) : List TypedStatement → List NameUse
  | [] => []
  | statement :: rest => statement.names env ++ TypedStatement.namesOfEach (statement.scopeAfter env) rest

def TypedBlock.names (env : Env) : TypedBlock → List NameUse
  | ⟨statements, _, _⟩ => TypedStatement.namesOfEach env statements

def TypedBlock.namesOfOption (env : Env) : Option TypedBlock → List NameUse
  | none => []
  | some block => block.names env

end

def Expr.targetReads (locals : List String) : Expr → List LocalRead
  | ⟨.ident _, _⟩ => []
  | target => target.localReads locals

def TypedExpr.targetNames (env : Env) : TypedExpr → List NameUse
  | ⟨.ident name, t, span⟩ => [⟨name, span, t, env.lookup name, true⟩]
  | target => target.names env

theorem Expr.localReads_assign (locals : List String) (target value : Expr) (span : Span) :
    Expr.localReads locals ⟨.assign target value, span⟩ = target.targetReads locals ++ value.localReads locals := by
  obtain ⟨kind, targetSpan⟩ := target
  cases kind <;> rfl

theorem TypedExpr.names_assign (env : Env) (target value : TypedExpr) (t : Ty) (span : Span) :
    TypedExpr.names env ⟨.assign target value, t, span⟩ = target.targetNames env ++ value.names env := by
  obtain ⟨kind, type, targetSpan⟩ := target
  cases kind <;> rfl

/-- Names that make the given reads, each with the type of the local that it names. -/
structure ReadAs (uses : List NameUse) (reads : List LocalRead) : Prop where
  reads : uses.filterMap NameUse.read? = reads
  resolved : ∀ use ∈ uses, use.Resolved

namespace ReadAs

theorem nil : ReadAs [] [] :=
  ⟨rfl, nofun⟩

theorem append {uses others : List NameUse} {reads more : List LocalRead} (first : ReadAs uses reads)
    (second : ReadAs others more) : ReadAs (uses ++ others) (reads ++ more) :=
  ⟨List.filterMap_append.trans (congrArg₂ (· ++ ·) first.reads second.reads),
    List.forall_mem_append.2 ⟨first.resolved, second.resolved⟩⟩

theorem global {locals : List String} {name : String} (missing : name ∉ locals) (span : Span) :
    ReadAs [] (readOf locals name span) := by
  rw [readOf_of_not_mem missing]
  exact nil

end ReadAs

def Env.locals (env : Env) : List String :=
  env.map (·.1)

theorem Env.lookup_eq_none {env : Env} {name : String} : env.lookup name = none ↔ name ∉ env.locals := by
  rw [List.lookup_eq_none_iff, locals, List.mem_map]
  grind

theorem Env.mem_locals {env : Env} {name : String} {t : Ty} (h : env.lookup name = some t) : name ∈ env.locals := by
  by_contra missing
  rw [lookup_eq_none.2 missing] at h
  cases h

theorem ReadAs.ident (env : Env) {name : String} {t : Ty} (resolved : t = (env.lookup name).getD .error)
    (span : Span) : ReadAs (TypedExpr.names env ⟨.ident name, t, span⟩) (readOf env.locals name span) ∧
      ReadAs (TypedExpr.targetNames env ⟨.ident name, t, span⟩) [] := by
  have read : [(⟨name, span, t, env.lookup name, false⟩ : NameUse)].filterMap NameUse.read? =
      readOf env.locals name span := by
    by_cases isLocal : name ∈ env.locals
    · have found := Option.ne_none_iff_isSome.1 (mt Env.lookup_eq_none.1 (not_not_intro isLocal))
      simp [NameUse.read?, found, readOf_of_mem isLocal]
    · have missing := Env.lookup_eq_none.2 isLocal
      simp [NameUse.read?, missing, readOf_of_not_mem isLocal]
  have written : [(⟨name, span, t, env.lookup name, true⟩ : NameUse)].filterMap NameUse.read? = [] := by
    simp [NameUse.read?]
  exact ⟨⟨read, List.forall_mem_singleton.2 resolved⟩, ⟨written, List.forall_mem_singleton.2 resolved⟩⟩

end SemanticChecker
