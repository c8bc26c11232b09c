import SemanticChecker.Check.Body
import SemanticChecker.Proofs.Soundness.Fits
import SemanticChecker.Typed.Unresolved

/-! Every type that is stored in a typed tree, and what it takes that all of them fit. -/
namespace SemanticChecker

open List

mutual

/-- Every type that an expression stores, with those of all inside it. -/
def TypedExpr.stored : TypedExpr → List Ty
  | ⟨kind, type, _⟩ => type :: kind.stored

def TypedExprKind.stored : TypedExprKind → List Ty
  | .literal _ => []
  | .enumVariant _ _ _ => []
  | .tuple items => TypedExpr.storedInEach items
  | .list items => TypedExpr.storedInEach items
  | .dict entries => TypedExpr.storedInEntries entries
  | .ident _ => []
  | .functionRef _ => []
  | .assign target value => target.stored ++ value.stored
  | .call callee typeArguments arguments => callee.stored ++ typeArguments ++ TypedExpr.storedInEach arguments
  | .field object _ => object.stored
  | .tupleSlot tuple _ => tuple.stored
  | .binary _ left right => left.stored ++ right.stored
  | .cond condition thenBranch elseBranch =>
    condition.stored ++ thenBranch.stored ++ TypedBlock.storedInOption elseBranch

def Callee.stored : Callee → List Ty
  | .function _ => []
  | .method receiver _ _ => receiver.stored
  | .builtin receiver _ => receiver.stored
  | .boundMethod receiver _ => receiver.stored
  | .construct _ => []
  | .value value => value.stored

def TypedExpr.storedInEach : List TypedExpr → List Ty
  | [] => []
  | item :: rest => item.stored ++ TypedExpr.storedInEach rest

def TypedExpr.storedInEntries : List (TypedExpr × TypedExpr) → List Ty
  | [] => []
  | (key, value) :: rest => key.stored ++ value.stored ++ TypedExpr.storedInEntries rest

def TypedExpr.storedInOption : Option TypedExpr → List Ty
  | none => []
  | some value => value.stored

def TypedStatement.stored : TypedStatement → List Ty
  | .bind _ type initializer _ => type :: TypedExpr.storedInOption initializer
  | .expression value => value.stored
  | .ret value _ => TypedExpr.storedInOption value

def TypedStatement.storedInEach : List TypedStatement → List Ty
  | [] => []
  | statement :: rest => statement.stored ++ TypedStatement.storedInEach rest

def TypedBlock.stored : TypedBlock → List Ty
  | ⟨statements, type, _⟩ => type :: TypedStatement.storedInEach statements

def TypedBlock.storedInOption : Option TypedBlock → List Ty
  | none => []
  | some block => block.stored

end

/-- Every type that is stored in a function. -/
def TypedFunction.stored (function : TypedFunction) : List Ty :=
  function.typeParameters ++ function.params.map (·.2) ++ function.returns ++ TypedBlock.storedInOption function.body

def TypedField.stored (field : TypedField) : List Ty :=
  field.type :: TypedExpr.storedInOption field.default

/-- Every type that is stored in a struct, with the type parameters that are in scope where it stands. -/
def TypedStruct.stored (struct : TypedStruct) : List (List Ty × Ty) :=
  (struct.type :: struct.typeParameters ++ struct.fields.flatMap TypedField.stored).map (struct.typeParameters, ·) ++
    struct.methods.flatMap fun method => method.stored.map (struct.typeParameters ++ method.typeParameters, ·)

/-- Every type that is stored in a program, with the type parameters that are in scope where it stands. -/
def TypedProgram.stored (program : TypedProgram) : List (List Ty × Ty) :=
  program.structs.flatMap TypedStruct.stored ++
    program.functions.flatMap fun function => function.stored.map (function.typeParameters, ·)

theorem Ty.fitAll_append {place : Place} {left right : List Ty} :
    FitAll place (left ++ right) ↔ FitAll place left ∧ FitAll place right := by
  simp only [fitAll_iff, forall_mem_append]

section Stored

variable {place : Place}

theorem TypedExpr.type_fits {e : TypedExpr} (h : Ty.FitAll place e.stored) : e.type.Fits place := by
  cases e
  exact h.1

theorem TypedBlock.type_fits {block : TypedBlock} (h : Ty.FitAll place block.stored) : block.type.Fits place := by
  cases block
  exact h.1

theorem TypedExpr.fitAll_storedInEach : ∀ {items : List TypedExpr},
    Ty.FitAll place (storedInEach items) ↔ ∀ item ∈ items, Ty.FitAll place item.stored
  | [] => by simp [storedInEach, Ty.FitAll]
  | item :: rest => by rw [storedInEach, Ty.fitAll_append, fitAll_storedInEach, forall_mem_cons]

theorem TypedExpr.fitAll_storedInEntries : ∀ {entries : List (TypedExpr × TypedExpr)},
    Ty.FitAll place (storedInEntries entries) ↔
      ∀ entry ∈ entries, Ty.FitAll place entry.1.stored ∧ Ty.FitAll place entry.2.stored
  | [] => by simp [storedInEntries, Ty.FitAll]
  | (key, value) :: rest => by
    rw [storedInEntries, Ty.fitAll_append, Ty.fitAll_append, fitAll_storedInEntries, forall_mem_cons]

theorem TypedExpr.fitAll_storedInOption {value : Option TypedExpr} :
    Ty.FitAll place (storedInOption value) ↔ ∀ e ∈ value, Ty.FitAll place e.stored := by
  cases value <;> simp [storedInOption, Ty.FitAll]

theorem TypedStatement.fitAll_storedInEach : ∀ {items : List TypedStatement},
    Ty.FitAll place (storedInEach items) ↔ ∀ item ∈ items, Ty.FitAll place item.stored
  | [] => by simp [storedInEach, Ty.FitAll]
  | item :: rest => by rw [storedInEach, Ty.fitAll_append, fitAll_storedInEach, forall_mem_cons]

theorem TypedBlock.ofStatements_fit (mode : Mode) {statements : List TypedStatement}
    (h : Ty.FitAll place (TypedStatement.storedInEach statements)) :
    Ty.FitAll place (TypedBlock.ofStatements mode statements).stored := by
  refine ⟨?_, h⟩
  split
  · rename_i value last
    exact TypedExpr.type_fits (TypedStatement.fitAll_storedInEach.1 h _ (mem_of_getLast? last))
  · trivial

end Stored

mutual

theorem TypedExpr.types_sublist : ∀ e : TypedExpr, (e.types.map Prod.fst).Sublist e.stored
  | ⟨kind, type, span⟩ => (kind.types_sublist span).cons_cons type

theorem TypedExprKind.types_sublist (span : Span) : ∀ kind : TypedExprKind,
    ((kind.types span).map Prod.fst).Sublist kind.stored
  | .literal _ | .enumVariant _ _ _ | .ident _ | .functionRef _ => .slnil
  | .tuple items | .list items => TypedExpr.typesOfEach_sublist items
  | .dict entries => TypedExpr.typesOfEntries_sublist entries
  | .assign left right | .binary _ left right => by
    rw [TypedExprKind.types, map_append]
    exact left.types_sublist.append right.types_sublist
  | .call callee typeArguments arguments => by
    rw [TypedExprKind.types, map_append, map_append, map_map]
    refine (callee.types_sublist.append ?_).append (TypedExpr.typesOfEach_sublist arguments)
    simp [Function.comp_def]
  | .field object _ | .tupleSlot object _ => object.types_sublist
  | .cond condition thenBranch elseBranch => by
    rw [TypedExprKind.types, map_append, map_append]
    exact (condition.types_sublist.append thenBranch.types_sublist).append (TypedBlock.typesOfOption_sublist elseBranch)

theorem Callee.types_sublist : ∀ callee : Callee, (callee.types.map Prod.fst).Sublist callee.stored
  | .function _ | .construct _ => .slnil
  | .method value _ _ | .builtin value _ | .boundMethod value _ | .value value => value.types_sublist

theorem TypedExpr.typesOfEach_sublist : ∀ items : List TypedExpr,
    ((TypedExpr.typesOfEach items).map Prod.fst).Sublist (TypedExpr.storedInEach items)
  | [] => .slnil
  | item :: rest => by
    rw [TypedExpr.typesOfEach, map_append]
    exact item.types_sublist.append (TypedExpr.typesOfEach_sublist rest)

theorem TypedExpr.typesOfEntries_sublist : ∀ entries : List (TypedExpr × TypedExpr),
    ((TypedExpr.typesOfEntries entries).map Prod.fst).Sublist (TypedExpr.storedInEntries entries)
  | [] => .slnil
  | (key, value) :: rest => by
    rw [TypedExpr.typesOfEntries, map_append, map_append]
    exact (key.types_sublist.append value.types_sublist).append (TypedExpr.typesOfEntries_sublist rest)

theorem TypedExpr.typesOfOption_sublist : ∀ value : Option TypedExpr,
    ((TypedExpr.typesOfOption value).map Prod.fst).Sublist (TypedExpr.storedInOption value)
  | none => .slnil
  | some value => value.types_sublist

theorem TypedStatement.types_sublist : ∀ statement : TypedStatement,
    (statement.types.map Prod.fst).Sublist statement.stored
  | .bind _ type initializer _ => (TypedExpr.typesOfOption_sublist initializer).cons_cons type
  | .expression value => value.types_sublist
  | .ret value _ => TypedExpr.typesOfOption_sublist value

theorem TypedStatement.typesOfEach_sublist : ∀ statements : List TypedStatement,
    ((TypedStatement.typesOfEach statements).map Prod.fst).Sublist (TypedStatement.storedInEach statements)
  | [] => .slnil
  | statement :: rest => by
    rw [TypedStatement.typesOfEach, map_append]
    exact statement.types_sublist.append (TypedStatement.typesOfEach_sublist rest)

theorem TypedBlock.types_sublist : ∀ block : TypedBlock, (block.types.map Prod.fst).Sublist block.stored
  | ⟨statements, type, _⟩ => (TypedStatement.typesOfEach_sublist statements).cons type

theorem TypedBlock.typesOfOption_sublist : ∀ block : Option TypedBlock,
    ((TypedBlock.typesOfOption block).map Prod.fst).Sublist (TypedBlock.storedInOption block)
  | none => .slnil
  | some block => block.types_sublist

end

end SemanticChecker
