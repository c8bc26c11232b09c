import SemanticChecker.Proofs.CallTarget
import SemanticChecker.Proofs.Composition.Regular
import SemanticChecker.Proofs.LocalReads.Names
import SemanticChecker.Typed.Unresolved

/-! The typed tree beside the source tree. Every node of a typed body stands for one node of the source, at the
same place and with the same parts in the same order, and every name that is no local is resolved to what it
stands for. Only a part whose type is not known may differ; but also there the same locals are read at the same
places. -/
namespace SemanticChecker

mutual

/-- Whether every way through an expression returns: only a conditional has ways that do. -/
def Expr.diverges : Expr → Bool
  | ⟨.cond _ thenBranch (some elseBranch), _⟩ => Block.diverges thenBranch && Block.diverges elseBranch
  | _ => false

def Block.diverges : List Statement → Bool
  | [] => false
  | statement :: rest => statement.diverges || Block.diverges rest

def Statement.diverges : Statement → Bool
  | .ret _ _ => true
  | .expression value => value.diverges
  | .bind .. => false

end

section Relation

variable (symbol? : String → Option Symbol)

mutual

/-- A typed expression and the expression that it types, where some names are local and `symbol?` tells what the
others stand for. Types that are written, and type arguments, are looked at by neither side. -/
inductive ExprMirrors : List String → TypedExpr → Expr → Prop
  | literal {locals : List String} {value : Literal} {t : Ty} {span : Span} :
      ExprMirrors locals ⟨.literal value, t, span⟩ ⟨.literal value, span⟩
  | enumVariant {locals : List String} {name variant : String} {id : EnumId} {index : Nat} {t : Ty}
      {nameSpan span : Span} : name ∉ locals → symbol? name = some (.enum id) →
      ExprMirrors locals ⟨.enumVariant id variant index, t, span⟩ ⟨.field ⟨.ident name, nameSpan⟩ variant, span⟩
  | tuple {locals : List String} {items : List TypedExpr} {sources : List Expr} {t : Ty} {span : Span} :
      ItemsMirror locals items sources → ExprMirrors locals ⟨.tuple items, t, span⟩ ⟨.tuple sources, span⟩
  | list {locals : List String} {items : List TypedExpr} {sources : List Expr} {t : Ty} {span : Span} :
      ItemsMirror locals items sources → ExprMirrors locals ⟨.list items, t, span⟩ ⟨.list sources, span⟩
  | dict {locals : List String} {entries : List (TypedExpr × TypedExpr)} {sources : List (Expr × Expr)} {t : Ty}
      {span : Span} : EntriesMirror locals entries sources →
      ExprMirrors locals ⟨.dict entries, t, span⟩ ⟨.dict sources, span⟩
  | ident {locals : List String} {name : String} {t : Ty} {span : Span} : name ∈ locals →
      ExprMirrors locals ⟨.ident name, t, span⟩ ⟨.ident name, span⟩
  | functionRef {locals : List String} {name : String} {id : FunctionId} {t : Ty} {span : Span} : name ∉ locals →
      symbol? name = some (.function id) → ExprMirrors locals ⟨.functionRef id, t, span⟩ ⟨.ident name, span⟩
  | assign {locals : List String} {target value : TypedExpr} {target' value' : Expr} {t : Ty} {span : Span} :
      ExprMirrors locals target target' → ExprMirrors locals value value' →
      ExprMirrors locals ⟨.assign target value, t, span⟩ ⟨.assign target' value', span⟩
  | call {locals : List String} {callee : Callee} {typeArguments : List Ty} {arguments : List TypedExpr}
      {callee' : Expr} {written : List TypeExpr} {arguments' : List Expr} {t : Ty} {span : Span} :
      CalleeMirrors locals callee callee' → ItemsMirror locals arguments arguments' →
      ExprMirrors locals ⟨.call callee typeArguments arguments, t, span⟩ ⟨.call callee' written arguments', span⟩
  | field {locals : List String} {object : TypedExpr} {object' : Expr} {name : String} {t : Ty} {span : Span} :
      ExprMirrors locals object object' →
      ExprMirrors locals ⟨.field object name, t, span⟩ ⟨.field object' name, span⟩
  | tupleSlot {locals : List String} {tuple : TypedExpr} {tuple' : Expr} {name : String} {index : Nat} {t : Ty}
      {span : Span} : ExprMirrors locals tuple tuple' → slotIndex? name = some index →
      ExprMirrors locals ⟨.tupleSlot tuple index, t, span⟩ ⟨.field tuple' name, span⟩
  | binary {locals : List String} {operator : Operator} {left right : TypedExpr} {left' right' : Expr} {t : Ty}
      {span : Span} : ExprMirrors locals left left' → ExprMirrors locals right right' →
      ExprMirrors locals ⟨.binary operator left right, t, span⟩ ⟨.binary operator left' right', span⟩
  | condOnly {locals : List String} {condition : TypedExpr} {condition' : Expr} {statements : List TypedStatement}
      {block : Block} {yields t : Ty} {diverges : Bool} {span : Span} : ExprMirrors locals condition condition' →
      StatementsMirror locals statements block →
      ExprMirrors locals ⟨.cond condition ⟨statements, yields, diverges⟩ none, t, span⟩
        ⟨.cond condition' block none, span⟩
  | cond {locals : List String} {condition : TypedExpr} {condition' : Expr} {statements others : List TypedStatement}
      {block block' : Block} {yields yields' t : Ty} {diverges diverges' : Bool} {span : Span} :
      ExprMirrors locals condition condition' → StatementsMirror locals statements block →
      StatementsMirror locals others block' →
      ExprMirrors locals ⟨.cond condition ⟨statements, yields, diverges⟩ (some ⟨others, yields', diverges'⟩), t, span⟩
        ⟨.cond condition' block (some block'), span⟩

/-- What is called: a declaration by its name, a method as a field of its receiver, or any other expression. -/
inductive CalleeMirrors : List String → Callee → Expr → Prop
  | function {locals : List String} {name : String} {id : FunctionId} {span : Span} : name ∉ locals →
      symbol? name = some (.function id) → CalleeMirrors locals (.function id) ⟨.ident name, span⟩
  | construct {locals : List String} {name : String} {reference : StructRef} {span : Span} : name ∉ locals →
      symbol? name = some (.struct reference.id) → CalleeMirrors locals (.construct reference) ⟨.ident name, span⟩
  | method {locals : List String} {receiver : TypedExpr} {object : Expr} {origin : StructId} {name : String}
      {span : Span} : ExprMirrors locals receiver object →
      CalleeMirrors locals (.method receiver origin name) ⟨.field object name, span⟩
  | builtin {locals : List String} {receiver : TypedExpr} {object : Expr} {name : String} {span : Span} :
      ExprMirrors locals receiver object → CalleeMirrors locals (.builtin receiver name) ⟨.field object name, span⟩
  | boundMethod {locals : List String} {receiver : TypedExpr} {object : Expr} {name : String} {span : Span} :
      ExprMirrors locals receiver object → CalleeMirrors locals (.boundMethod receiver name) ⟨.field object name, span⟩
  | value {locals : List String} {value : TypedExpr} {source : Expr} : ExprMirrors locals value source →
      CalleeMirrors locals (.value value) source

inductive ItemsMirror : List String → List TypedExpr → List Expr → Prop
  | nil {locals : List String} : ItemsMirror locals [] []
  | cons {locals : List String} {item : TypedExpr} {source : Expr} {items : List TypedExpr} {sources : List Expr} :
      ExprMirrors locals item source → ItemsMirror locals items sources →
      ItemsMirror locals (item :: items) (source :: sources)

inductive EntriesMirror : List String → List (TypedExpr × TypedExpr) → List (Expr × Expr) → Prop
  | nil {locals : List String} : EntriesMirror locals [] []
  | cons {locals : List String} {key value : TypedExpr} {key' value' : Expr} {entries : List (TypedExpr × TypedExpr)}
      {sources : List (Expr × Expr)} : ExprMirrors locals key key' → ExprMirrors locals value value' →
      EntriesMirror locals entries sources →
      EntriesMirror locals ((key, value) :: entries) ((key', value') :: sources)

inductive OptionMirrors : List String → Option TypedExpr → Option Expr → Prop
  | none {locals : List String} : OptionMirrors locals none none
  | some {locals : List String} {value : TypedExpr} {source : Expr} : ExprMirrors locals value source →
      OptionMirrors locals (some value) (some source)

/-- Statements in order; a name that is declared is local in those after it. -/
inductive StatementsMirror : List String → List TypedStatement → List Statement → Prop
  | nil {locals : List String} : StatementsMirror locals [] []
  | bind {locals : List String} {name : String} {t : Ty} {type : Option TypeExpr} {value : Option TypedExpr}
      {source : Option Expr} {span : Span} {rest : List TypedStatement} {rest' : List Statement} :
      OptionMirrors locals value source → StatementsMirror (name :: locals) rest rest' →
      StatementsMirror locals (.bind name t value span :: rest) (.bind name type source span :: rest')
  | expression {locals : List String} {value : TypedExpr} {source : Expr} {rest : List TypedStatement}
      {rest' : List Statement} : ExprMirrors locals value source → StatementsMirror locals rest rest' →
      StatementsMirror locals (.expression value :: rest) (.expression source :: rest')
  | ret {locals : List String} {value : Option TypedExpr} {source : Option Expr} {span : Span}
      {rest : List TypedStatement} {rest' : List Statement} : OptionMirrors locals value source →
      StatementsMirror locals rest rest' →
      StatementsMirror locals (.ret value span :: rest) (.ret source span :: rest')

end

end Relation

def Known (types : List (Ty × Span)) : Prop :=
  ∀ site ∈ types, site.1 ≠ .error

@[simp] theorem known_append {first second : List (Ty × Span)} :
    Known (first ++ second) ↔ Known first ∧ Known second :=
  List.forall_mem_append

@[simp] theorem known_cons {t : Ty} {span : Span} {rest : List (Ty × Span)} :
    Known ((t, span) :: rest) ↔ t ≠ .error ∧ Known rest :=
  List.forall_mem_cons

theorem Known.type {e : TypedExpr} (h : Known e.types) : e.type ≠ .error := by
  obtain ⟨kind, type, span⟩ := e
  exact (known_cons.1 h).1

theorem Known.kind {kind : TypedExprKind} {t : Ty} {span : Span} (h : Known (TypedExpr.mk kind t span).types) :
    Known (kind.types span) :=
  (known_cons.1 h).2

/-- A part of a typed body that stands for a part of the source: it mirrors that unless a type in it is not known, and
in any case it reads the locals that are read there. -/
structure Stands (types : List (Ty × Span)) (same : Prop) (uses : List NameUse) (reads : List LocalRead) : Prop where
  mirrors : Known types → same
  reads : ReadAs uses reads

namespace Stands

variable {types more last : List (Ty × Span)} {p q r s : Prop} {uses others rest : List NameUse}
  {reads further final : List LocalRead}

theorem nil (h : p) : Stands [] p [] [] :=
  ⟨fun _ => h, .nil⟩

theorem imp (h : Stands types p uses reads) (weaker : p → q) : Stands types q uses reads :=
  ⟨fun known => weaker (h.mirrors known), h.reads⟩

theorem append (first : Stands types p uses reads) (second : Stands more q others further) (both : p → q → r) :
    Stands (types ++ more) r (uses ++ others) (reads ++ further) := by
  refine ⟨fun known => ?_, first.reads.append second.reads⟩
  obtain ⟨here, there⟩ := known_append.1 known
  exact both (first.mirrors here) (second.mirrors there)

theorem append₃ (first : Stands types p uses reads) (second : Stands more q others further)
    (third : Stands last r rest final) (all : p → q → r → s) :
    Stands (types ++ more ++ last) s (uses ++ (others ++ rest)) (reads ++ (further ++ final)) := by
  have both := (first.append second fun h h' => And.intro h h').append third fun h => all h.1 h.2
  rwa [List.append_assoc uses, List.append_assoc reads] at both

end Stands

namespace BodyContext

variable {body : BodyContext} {env : Env}

/-- A typed expression that stands for an expression of the source, whether it is read or written to, and returns on
every way if that does. -/
structure Renders (body : BodyContext) (env : Env) (source : Expr) (typed : TypedExpr) : Prop where
  stands : Stands typed.types (ExprMirrors body.symbol? env.locals typed source) (typed.names env)
    (source.localReads env.locals)
  target : ReadAs (typed.targetNames env) (source.targetReads env.locals)
  diverges : (TypedStatement.expression typed).diverges = source.diverges

variable {source : Expr} {name : String} {id : EnumId}

theorem Renders.node {kind : TypedExprKind} {t : Ty} {span : Span}
    (parts : Stands (kind.types span) (ExprMirrors body.symbol? env.locals ⟨kind, t, span⟩ source)
      (kind.names env t span) (source.localReads env.locals))
    (uses : TypedExpr.targetNames env ⟨kind, t, span⟩ = kind.names env t span)
    (reads : source.targetReads env.locals = source.localReads env.locals)
    (diverges : (TypedStatement.expression ⟨kind, t, span⟩).diverges = source.diverges) :
    body.Renders env source ⟨kind, t, span⟩ :=
  ⟨⟨fun known => parts.mirrors known.kind, parts.reads⟩, uses ▸ reads ▸ parts.reads, diverges⟩

theorem Renders.unknown (missing : env.lookup name = none) (span : Span) :
    body.Renders env ⟨.ident name, span⟩ ⟨.ident name, .error, span⟩ := by
  obtain ⟨read, target⟩ := ReadAs.ident env (show Ty.error = (env.lookup name).getD .error by rw [missing]; rfl)
    span
  exact ⟨⟨fun known => (known.type rfl).elim, read⟩, target, rfl⟩

theorem checkName_renders (body : BodyContext) (env : Env) (name : String) (span : Span) :
    Finds (body.checkName env name span) (body.Renders env ⟨.ident name, span⟩) := by
  unfold checkName
  dsimp only
  split
  · rename_i t found
    obtain ⟨read, target⟩ := ReadAs.ident env (show t = (env.lookup name).getD .error by rw [found]; rfl) span
    exact .pure ⟨⟨fun _ => .ident (Env.mem_locals found), read⟩, target, rfl⟩
  · rename_i missing
    have absent := Env.lookup_eq_none.1 missing
    split
    · rename_i id named
      split
      · exact .pure (.unknown missing span)
      · split
        · exact .after fun _ => .pure (.unknown missing span)
        · exact .pure ⟨⟨fun _ => .functionRef absent named, .global absent span⟩, .nil, rfl⟩
    · exact .after fun _ => .pure (.unknown missing span)
    · exact .after fun _ => .pure (.unknown missing span)

theorem enumNamed?_eq_some (h : body.enumNamed? env source = some id) :
    ∃ name span, source = ⟨.ident name, span⟩ ∧ name ∉ env.locals ∧ body.symbol? name = some (.enum id) := by
  obtain ⟨name, named, found⟩ := Option.bind_eq_some_iff.1 h
  obtain ⟨kind, span⟩ := source
  cases kind with
  | ident other =>
    cases named
    split at found
    · rename_i missing symbol
      cases found
      exact ⟨_, span, rfl, Env.lookup_eq_none.1 missing, symbol⟩
    · cases found
  | _ => cases named

theorem checkVariant_renders (body : BodyContext) (named : body.enumNamed? env source = some id) (variant : String)
    (span : Span) : Finds (body.checkVariant id variant span) (body.Renders env ⟨.field source variant, span⟩) := by
  obtain ⟨name, nameSpan, rfl, missing, symbol⟩ := enumNamed?_eq_some named
  have read : ReadAs [] (readOf env.locals name nameSpan) := .global missing nameSpan
  have same : ∀ index t, body.Renders env ⟨.field ⟨.ident name, nameSpan⟩ variant, span⟩
      ⟨.enumVariant id variant index, t, span⟩ := fun _ _ => ⟨⟨fun _ => .enumVariant missing symbol, read⟩, read, rfl⟩
  unfold checkVariant
  dsimp only
  split
  · exact .pure (same _ _)
  · split
    · exact .pure (same _ _)
    · exact .after fun _ => .pure (same _ _)

theorem checkMember_renders (body : BodyContext) {object : TypedExpr} (renders : body.Renders env source object)
    (name : String) (span : Span) :
    Finds (body.checkMember object name span) (body.Renders env ⟨.field source name, span⟩) := by
  have field : ∀ t, body.Renders env ⟨.field source name, span⟩ ⟨.field object name, t, span⟩ :=
    fun _ => .node (renders.stands.imp .field) rfl rfl rfl
  unfold checkMember
  dsimp only
  split
  · split
    · exact .pure (field _)
    · exact .after fun _ => .pure (field _)
  · split
    · exact .after fun _ => .pure (field _)
    · rename_i index found
      split
      · exact .pure (.node (renders.stands.imp (.tupleSlot · found)) rfl rfl rfl)
      · exact .after fun _ => .pure (field _)
  · exact .pure (field _)
  · exact .after fun _ => .pure (field _)

def RendersCallee (body : BodyContext) (env : Env) (source : Expr) (callee : Callee) : Prop :=
  Stands callee.types (CalleeMirrors body.symbol? env.locals callee source) (callee.names env)
    (source.localReads env.locals)

theorem constructTarget_renders (body : BodyContext) {id : StructId} (missing : name ∉ env.locals)
    (symbol : body.symbol? name = some (.struct id)) (nameSpan span : Span) :
    Finds (body.constructTarget id span) fun target => body.RendersCallee env ⟨.ident name, nameSpan⟩ target.callee := by
  have same : body.RendersCallee env ⟨.ident name, nameSpan⟩ (.construct (body.program.structRef id)) :=
    ⟨fun _ => .construct missing symbol, .global missing nameSpan⟩
  unfold constructTarget
  dsimp only
  split
  · exact .check (.pure same)
  · exact .pure same

theorem valueTarget_renders (body : BodyContext) {callee : TypedExpr} (renders : body.Renders env source callee)
    (span : Span) : Finds (body.valueTarget callee span) fun target => body.RendersCallee env source target.callee := by
  have same : body.RendersCallee env source (.value callee) := renders.stands.imp .value
  unfold valueTarget
  split
  · exact .pure same
  · exact .pure same
  · exact .after fun _ => .pure same

theorem memberTarget_callee (body : BodyContext) (callee : Callee) (receiver : Ty) (name : String)
    (method : Option Ty) (span : Span) :
    Finds (body.memberTarget callee receiver name method span) fun target => target.callee = callee := by
  unfold memberTarget
  split
  · exact .pure rfl
  · exact .after fun _ => .pure rfl

/-- Whatever is known of the receiver, it stands in the target once. One whose type is not known is kept in place of its
method: nothing else is known to be called. -/
theorem methodTarget_renders (body : BodyContext) {object : Expr} {receiver : TypedExpr}
    (renders : body.Renders env object receiver) (name : String) (calleeSpan span : Span) :
    Finds (body.methodTarget receiver name calleeSpan span) fun target =>
      body.RendersCallee env ⟨.field object name, calleeSpan⟩ target.callee := by
  have member : ∀ callee type method, body.RendersCallee env ⟨.field object name, calleeSpan⟩ callee →
      Finds (body.memberTarget callee type name method span) fun target =>
        body.RendersCallee env ⟨.field object name, calleeSpan⟩ target.callee := by
    intro callee type method same s
    rw [body.memberTarget_callee callee type name method span s]
    exact same
  unfold methodTarget
  split
  · split
    · exact .pure (renders.stands.imp .method)
    · exact member _ _ _ ⟨fun known => .value (.field (renders.stands.mirrors known.kind)), renders.stands.reads⟩
  · exact member _ _ _ (renders.stands.imp .boundMethod)
  · rename_i isError
    exact .pure ⟨fun known => (Known.type known isError).elim, renders.stands.reads⟩
  · exact member _ _ _ (renders.stands.imp .builtin)

def RenderEach (body : BodyContext) (env : Env) (sources : List Expr) (items : List TypedExpr) : Prop :=
  Stands (TypedExpr.typesOfEach items) (ItemsMirror body.symbol? env.locals items sources)
    (TypedExpr.namesOfEach env items) (Expr.readsOfEach env.locals sources)

theorem RenderEach.nil : body.RenderEach env [] [] :=
  Stands.nil .nil

theorem RenderEach.cons {item : TypedExpr} {sources : List Expr} {items : List TypedExpr}
    (first : body.Renders env source item) (rest : body.RenderEach env sources items) :
    body.RenderEach env (source :: sources) (item :: items) :=
  Stands.append first.stands rest .cons

theorem checkCall_renders {arguments : List Expr} (items : ∀ call params, Finds (checkArguments body env call 1 params
      arguments) fun answer => body.RenderEach env arguments answer.1) {target : CallTarget}
    (renders : body.RendersCallee env source target.callee) (typeArguments : List TypeExpr) (span : Span) :
    Finds (body.checkCall env typeArguments arguments span target)
      (body.Renders env ⟨.call source typeArguments arguments, span⟩) := by
  refine .after fun call => (items call (openParams call)).bind fun answer passed => ?_
  have built : ∀ found t, body.Renders env ⟨.call source typeArguments arguments, span⟩
      ⟨.call target.callee found answer.1, t, span⟩ := by
    intro found t
    have middle : Stands (found.map fun t => (t, span)) True [] [] := ⟨fun _ => trivial, .nil⟩
    exact .node (Stands.append₃ renders middle passed fun callee _ each => .call callee each) rfl rfl rfl
  dsimp only
  unfold closeTarget
  split
  · exact .after fun _ => .pure (built _ _)
  · exact .pure (built _ _)

theorem callTarget_renders {callee : Expr}
    (checks : Finds (checkExpr body env (.value none) callee.subject) (body.Renders env callee.subject)) (span : Span) :
    Finds (body.callTarget env span callee) fun target => body.RendersCallee env callee target.callee := by
  induction callee using callTarget_cases with
  | construct _ nameSpan _ missing symbol =>
    exact body.constructTarget_renders (Env.lookup_eq_none.1 missing) symbol nameSpan span
  | function _ nameSpan _ missing symbol =>
    have absent := Env.lookup_eq_none.1 missing
    exact .pure ⟨fun _ => .function absent symbol, .global absent nameSpan⟩
  | value callee same =>
    rw [same] at checks
    exact checks.bind fun value renders => body.valueTarget_renders renders callee.span
  | method _ name calleeSpan =>
    exact checks.bind fun receiver renders => body.methodTarget_renders renders name calleeSpan span
  | variant _ _ name calleeSpan named =>
    refine (body.checkVariant_renders named name calleeSpan).bind fun callee renders => ?_
    exact body.valueTarget_renders renders calleeSpan

theorem isNone_eq (h : source.isNone = true) : source = ⟨.literal .none, source.span⟩ := by
  unfold Expr.isNone at h
  split at h
  · rfl
  · cases h

structure RenderBlock (body : BodyContext) (env : Env) (sources : List Statement) (statements : List TypedStatement) :
    Prop where
  stands : Stands (TypedStatement.typesOfEach statements) (StatementsMirror body.symbol? env.locals statements sources)
    (TypedStatement.namesOfEach env statements) (Statement.readsOfEach env.locals sources)
  diverges : statements.any TypedStatement.diverges = Block.diverges sources

def RenderOption (body : BodyContext) (env : Env) (source : Option Expr) (value : Option TypedExpr) : Prop :=
  Stands (TypedExpr.typesOfOption value) (OptionMirrors body.symbol? env.locals value source)
    (TypedExpr.namesOfOption env value) (Expr.readsOfOption env.locals source)

/-- A typed statement that stands for one of the source: so do statements that stand for others in the scope that it
leaves and follow it. -/
def RenderStatement (body : BodyContext) (env : Env) (source : Statement) (answer : TypedStatement × Env) : Prop :=
  ∀ sources statements, body.RenderBlock answer.2 sources statements →
    body.RenderBlock env (source :: sources) (answer.1 :: statements)

section Checks

variable (body : BodyContext)

mutual

/-- By induction on the source: whatever is expected of an expression, and whatever is reported on the way, its
typed form stands for it. -/
theorem checkExpr_renders : ∀ (e : Expr) (env : Env) (mode : Mode),
    Finds (checkExpr body env mode e) (body.Renders env e)
  | ⟨.literal value, span⟩, env, mode => by
    rw [checkExpr]
    exact .after fun t => .pure (.node (.nil .literal) rfl rfl rfl)
  | ⟨.tuple items, span⟩, env, mode => by
    rw [checkExpr]
    exact (checkEach_renders items env _).bind fun typed each => .pure (.node (Stands.imp each .tuple) rfl rfl rfl)
  | ⟨.list items, span⟩, env, mode => by
    rw [checkExpr]
    refine (checkElements_renders items env _).bind fun answer each => ?_
    dsimp only
    split
    · exact .pure (.node (Stands.imp each .list) rfl rfl rfl)
    · exact .after fun _ => .pure (.node (Stands.imp each .list) rfl rfl rfl)
  | ⟨.dict entries, span⟩, env, mode => by
    rw [checkExpr]
    refine (checkEntries_renders entries env _ _).bind fun answer each => ?_
    dsimp only
    split
    · exact .pure (.node (each.imp .dict) rfl rfl rfl)
    · exact .after fun _ => .pure (.node (each.imp .dict) rfl rfl rfl)
  | ⟨.ident name, span⟩, env, mode => by
    rw [checkExpr]
    exact body.checkName_renders env name span
  | ⟨.assign target value, span⟩, env, mode => by
    rw [checkExpr]
    refine (checkExpr_renders target env _).bind fun place first => .after fun role => ?_
    refine (checkExpr_renders value env _).bind fun stored second => ?_
    have built : body.Renders env ⟨.assign target value, span⟩ ⟨.assign place stored, .unit, span⟩ := by
      have reads : ReadAs (TypedExpr.names env ⟨.assign place stored, .unit, span⟩)
          (Expr.localReads env.locals ⟨.assign target value, span⟩) := by
        rw [TypedExpr.names_assign, Expr.localReads_assign]
        exact first.target.append second.stands.reads
      exact .node ⟨(first.stands.append second.stands .assign).mirrors, reads⟩ rfl rfl rfl
    dsimp only
    split
    · exact .after fun _ => .pure built
    · exact .pure built
  | ⟨.call ⟨kind, calleeSpan⟩ typeArguments arguments, span⟩, env, mode => by
    have value : Finds (checkExpr body env (.value none) (Expr.subject ⟨kind, calleeSpan⟩))
        (body.Renders env (Expr.subject ⟨kind, calleeSpan⟩)) := by
      cases kind with
      | _ => exact checkExpr_renders _ env _
    rw [checkExpr_call]
    refine (callTarget_renders value span).bind fun target reached => checkCall_renders ?_ reached typeArguments span
    exact fun call params => checkArguments_renders arguments env call 1 params
  | ⟨.field object name, span⟩, env, mode => by
    rw [checkExpr]
    split
    · rename_i id named
      exact body.checkVariant_renders named name span
    · exact (checkExpr_renders object env _).bind fun typed renders => body.checkMember_renders renders name span
  | ⟨.binary operator left right, span⟩, env, mode => by
    have built : ∀ leftValue rightValue t, body.Renders env left leftValue → body.Renders env right rightValue →
        body.Renders env ⟨.binary operator left right, span⟩ ⟨.binary operator leftValue rightValue, t, span⟩ :=
      fun _ _ _ first second => .node (first.stands.append second.stands .binary) rfl rfl rfl
    rw [checkExpr]
    dsimp only
    split
    · refine (checkExpr_renders left env _).bind fun leftValue first => ?_
      refine (checkExpr_renders right env _).bind fun rightValue second => ?_
      exact .after fun _ => .after fun _ => .pure (built _ _ _ first second)
    · split
      · refine (checkExpr_renders right env _).bind fun rightValue second => ?_
        refine (checkExpr_renders left env _).bind fun leftValue first => ?_
        exact .after fun t => .pure (built _ _ _ first second)
      · refine (checkExpr_renders left env _).bind fun leftValue first => ?_
        refine (checkExpr_renders right env _).bind fun rightValue second => ?_
        exact .after fun t => .pure (built _ _ _ first second)
  | ⟨.cond condition thenBranch elseBranch, span⟩, env, mode => by
    rw [checkExpr]
    dsimp only
    refine (checkExpr_renders condition env _).bind fun test first => .after fun _ => ?_
    refine (checkStatements_renders thenBranch env mode).bind fun statements second => ?_
    cases elseBranch with
    | none =>
      have built : ∀ t, body.Renders env ⟨.cond condition thenBranch none, span⟩
          ⟨.cond test (.ofStatements mode statements) none, t, span⟩ := fun _ =>
        .node (first.stands.append₃ second.stands (.nil trivial) fun h h' _ => .condOnly h h') rfl rfl rfl
      cases mode with
      | statement => exact .pure (built _)
      | value expected => exact .after fun _ => .pure (built _)
    | some elseBranch =>
      have built : ∀ other others t, body.RenderBlock env elseBranch others →
          body.Renders env ⟨.cond condition thenBranch (some elseBranch), span⟩
            ⟨.cond test (.ofStatements mode statements) (some (.ofStatements other others)), t, span⟩ :=
        fun _ _ _ third => .node (first.stands.append₃ second.stands third.stands .cond) rfl rfl
          (congrArg₂ (· && ·) second.diverges third.diverges)
      have others := checkStatements_renders elseBranch env
      cases mode with
      | statement => exact (others _).bind fun _ third => .pure (built _ _ _ third)
      | value expected => exact (others _).bind fun _ third => .after fun t => .pure (built _ _ _ third)

theorem checkEach_renders : ∀ (items : List Expr) (env : Env) (slots : List Ty),
    Finds (checkEach body env slots items) (body.RenderEach env items)
  | [], env, slots => by
    rw [checkEach]
    exact .pure .nil
  | item :: rest, env, slots => by
    rw [checkEach]
    refine (checkExpr_renders item env _).bind fun first renders => ?_
    exact (checkEach_renders rest env _).bind fun more others => .pure (.cons renders others)

theorem checkElements_renders : ∀ (items : List Expr) (env : Env) (element : Option Ty),
    Finds (checkElements body env element items) fun answer => body.RenderEach env items answer.1
  | [], env, element => by
    rw [checkElements]
    exact .pure .nil
  | item :: rest, env, element => by
    rw [checkElements]
    refine (checkExpr_renders item env _).bind fun first renders => .after fun _ => ?_
    exact (checkElements_renders rest env _).bind fun answer others => .pure (.cons renders others)

theorem checkEntries_renders : ∀ (entries : List (Expr × Expr)) (env : Env)
    (key value : Option Ty), Finds (checkEntries body env key value entries) fun answer =>
      Stands (TypedExpr.typesOfEntries answer.1) (EntriesMirror body.symbol? env.locals answer.1 entries)
        (TypedExpr.namesOfEntries env answer.1) (Expr.readsOfEntries env.locals entries)
  | [], env, key, value => by
    rw [checkEntries]
    exact .pure (.nil .nil)
  | (keyExpr, valueExpr) :: rest, env, key, value => by
    rw [checkEntries]
    refine (checkExpr_renders keyExpr env _).bind fun typedKey first => ?_
    refine (checkExpr_renders valueExpr env _).bind fun typedValue second => .after fun _ => .after fun _ => ?_
    refine (checkEntries_renders rest env _ _).bind fun answer others => .pure ?_
    exact first.stands.append₃ second.stands others .cons

theorem checkArguments_renders : ∀ (arguments : List Expr) (env : Env)
    (call : Option OpenCall) (position : Nat) (params : List Ty),
    Finds (checkArguments body env call position params arguments) fun answer => body.RenderEach env arguments answer.1
  | [], env, call, position, params => by
    rw [checkArguments]
    exact .pure .nil
  | argument :: rest, env, none, position, params => by
    rw [checkArguments]
    refine (checkExpr_renders argument env _).bind fun first renders => ?_
    exact (checkArguments_renders rest env _ _ _).bind fun answer others => .pure (.cons renders others)
  | argument :: rest, env, some call, position, params => by
    rw [checkArguments]
    dsimp only
    split
    · rename_i isNone
      refine .after fun _ => (checkArguments_renders rest env _ _ _).bind fun answer others => .pure ?_
      rw [isNone_eq isNone]
      exact .cons (.node (.nil .literal) rfl rfl rfl) others
    · refine (checkExpr_renders argument env _).bind fun first renders => ?_
      have passed : ∀ next, Finds (do
          let (more, call) ← checkArguments body env (some next) (position + 1) params.tail rest
          return (first :: more, call)) fun answer => body.RenderEach env (argument :: rest) answer.1 := fun next =>
        (checkArguments_renders rest env _ _ _).bind fun answer others => .pure (.cons renders others)
      split
      · exact .after passed
      · exact passed call

theorem checkStatements_renders : ∀ (statements : List Statement) (env : Env) (mode : Mode),
    Finds (checkStatements body env mode statements) (body.RenderBlock env statements)
  | [], env, mode => by
    rw [checkStatements]
    exact .pure ⟨.nil .nil, rfl⟩
  | statement :: rest, env, mode => by
    rw [checkStatements]
    refine (checkStatement_renders statement env _).bind fun answer first => ?_
    exact (checkStatements_renders rest answer.2 mode).bind fun more others => .pure (first rest more others)

theorem checkStatement_renders : ∀ (statement : Statement) (env : Env) (mode : Mode),
    Finds (checkStatement body env mode statement) (body.RenderStatement env statement)
  | .bind name type initializer span, env, mode => by
    rw [checkStatement]
    refine .after fun written => (checkOption_renders initializer env _).bind fun value renders => ?_
    refine .after fun t => .pure fun rest more others => ?_
    refine ⟨⟨fun known => ?_, renders.reads.append others.stands.reads⟩, others.diverges⟩
    exact (Stands.append renders others.stands .bind).mirrors (known_cons.1 known).2
  | .expression value, env, mode => by
    rw [checkStatement]
    exact (checkExpr_renders value env mode).bind fun typed renders => .pure fun rest more others =>
      ⟨renders.stands.append others.stands .expression, congrArg₂ (· || ·) renders.diverges others.diverges⟩
  | .ret value span, env, mode => by
    rw [checkStatement]
    refine (checkOption_renders value env _).bind fun typed renders => ?_
    exact .after fun _ => .pure fun rest more others => ⟨Stands.append renders others.stands .ret, rfl⟩

theorem checkOption_renders : ∀ (value : Option Expr) (env : Env) (mode : Mode),
    Finds (checkOption body env mode value) (body.RenderOption env value)
  | none, env, mode => by
    rw [checkOption]
    exact .pure (.nil .none)
  | some value, env, mode => by
    rw [checkOption]
    exact (checkExpr_renders value env mode).bind fun typed renders => .pure (renders.stands.imp .some)

end

end Checks

end BodyContext

end SemanticChecker
