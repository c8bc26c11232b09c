import SemanticChecker.Proofs.Soundness.Fits
import SemanticChecker.Proofs.Soundness.Reporting

/-! The meaning of written types fits the scope they are written in, and so do signatures. What cannot be read is
reported and replaced by the error type, so that they fit in any case only where that is admitted. -/
namespace SemanticChecker

open List

/-- Work on written types that, where it succeeds, keeps what is known of the aliases and answers as told. A failure
may leave any aliases behind, unless the work is `careful`. -/
def Lowers {α : Type} (known : AliasTable → Prop) (careful : Prop) (work : LowerM α) (answer : α → Prop) : Prop :=
  ∀ s : Lowering, known s.aliases →
    (∀ a, (work.run.run s).1 = .ok a → known (work.run.run s).2.aliases ∧ answer a) ∧
      (careful → known (work.run.run s).2.aliases)

namespace Lowers

variable {α β : Type} {known : AliasTable → Prop} {careful : Prop}

theorem pure {a : α} {Q : α → Prop} (h : Q a) : Lowers known careful (Pure.pure a) Q := by
  refine fun s inv => ⟨fun b done => ?_, fun _ => inv⟩
  cases done
  exact ⟨inv, h⟩

theorem throw {error : ResolveError} {Q : α → Prop} : Lowers known careful (throw error) Q :=
  fun _ inv => ⟨fun _ done => (by cases done), fun _ => inv⟩

variable {Q : α → Prop} {x : LowerM α} {R : β → Prop}

theorem bind {f : α → LowerM β} (first : Lowers known careful x Q) (second : ∀ a, Q a → Lowers known careful (f a) R) :
    Lowers known careful (x >>= f) R := by
  intro s inv
  have step : (x >>= f).run.run s = (ExceptT.bindCont f (x.run.run s).1).run (x.run.run s).2 := rfl
  obtain ⟨succeeded, kept⟩ := first s inv
  rw [step]
  cases found : (x.run.run s).1 with
  | error e => exact ⟨fun _ done => (by cases done), kept⟩
  | ok a =>
    obtain ⟨kept, answer⟩ := succeeded a found
    exact second a answer _ kept

/-- Work whose failure is looked at, but never turned into a success. -/
theorem lift_bind {f : Except ResolveError α → LowerM β} (first : Lowers known careful x Q)
    (second : ∀ a, Q a → Lowers known careful (f (.ok a)) R) (failed : ∀ e s, (careful → known s.aliases) →
      (∀ b, ((f (.error e)).run.run s).1 ≠ .ok b) ∧ (careful → known ((f (.error e)).run.run s).2.aliases)) :
    Lowers known careful (ExceptT.lift x.run >>= f) R := by
  intro s inv
  have step : (ExceptT.lift x.run >>= f).run.run s = (f (x.run.run s).1).run.run (x.run.run s).2 := rfl
  obtain ⟨succeeded, kept⟩ := first s inv
  rw [step]
  cases found : (x.run.run s).1 with
  | error e =>
    obtain ⟨fails, kept⟩ := failed e _ kept
    exact ⟨fun b done => (fails b done).elim, kept⟩
  | ok a =>
    obtain ⟨kept, answer⟩ := succeeded a found
    exact second a answer _ kept

theorem get_bind {f : Lowering → LowerM β} (h : ∀ s : Lowering, known s.aliases → Lowers known careful (f s) R) :
    Lowers known careful (get >>= f) R :=
  fun s inv => h s inv s inv

theorem mono {R : α → Prop} (h : Lowers known careful x Q) (more : ∀ a, Q a → R a) : Lowers known careful x R := by
  refine fun s inv => ⟨fun a done => ?_, (h s inv).2⟩
  obtain ⟨kept, answer⟩ := (h s inv).1 a done
  exact ⟨kept, more a answer⟩

theorem setAlias {name : String} {entry : AliasEntry} (h : ∀ table, known table → known (table.set name entry)) :
    Lowers known careful (LowerM.setAlias name entry) fun _ => True :=
  fun _ inv => ⟨fun _ _ => ⟨h _ inv, trivial⟩, fun _ => h _ inv⟩

theorem addPending {bound : PendingBound} : Lowers known careful (LowerM.addPending bound) fun _ => True :=
  fun _ inv => ⟨fun _ _ => ⟨inv, trivial⟩, fun _ => inv⟩

theorem expectArguments {name : String} {expected found : Nat} :
    Lowers known careful (expectArguments name expected found) fun _ => found = expected := by
  rw [SemanticChecker.expectArguments]
  split
  · exact .pure ‹_›
  · exact .throw

end Lowers

/-- How many type parameters the structs of a table and the bounds of a table are declared with. -/
def DeclTable.arities (table : DeclTable) (bounds : BoundTable) : Arities where
  struct id := (table.struct? id).map fun own => own.decl.typeParameters.length
  bound := bounds.parameterCount?

def Symbol.IsIn (table : DeclTable) : Symbol → Prop
  | .struct id => id.index < table.structs.length
  | .enum id => id.index < table.enums.length
  | .function id => id.index < table.functions.length
  | .typeAlias => True

def DeclTable.Named (table : DeclTable) : Prop :=
  ∀ name symbol, table.lookup name = some symbol → symbol.IsIn table

theorem DeclTable.Named.resolveName {table : DeclTable} (h : table.Named) {module : ModulePath}
    {name qualified : String} {symbol : Symbol}
    (found : table.resolveName module name = some (qualified, symbol)) : symbol.IsIn table := by
  obtain ⟨candidate, _, found⟩ := exists_of_findSome?_eq_some found
  obtain ⟨other, looked, same⟩ := Option.map_eq_some_iff.1 found
  cases same
  exact h _ symbol looked

theorem TypeScope.head_cases {scope : TypeScope} (named : scope.table.Named) {name : String} {head : TypeHead}
    (found : scope.head? name = some head) :
    (∃ t, scope.parameter? name = some t ∧ head = .type t) ∨ (∃ kind, head = .type (.primitive kind)) ∨
      (∃ id, head = .type (.enum id)) ∨ head = .list ∨ head = .dict ∨
      (∃ id own, scope.table.struct? id = some own ∧ head = .struct id own.decl.typeParameters.length) ∨
      ∃ other, head = .typeAlias other := by
  rw [TypeScope.head?] at found
  split at found
  · rename_i t isParameter
    cases found
    exact .inl ⟨t, isParameter, rfl⟩
  · refine .inr ?_
    split at found
    · rename_i kind _
      cases found
      exact .inl ⟨kind, rfl⟩
    · split at found
      · cases found
        simp
      · split at found
        · cases found
          simp
        · split at found
          · rename_i qualified symbol resolved
            have isIn := named.resolveName resolved
            cases symbol with
            | struct id =>
              have declared : scope.table.struct? id = some scope.table.structs[id.index] :=
                getElem?_eq_getElem isIn
              rw [TypeHead.ofSymbol?, declared] at found
              cases found
              exact .inr (.inr (.inr (.inr (.inl ⟨id, _, declared, rfl⟩))))
            | enum id =>
              cases found
              exact .inr (.inl ⟨id, rfl⟩)
            | function id => cases found
            | typeAlias =>
              cases found
              exact .inr (.inr (.inr (.inr (.inr ⟨qualified, rfl⟩))))
          · obtain ⟨kind, _, rfl⟩ := Option.map_eq_some_iff.1 found
            exact .inl ⟨kind, rfl⟩

structure TypeScope.Fits (bounds : BoundTable) (known : AliasTable → Prop) (careful : Prop) (place : Place)
    (scope : TypeScope) : Prop where
  arities : place.arities = scope.table.arities bounds
  named : scope.table.Named
  parameters : ∀ t ∈ scope.parameters, t.Fits place
  aliasOf : ∀ name, Lowers known careful (scope.aliasOf name) fun t => t.Fits place

def TypeHead.Fits (place : Place) : TypeHead → Prop
  | .type t => t.Fits place
  | .struct id arity => place.arities.struct id = some arity
  | .list | .dict | .typeAlias _ => True

namespace TypeScope.Fits

variable {bounds : BoundTable} {known : AliasTable → Prop} {careful : Prop} {place : Place} {scope : TypeScope}

theorem extend (h : scope.Fits bounds known careful place) {parameters : List Ty}
    (more : ∀ t ∈ parameters, t.Fits place) : (scope.extend parameters).Fits bounds known careful place :=
  ⟨h.arities, h.named, forall_mem_append.2 ⟨h.parameters, more⟩, h.aliasOf⟩

theorem parameter (h : scope.Fits bounds known careful place) {name : String} {t : Ty}
    (found : scope.parameter? name = some t) : t.Fits place :=
  h.parameters t (mem_reverse.1 (mem_of_find?_eq_some found))

theorem head (h : scope.Fits bounds known careful place) {name : String} {head : TypeHead}
    (found : scope.head? name = some head) : head.Fits place := by
  rcases scope.head_cases h.named found with ⟨t, isParameter, rfl⟩ | ⟨_, rfl⟩ | ⟨_, rfl⟩ | rfl | rfl |
    ⟨id, own, declared, rfl⟩ | ⟨_, rfl⟩
  · exact h.parameter isParameter
  · trivial
  · trivial
  · trivial
  · trivial
  · simp [TypeHead.Fits, h.arities, DeclTable.arities, declared]
  · trivial

theorem apply (h : scope.Fits bounds known careful place) {head : TypeHead} (fits : head.Fits place) {arguments : List Ty}
    (count : arguments.length = head.arity) (all : Ty.FitAll place arguments) (span : Span) :
    Lowers known careful (head.apply scope.aliasOf span arguments) fun t => t.Fits place := by
  cases head with
  | type t => exact .pure fits
  | list =>
    obtain ⟨element, rfl⟩ := length_eq_one_iff.1 count
    exact .pure all.1
  | dict =>
    match arguments, count, all with
    | [key, value], _, all => exact .pure ⟨all.1, all.2.1⟩
  | struct id arity =>
    have built : (Ty.struct id arguments).Fits place := ⟨fits.trans (congrArg some count.symm), all⟩
    rw [TypeHead.apply]
    split
    · exact .pure built
    · exact .bind .addPending fun _ _ => .pure built
  | typeAlias name => exact h.aliasOf name

end TypeScope.Fits

section Written

variable {bounds : BoundTable} {known : AliasTable → Prop} {careful : Prop} {place : Place} {scope : TypeScope}

mutual

/-- The meaning of a written type fits its scope. -/
theorem TypeExpr.lower_fits (h : scope.Fits bounds known careful place) :
    ∀ type : TypeExpr, Lowers known careful (type.lower scope) fun t => t.Fits place
  | ⟨.named name arguments, span⟩ => by
    rw [TypeExpr.lower, TypeExprKind.lower]
    cases found : scope.head? name with
    | none => exact .throw
    | some head =>
      refine .bind .expectArguments fun _ count => ?_
      refine .bind (TypeExpr.lowerAll_fits h arguments) fun types fit => ?_
      exact h.apply (h.head found) (fit.2.trans count) fit.1 span
  | ⟨.tuple elements, _⟩ => .bind (TypeExpr.lowerAll_fits h elements) fun types fit => .pure fit.1
  | ⟨.repeated element arity, _⟩ => by
    refine .bind (element.lower_fits h) fun t fits => .pure (Ty.fitAll_iff.2 fun s hs => ?_)
    rw [eq_of_mem_replicate hs]
    exact fits
  | ⟨.function parameters returns, _⟩ =>
    .bind (TypeExpr.lowerAll_fits h parameters) fun _ left =>
      .bind (TypeExpr.lowerAll_fits h returns) fun _ right => .pure ⟨left.1, right.1⟩

theorem TypeExpr.lowerAll_fits (h : scope.Fits bounds known careful place) : ∀ types : List TypeExpr,
    Lowers known careful (TypeExpr.lowerAll scope types) fun ts => Ty.FitAll place ts ∧ ts.length = types.length
  | [] => .pure ⟨trivial, rfl⟩
  | type :: rest =>
    .bind (type.lower_fits h) fun _ first =>
      .bind (TypeExpr.lowerAll_fits h rest) fun _ more => .pure ⟨⟨first, more.1⟩, congrArg Nat.succ more.2⟩

end

end Written

theorem FindM.reporting_yields {α : Type} {work : LowerM α} {Q : α → Prop}
    (h : Lowers (fun _ => True) True work Q) (span : Span) (always : Prop) :
    Yields always (FindM.reporting span work) fun found => (found = none → always) ∧ ∀ a, found = some a → Q a := by
  rcases found : work.run.run {} with ⟨result, done⟩
  cases result with
  | ok a =>
    have value : ∀ s, (FindM.reporting span work).run s =
        (some a, { s with pending := s.pending ++ done.pending }) := fun s => by
      rw [FindM.reporting, found]
      rfl
    have answer : (some a = none → always) ∧ ∀ b, some a = some b → Q b :=
      ⟨fun isNone => (by cases isNone), fun b same => by
        cases same
        exact ((h {} trivial).1 a (congrArg Prod.fst found)).2⟩
    refine ⟨fun s => ?_, fun _ s => ?_⟩
    · rw [value]
      exact ⟨[], (append_nil _).symm, external_nil, fun _ => answer⟩
    · rw [value]
      exact answer
  | error e =>
    have value : ∀ s, (FindM.reporting span work).run s =
        (none, ⟨s.pending ++ done.pending, s.diagnostics ++ [e.diagnostic span]⟩) := fun s => by
      rw [FindM.reporting, found]
      rfl
    refine ⟨fun s => ?_, fun on s => ?_⟩
    · rw [value]
      refine ⟨[e.diagnostic span], rfl, ?_, fun harmless => ?_⟩
      · simpa [External, ResolveError.diagnostic] using e.code_ne_internal
      · have reported := harmless _ (mem_singleton.2 rfl)
        rw [e.isError_diagnostic] at reported
        cases reported
    · rw [value]
      exact ⟨fun _ => on, fun _ isSome => by cases isSome⟩

def TypeScope.Suits (bounds : BoundTable) (place : Place) (scope : TypeScope) : Prop :=
  scope.Fits bounds (fun _ => True) True place

def BoundRef.Fits (place : Place) (bound : BoundRef) : Prop :=
  place.arities.bound bound.name = some bound.arguments.length ∧ Ty.FitAll place bound.arguments

/-- Whether a type is a type parameter; its bound, if it has one, has the arguments it takes. -/
def Ty.IsParameter (place : Place) : Ty → Prop
  | .parameter _ => True
  | .bounded _ bound arguments => BoundRef.Fits place ⟨bound, arguments⟩
  | _ => False

/-- The place of what declares type parameters of its own where others are known. Its bounds may mention both. -/
def Arities.declaring (arities : Arities) (error : Prop) (outer : String → Prop) (own : List String) : Place :=
  ⟨arities, fun name => outer name ∨ name ∈ own, fun name other => outer other ∨ name ∈ own ∧ other ∈ own,
    fun _ => False, error⟩

namespace Ty

variable {arities : Arities} {error : Prop} {known outer : String → Prop} {own : List String} {place next : Place}
  {t : Ty}

theorem IsParameter.mono (h : t.IsParameter place) (wider : place.Widens next)
    (slot : ∀ index, place.slot index → next.slot index) : t.IsParameter next := by
  cases t with
  | parameter => trivial
  | bounded => exact ⟨wider.arities ▸ h.1, h.2.mono wider slot⟩
  | _ => exact h.elim

theorem IsParameter.within (h : t.IsParameter (arities.within error known))
    (named : ∀ name, t.parameterName? = some name → known name) : t.Fits (arities.within error known) := by
  cases t with
  | parameter name => exact named name rfl
  | bounded name _ _ => exact ⟨named name rfl, h⟩
  | _ => exact h.elim

theorem IsParameter.declaring (h : t.IsParameter (arities.within error fun name => outer name ∨ name ∈ own))
    (named : ∀ name, t.parameterName? = some name → name ∈ own) : t.Fits (arities.declaring error outer own) := by
  cases t with
  | parameter name => exact .inr (named name rfl)
  | bounded name _ _ =>
    have mine := named name rfl
    have inner : ∀ other, (outer other ∨ other ∈ own) → outer other ∨ name ∈ own ∧ other ∈ own :=
      fun other => Or.imp_right (And.intro mine)
    exact ⟨.inr mine, h.1, h.2.mono ⟨rfl, inner, fun _ _ => inner, fun h => h⟩ fun _ => id⟩
  | _ => exact h.elim

theorem IsParameter.named (h : t.IsParameter place) : ∃ name, t.parameterName? = some name := by
  cases t with
  | parameter name => exact ⟨name, rfl⟩
  | bounded name _ _ => exact ⟨name, rfl⟩
  | _ => exact h.elim

theorem Fits.declaring (h : t.Fits (arities.within error outer)) (own : List String) :
    t.Fits (arities.declaring error outer own) :=
  h.mono ⟨rfl, fun _ => .inl, fun _ _ _ => .inl, fun h => h⟩ fun _ => id

/-- From inside, what is declared is not told apart from what is known outside. -/
theorem Fits.of_declaring (h : t.Fits (arities.declaring error outer own)) :
    t.Fits (arities.within error fun name => outer name ∨ name ∈ own) :=
  h.mono ⟨rfl, fun _ h => h, fun _ _ _ => Or.imp_right And.right, fun h => h⟩ fun _ => id

theorem length_namesOf {ts : List Ty} (h : ∀ t ∈ ts, t.IsParameter place) : (namesOf ts).length = ts.length := by
  induction ts with
  | nil => rfl
  | cons t ts ih =>
    obtain ⟨first, rest⟩ := forall_mem_cons.1 h
    obtain ⟨name, named⟩ := first.named
    rw [namesOf, filterMap_cons, named]
    exact congrArg Nat.succ (ih rest)

end Ty

/-- Whether a signature mentions no type parameters but its own and those known outside it, its bounds included. -/
structure Signature.Regular (error : Prop) (arities : Arities) (outer : String → Prop) (s : Signature) : Prop where
  typeParameters : ∀ t ∈ s.typeParameters,
    t.IsParameter (arities.within error fun name => outer name ∨ name ∈ Ty.namesOf s.typeParameters)
  type : s.type.Fits (arities.declaring error outer (Ty.namesOf s.typeParameters))

namespace TypeScope

variable {bounds : BoundTable} {arities : Arities} {scope : TypeScope} {place : Place} {error : Prop}

theorem lowerReported_yields (bounds : BoundTable) (scope : TypeScope) (type : TypeExpr) (always : Prop) :
    Yields always (scope.lowerReported type) fun found => (found = none → always) ∧
      ∀ t, found = some t → ∀ place, scope.Suits bounds place → t.Fits place := by
  refine FindM.reporting_yields (fun s _ => ⟨fun t done => ⟨trivial, fun place h => ?_⟩, fun _ => trivial⟩) _ always
  exact ((type.lower_fits h s trivial).1 t done).2

theorem lowerBound_lowers (h : scope.Suits bounds place) (bound : BoundExpr) :
    Lowers (fun _ => True) True (scope.lowerBound bounds bound) fun ref => ref.Fits place := by
  rw [lowerBound]
  cases known : bounds.parameterCount? bound.name with
  | none => exact .throw
  | some expected =>
    refine .bind .expectArguments fun _ count => .bind (TypeExpr.lowerAll_fits h bound.arguments) ?_
    intro arguments fit
    refine .pure ⟨?_, fit.1⟩
    rw [h.arities, fit.2, count]
    exact known

/-- Type parameters are read under their names. A bound that cannot be read is left out, so that they are in order in
any case. -/
theorem declareParameters_yields {known : String → Prop} (suits : scope.Suits bounds (arities.within error known))
    (rest : List TypeParameter) (done : List Ty) (names : ∀ p ∈ rest, known p.name)
    (read : ∀ t ∈ done, t.IsParameter (arities.within error known) ∧ t.Fits (arities.within error known)) :
    Yields True (scope.declareParameters bounds done rest) fun ts =>
      (∀ t ∈ ts, t.IsParameter (arities.within error known)) ∧
        ∃ more, ts = done ++ more ∧ more.map Ty.parameterName? = rest.map fun p => some p.name := by
  induction rest generalizing done with
  | nil => exact .pure ⟨fun t mem => (read t mem).1, [], (append_nil _).symm, rfl⟩
  | cons parameter rest ih =>
    obtain ⟨name, others⟩ := forall_mem_cons.1 names
    have next : ∀ bound : Option BoundRef, (∀ ref, bound = some ref → ref.Fits (arities.within error known)) →
        Yields True (scope.declareParameters bounds (done ++ [Ty.ofParameter parameter.name bound]) rest) fun ts =>
          (∀ t ∈ ts, t.IsParameter (arities.within error known)) ∧ ∃ more, ts = done ++ more ∧
            more.map Ty.parameterName? = (parameter :: rest).map fun p => some p.name := by
      intro bound fits
      have named : (Ty.ofParameter parameter.name bound).parameterName? = some parameter.name := by
        cases bound <;> rfl
      refine (ih _ others (forall_mem_append.2 ⟨read, forall_mem_singleton.2 ?_⟩)).mono ?_
      · cases bound with
        | none => exact ⟨trivial, name⟩
        | some ref => exact ⟨fits ref rfl, name, fits ref rfl⟩
      · rintro ts ⟨all, more, same, names⟩
        exact ⟨all, _ :: more, same.trans (List.append_assoc ..), by simp [named, names]⟩
    rw [declareParameters]
    cases parameter.bound with
    | none => exact next none fun _ isNone => by cases isNone
    | some bound =>
      have inner : (scope.extend (done ++ (parameter :: rest).map fun p => Ty.parameter p.name)).Suits bounds
          (arities.within error known) := by
        refine Fits.extend suits (forall_mem_append.2 ⟨fun t mem => (read t mem).2, fun t mem => ?_⟩)
        obtain ⟨p, isOne, rfl⟩ := mem_map.1 mem
        exact names p isOne
      exact .after (FindM.reporting_yields (lowerBound_lowers inner bound) bound.span True) fun found fits =>
        next found fits.2

theorem declareParameters_within {outer : String → Prop} (suits : scope.Suits bounds (arities.within error outer))
    (parameters : List TypeParameter) : Yields True (scope.declareParameters bounds [] parameters) fun ts =>
      (∀ t ∈ ts, t.IsParameter (arities.within error fun name => outer name ∨ name ∈ Ty.namesOf ts)) ∧
        ts.length = parameters.length := by
  have wider : scope.Suits bounds
      (arities.within error fun name => outer name ∨ name ∈ parameters.map TypeParameter.name) :=
    ⟨suits.arities, suits.named, fun t mem => (suits.parameters t mem).within fun _ => .inl,
      fun name => (suits.aliasOf name).mono fun _ fits => fits.within fun _ => .inl⟩
  refine (declareParameters_yields wider parameters [] (fun p mem => .inr (mem_map_of_mem mem))
    fun _ mem => by cases mem).mono ?_
  rintro ts ⟨all, more, rfl, names⟩
  have listed : Ty.namesOf ts = parameters.map TypeParameter.name := by
    have read := congrArg (List.filterMap id) names
    simpa [Ty.namesOf, filterMap_map, Function.comp_def] using read
  rw [listed]
  exact ⟨all, by simpa using congrArg List.length names⟩

theorem Suits.declaring {outer : String → Prop} (h : scope.Suits bounds (arities.within error outer)) {ts : List Ty}
    (parameters : ∀ t ∈ ts, t.IsParameter (arities.within error fun name => outer name ∨ name ∈ Ty.namesOf ts)) :
    (scope.extend ts).Suits bounds (arities.declaring error outer (Ty.namesOf ts)) where
  arities := h.arities
  named := h.named
  parameters := forall_mem_append.2 ⟨fun t mem => (h.parameters t mem).declaring _, fun t mem =>
    (parameters t mem).declaring fun _ named => Ty.mem_namesOf.2 ⟨t, mem, named⟩⟩
  aliasOf name := (h.aliasOf name).mono fun _ fits => fits.declaring _

section Reported

variable (h : scope.Suits bounds place)
include h

theorem lowerOrError_fits (type : TypeExpr) : Yields place.error (scope.lowerOrError type) fun t => t.Fits place := by
  refine (FindM.reporting_yields (type.lower_fits h) type.span place.error).bind fun found => .pure fun answer => ?_
  cases found with
  | none => exact answer.1 rfl
  | some t => exact answer.2 t rfl

theorem lowerParams_fits (decls : List ParameterDecl) :
    Yields place.error (scope.lowerParams decls) fun params => Ty.FitAll place (params.map (·.2)) := by
  induction decls with
  | nil => exact .pure trivial
  | cons decl rest ih =>
    exact (lowerOrError_fits h decl.type).bind fun _ => ih.bind fun _ => .pure fun more first => ⟨first, more⟩

theorem lowerReturns_fits (types : List TypeExpr) :
    Yields place.error (scope.lowerReturns types) (Ty.FitAll place) := by
  induction types with
  | nil => exact .pure trivial
  | cons type rest ih =>
    exact (lowerOrError_fits h type).bind fun _ => ih.bind fun _ => .pure fun more first => ⟨first, more⟩

end Reported

theorem lowerSignature_regular {outer : String → Prop} (h : scope.Suits bounds (arities.within error outer))
    (decl : FunctionDecl) : Yields error (scope.lowerSignature bounds decl) (Signature.Regular error arities outer) := by
  refine .after (declareParameters_within h decl.typeParameters) fun ts parameters => ?_
  have inner := h.declaring parameters.1
  refine (lowerParams_fits inner decl.parameters).bind fun params => ?_
  exact (lowerReturns_fits inner decl.returns).bind fun returns =>
    .pure fun right left => ⟨parameters.1, left, right⟩

end TypeScope

end SemanticChecker
