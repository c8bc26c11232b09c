import SemanticChecker.Proofs.Composition.Merge
import SemanticChecker.Proofs.Composition.Regular

/-! What the bounds of type parameters name. All names are in scope from the start, but a bound sees the parameters that
come before its own with their bounds and all others without. So what a bound names is the parameter as the rest of the
signature sees it exactly if that one comes before or has no bound. -/
namespace SemanticChecker

open List

def TypeExprKind.inner : TypeExprKind → List TypeExpr
  | .named _ arguments => arguments
  | .tuple elements => elements
  | .repeated element arity => List.replicate arity element
  | .function parameters returns => parameters ++ returns

def Ty.inner : Ty → List Ty
  | .tuple slots => slots
  | .list element => [element]
  | .dict key value => [key, value]
  | .struct _ arguments => arguments
  | .function parameters returns => parameters ++ returns
  | _ => []

/-- Whether a type that stands for a written one has a part where a name is written, at any depth. -/
inductive TypeExpr.Places (name : String) : TypeExpr → Ty → Ty → Prop
  | here {span : Span} {t : Ty} : Places name ⟨.named name [], span⟩ t t
  | inside {kind : TypeExprKind} {span : Span} {t part : Ty} (pair : TypeExpr × Ty) :
    pair ∈ kind.inner.zip t.inner → Places name pair.1 pair.2 part → Places name ⟨kind, span⟩ t part

/-- Whether a written type can be lowered to a type in a scope. -/
def TypeScope.Reads (scope : TypeScope) (type : TypeExpr) (t : Ty) : Prop :=
  ∃ s, ((type.lower scope).run.run s).1 = .ok t

namespace TypeScope

variable {scope : TypeScope}

theorem lower_reads (type : TypeExpr) : Lowers (fun _ => True) True (type.lower scope) (scope.Reads type) :=
  fun s _ => ⟨fun _ done => ⟨trivial, s, done⟩, fun _ => trivial⟩

theorem lowerAll_reads (types : List TypeExpr) :
    Lowers (fun _ => True) True (TypeExpr.lowerAll scope types) (List.Forall₂ scope.Reads types) := by
  induction types with
  | nil => exact .pure .nil
  | cons type rest ih => exact .bind (lower_reads type) fun _ first => .bind ih fun _ more => .pure (.cons first more)

theorem zip_reads {types : List TypeExpr} {ts : List Ty} (all : List.Forall₂ scope.Reads types ts) :
    ∀ pair ∈ types.zip ts, scope.Reads pair.1 pair.2 :=
  fun _ => List.forall₂_iff_zip.1 all |>.2

/-- Lowering a type lowers its parts. -/
theorem lower_inner (kind : TypeExprKind) (span : Span) : Lowers (fun _ => True) True (TypeExpr.lower scope ⟨kind, span⟩)
    fun t => ∀ pair ∈ kind.inner.zip t.inner, scope.Reads pair.1 pair.2 := by
  cases kind with
  | named name arguments =>
    rw [TypeExpr.lower, TypeExprKind.lower]
    cases scope.head? name with
    | none => exact .throw
    | some head =>
      refine .bind .expectArguments fun _ count => .bind (lowerAll_reads arguments) fun types all => ?_
      cases head with
      | list =>
        obtain ⟨element, rfl⟩ := length_eq_one_iff.1 (all.length_eq.symm.trans count)
        exact .pure (zip_reads all)
      | dict =>
        obtain ⟨key, value, rfl⟩ := length_eq_two.1 (all.length_eq.symm.trans count)
        exact .pure (zip_reads all)
      | struct id arity =>
        rw [TypeHead.apply]
        split
        · exact .pure (zip_reads all)
        · exact .bind .addPending fun _ _ => .pure (zip_reads all)
      | _ =>
        cases length_eq_zero_iff.1 count
        exact fun s _ => ⟨fun _ _ => ⟨trivial, fun _ mem => by cases mem⟩, fun _ => trivial⟩
  | tuple elements => exact .bind (lowerAll_reads elements) fun _ all => .pure (zip_reads all)
  | repeated element arity =>
    refine .bind (lower_reads element) fun t reads => .pure fun pair mem => ?_
    obtain ⟨left, right⟩ := of_mem_zip mem
    rw [eq_of_mem_replicate left, eq_of_mem_replicate right]
    exact reads
  | function parameters returns =>
    exact .bind (lowerAll_reads parameters) fun _ left => .bind (lowerAll_reads returns) fun _ right =>
      .pure (zip_reads (rel_append left right))

/-- What is lowered has, where it names a type parameter, what the name stands for. -/
theorem Reads.places {name : String} {type : TypeExpr} {t part u : Ty} (known : scope.parameter? name = some u)
    (places : type.Places name t part) (reads : scope.Reads type t) : part = u := by
  induction places with
  | here =>
    obtain ⟨s, done⟩ := reads
    have head : scope.head? name = some (.type u) := by rw [head?, known]
    rw [TypeExpr.lower, TypeExprKind.lower, head] at done
    cases done
    rfl
  | inside pair mem _ ih =>
    obtain ⟨s, done⟩ := reads
    exact ih (((lower_inner _ _ s trivial).1 _ done).2 pair mem)

theorem parameter?_extend {entries : List Ty} {names : List String}
    (named : entries.map Ty.parameterName? = names.map some) (distinct : names.Nodup) {position : Nat} {name : String}
    (isName : names[position]? = some name) : (scope.extend entries).parameter? name = entries[position]? := by
  have nodup : (entries.reverse.map Ty.parameterName?).Nodup := by
    rw [map_reverse, nodup_reverse, named]
    exact distinct.map (Option.some_injective _)
  have same := congrArg (·[position]?) named
  simp only [getElem?_map, isName, Option.map_some] at same
  obtain ⟨t, here, isT⟩ := Option.map_eq_some_iff.1 same
  have found := Merge.find?_of_nodup nodup (mem_reverse.2 (mem_of_getElem? here))
  rw [isT] at found
  rw [parameter?, extend, reverse_append, find?_append, found, here]
  rfl

/-- Whether a type is what a type parameter is declared as where its bound is read in a scope. -/
def Declares (scope : TypeScope) (parameter : TypeParameter) (t : Ty) : Prop :=
  parameter.bound = none ∧ t = .parameter parameter.name ∨
    ∃ bound arguments, parameter.bound = some bound ∧ t = .bounded parameter.name bound.name arguments ∧
      List.Forall₂ scope.Reads bound.arguments arguments

theorem lowerBound_reads (bounds : BoundTable) (bound : BoundExpr) : Lowers (fun _ => True) True
    (scope.lowerBound bounds bound) fun ref => ref.name = bound.name ∧ List.Forall₂ scope.Reads bound.arguments ref.arguments := by
  rw [lowerBound]
  cases bounds.parameterCount? bound.name with
  | none => exact .throw
  | some expected => exact .bind .expectArguments fun _ _ => .bind (lowerAll_reads _) fun _ all => .pure ⟨rfl, all⟩

/-- Whether types are what the type parameters after some others are declared as. Each sees those before it as they are
declared, and itself and those after it without bounds. -/
def DeclaresEach (scope : TypeScope) (done : List Ty) (rest : List TypeParameter) (ts : List Ty) : Prop :=
  ts.map Ty.parameterName? = (rest.map (·.name)).map some ∧ ∀ (k : Nat) p t, rest[k]? = some p → ts[k]? = some t →
    (scope.extend (done ++ ts.take k ++ (rest.drop k).map fun p => .parameter p.name)).Declares p t

theorem declareParameters_declares (scope : TypeScope) (bounds : BoundTable) (rest : List TypeParameter) (done : List Ty) :
    Ensures (scope.declareParameters bounds done rest) fun ts => ∃ more, ts = done ++ more ∧
      scope.DeclaresEach done rest more := by
  induction rest generalizing done with
  | nil => exact .pure ⟨[], (append_nil _).symm, rfl, fun _ _ _ none => by cases none⟩
  | cons parameter rest ih =>
    have next : ∀ bound, Ensures (scope.declareParameters bounds (done ++ [Ty.ofParameter parameter.name bound]) rest)
        fun ts => (scope.extend (done ++ (parameter :: rest).map fun p => .parameter p.name)).Declares parameter
          (Ty.ofParameter parameter.name bound) →
            ∃ more, ts = done ++ more ∧ scope.DeclaresEach done (parameter :: rest) more := by
      intro bound
      refine (ih _).mono ?_
      rintro ts ⟨more, rfl, names, each⟩ first
      refine ⟨Ty.ofParameter parameter.name bound :: more, by simp, ?_, fun k p t isP isT => ?_⟩
      · cases bound <;> simp [names, Ty.ofParameter, Ty.parameterName?]
      · cases k with
        | zero =>
          cases isP
          cases isT
          simpa using first
        | succ k => simpa using each k p t isP isT
    rw [declareParameters]
    cases isBound : parameter.bound with
    | none => exact (next none).mono fun ts h => h (.inl ⟨isBound, rfl⟩)
    | some bound =>
      refine .bind (FindM.reporting_yields (lowerBound_reads bounds bound) bound.span False).1 fun found => ?_
      refine (next found).mono fun ts h read => h (.inr ?_)
      cases found with
      | none => exact (read.1 rfl).elim
      | some ref =>
        obtain ⟨name, all⟩ := read.2 ref rfl
        exact ⟨bound, ref.arguments, isBound, by rw [Ty.ofParameter, name], all⟩

/-- A bound names another type parameter as the rest of the signature sees it exactly if that one is listed before or has
no bound. -/
theorem bounds_name_parameters (scope : TypeScope) (bounds : BoundTable) {parameters : List TypeParameter}
    (distinct : (parameters.map (·.name)).Nodup)
    (silent : Harmless ((scope.declareParameters bounds [] parameters).run {}).2.diagnostics) :
    let ts := ((scope.declareParameters bounds [] parameters).run {}).1
    (∀ (j : Nat) q, parameters[j]? = some q → ∃ u, ts[j]? = some u ∧ (scope.extend ts).parameter? q.name = some u ∧
      (u = .parameter q.name ↔ q.bound = none)) ∧
    ∀ (i : Nat) p bound, parameters[i]? = some p → p.bound = some bound → ∃ arguments,
      ts[i]? = some (.bounded p.name bound.name arguments) ∧ arguments.length = bound.arguments.length ∧
      ∀ pair ∈ bound.arguments.zip arguments, ∀ (j : Nat) q part, parameters[j]? = some q →
        pair.1.Places q.name pair.2 part →
          (ts[j]? = some part ↔ j < i ∨ q.bound = none) ∧ (i ≤ j → part = .parameter q.name) := by
  obtain ⟨ts, isAnswer, names, each⟩ := (scope.declareParameters_declares bounds parameters []).fresh.2 silent
  rw [nil_append] at isAnswer
  have at_some : ∀ (j : Nat) q, parameters[j]? = some q → ∃ u, ts[j]? = some u := fun j q isQ => by
    have inside := (List.getElem?_eq_some_iff.1 isQ).1
    have same : ts.length = parameters.length := by simpa using congrArg List.length names
    exact ⟨_, getElem?_eq_getElem (same ▸ inside)⟩
  have isName : ∀ (j : Nat) q, parameters[j]? = some q → (parameters.map (·.name))[j]? = some q.name :=
    fun j q isQ => by rw [getElem?_map, isQ]; rfl
  have final : ∀ (j : Nat) q, parameters[j]? = some q → ∃ u, ts[j]? = some u ∧
      (scope.extend ts).parameter? q.name = some u ∧ (u = .parameter q.name ↔ q.bound = none) := by
    intro j q isQ
    obtain ⟨u, isU⟩ := at_some j q isQ
    refine ⟨u, isU, (parameter?_extend names distinct (isName j q isQ)).trans isU, ?_⟩
    rcases each j q u isQ isU with ⟨none, rfl⟩ | ⟨bound, arguments, isBound, rfl, _⟩
    · simp [none]
    · simp [isBound]
  intro answer
  rw [show answer = ts from isAnswer]
  refine ⟨final, fun i p bound isP isBound => ?_⟩
  obtain ⟨u, isU⟩ := at_some i p isP
  rcases each i p u isP isU with ⟨none, _⟩ | ⟨other, arguments, isOther, rfl, all⟩
  · cases isBound.symm.trans none
  · cases isBound.symm.trans isOther
    refine ⟨arguments, isU, all.length_eq.symm, fun pair mem j q part isQ places => ?_⟩
    obtain ⟨v, isV, _, plain⟩ := final j q isQ
    -- The bound is read where the types before it are declared and the others stand without bounds.
    have known : (scope.extend (ts.take i ++ (parameters.drop i).map fun p => .parameter p.name)).parameter? q.name =
        (ts.take i ++ (parameters.drop i).map fun p => Ty.parameter p.name)[j]? := by
      refine parameter?_extend ?_ distinct (isName j q isQ)
      rw [map_append, map_take, names, ← map_take, ← map_take]
      nth_rewrite 3 [← take_append_drop i parameters]
      simp [Ty.parameterName?, Function.comp_def]
    have short : (ts.take i).length = i := length_take_of_le (List.getElem?_eq_some_iff.1 isU).1.le
    rcases Nat.lt_or_ge j i with before | after
    · rw [getElem?_append_left (by rwa [short]), getElem?_take_of_lt before, isV] at known
      rw [Reads.places known places (zip_reads all pair mem)]
      exact ⟨iff_of_true isV (.inl before), fun after => absurd before (Nat.not_lt.2 after)⟩
    · rw [getElem?_append_right (by rwa [short]), short, getElem?_map, getElem?_drop,
        Nat.add_sub_cancel' after, isQ] at known
      rw [Reads.places known places (zip_reads all pair mem), isV, Option.some_inj, plain,
        or_iff_right (Nat.not_lt.2 after)]
      exact ⟨Iff.rfl, fun _ => rfl⟩

def rowsParameters : List TypeParameter :=
  [{ name := "C", bound := some { name := "Collection", arguments := [⟨.named "List" [⟨.named "I" [], {}⟩], {}⟩] } },
    { name := "I", bound := some { name := "Ordered" } }]

def emptyScope : TypeScope where
  table := {}
  aliasOf name := throw (.unresolved name)
  module := .root

/-- A bound that names a parameter of after does not name what the rest of the signature sees. -/
theorem bounds_name_parameters_rows :
    ((emptyScope.declareParameters .standard [] rowsParameters).run {}).1[0]? =
        some (.bounded "C" "Collection" [.list (.parameter "I")]) ∧
      ((emptyScope.declareParameters .standard [] rowsParameters).run {}).1[1]? ≠ some (.parameter "I") := by
  refine ⟨rfl, fun same => ?_⟩
  have silent : Harmless ((emptyScope.declareParameters .standard [] rowsParameters).run {}).2.diagnostics := by
    intro d mem
    cases mem
  obtain ⟨arguments, isBounded, _, mentions⟩ :=
    (bounds_name_parameters emptyScope .standard (by decide) silent).2 0 _ _ rfl rfl
  cases isBounded
  have inside : TypeExpr.Places "I" ⟨.named "List" [⟨.named "I" [], {}⟩], {}⟩ (.list (.parameter "I")) (.parameter "I") :=
    .inside (_, _) mem_cons_self .here
  simpa using (mentions _ mem_cons_self 1 _ _ rfl inside).1.1 same

end TypeScope

end SemanticChecker
