import SemanticChecker.Proofs.Soundness.Declared

/-! The table of a program in closed form. A declaration is given its meaning apart from all others: what was
found before it changes nothing, and it only adds to that. So the shape of a struct, the signature of a function
and the definition of an enumeration are functions of the names that are entered and of the aliases. Where no name
clashes, what is entered is all that the units declare, in order. -/
namespace SemanticChecker

open List

instance : Append Findings where
  append first second := ⟨first.pending ++ second.pending, first.diagnostics ++ second.diagnostics⟩

namespace Findings

theorem append_empty (found : Findings) : found ++ {} = found := by
  obtain ⟨pending, diagnostics⟩ := found
  exact congrArg₂ Findings.mk (append_nil _) (append_nil _)

theorem append_assoc (first second third : Findings) : first ++ second ++ third = first ++ (second ++ third) :=
  congrArg₂ Findings.mk (List.append_assoc ..) (List.append_assoc ..)

end Findings

def Findings.ofEach {α : Type} (found : α → Findings) (sources : List α) : Findings :=
  ⟨sources.flatMap fun a => (found a).pending, sources.flatMap fun a => (found a).diagnostics⟩

def FindM.Adds {α : Type} (work : FindM α) : Prop :=
  ∀ s : Findings, work.run s = ((work.run {}).1, s ++ (work.run {}).2)

namespace FindM.Adds

variable {α β : Type}

theorem pure (a : α) : Adds (Pure.pure a : FindM α) :=
  fun s => congrArg (Prod.mk a) s.append_empty.symm

theorem run_bind {x : FindM α} {f : α → FindM β} (second : ∀ a, Adds (f a)) :
    (x >>= f).run {} = (((f (x.run {}).1).run {}).1, (x.run {}).2 ++ ((f (x.run {}).1).run {}).2) :=
  second _ _

theorem bind {x : FindM α} {f : α → FindM β} (first : Adds x) (second : ∀ a, Adds (f a)) : Adds (x >>= f) := by
  intro s
  have step : (x >>= f).run s = (f (x.run s).1).run (x.run s).2 := rfl
  rw [step, first s, second, run_bind second, Findings.append_assoc]

theorem forgetting {x : FindM α} {f : α → FindM β} (first : Adds x) (second : ∀ a, Adds (f a)) :
    Adds (do
      let before := (← get).pending
      let a ← x
      modify fun s => { s with pending := before }
      f a) := by
  intro s
  have step : ∀ s : Findings, (do
      let before := (← get).pending
      let a ← x
      modify fun s => { s with pending := before }
      f a : FindM β).run s = (f (x.run s).1).run { (x.run s).2 with pending := s.pending } := fun _ => rfl
  rw [step, step, first s, second, second _ { (x.run {}).2 with pending := _ }]
  refine congrArg (Prod.mk _) (congrArg₂ Findings.mk rfl ?_)
  exact List.append_assoc ..

theorem report (d : Diagnostic) : Adds (FindM.report d) :=
  fun _ => congrArg (Prod.mk ()) (congrArg₂ Findings.mk (append_nil _).symm rfl)

theorem reporting (span : Span) (work : LowerM α) : Adds (FindM.reporting span work) := by
  intro s
  rcases found : work.run.run {} with ⟨result, done⟩
  cases result with
  | ok a =>
    rw [FindM.reporting, found]
    exact congrArg (Prod.mk (some a)) (congrArg₂ Findings.mk rfl (append_nil _).symm)
  | error e =>
    rw [FindM.reporting, found]
    rfl

end FindM.Adds

namespace TypeScope

theorem lowerOrError_adds (scope : TypeScope) (type : TypeExpr) : FindM.Adds (scope.lowerOrError type) :=
  .bind (.reporting _ _) fun _ => .pure _

theorem declareParameters_adds (scope : TypeScope) (bounds : BoundTable) :
    ∀ (parameters : List TypeParameter) (done : List Ty), FindM.Adds (scope.declareParameters bounds done parameters)
  | [], _ => .pure _
  | parameter :: rest, done => by
    have next := fun bound => scope.declareParameters_adds bounds rest (done ++ [Ty.ofParameter parameter.name bound])
    rw [declareParameters]
    cases parameter.bound with
    | none => exact next none
    | some bound => exact .bind (.reporting _ _) next

theorem lowerParams_adds (scope : TypeScope) : ∀ params : List ParameterDecl, FindM.Adds (scope.lowerParams params)
  | [] => .pure _
  | _ :: rest => .bind (scope.lowerOrError_adds _) fun _ => .bind (scope.lowerParams_adds rest) fun _ => .pure _

theorem lowerReturns_adds (scope : TypeScope) (types : List TypeExpr) : FindM.Adds (scope.lowerReturns types) := by
  induction types with
  | nil => exact .pure _
  | cons type rest ih => exact .bind (scope.lowerOrError_adds type) fun _ => .bind ih fun _ => .pure _

theorem lowerSignature_adds (scope : TypeScope) (bounds : BoundTable) (decl : FunctionDecl) :
    FindM.Adds (scope.lowerSignature bounds decl) :=
  .bind (scope.declareParameters_adds bounds _ _) fun _ => .bind (lowerParams_adds _ _) fun _ =>
    .bind (lowerReturns_adds _ _) fun _ => .pure _

end TypeScope

namespace EnumRegistry

theorem size_install (registry : EnumRegistry) (id : EnumId) (read : Except EnumError EnumInfo) :
    (registry.install id read).2.size = registry.size := by
  unfold install
  split
  · cases read <;> exact length_set
  · rfl

theorem get?_install {registry : EnumRegistry} {id other : EnumId} (inside : other.index < registry.size)
    {read : Except EnumError EnumInfo} :
    (registry.install id read).2.get? other = if id = other then read.toOption else registry.get? other := by
  unfold install
  by_cases here : id = other
  · subst here
    rw [if_pos inside, if_pos rfl]
    cases read <;> rw [get?, getElem?_set_self inside] <;> rfl
  · have differ : id.index ≠ other.index := fun same => here (congrArg EnumId.mk same)
    rw [if_neg here]
    split
    · cases read <;> rw [get?, getElem?_set_ne differ, get?]
    · rfl

end EnumRegistry

namespace Declarations

theorem lowerParents_adds (table : DeclTable) (scope : TypeScope) (name : String) (parents : List TypeExpr) :
    FindM.Adds (lowerParents table scope name parents) := by
  induction parents with
  | nil => exact .pure _
  | cons parent rest others =>
    rw [lowerParents]
    refine .bind (.reporting _ _) fun found => ?_
    cases found with
    | none => exact others
    | some t =>
      cases t with
      | struct id arguments => exact .bind others fun _ => .pure _
      | _ => exact .bind (.report _) fun _ => others

theorem lowerFields_adds (scope : TypeScope) : ∀ fields : List FieldDecl, FindM.Adds (lowerFields scope fields)
  | [] => .pure _
  | _ :: rest => .bind (scope.lowerOrError_adds _) fun _ => .bind (lowerFields_adds scope rest) fun _ => .pure _

theorem lowerMethods_adds (bounds : BoundTable) (scope : TypeScope) :
    ∀ methods : List FunctionDecl, FindM.Adds (lowerMethods bounds scope methods)
  | [] => .pure _
  | _ :: rest =>
    .bind (scope.lowerSignature_adds bounds _) fun _ => .bind (lowerMethods_adds bounds scope rest) fun _ => .pure _

theorem lowerStruct_adds (declared : Declarations) (bounds : BoundTable) (own : StructDef) :
    FindM.Adds (declared.lowerStruct bounds own) :=
  .bind (TypeScope.declareParameters_adds _ bounds _ _) fun _ => .bind (lowerParents_adds _ _ _ _) fun _ =>
    .bind (lowerFields_adds _ _) fun _ => .bind (lowerMethods_adds bounds _ _) fun _ => .pure _

theorem lowerEnum_adds (declared : Declarations) (source : EnumSource) : FindM.Adds (declared.lowerEnum source) := by
  refine .forgetting (.reporting _ _) fun backing => ?_
  cases backing with
  | none => exact .pure _
  | some t =>
    cases t with
    | primitive kind => exact .pure _
    | _ => exact .bind (.report _) fun _ => .pure _

section Meaning

variable (declared : Declarations) (bounds : BoundTable)

def shapeOf (own : StructDef) : StructShape :=
  ((declared.lowerStruct bounds own).run {}).1

def shapeFindings (own : StructDef) : Findings :=
  ((declared.lowerStruct bounds own).run {}).2

def signatureOf (own : FunctionDef) : Signature :=
  (((declared.scope own.module []).lowerSignature bounds own.decl).run {}).1

def signatureFindings (own : FunctionDef) : Findings :=
  (((declared.scope own.module []).lowerSignature bounds own.decl).run {}).2

/-- The definition of an enumeration, unless the type behind it is no primitive. -/
def definitionOf (source : EnumSource) : Option (Except EnumError EnumInfo) :=
  ((declared.lowerEnum source).run {}).1

def definitionFindings (source : EnumSource) : Findings :=
  ((declared.lowerEnum source).run {}).2

/-- Work done for each of a list, one after the other. -/
theorem run_each {α β κ : Type} {key : α → κ} {work : α → FindM β} {all : List α → FindM (List (κ × β))}
    (adds : ∀ a, FindM.Adds (work a)) (nil : all [] = pure [])
    (cons : ∀ a rest, all (a :: rest) = do
      let b ← work a
      return (key a, b) :: (← all rest)) (sources : List α) :
    FindM.Adds (all sources) ∧ (all sources).run {} =
      (sources.map fun a => (key a, ((work a).run {}).1), .ofEach (fun a => ((work a).run {}).2) sources) := by
  induction sources with
  | nil =>
    rw [nil]
    exact ⟨.pure _, rfl⟩
  | cons a rest ih =>
    have next : ∀ b, FindM.Adds (do
        return (key a, b) :: (← all rest)) := fun _ => .bind ih.1 fun _ => .pure _
    rw [cons]
    refine ⟨.bind (adds a) next, ?_⟩
    rw [FindM.Adds.run_bind next, FindM.Adds.run_bind fun _ => .pure _, ih.2]
    exact congrArg (Prod.mk _) (congrArg (_ ++ ·) (Findings.append_empty _))

theorem lowerStructs_run (structs : List StructDef) : FindM.Adds (declared.lowerStructs bounds structs) ∧
    (declared.lowerStructs bounds structs).run {} =
      (structs.map fun own => (own.id, declared.shapeOf bounds own),
        .ofEach (declared.shapeFindings bounds) structs) :=
  run_each (declared.lowerStruct_adds bounds) rfl (fun _ _ => rfl) structs

theorem lowerFunctions_run (functions : List FunctionDef) : FindM.Adds (declared.lowerFunctions bounds functions) ∧
    (declared.lowerFunctions bounds functions).run {} =
      (functions.map fun own => (own.id, declared.signatureOf bounds own),
        .ofEach (declared.signatureFindings bounds) functions) :=
  run_each (fun own : FunctionDef => TypeScope.lowerSignature_adds _ bounds own.decl) rfl (fun _ _ => rfl) functions

theorem lowerEnums_run (sources : List EnumSource) : FindM.Adds (declared.lowerEnums sources) ∧
    (declared.lowerEnums sources).run {} =
      (sources.filterMap fun source => (declared.definitionOf source).map (source.id, ·),
        .ofEach declared.definitionFindings sources) := by
  induction sources with
  | nil => exact ⟨.pure _, rfl⟩
  | cons source rest ih =>
    rw [lowerEnums]
    refine ⟨.bind (declared.lowerEnum_adds source) fun read => .bind ih.1 fun _ => by cases read <;> exact .pure _, ?_⟩
    rw [FindM.Adds.run_bind fun read => .bind ih.1 fun _ => by cases read <;> exact .pure _, FindM.Adds.run_bind, ih.2,
      filterMap_cons, definitionOf]
    · cases ((declared.lowerEnum source).run {}).1 with
      | none => exact congrArg (Prod.mk _) (congrArg (_ ++ ·) (Findings.append_empty _))
      | some read => exact congrArg (Prod.mk _) (congrArg (_ ++ ·) (Findings.append_empty _))
    · intro more
      cases ((declared.lowerEnum source).run {}).1 <;> exact .pure _

def unitFindings (unit : UnitId) : Findings :=
  .ofEach (declared.shapeFindings bounds) (declared.table.structs.filter (·.unit == unit)) ++
    (.ofEach (declared.signatureFindings bounds) (declared.table.functions.filter (·.unit == unit)) ++
      .ofEach declared.definitionFindings (declared.table.enums.filter (·.unit == unit)))

theorem lowerUnit_eq (unit : UnitId) : declared.lowerUnit bounds unit =
    { unit
      structs := (declared.table.structs.filter (·.unit == unit)).map fun own =>
        (own.id, declared.shapeOf bounds own)
      functions := (declared.table.functions.filter (·.unit == unit)).map fun own =>
        (own.id, declared.signatureOf bounds own)
      enums := (declared.table.enums.filter (·.unit == unit)).filterMap fun source =>
        (declared.definitionOf source).map (source.id, ·)
      pending := (declared.unitFindings bounds unit).pending
      diagnostics := (declared.unitFindings bounds unit).diagnostics.map (·.inSource unit) } := by
  obtain ⟨_, structs⟩ := declared.lowerStructs_run bounds (declared.table.structs.filter (·.unit == unit))
  obtain ⟨second, functions⟩ := declared.lowerFunctions_run bounds (declared.table.functions.filter (·.unit == unit))
  obtain ⟨third, enums⟩ := declared.lowerEnums_run (declared.table.enums.filter (·.unit == unit))
  have done : ∀ (structs : List (StructId × StructShape)) (functions : List (FunctionId × Signature))
      (enums : List (EnumId × Except EnumError EnumInfo)),
      FindM.Adds (return { unit, structs, functions, enums } : FindM LoweredUnit) := fun _ _ _ => .pure _
  rw [unitFindings, ← Findings.append_empty (.ofEach declared.definitionFindings _), lowerUnit,
    FindM.Adds.run_bind fun _ => .bind second fun _ => .bind third (done _ _), structs,
    FindM.Adds.run_bind fun _ => .bind third (done _ _), functions, FindM.Adds.run_bind (done _ _), enums]
  rfl

end Meaning

theorem installEnums_cons (unit : UnitId) (registry : EnumRegistry) (id : EnumId) (read : Except EnumError EnumInfo)
    (rest : List (EnumId × Except EnumError EnumInfo)) : (installEnums unit registry ((id, read) :: rest)).1 =
      (installEnums unit (registry.install id read).2 rest).1 := by
  rw [installEnums]
  dsimp only
  split <;> rfl

theorem installEnums_size (unit : UnitId) (entries : List (EnumId × Except EnumError EnumInfo))
    (registry : EnumRegistry) : (installEnums unit registry entries).1.size = registry.size := by
  induction entries generalizing registry with
  | nil => rfl
  | cons entry rest ih => rw [installEnums_cons, ih, EnumRegistry.size_install]

/-- What reading definitions leaves behind a number, if all that is read for it is the same. -/
theorem installEnums_get? (unit : UnitId) {id : EnumId} {info : Option EnumInfo}
    (entries : List (EnumId × Except EnumError EnumInfo)) (registry : EnumRegistry) (inside : id.index < registry.size)
    (same : ∀ entry ∈ entries, entry.1 = id → entry.2.toOption = info)
    (known : registry.get? id = info ∨ (∃ entry ∈ entries, entry.1 = id)) :
    (installEnums unit registry entries).1.get? id = info := by
  induction entries generalizing registry with
  | nil => exact known.resolve_right (by simp)
  | cons entry rest ih =>
    obtain ⟨other, read⟩ := entry
    obtain ⟨first, others⟩ := forall_mem_cons.1 same
    have next := ih (registry.install other read).2
      (Nat.lt_of_lt_of_eq inside (registry.size_install other read).symm) others
    rw [installEnums_cons]
    refine next ?_
    rw [EnumRegistry.get?_install inside]
    by_cases here : other = id
    · rw [if_pos here]
      exact .inl (first here)
    · rw [if_neg here]
      refine known.imp_right ?_
      rintro ⟨entry, mem, isOne⟩
      rcases mem_cons.1 mem with rfl | mem
      · exact absurd isOne here
      · exact ⟨entry, mem, isOne⟩

theorem installAll_get? {id : EnumId} {info : Option EnumInfo} :
    ∀ (lowered : List LoweredUnit) (declared : Declarations), id.index < declared.enums.size →
      (∀ unit ∈ lowered, ∀ entry ∈ unit.enums, entry.1 = id → entry.2.toOption = info) →
      declared.enums.get? id = info ∨ (∃ unit ∈ lowered, ∃ entry ∈ unit.enums, entry.1 = id) →
        (declared.installAll lowered).1.enums.get? id = info
  | [], _, _, _, known => known.resolve_right fun ⟨_, mem, _⟩ => by cases mem
  | first :: rest, declared, inside, same, known => by
    obtain ⟨mine, others⟩ := forall_mem_cons.1 same
    have size := installEnums_size first.unit first.enums declared.enums
    have step := installEnums_get? first.unit first.enums declared.enums inside mine
    refine installAll_get? rest (declared.install first).1 (Nat.lt_of_lt_of_eq inside size.symm) others ?_
    rcases known with known | ⟨unit, mem, known⟩
    · exact .inl (step (.inl known))
    · rcases mem_cons.1 mem with rfl | mem
      · exact .inl (step (.inr known))
      · exact .inr ⟨unit, mem, known⟩

theorem installEnums_harmless (unit : UnitId) : ∀ (entries : List (EnumId × Except EnumError EnumInfo))
    (registry : EnumRegistry), Harmless (installEnums unit registry entries).2 ↔
      ∀ entry ∈ entries, entry.1.index < registry.size → ∃ info, entry.2 = .ok info
  | [], _ => by simp [installEnums]
  | (id, read) :: rest, registry => by
    have more := installEnums_harmless unit rest (registry.install id read).2
    rw [registry.size_install id read] at more
    rw [forall_mem_cons, ← more, installEnums]
    by_cases inside : id.index < registry.size
    · cases read with
      | ok info => simp [EnumRegistry.install, inside]
      | error e =>
        have reported : ¬ (e.diagnostic.inSource unit).isError = false := by
          rw [Diagnostic.isError_inSource, e.isError_diagnostic]
          exact Bool.noConfusion
        simp [EnumRegistry.install, inside, Harmless, reported]
    · simp [EnumRegistry.install, inside]

theorem installAll_harmless : ∀ (lowered : List LoweredUnit) (declared : Declarations),
    (declared.installAll lowered).1.enums.size = declared.enums.size ∧
      (Harmless (declared.installAll lowered).2.flatten ↔ ∀ unit ∈ lowered, ∀ entry ∈ unit.enums,
        entry.1.index < declared.enums.size → ∃ info, entry.2 = .ok info)
  | [], _ => by simp [installAll]
  | first :: rest, declared => by
    have same : (declared.install first).1.enums.size = declared.enums.size :=
      installEnums_size first.unit first.enums declared.enums
    obtain ⟨size, more⟩ := installAll_harmless rest (declared.install first).1
    have parts : (declared.installAll (first :: rest)).2.flatten =
        (installEnums first.unit declared.enums first.enums).2 ++
          ((declared.install first).1.installAll rest).2.flatten := rfl
    rw [same] at size more
    exact ⟨size, by rw [parts, harmless_append, installEnums_harmless, more, forall_mem_cons]⟩

theorem mem_installEnums {unit : UnitId} {entries : List (EnumId × Except EnumError EnumInfo)} {registry : EnumRegistry}
    {d : Diagnostic} (mem : d ∈ (installEnums unit registry entries).2) :
    ∃ error : EnumError, d = error.diagnostic.inSource unit := by
  induction entries generalizing registry with
  | nil => cases mem
  | cons entry rest ih =>
    obtain ⟨id, read⟩ := entry
    rw [installEnums] at mem
    rcases found : registry.install id read with ⟨refused, later⟩
    rw [found] at mem
    cases refused with
    | none => exact ih mem
    | some error =>
      rcases mem_cons.1 mem with rfl | mem
      · exact ⟨error, rfl⟩
      · exact ih mem

/-- All that is reported when units are entered is that definitions of enumerations are refused. -/
theorem mem_installAll {lowered : List LoweredUnit} {declared : Declarations} {d : Diagnostic}
    (mem : d ∈ (declared.installAll lowered).2.flatten) :
    ∃ (error : EnumError) (unit : UnitId), d = error.diagnostic.inSource unit := by
  induction lowered generalizing declared with
  | nil => cases mem
  | cons first rest ih =>
    rcases mem_append.1 mem with mem | mem
    · obtain ⟨error, same⟩ := mem_installEnums mem
      exact ⟨error, first.unit, same⟩
    · exact ih mem

theorem length_installAll : ∀ (lowered : List LoweredUnit) (declared : Declarations),
    (declared.installAll lowered).2.length = lowered.length
  | [], _ => rfl
  | first :: rest, declared => congrArg Nat.succ (length_installAll rest (declared.install first).1)

end Declarations

/-- Entries put in their places one after the other. -/
def putAll {α ι β : Type} (index : ι → Nat) (put : β → α → α) (entries : List (ι × β)) (xs : List α) : List α :=
  entries.foldl (fun xs entry => xs.modify (index entry.1) (put entry.2)) xs

section PutAll

variable {α ι β : Type} {index : ι → Nat} {put : β → α → α}

theorem length_putAll (entries : List (ι × β)) (xs : List α) : (putAll index put entries xs).length = xs.length := by
  induction entries generalizing xs with
  | nil => rfl
  | cons entry rest ih => exact (ih _).trans (length_modify ..)

variable (last : ∀ b c x, put b (put c x) = put b x) (key : α → ι) (answer : α → β)
include last

theorem getElem?_putAll {x w : α} {position : Nat} (here : index (key x) = position) {ys : List α}
    (only : ∀ y ∈ ys, index (key y) = position → y = x) {zs : List α} (found : zs[position]? = some w)
    (known : w = put (answer x) x ∨ w = x ∧ x ∈ ys) :
    (putAll index put (ys.map fun y => (key y, answer y)) zs)[position]? = some (put (answer x) x) := by
  induction ys generalizing zs w with
  | nil =>
    obtain rfl := known.resolve_right fun h => by cases h.2
    exact found
  | cons y rest ih =>
    obtain ⟨first, others⟩ := forall_mem_cons.1 only
    have step : (zs.modify (index (key y)) (put (answer y)))[position]? =
        some (if index (key y) = position then put (answer y) w else w) := by
      rw [getElem?_modify, found]
      rfl
    refine ih others step ?_
    by_cases same : index (key y) = position
    · obtain rfl := first same
      rw [if_pos same]
      rcases known with rfl | ⟨rfl, _⟩
      · exact .inl (last ..)
      · exact .inl rfl
    · rw [if_neg same]
      refine known.imp_right (And.imp_right fun mem => (mem_cons.1 mem).resolve_left fun isOne => same ?_)
      rw [← isOne, here]

omit last in
theorem eq_of_numbered {xs : List α} (numbered : ∀ position x, xs[position]? = some x → index (key x) = position)
    {position : Nat} {x y : α} (found : xs[position]? = some x) (mem : y ∈ xs) (place : index (key y) = position) :
    y = x := by
  obtain ⟨other, there⟩ := getElem?_of_mem mem
  rw [numbered other y there] at place
  rw [place, found] at there
  exact (Option.some.inj there).symm

/-- An answer for each entry, under its number, changes every entry by its answer. -/
theorem putAll_eq_map {xs ys : List α} (numbered : ∀ position x, xs[position]? = some x → index (key x) = position)
    (same : ∀ x, x ∈ ys ↔ x ∈ xs) :
    putAll index put (ys.map fun y => (key y, answer y)) xs = xs.map fun x => put (answer x) x := by
  refine ext_getElem? fun position => ?_
  rw [getElem?_map]
  cases found : xs[position]? with
  | none =>
    rw [List.getElem?_eq_none_iff] at found
    exact List.getElem?_eq_none_iff.2 ((length_putAll ..).trans_le found)
  | some x =>
    exact getElem?_putAll last key answer (numbered position x found)
      (fun y mem => eq_of_numbered key numbered found ((same y).1 mem)) found
      (.inr ⟨rfl, (same x).2 (mem_of_getElem? found)⟩)

end PutAll

namespace Declarations

/-- The structs with shapes entered one after the other. -/
abbrev putShapes : List (StructId × StructShape) → List StructDef → List StructDef :=
  putAll StructId.index fun shape own => { own with shape }

/-- The functions with signatures entered one after the other. -/
abbrev putSignatures : List (FunctionId × Signature) → List FunctionDef → List FunctionDef :=
  putAll FunctionId.index fun signature own => { own with signature }

theorem foldl_setShape (entries : List (StructId × StructShape)) (table : DeclTable) :
    entries.foldl (fun table (id, shape) => table.setShape id shape) table =
      { table with structs := putShapes entries table.structs } := by
  induction entries generalizing table with
  | nil => rfl
  | cons entry rest ih => exact ih (table.setShape entry.1 entry.2)

theorem foldl_setSignature (entries : List (FunctionId × Signature)) (table : DeclTable) :
    entries.foldl (fun table (id, signature) => table.setSignature id signature) table =
      { table with functions := putSignatures entries table.functions } := by
  induction entries generalizing table with
  | nil => rfl
  | cons entry rest ih => exact ih (table.setSignature entry.1 entry.2)

theorem install_table (declared : Declarations) (lowered : LoweredUnit) :
    (declared.install lowered).1.table =
      { declared.table with
        structs := putShapes lowered.structs declared.table.structs
        functions := putSignatures lowered.functions declared.table.functions } := by
  simp only [install, foldl_setShape, foldl_setSignature]

theorem installAll_table : ∀ (lowered : List LoweredUnit) (declared : Declarations),
    (declared.installAll lowered).1.aliases = declared.aliases ∧ (declared.installAll lowered).1.table =
      { declared.table with
        structs := putShapes (lowered.flatMap (·.structs)) declared.table.structs
        functions := putSignatures (lowered.flatMap (·.functions)) declared.table.functions }
  | [], _ => ⟨rfl, rfl⟩
  | first :: rest, declared => by
    obtain ⟨aliases, table⟩ := installAll_table rest (declared.install first).1
    refine ⟨aliases, table.trans ?_⟩
    rw [install_table, flatMap_cons, flatMap_cons]
    simp only [putShapes, putSignatures, putAll, List.foldl_append]

def findings (declared : Declarations) (bounds : BoundTable) : List Findings :=
  declared.table.structs.map (declared.shapeFindings bounds) ++
    (declared.table.functions.map (declared.signatureFindings bounds) ++
      declared.table.enums.map declared.definitionFindings)

end Declarations

theorem forall_mem_zip {α β : Type} {P : α → Prop} {Q : β → Prop} : ∀ {xs : List α} {ys : List β},
    ys.length = xs.length → ((∀ pair ∈ xs.zip ys, P pair.1 ∧ Q pair.2) ↔ (∀ x ∈ xs, P x) ∧ ∀ y ∈ ys, Q y)
  | [], [], _ => by simp
  | x :: xs, y :: ys, count => by
    rw [zip_cons_cons, forall_mem_cons, forall_mem_zip (Nat.succ.inj count), forall_mem_cons,
      forall_mem_cons]
    exact and_and_and_comm

namespace Collected

variable (bounds : BoundTable) (units : List SourceUnit)

/-- The names that are entered. -/
def named : Declarations :=
  (Declarations.declareUnits {} units).1

/-- The names that are entered, with their aliases resolved. -/
def resolved : Declarations :=
  (named units).resolveAliases.1

theorem named_entered : (named units).Entered (units.map SourceUnit.id) :=
  (Declarations.Entered.declareUnits units (fun _ h => mem_map_of_mem h) (Declarations.entered_empty _)).1

theorem named_reserved : ∀ entry ∈ (named units).enums.entries, entry = .reserved := by
  refine Declarations.declareUnits_keeps (P := fun declared => ∀ entry ∈ declared.enums.entries, entry = .reserved)
    (fun _ _ h => h) (fun declared unit name declaration _ h => ?_) units {} fun _ mem => by cases mem
  cases declaration with
  | enum decl => exact forall_mem_append.2 ⟨h, forall_mem_singleton.2 rfl⟩
  | _ => exact h

theorem named_units : (∀ own ∈ (named units).table.structs, own.unit ∈ units.map SourceUnit.id) ∧
    (∀ own ∈ (named units).table.functions, own.unit ∈ units.map SourceUnit.id) ∧
    ∀ source ∈ (named units).table.enums, source.unit ∈ units.map SourceUnit.id := by
  have entered := named_entered units
  refine ⟨fun own mem => ?_, fun own mem => ?_, fun source mem => ?_⟩ <;>
    obtain ⟨position, here⟩ := getElem?_of_mem mem
  · exact (entered.structs position own here).2
  · exact (entered.functions position own here).2
  · exact (entered.enums position source here).2

theorem exists_mem_units {α : Type} {unit : α → UnitId} {xs : List α} {P : α → Prop}
    (known : ∀ x ∈ xs, unit x ∈ units.map SourceUnit.id) :
    (∃ source ∈ units, ∃ x, (x ∈ xs ∧ unit x = source.id) ∧ P x) ↔ ∃ x ∈ xs, P x := by
  constructor
  · rintro ⟨_, _, x, ⟨mem, _⟩, holds⟩
    exact ⟨x, mem, holds⟩
  · rintro ⟨x, mem, holds⟩
    obtain ⟨source, isOne, same⟩ := mem_map.1 (known x mem)
    exact ⟨source, isOne, x, ⟨mem, same.symm⟩, holds⟩

theorem mem_units {α : Type} {unit : α → UnitId} {xs : List α} (known : ∀ x ∈ xs, unit x ∈ units.map SourceUnit.id)
    (x : α) : x ∈ units.flatMap (fun source => xs.filter (unit · == source.id)) ↔ x ∈ xs := by
  simpa using exists_mem_units units (P := (· = x)) known

theorem aliases_ofUnits : (ofUnits bounds units).declared.aliases = (resolved units).aliases :=
  (Declarations.installAll_table _ _).1

/-- The table of a program: the names that are entered, each with the meaning that is found for it. -/
theorem table_ofUnits : (ofUnits bounds units).declared.table =
    { (named units).table with
      structs := (named units).table.structs.map fun own =>
        { own with shape := (resolved units).shapeOf bounds own }
      functions := (named units).table.functions.map fun own =>
        { own with signature := (resolved units).signatureOf bounds own } } := by
  have entered := named_entered units
  refine (Declarations.installAll_table (units.map fun unit => (resolved units).lowerUnit bounds unit.id) _).2.trans ?_
  obtain ⟨structs, functions, _⟩ := named_units units
  simp only [Declarations.lowerUnit_eq, flatMap_map, ← map_flatMap]
  congr 1
  · refine putAll_eq_map ?_ StructDef.id ((resolved units).shapeOf bounds) (fun position own here => ?_)
      (mem_units units structs)
    · exact fun _ _ _ => rfl
    · rw [(entered.structs position own here).1]
  · refine putAll_eq_map ?_ FunctionDef.id ((resolved units).signatureOf bounds) (fun position own here => ?_)
      (mem_units units functions)
    · exact fun _ _ _ => rfl
    · rw [(entered.functions position own here).1]

theorem structs_ofUnits : (ofUnits bounds units).declared.table.structs =
    (named units).table.structs.map fun own => { own with shape := (resolved units).shapeOf bounds own } := by
  rw [table_ofUnits]

theorem functions_ofUnits : (ofUnits bounds units).declared.table.functions =
    (named units).table.functions.map fun own =>
      { own with signature := (resolved units).signatureOf bounds own } := by
  rw [table_ofUnits]

theorem struct?_ofUnits (id : StructId) : (ofUnits bounds units).declared.table.struct? id =
    ((named units).table.struct? id).map fun own => { own with shape := (resolved units).shapeOf bounds own } := by
  rw [table_ofUnits]
  exact getElem?_map

theorem function?_ofUnits (id : FunctionId) : (ofUnits bounds units).declared.table.function? id =
    ((named units).table.function? id).map fun own =>
      { own with signature := (resolved units).signatureOf bounds own } := by
  rw [table_ofUnits]
  exact getElem?_map

theorem lookup_ofUnits (name : String) :
    (ofUnits bounds units).declared.table.lookup name = (named units).table.lookup name := by
  rw [table_ofUnits]
  rfl

theorem enum?_ofUnits (id : EnumId) :
    (ofUnits bounds units).declared.table.enum? id = (named units).table.enum? id := by
  rw [table_ofUnits]
  rfl

theorem arities_ofUnits : (ofUnits bounds units).declared.table.arities bounds =
    (resolved units).table.arities bounds := by
  rw [DeclTable.arities, DeclTable.arities]
  congr 1
  funext id
  rw [struct?_ofUnits, Option.map_map]
  rfl

theorem ofUnits_named : (ofUnits bounds units).declared.table.Named := by
  intro name symbol found
  rw [lookup_ofUnits] at found
  rw [table_ofUnits]
  refine ((named_entered units).named name symbol found).mono ?_ (Nat.le_refl _) ?_
  · exact Nat.le_of_eq (length_map ..).symm
  · exact Nat.le_of_eq (length_map ..).symm

theorem enums_ofUnits {id : EnumId} {source : EnumSource} (found : (named units).table.enum? id = some source) :
    (ofUnits bounds units).declared.enums.get? id =
      ((resolved units).definitionOf source).bind Except.toOption := by
  have entered := named_entered units
  obtain ⟨isId, isUnit⟩ := entered.enums id.index source found
  have isId : source.id = id := isId
  have inside : id.index < (resolved units).enums.size := by
    have size : (resolved units).enums.size = (named units).table.enums.length := entered.registry
    rw [size]
    exact (List.getElem?_eq_some_iff.1 found).1
  have read : ∀ unit, (((resolved units).lowerUnit bounds unit).enums) =
      ((named units).table.enums.filter (·.unit == unit)).filterMap fun source =>
        ((resolved units).definitionOf source).map (source.id, ·) :=
    fun unit => congrArg LoweredUnit.enums ((resolved units).lowerUnit_eq bounds unit)
  have only : ∀ other ∈ (named units).table.enums, other.id = id → other = source := fun other mem same =>
    eq_of_numbered EnumSource.id (fun position x here => congrArg EnumId.index (entered.enums position x here).1) found mem
      (congrArg EnumId.index same)
  refine Declarations.installAll_get? (units.map fun unit => (resolved units).lowerUnit bounds unit.id)
    (resolved units) inside (fun unit mem entry isEntry same => ?_) ?_
  · obtain ⟨lowered, _, rfl⟩ := mem_map.1 mem
    rw [read] at isEntry
    obtain ⟨other, isOther, made⟩ := mem_filterMap.1 isEntry
    obtain ⟨definition, defined, rfl⟩ := Option.map_eq_some_iff.1 made
    rw [← only other (mem_filter.1 isOther).1 same, defined]
    rfl
  · cases defined : (resolved units).definitionOf source with
    | none =>
      obtain ⟨entry, here⟩ : ∃ entry, (resolved units).enums.entries[id.index]? = some entry :=
        ⟨_, getElem?_eq_getElem inside⟩
      refine .inl ?_
      rw [EnumRegistry.get?, here, named_reserved units entry (mem_of_getElem? here)]
      rfl
    | some definition =>
      obtain ⟨unit, isOne, same⟩ := mem_map.1 isUnit
      refine .inr ⟨_, mem_map_of_mem isOne, (source.id, definition), ?_, isId⟩
      rw [read]
      refine mem_filterMap.2 ⟨source, mem_filter.2 ⟨mem_of_getElem? found, ?_⟩, ?_⟩
      · exact beq_iff_eq.2 same.symm
      · rw [defined]
        rfl

theorem mem_findings {α : Type} (part : Findings → List α)
    (append : ∀ first second, part (first ++ second) = part first ++ part second)
    (ofEach : ∀ {β : Type} (found : β → Findings) (sources : List β),
      part (.ofEach found sources) = sources.flatMap fun b => part (found b)) (a : α) :
    (∃ unit ∈ units, a ∈ part ((resolved units).unitFindings bounds unit.id)) ↔
      ∃ found ∈ (resolved units).findings bounds, a ∈ part found := by
  obtain ⟨structs, functions, enums⟩ := named_units units
  simp only [Declarations.unitFindings, Declarations.findings, append, ofEach, mem_append, mem_flatMap, mem_filter,
    beq_iff_eq, mem_map, and_or_left, or_and_right, exists_or, exists_exists_and_eq_and]
  exact or_congr (exists_mem_units units structs) (or_congr (exists_mem_units units functions) (exists_mem_units units enums))

variable {bounds units}

/-- What holds of all reports, if it does not matter which unit they name: it holds of the names that clash, the aliases
that are refused, and so on for each declaration. -/
theorem forall_mem_diagnostics {P : Diagnostic → Prop} (placed : ∀ d unit, P (d.inSource unit) ↔ P d) :
    (∀ d ∈ (ofUnits bounds units).diagnostics, P d) ↔
      (∀ d ∈ (Declarations.declareUnits {} units).2.flatten, P d) ∧
        (∀ d ∈ (named units).resolveAliases.2.diagnostics, P d) ∧
        (∀ found ∈ (resolved units).findings bounds, ∀ d ∈ found.diagnostics, P d) ∧
        ∀ d ∈ ((resolved units).installAll (units.map fun unit => (resolved units).lowerUnit bounds unit.id)).2.flatten,
          P d := by
  have each := mem_findings bounds units Findings.diagnostics (fun _ _ => rfl) fun _ _ => rfl
  have found : (∀ lowered ∈ units.map fun unit => (resolved units).lowerUnit bounds unit.id,
        ∀ d ∈ lowered.diagnostics, P d) ↔
      ∀ found ∈ (resolved units).findings bounds, ∀ d ∈ found.diagnostics, P d := by
    simp only [forall_mem_map, Declarations.lowerUnit_eq, placed]
    constructor
    · intro silent found isFound d mem
      obtain ⟨unit, isUnit, here⟩ := (each d).2 ⟨found, isFound, mem⟩
      exact silent unit isUnit d here
    · intro silent unit isUnit d mem
      obtain ⟨found, isFound, here⟩ := (each d).1 ⟨unit, isUnit, mem⟩
      exact silent found isFound d here
  rw [diagnostics, forall_mem_append, forall_mem_append, and_assoc]
  refine and_congr Iff.rfl (and_congr Iff.rfl ?_)
  rw [← found, forall_mem_flatten, ← forall_mem_zip (Declarations.length_installAll _ _)]
  simp only [forall_mem_flatMap, forall_mem_append]
  rfl

/-- Collecting is without errors if no names clash, no alias is refused, and so on for each declaration. -/
theorem ofUnits_harmless : Harmless (ofUnits bounds units).diagnostics ↔
    Harmless (Declarations.declareUnits {} units).2.flatten ∧ Harmless (named units).resolveAliases.2.diagnostics ∧
      (∀ found ∈ (resolved units).findings bounds, Harmless found.diagnostics) ∧
      ∀ source ∈ (named units).table.enums, ∀ read, (resolved units).definitionOf source = some read →
        ∃ info, read = .ok info := by
  have entered := named_entered units
  refine (forall_mem_diagnostics fun d unit => by rw [Diagnostic.isError_inSource]).trans ?_
  refine and_congr Iff.rfl (and_congr Iff.rfl (and_congr Iff.rfl ?_))
  refine (Declarations.installAll_harmless _ _).2.trans ?_
  simp only [forall_mem_map, Declarations.lowerUnit_eq, mem_filterMap, mem_filter, beq_iff_eq]
  constructor
  · intro fine source isOne read isRead
    obtain ⟨position, here⟩ := getElem?_of_mem isOne
    obtain ⟨isId, isUnit⟩ := entered.enums position source here
    obtain ⟨unit, isUnit, same⟩ := mem_map.1 isUnit
    refine fine unit isUnit (source.id, read) ⟨source, ⟨isOne, same.symm⟩, by rw [isRead]; rfl⟩ ?_
    rw [isId, show (resolved units).enums.size = _ from entered.registry]
    exact (List.getElem?_eq_some_iff.1 here).1
  · rintro fine unit isUnit entry ⟨source, ⟨isOne, _⟩, made⟩ _
    obtain ⟨read, isRead, rfl⟩ := Option.map_eq_some_iff.1 made
    exact fine source isOne read isRead

end Collected

structure Located (α : Type) where
  name : String
  unit : UnitId
  module : ModulePath
  decl : α

def Placed.locate {α : Type} (pick : Declaration → Option α) (place : Placed) : Option (Located α) :=
  (pick place.declaration).map fun decl => ⟨place.name, place.unit, place.module, decl⟩

namespace Declaration

def struct? : Declaration → Option StructDecl
  | struct decl => some decl
  | _ => none

def enum? : Declaration → Option EnumDecl
  | enum decl => some decl
  | _ => none

def function? : Declaration → Option FunctionDecl
  | function decl => some decl
  | _ => none

def typeAlias? : Declaration → Option AliasDecl
  | typeAlias decl => some decl
  | _ => none

end Declaration

/-- The declarations of one kind that units hold, in order. -/
def declaredIn {α : Type} (pick : Declaration → Option α) (units : List SourceUnit) : List (Located α) :=
  (units.flatMap SourceUnit.placed).filterMap (Placed.locate pick)

def StructDef.located (own : StructDef) : Located StructDecl :=
  ⟨own.name, own.unit, own.module, own.decl⟩

def FunctionDef.located (own : FunctionDef) : Located FunctionDecl :=
  ⟨own.name, own.unit, own.module, own.decl⟩

def EnumSource.located (source : EnumSource) : Located EnumDecl :=
  ⟨source.name, source.unit, source.module, source.decl⟩

def AliasSource.ofLocated (source : Located AliasDecl) : AliasSource :=
  ⟨source.name, source.unit, source.decl.span⟩

def Located.aliasEntry (source : Located AliasDecl) : String × AliasEntry :=
  (source.name, .pending (.expression source.decl.target source.module))

namespace Declarations

/-- Whether declarations are entered one after the other, each in the list of its kind. -/
structure Lists (before after : Declarations) (places : List Placed) : Prop where
  structs : after.table.structs.map StructDef.located =
    before.table.structs.map StructDef.located ++ places.filterMap (Placed.locate Declaration.struct?)
  functions : after.table.functions.map FunctionDef.located =
    before.table.functions.map FunctionDef.located ++ places.filterMap (Placed.locate Declaration.function?)
  enums : after.table.enums.map EnumSource.located =
    before.table.enums.map EnumSource.located ++ places.filterMap (Placed.locate Declaration.enum?)
  aliases : after.table.aliases =
    before.table.aliases ++ (places.filterMap (Placed.locate Declaration.typeAlias?)).map AliasSource.ofLocated
  entries : after.aliases.entries =
    (places.filterMap (Placed.locate Declaration.typeAlias?)).reverse.map Located.aliasEntry ++ before.aliases.entries

theorem Lists.nil (declared : Declarations) : Lists declared declared [] := by
  constructor <;> simp

theorem Lists.append {first second third : Declarations} {places more : List Placed} (left : Lists first second places)
    (right : Lists second third more) : Lists first third (places ++ more) where
  structs := by rw [right.structs, left.structs, filterMap_append, List.append_assoc]
  functions := by rw [right.functions, left.functions, filterMap_append, List.append_assoc]
  enums := by rw [right.enums, left.enums, filterMap_append, List.append_assoc]
  aliases := by rw [right.aliases, left.aliases, filterMap_append, map_append, List.append_assoc]
  entries := by rw [right.entries, left.entries, filterMap_append, reverse_append, map_append,
    List.append_assoc]

theorem enter_lists (declared : Declarations) (unit : SourceUnit) (declaration : Declaration) :
    Lists declared (declared.enter unit (unit.module.qualify declaration.name) declaration)
      [⟨unit.id, unit.module, declaration⟩] := by
  cases declaration with
  | struct decl =>
    exact ⟨map_append, (append_nil _).symm, (append_nil _).symm, (append_nil _).symm, rfl⟩
  | enum decl =>
    exact ⟨(append_nil _).symm, (append_nil _).symm, map_append, (append_nil _).symm, rfl⟩
  | function decl =>
    exact ⟨(append_nil _).symm, map_append, (append_nil _).symm, (append_nil _).symm, rfl⟩
  | typeAlias decl =>
    exact ⟨(append_nil _).symm, (append_nil _).symm, (append_nil _).symm, rfl, rfl⟩

/-- A name that clashes is reported, so that without a report every declaration is entered. -/
theorem declare_eq_enter {unit : SourceUnit} {declared : Declarations} {declaration : Declaration}
    (harmless : Harmless (declare unit declared declaration).2) :
    declared.clash? (unit.module.qualify declaration.name) = none ∧ (declare unit declared declaration).1 =
      declared.enter unit (unit.module.qualify declaration.name) declaration := by
  unfold declare at harmless ⊢
  dsimp only at harmless ⊢
  split at harmless
  · cases harmless _ (mem_singleton.2 rfl)
  · rename_i free
    exact ⟨free, rfl⟩

end Declarations

/-- Where no name clashes, what is entered is all that the units declare, in order. -/
theorem Collected.named_lists {units : List SourceUnit}
    (harmless : Harmless (Declarations.declareUnits {} units).2.flatten) :
    Declarations.Lists {} (named units) (units.flatMap SourceUnit.placed) := by
  refine Declarations.declareUnits_each (R := fun before places after reports => Harmless reports →
    before.Lists after places) (fun _ _ => .nil _) (fun first second harmless => ?_)
    (fun noted harmless => { noted harmless with }) units (fun unit _ declared declaration harmless => ?_) {} harmless
  · obtain ⟨left, right⟩ := harmless_append.1 harmless
    exact (first left).append (second right)
  · rw [(Declarations.declare_eq_enter harmless).2]
    exact declared.enter_lists unit declaration

end SemanticChecker
