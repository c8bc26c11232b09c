import SemanticChecker.Proofs.Alias.Broken
import SemanticChecker.Proofs.Order.Tables

/-! What the names of a module mean inside it. The table lists the declarations that are accepted, in order. Inside its
module, the plain name of such a type means that declaration, unless a type parameter in scope or a built-in type has
the name. -/
namespace SemanticChecker

open List

/-- The types that are known without a declaration and looked for before the declared ones. -/
def TypeHead.builtin? (name : String) : Option TypeHead :=
  match Primitive.ofName? name with
  | some kind => some (.type (.primitive kind))
  | none => if name = "List" then some .list else if name = "Dict" then some .dict else none

namespace Declarations

def acceptedAll (unit : SourceUnit) (declared : Declarations) : List Declaration → List Placed
  | [] => []
  | declaration :: rest =>
    let (after, reports) := declare unit declared declaration
    (if reports.isEmpty then [⟨unit.id, unit.module, declaration⟩] else []) ++ acceptedAll unit after rest

/-- The declarations of units that are entered without a report, in order. -/
def accepted (declared : Declarations) : List SourceUnit → List Placed
  | [] => []
  | unit :: rest =>
    let noted := { declared with table := { declared.table with units := declared.table.units ++ [unit.id] } }
    acceptedAll unit noted unit.declarations ++ accepted (declared.declareUnit unit).1 rest

theorem acceptedAll_lists (unit : SourceUnit) (declarations : List Declaration) (declared : Declarations) :
    declared.Lists (declareAll unit declared declarations).1 (acceptedAll unit declared declarations) := by
  induction declarations generalizing declared with
  | nil => exact .nil _
  | cons declaration rest ih =>
    refine .append ?_ (ih _)
    dsimp only
    split
    · exact .nil _
    · exact declared.enter_lists unit declaration

theorem accepted_lists (units : List SourceUnit) (declared : Declarations) :
    declared.Lists (declared.declareUnits units).1 (declared.accepted units) := by
  induction units generalizing declared with
  | nil => exact .nil _
  | cons unit rest ih => exact .append { acceptedAll_lists unit unit.declarations _ with } (ih _)

end Declarations

namespace Collected

variable {units : List SourceUnit} {place : Placed}

theorem nodup_aliases (units : List SourceUnit) : ((named units).aliases.entries.map Prod.fst).Nodup := by
  refine Declarations.declareUnits_keeps (P := fun declared => (declared.aliases.entries.map Prod.fst).Nodup)
    (fun _ _ h => h) (fun declared unit name declaration free h => ?_) units {} (by decide)
  cases declaration with
  | typeAlias decl =>
    refine nodup_cons.2 ⟨fun mem => ?_, h⟩
    obtain ⟨entry, isOne, same⟩ := mem_map.1 mem
    have absent := lookup_eq_none_iff.1 (Declarations.clash?_eq_none.1 free).2.1 entry isOne
    simp [same] at absent
  | _ => exact h

theorem mem_located (isAccepted : place ∈ Declarations.accepted {} units) {α : Type} {pick : Declaration → Option α}
    {decl : α} (picked : pick place.declaration = some decl) : ⟨place.name, place.unit, place.module, decl⟩ ∈
      (Declarations.accepted {} units).filterMap (Placed.locate pick) :=
  mem_filterMap.2 ⟨place, isAccepted, congrArg (Option.map _) picked⟩

theorem find?_alias (isAccepted : place ∈ Declarations.accepted {} units) {decl : AliasDecl}
    (isAlias : place.declaration.typeAlias? = some decl) : (named units).aliases.find? place.name =
      some (.pending (.expression decl.target place.module)) := by
  have mem : (place.name, AliasEntry.pending (.expression decl.target place.module)) ∈ (named units).aliases.entries := by
    rw [named, (Declarations.accepted_lists units {}).entries]
    exact mem_append_left _ (mem_map_of_mem (mem_reverse.2 (mem_located isAccepted isAlias)))
  obtain ⟨first, rest, parts⟩ := append_of_mem mem
  have apart := nodup_aliases units
  rw [parts, map_append, map_cons, nodup_append] at apart
  refine lookup_eq_some_iff.2 ⟨first, rest, parts, fun entry isOne => ?_⟩
  simpa using Ne.symm (apart.2.2 _ (mem_map_of_mem isOne) _ mem_cons_self)

end Collected

theorem DeclTable.resolveName_local {table : DeclTable} {module : ModulePath} {name : String} {symbol : Symbol}
    (looked : table.lookup (module.qualify name) = some symbol) :
    table.resolveName module name = some (module.qualify name, symbol) := by
  rw [resolveName, ModulePath.candidates]
  split
  · rename_i isRoot
    rw [ModulePath.qualify, if_pos isRoot] at looked ⊢
    simp [looked]
  · simp [looked]

namespace TypeScope

theorem head?_local {scope : TypeScope} {name : String} {symbol : Symbol} {head : TypeHead}
    (free : scope.parameter? name = none) (looked : scope.table.lookup (scope.module.qualify name) = some symbol)
    (stands : TypeHead.ofSymbol? scope.table (scope.module.qualify name) symbol = some head) :
    scope.head? name = some ((TypeHead.builtin? name).getD head) := by
  rw [head?, free, TypeHead.builtin?]
  cases Primitive.ofName? name with
  | some kind => rfl
  | none =>
    dsimp only
    split
    · rfl
    · split
      · rfl
      · rw [DeclTable.resolveName_local looked]
        exact stands

/-- What a name that stands for a head gives with arguments. -/
def applied (scope : TypeScope) (head : TypeHead) (name : String) (arguments : List TypeExpr) (span : Span) : LowerM Ty := do
  expectArguments name head.arity arguments.length
  head.apply scope.aliasOf span (← TypeExpr.lowerAll scope arguments)

open Collected in
/-- Inside its module, the name of a struct, an enumeration or an alias that was accepted means that declaration, unless
a type parameter or a built-in type has the name. -/
theorem local_name_wins (bounds : BoundTable) {units : List SourceUnit} {place : Placed}
    (isAccepted : place ∈ Declarations.accepted {} units) (isType : place.declaration.function? = none)
    (scope : TypeScope) (inside : scope.module = place.module) (free : scope.parameter? place.declaration.name = none)
    (table : scope.table = (named units).table ∨ scope.table = (ofUnits bounds units).declared.table)
    (arguments : List TypeExpr) (span : Span) :
    ∃ head, TypeExpr.lower scope ⟨.named place.declaration.name arguments, span⟩ =
        scope.applied ((TypeHead.builtin? place.declaration.name).getD head) place.declaration.name arguments span ∧
      (∀ decl, place.declaration = .struct decl → ∃ id own, scope.table.struct? id = some own ∧
        own.located = ⟨place.name, place.unit, place.module, decl⟩ ∧ head = .struct id decl.typeParameters.length) ∧
      (∀ decl, place.declaration = .enum decl → ∃ id source, scope.table.enum? id = some source ∧
        source.located = ⟨place.name, place.unit, place.module, decl⟩ ∧ head = .type (.enum id)) ∧
      ∀ decl, place.declaration = .typeAlias decl → head = .typeAlias place.name ∧
        (named units).aliases.find? place.name = some (.pending (.expression decl.target place.module)) ∧
        ∃ t, (named units).ComesTo (ofUnits bounds units).declared.aliases place.name t := by
  have looked : ∀ name, scope.table.lookup name = (named units).table.lookup name := fun name => by
    rcases table with same | same <;> rw [same]
    exact lookup_ofUnits bounds units name
  have lists := Declarations.accepted_lists units {}
  have indexed := named_indexed units
  have lowered : ∀ {head symbol}, (named units).table.lookup place.name = some symbol →
      TypeHead.ofSymbol? scope.table place.name symbol = some head →
      TypeExpr.lower scope ⟨.named place.declaration.name arguments, span⟩ =
        scope.applied ((TypeHead.builtin? place.declaration.name).getD head) place.declaration.name arguments span := by
    intro head symbol isSymbol stands
    rw [← looked, Placed.name, ← inside] at isSymbol
    rw [Placed.name, ← inside] at stands
    rw [TypeExpr.lower, TypeExprKind.lower, head?_local free isSymbol stands]
    rfl
  cases isKind : place.declaration with
  | struct decl =>
    have picked : place.declaration.struct? = some decl := isKind ▸ rfl
    obtain ⟨own, isOne, located⟩ := mem_map.1 (lists.structs ▸ mem_append_right _ (mem_located isAccepted picked))
    obtain ⟨position, here⟩ := getElem?_of_mem isOne
    obtain ⟨mine, found, same⟩ : ∃ mine, scope.table.struct? ⟨position⟩ = some mine ∧ mine.located = own.located := by
      rcases table with same | same <;> rw [same]
      · exact ⟨own, here, rfl⟩
      · rw [struct?_ofUnits]
        exact ⟨_, congrArg _ here, rfl⟩
    have isSymbol := (indexed.structs place.name position).2 ⟨own, here, congrArg Located.name located⟩
    have isDecl : mine.decl = decl := congrArg Located.decl (same.trans located)
    refine ⟨.struct ⟨position⟩ decl.typeParameters.length, isKind ▸ lowered isSymbol ?_, fun _ isStruct => ?_,
      fun _ other => Declaration.noConfusion other, fun _ other => Declaration.noConfusion other⟩
    · rw [TypeHead.ofSymbol?, found, ← isDecl]
    · cases isStruct
      exact ⟨_, mine, found, same.trans located, rfl⟩
  | enum decl =>
    have picked : place.declaration.enum? = some decl := isKind ▸ rfl
    obtain ⟨source, isOne, located⟩ := mem_map.1 (lists.enums ▸ mem_append_right _ (mem_located isAccepted picked))
    obtain ⟨position, here⟩ := getElem?_of_mem isOne
    have found : scope.table.enum? ⟨position⟩ = some source := by
      rcases table with same | same <;> rw [same]
      · exact here
      · exact (enum?_ofUnits bounds units _).trans here
    have isSymbol := (indexed.enums place.name position).2 ⟨source, here, congrArg Located.name located⟩
    refine ⟨.type (.enum ⟨position⟩), isKind ▸ lowered isSymbol rfl, fun _ other => Declaration.noConfusion other,
      fun _ isEnum => ?_, fun _ other => Declaration.noConfusion other⟩
    cases isEnum
    exact ⟨_, source, found, located, rfl⟩
  | function decl => cases isKind ▸ isType
  | typeAlias decl =>
    have picked : place.declaration.typeAlias? = some decl := isKind ▸ rfl
    have source := lists.aliases ▸ mem_append_right _ (mem_map_of_mem (mem_located isAccepted picked))
    have isSymbol := (indexed.aliases place.name).2 ⟨_, source, rfl⟩
    refine ⟨.typeAlias place.name, isKind ▸ lowered isSymbol rfl, fun _ other => Declaration.noConfusion other,
      fun _ other => Declaration.noConfusion other, fun _ isAlias => ⟨rfl, ?_, ?_⟩⟩
    · cases isAlias
      exact find?_alias isAccepted picked
    · rw [aliases_ofUnits]
      exact ((Declarations.EnteredAliases.empty.declareUnits units).resolveEach_comesTo fun _ => Iff.rfl).2 _
        (Declarations.mem_aliasNames.2 ⟨_, source, rfl⟩)

def crateUnit : SourceUnit where
  id := ⟨0⟩
  module := ⟨["app"]⟩
  declarations := [.struct { name := "Crate", typeParameters := [{ name := "T" }] }, .struct { name := "List" }]

def crateScope : TypeScope where
  table := (Collected.named [crateUnit]).table
  aliasOf name := throw (.unresolved name)
  module := ⟨["app"]⟩

theorem local_name_wins_crate : ∃ id, TypeExpr.lower crateScope ⟨.named "Crate" [⟨.named "str" [], {}⟩], {}⟩ =
    crateScope.applied (.struct id 1) "Crate" [⟨.named "str" [], {}⟩] {} := by
  have mem := mem_of_getElem? (rfl : (Declarations.accepted {} [crateUnit])[0]? = some _)
  obtain ⟨_, lowered, struct, _⟩ :=
    local_name_wins .standard mem rfl crateScope rfl rfl (.inl rfl) [⟨.named "str" [], {}⟩] {}
  obtain ⟨id, _, _, _, rfl⟩ := struct _ rfl
  exact ⟨id, lowered⟩

/-- A struct that is called like a built-in container cannot be had under its name. -/
theorem builtin_hides_struct : ⟨⟨0⟩, ⟨["app"]⟩, .struct { name := "List" }⟩ ∈ Declarations.accepted {} [crateUnit] ∧
    (TypeExpr.lower crateScope ⟨.named "List" [], {}⟩).run.run {} = (.error (.argumentCount "List" 1 0), {}) :=
  ⟨mem_of_getElem? (rfl : (Declarations.accepted {} [crateUnit])[1]? = some _), rfl⟩

end TypeScope

end SemanticChecker
