import SemanticChecker.Proofs.Alias.Unfolding

/-! Resolving aliases once, in whatever order they are needed. Every alias is as it was declared, open, or has come to
a type. Those that are open are the ones on the way to the one that is asked for, so that the number of aliases bounds
how deep the way is. An alias with a meaning always comes to that. Another comes to the error type, unless its target
has a meaning for what the aliases in it came to before. -/
namespace SemanticChecker

open List

open Relation

section Runs

theorem LowerM.run_get_bind {α : Type} (f : Lowering → LowerM α) (s : Lowering) :
    (get >>= f).run.run s = (f s).run.run s :=
  rfl

theorem LowerM.run_setAlias_bind {α : Type} (name : String) (entry : AliasEntry) (f : Unit → LowerM α) (s : Lowering) :
    (LowerM.setAlias name entry >>= f).run.run s = (f ()).run.run { s with aliases := s.aliases.set name entry } :=
  rfl

theorem LowerM.run_lift_bind {α β : Type} (x : LowerM α) (f : Except ResolveError α → LowerM β) (s : Lowering) :
    (ExceptT.lift x.run >>= f).run.run s = (f (x.run.run s).1).run.run (x.run.run s).2 :=
  rfl

variable {lower : (String → LowerM Ty) → AliasTarget → LowerM Ty} {depth : Nat} {name : String} {s later : Lowering}

theorem resolveAlias_resolved {t : Ty} (found : s.aliases.find? name = some (.resolved t)) :
    (resolveAlias lower (depth + 1) name).run.run s = (.ok t, s) := by
  rw [resolveAlias, LowerM.run_get_bind]
  simp only [found]
  rfl

theorem resolveAlias_inProgress (found : s.aliases.find? name = some .inProgress) :
    (resolveAlias lower (depth + 1) name).run.run s = (.error (.aliasCycle [name]), s) := by
  rw [resolveAlias, LowerM.run_get_bind]
  simp only [found]
  rfl

section Opened

variable {target : AliasTarget} (found : s.aliases.find? name = some (.pending target))
include found

theorem resolveAlias_ok {t : Ty} (ran : (lower (resolveAlias lower depth) target).run.run
      { s with aliases := s.aliases.set name .inProgress } = (.ok t, later)) :
    (resolveAlias lower (depth + 1) name).run.run s =
      (.ok t, { later with aliases := later.aliases.set name (.resolved t) }) := by
  rw [resolveAlias, LowerM.run_get_bind]
  simp only [found]
  rw [LowerM.run_setAlias_bind, LowerM.run_lift_bind, ran]
  simp only [AliasTable.share_eq]
  rfl

theorem resolveAlias_error {error : ResolveError} (ran : (lower (resolveAlias lower depth) target).run.run
      { s with aliases := s.aliases.set name .inProgress } = (.error error, later)) :
    (resolveAlias lower (depth + 1) name).run.run s =
      (.error (error.through name), { later with aliases := later.aliases.set name (.resolved .error) }) := by
  rw [resolveAlias, LowerM.run_get_bind]
  simp only [found]
  rw [LowerM.run_setAlias_bind, LowerM.run_lift_bind, ran]
  rfl

end Opened

end Runs

def AliasTable.typeOf (aliases : AliasTable) (name : String) : Ty :=
  (aliases.type? name).getD .error

/-- Whether an alias has come to a type. -/
def AliasTable.Has (aliases : AliasTable) (name : String) (t : Ty) : Prop :=
  aliases.find? name = some (.resolved t)

def AliasTable.Kept (before after : AliasTable) : Prop :=
  ∀ name t, before.Has name t → after.Has name t

namespace AliasTable

variable {aliases before after : AliasTable} {name : String} {t : Ty}

theorem Has.type? (h : aliases.Has name t) : aliases.type? name = some t := by
  rw [AliasTable.type?, h]
  rfl

theorem Has.typeOf (h : aliases.Has name t) : aliases.typeOf name = t := by
  rw [AliasTable.typeOf, h.type?, Option.getD_some]

theorem Kept.refl (aliases : AliasTable) : aliases.Kept aliases :=
  fun _ _ h => h

theorem Kept.trans {last : AliasTable} (first : before.Kept after) (second : after.Kept last) : before.Kept last :=
  fun name t h => second name t (first name t h)

theorem Kept.set (open' : ∀ t, ¬ aliases.Has name t) (entry : AliasEntry) : aliases.Kept (aliases.set name entry) := by
  intro other t has
  have differ : other ≠ name := fun same => open' t (same ▸ has)
  rw [Has, find?_set, if_neg differ]
  exact has

theorem Kept.opened {target : AliasTarget} (found : aliases.find? name = some (.pending target)) :
    aliases.Kept (aliases.set name .inProgress) :=
  .set (fun t has => by simp [Has, found] at has) _

end AliasTable

theorem ResolveError.isClosed_concat {inner : List String} {last : String} :
    isClosed (inner ++ [last]) = true ↔ inner.head? = some last := by
  cases inner with
  | nil => simp [isClosed]
  | cons first rest =>
    have ends : (rest ++ [last]).getLast? = some last := getLast?_concat
    rw [cons_append, head?_cons, @eq_comm _ (some first), ← ends]
    cases rest <;> exact beq_iff_eq

namespace Declarations

def Forwards (declared : Declarations) (name other : String) : Prop :=
  ∃ spelling span path, declared.aliases.find? name = some (.pending (.expression ⟨.named spelling [], span⟩ path)) ∧
    declared.table.heads path [] spelling = some (.typeAlias other)

def Resolvable (declared : Declarations) (name : String) : Prop :=
  ∃ written path, declared.aliases.find? name = some (.pending (.expression written path)) ∧
    written.Resolves (declared.table.heads path [])

/-- Whether an alias stands, by way of mere names, for one whose target is more than a name and could have a meaning. -/
def Nests (declared : Declarations) (name : String) : Prop :=
  ∃ last, ReflTransGen declared.Forwards name last ∧ declared.Resolvable last ∧ ∀ other, ¬ declared.Forwards last other

/-- Whether a type is what the target of an alias means, for the types that the aliases in it came to. -/
def Built (declared : Declarations) (aliases : AliasTable) (name : String) (t : Ty) : Prop :=
  ∃ written path, declared.aliases.find? name = some (.pending (.expression written path)) ∧
    written.Resolves (declared.table.heads path []) ∧
    (∀ other ∈ written.aliases (declared.table.heads path []), ∃ t, aliases.Has other t) ∧
    t = written.meaning (declared.table.heads path []) aliases.typeOf

variable {declared : Declarations} {before after : AliasTable} {name : String} {t : Ty} {good : String → Prop}
  {aliases : AliasTable}

theorem Built.mono (kept : before.Kept after) (h : declared.Built before name t) : declared.Built after name t := by
  obtain ⟨written, path, found, resolves, each, rfl⟩ := h
  refine ⟨written, path, found, resolves, fun other mem => (each other mem).imp fun t => kept other t, ?_⟩
  refine written.meaning_congr fun other mem => ?_
  obtain ⟨t, has⟩ := each other mem
  rw [has.typeOf, (kept other t has).typeOf]

def Outcome (declared : Declarations) (good : String → Prop) (aliases : AliasTable) (name : String) (t : Ty) : Prop :=
  good name ∧ t = declared.aliasType name ∨
    ¬ good name ∧ (t = .error ∨ declared.Nests name ∧ declared.Built aliases name t)

theorem Outcome.mono (kept : before.Kept after) (h : declared.Outcome good before name t) :
    declared.Outcome good after name t :=
  h.imp_right (And.imp_right (Or.imp_right (And.imp_right (.mono kept))))

/-- The aliases while some of them, on the way to the one that is asked for, are open. -/
structure Settles (declared : Declarations) (good : String → Prop) (way : Finset String) (aliases : AliasTable) :
    Prop where
  opened : ∀ name ∈ way, name ∈ declared.aliasNames ∧ aliases.find? name = some .inProgress
  others : ∀ name ∈ declared.aliasNames, name ∉ way → aliases.find? name = declared.aliases.find? name ∨
    ∃ t, aliases.Has name t ∧ declared.Outcome good aliases name t

namespace Settles

variable {declared : Declarations} {good : String → Prop} {way : Finset String} {aliases : AliasTable} {name : String}
  {t : Ty}

theorem initial (declared : Declarations) (good : String → Prop) : declared.Settles good ∅ declared.aliases :=
  ⟨fun _ mem => (by simp at mem), fun _ _ _ => .inl rfl⟩

theorem card_le (h : declared.Settles good way aliases) : way.card ≤ declared.aliasNames.card :=
  Finset.card_le_card fun name mem => (h.opened name mem).1

theorem outcome (h : declared.Settles good way aliases) (entered : declared.EnteredAliases)
    (mem : name ∈ declared.aliasNames) (has : aliases.Has name t) : declared.Outcome good aliases name t := by
  by_cases isOpen : name ∈ way
  · rw [AliasTable.Has, (h.opened name isOpen).2] at has
    cases has
  · rcases h.others name mem isOpen with found | ⟨other, same, outcome⟩
    · obtain ⟨written, path, declaredAs⟩ := entered.target mem
      rw [AliasTable.Has, found, declaredAs] at has
      cases has
    · cases has.symm.trans same
      exact outcome

theorem start (h : declared.Settles good way aliases) (mem : name ∈ declared.aliasNames) {target : AliasTarget}
    (found : aliases.find? name = some (.pending target)) :
    declared.Settles good (insert name way) (aliases.set name .inProgress) := by
  have kept : aliases.Kept (aliases.set name .inProgress) := .opened found
  refine ⟨fun other isOpen => ?_, fun other isOne isClosed => ?_⟩
  · rw [AliasTable.find?_set]
    split
    · rename_i same
      exact ⟨same ▸ mem, rfl⟩
    · rename_i differ
      exact h.opened other ((Finset.mem_insert.1 isOpen).resolve_left differ)
  · rw [Finset.mem_insert, not_or] at isClosed
    rw [AliasTable.find?_set, if_neg isClosed.1]
    refine (h.others other isOne isClosed.2).imp_right ?_
    rintro ⟨t, has, outcome⟩
    exact ⟨t, kept other t has, outcome.mono kept⟩

theorem finish (h : declared.Settles good (insert name way) aliases) (isClosed : name ∉ way)
    (outcome : declared.Outcome good aliases name t) :
    declared.Settles good way (aliases.set name (.resolved t)) ∧ aliases.Kept (aliases.set name (.resolved t)) := by
  have isOpen := (h.opened name (Finset.mem_insert_self name way)).2
  have kept : aliases.Kept (aliases.set name (.resolved t)) :=
    .set (fun t has => by simp [AliasTable.Has, isOpen] at has) _
  refine ⟨⟨fun other mem => ?_, fun other isOne notOpen => ?_⟩, kept⟩
  · have differ : other ≠ name := fun same => isClosed (same ▸ mem)
    rw [AliasTable.find?_set, if_neg differ]
    exact h.opened other (Finset.mem_insert_of_mem mem)
  · by_cases same : other = name
    · subst same
      exact .inr ⟨t, by simp [AliasTable.Has], outcome.mono kept⟩
    · rw [AliasTable.find?_set, if_neg same]
      have notOpen : other ∉ insert name way := by
        rw [Finset.mem_insert, not_or]
        exact ⟨same, notOpen⟩
      refine (h.others other isOne notOpen).imp_right ?_
      rintro ⟨t, has, outcome⟩
      exact ⟨t, kept other t has, outcome.mono kept⟩

end Settles

theorem Settles.card_le_entries (h : declared.Settles good ∅ aliases) (entered : declared.EnteredAliases) :
    declared.aliasNames.card ≤ aliases.entries.length := by
  have inside : declared.aliasNames ⊆ (aliases.entries.map Prod.fst).toFinset := by
    intro name mem
    have entry : ∃ entry, aliases.find? name = some entry := by
      rcases h.others name mem (by simp) with found | ⟨t, has, _⟩
      · obtain ⟨written, path, declaredAs⟩ := entered.target mem
        exact ⟨_, found.trans declaredAs⟩
      · exact ⟨_, has⟩
    obtain ⟨entry, found⟩ := entry
    exact mem_toFinset.2 (mem_map.2 ⟨(name, entry), mem_of_lookup found, rfl⟩)
  calc declared.aliasNames.card
    _ ≤ (aliases.entries.map Prod.fst).toFinset.card := Finset.card_le_card inside
    _ ≤ (aliases.entries.map Prod.fst).length := toFinset_card_le _
    _ = aliases.entries.length := length_map _

theorem Settles.deep (h : declared.Settles good ∅ aliases) (entered : declared.EnteredAliases) :
    declared.aliasNames.card < aliases.entries.length + 1 + (∅ : Finset String).card := by
  have few := h.card_le_entries entered
  simp only [Finset.card_empty]
  omega

def Fresh (declared : Declarations) (good : String → Prop) (aliases : AliasTable) : Prop :=
  ∀ name ∈ declared.aliasNames, ¬ good name → ∀ t, ¬ aliases.Has name t

theorem Fresh.start (h : declared.Fresh good aliases) : declared.Fresh good (aliases.set name .inProgress) := by
  intro other mem bad t has
  rw [AliasTable.Has, AliasTable.find?_set] at has
  split at has
  · cases has
  · exact h other mem bad t has

theorem Fresh.later (h : declared.Fresh good before)
    (apart : ∀ other, ¬ good other → after.find? other = before.find? other) : declared.Fresh good after := by
  intro other mem bad t has
  rw [AliasTable.Has, apart other bad] at has
  exact h other mem bad t has

/-- What resolving an alias does to the others: they keep what they came to, and one with a meaning needs only such. -/
structure Advances (good : String → Prop) (name : String) (before after : AliasTable) : Prop where
  kept : before.Kept after
  apart : good name → ∀ other, ¬ good other → after.find? other = before.find? other

theorem Advances.trans {good : String → Prop} {name other : String} {before middle after : AliasTable}
    (isGood : good other) (first : Advances good name before middle) (second : Advances good other middle after) :
    Advances good name before after where
  kept := first.kept.trans second.kept
  apart mine last bad := (second.apart isGood last bad).trans (first.apart mine last bad)

/-- The cycle in an error, as far as it is traced back: a path of aliases that were not resolved before and are now. It
comes back to where it starts, or it leads from the alias that is asked for to one on the way. -/
structure Traced (declared : Declarations) (way : Finset String) (name : String) (before after : AliasTable)
    (inner : List String) (last : String) : Prop where
  chain : (inner ++ [last]).IsChain declared.Refers
  distinct : inner.Nodup
  fresh : ∀ member ∈ inner, member ∈ declared.aliasNames ∧ member ∉ way ∧ (∀ t, ¬ before.Has member t) ∧
    ∃ t, after.Has member t
  ends : inner.head? = some last ∨ last ∈ way ∧ (inner ++ [last]).head? = some name

/-- Whether the bounds to be checked are applications in the targets of aliases, with all those of the aliases
with a meaning that have come to a type. -/
structure Gathered (declared : Declarations) (good : String → Prop) (s : Lowering) : Prop where
  inside : ∀ bound ∈ s.pending, ∃ name ∈ declared.aliasNames, bound ∈ declared.applications name
  all : ∀ name, good name → ∀ t, s.aliases.Has name t → declared.applications name ⊆ s.pending

namespace Gathered

variable {declared : Declarations} {good : String → Prop} {s : Lowering} {name : String}

theorem start (h : declared.Gathered good s) : declared.Gathered good { s with aliases := s.aliases.set name .inProgress } := by
  refine ⟨h.inside, fun other isGood t has => h.all other isGood t ?_⟩
  rw [AliasTable.Has, AliasTable.find?_set] at has
  split at has
  · cases has
  · exact has

theorem finish (h : declared.Gathered good s) (grown : declared.applications name ⊆ s.pending) (t : Ty) :
    declared.Gathered good { s with aliases := s.aliases.set name (.resolved t) } := by
  refine ⟨h.inside, fun other isGood u has => ?_⟩
  rw [AliasTable.Has, AliasTable.find?_set] at has
  split at has
  · rename_i same
    exact same ▸ grown
  · exact h.all other isGood u has

theorem add (h : declared.Gathered good s) (mem : name ∈ declared.aliasNames) {bound : PendingBound}
    (isOne : bound ∈ declared.applications name) : declared.Gathered good { s with pending := s.pending ++ [bound] } := by
  refine ⟨fun other isIn => ?_, fun other isGood t has => ?_⟩
  · rcases mem_append.1 isIn with isIn | isIn
    · exact h.inside other isIn
    · exact ⟨name, mem, mem_singleton.1 isIn ▸ isOne⟩
  · exact subset_append_of_subset_left _ (h.all other isGood t has)

end Gathered

/-- What asking for an alias comes to, where `way` are the aliases that are open. -/
structure Asked (declared : Declarations) (good : String → Prop) (way : Finset String) (name : String)
    (before : Lowering) (answer : Except ResolveError Ty × Lowering) : Prop where
  settles : declared.Settles good way answer.2.aliases
  advances : Advances good name before.aliases answer.2.aliases
  grows : before.pending ⊆ answer.2.pending
  has : name ∉ way → ∃ t, answer.2.aliases.Has name t
  ok : ∀ t, answer.1 = .ok t → answer.2.aliases.Has name t
  gives : good name → answer.1 = .ok (declared.aliasType name)
  traced : ∀ members, answer.1 = .error (.aliasCycle members) → ∃ inner last, members = inner ++ [last] ∧
    declared.Traced way name before.aliases answer.2.aliases inner last
  fails : declared.Fresh good before.aliases → ¬ good name → ∃ error, answer.1 = .error error
  gathered : good name → declared.Gathered good before → declared.Gathered good answer.2

namespace Traced

variable {declared : Declarations} {way : Finset String} {name other last : String} {before middle after : AliasTable}
  {inner : List String}

theorem earlier (kept : before.Kept middle) (h : declared.Traced way name middle after inner last) :
    declared.Traced way name before after inner last :=
  { h with fresh := fun member mem =>
      (h.fresh member mem).imp_right (And.imp_right (And.imp_left fun none t has => none t (kept member t has))) }

theorem later (kept : middle.Kept after) (h : declared.Traced way name before middle inner last) :
    declared.Traced way name before after inner last :=
  { h with fresh := fun member mem =>
      (h.fresh member mem).imp_right (And.imp_right (And.imp_right (Exists.imp fun t => kept member t))) }

/-- A cycle is traced one alias further back. It goes on through that alias unless it has come back to its start. -/
theorem through (h : declared.Traced (insert name way) other before after inner last)
    (refers : declared.Refers name other) (mem : name ∈ declared.aliasNames) (isClosed : name ∉ way)
    (isNew : ∀ t, ¬ before.Has name t) {t : Ty} (has : after.Has name t) {members : List String}
    (same : ResolveError.through name (.aliasCycle (inner ++ [last])) = .aliasCycle members) :
    ∃ inner last, members = inner ++ [last] ∧ declared.Traced way name before after inner last := by
  have outside : ∀ member ∈ inner, member ≠ name ∧ member ∉ way := fun member isIn =>
    not_or.1 (mt Finset.mem_insert.2 (h.fresh member isIn).2.1)
  have fresh : ∀ member ∈ inner, member ∈ declared.aliasNames ∧ member ∉ way ∧ (∀ t, ¬ before.Has member t) ∧
      ∃ t, after.Has member t := fun member isIn =>
    ⟨(h.fresh member isIn).1, (outside member isIn).2, (h.fresh member isIn).2.2⟩
  rw [ResolveError.through] at same
  split at same
  · rename_i closed
    cases same
    exact ⟨inner, last, rfl, h.chain, h.distinct, fresh, .inl (ResolveError.isClosed_concat.1 closed)⟩
  · rename_i isOpen
    cases same
    obtain ⟨isLast, start⟩ := h.ends.resolve_left (mt ResolveError.isClosed_concat.2 isOpen)
    refine ⟨name :: inner, last, rfl, ?_, ?_, forall_mem_cons.2 ⟨⟨mem, isClosed, isNew, t, has⟩, fresh⟩, ?_⟩
    · exact isChain_cons.2 ⟨fun next isNext => by cases start.symm.trans isNext; exact refers, h.chain⟩
    · exact nodup_cons.2 ⟨fun isIn => (outside name isIn).1 rfl, h.distinct⟩
    · rcases Finset.mem_insert.1 isLast with rfl | isIn
      · exact .inl rfl
      · exact .inr ⟨isIn, rfl⟩

end Traced

section Each

variable (declared : Declarations) (source : AliasSource) (rest : List AliasSource) (s : Lowering)

theorem resolveEach_cons : (declared.resolveEach (source :: rest) s).1 =
    (declared.resolveEach rest ((declared.table.resolveAlias source.name).run.run s).2).1 := by
  rw [resolveEach]
  cases (declared.table.resolveAlias source.name).run.run s with
  | mk result later => cases result <;> rfl

theorem silent_cons : (declared.resolveEach (source :: rest) s).2 = [] ↔
    (∃ t, ((declared.table.resolveAlias source.name).run.run s).1 = .ok t) ∧
      (declared.resolveEach rest ((declared.table.resolveAlias source.name).run.run s).2).2 = [] := by
  rw [resolveEach]
  cases (declared.table.resolveAlias source.name).run.run s with
  | mk result later => cases result <;> simp

end Each

namespace Grounded

variable {declared : Declarations} {good : String → Prop} (h : declared.Grounded good)
  (entered : declared.EnteredAliases) {way : Finset String} {name : String}

include h entered

/-- An alias without a meaning whose target is given one: it is built from what the aliases there came to. If one of
these is all there is to it, that has no meaning either. -/
theorem outcome_of_answered {aliases : AliasTable} (settles : declared.Settles good way aliases)
    (mem : name ∈ declared.aliasNames) (bad : ¬ good name) {written : TypeExpr} {path : ModulePath}
    (found : declared.aliases.find? name = some (.pending (.expression written path))) {t : Ty}
    (answered : written.Answered (declared.table.heads path []) aliases.Has t) :
    declared.Outcome good aliases name t := by
  have same := answered.meaning aliases.typeOf fun other _ t has => has.typeOf.symm
  have built : declared.Built aliases name t := ⟨written, path, found, answered.resolves, answered.calls, same⟩
  refine .inr ⟨bad, ?_⟩
  by_cases forwards : ∃ other, declared.Forwards name other
  · obtain ⟨other, spelling, span, place, again, head⟩ := forwards
    cases found.symm.trans again
    have only : TypeExpr.aliases (declared.table.heads path []) ⟨.named spelling [], span⟩ = [other] := by
      simp [TypeExpr.aliases, TypeExprKind.aliases, TypeExpr.aliasesAll, head, TypeHead.aliases]
    have isOne : other ∈ TypeExpr.aliases (declared.table.heads path []) ⟨.named spelling [], span⟩ := by simp [only]
    obtain ⟨u, has⟩ := answered.calls other isOne
    have isType : t = u := by
      rw [same, ← has.typeOf]
      simp [TypeExpr.meaning, TypeExprKind.meaning, head, TypeHead.applied]
    rcases settles.outcome entered (entered.mem_of_aliases isOne) has with ⟨isGood, _⟩ | ⟨_, isError | ⟨nests, _⟩⟩
    · refine (bad (h.full name mem _ path found answered.resolves fun next isNext => ?_)).elim
      rw [only, mem_singleton] at isNext
      exact isNext ▸ isGood
    · exact .inl (isType.trans isError)
    · obtain ⟨last, steps, rest⟩ := nests
      exact .inr ⟨⟨last, .head ⟨spelling, span, path, found, head⟩ steps, rest⟩, built⟩
  · exact .inr ⟨⟨name, .refl, ⟨written, path, found, answered.resolves⟩, not_exists.1 forwards⟩, built⟩

section Opened

omit entered

variable {depth : Nat} {s : Lowering} {written : TypeExpr} {path : ModulePath}
  (declaredAs : declared.aliases.find? name = some (.pending (.expression written path)))
  (found : s.aliases.find? name = some (.pending (.expression written path))) (isClosed : name ∉ way)
  (started : declared.Settles good (insert name way) (s.aliases.set name .inProgress))
  (inner : ∀ other, declared.Refers name other → ∀ now : Lowering,
    declared.Settles good (insert name way) now.aliases → declared.Asked good (insert name way) other now
      ((resolveAlias (AliasTarget.lower declared.table) depth other).run.run now))

include declaredAs found isClosed started inner

theorem asked_of_good (isGood : good name) : declared.Asked good way name s
    ((resolveAlias (AliasTarget.lower declared.table) (depth + 1) name).run.run s) := by
  let known (now : Lowering) : Prop :=
    declared.Settles good (insert name way) now.aliases ∧
      Advances good name (s.aliases.set name .inProgress) now.aliases ∧
      (declared.Gathered good s → declared.Gathered good now)
  have each : ∀ other, declared.Refers name other →
      Gives known (resolveAlias (AliasTarget.lower declared.table) depth other) (declared.aliasType other) [] := by
    intro other refers now so
    have asked := inner other refers now so.1
    have mine := h.refers _ _ isGood refers
    refine ⟨_, Prod.ext (asked.gives mine) rfl,
      ⟨asked.settles, so.2.1.trans mine asked.advances, fun start => asked.gathered mine (so.2.2 start)⟩, ?_⟩
    rw [append_nil]
    exact asked.grows
  obtain ⟨later, ran, ⟨settled, advances, gathers⟩, grown⟩ := h.lower_target isGood declaredAs each
    (fun _ isOne _ so => ⟨so.1, so.2.1, fun start => (so.2.2 start).add (h.names _ isGood) isOne⟩)
    { s with aliases := s.aliases.set name .inProgress } ⟨started, ⟨.refl _, fun _ _ _ => rfl⟩, Gathered.start⟩
  obtain ⟨finished, keeps⟩ := settled.finish isClosed (.inl ⟨isGood, rfl⟩)
  have has : (later.aliases.set name (.resolved (declared.aliasType name))).Has name (declared.aliasType name) := by
    simp [AliasTable.Has]
  rw [resolveAlias_ok found ran]
  refine ⟨finished, ⟨?_, fun _ other bad => ?_⟩, (append_subset.1 grown).1, fun _ => ⟨_, has⟩, fun _ done => ?_,
    fun _ => rfl, fun _ failed => (by cases failed), fun _ bad => (bad isGood).elim,
    fun _ start => (gathers start).finish (append_subset.1 grown).2 _⟩
  · exact ((AliasTable.Kept.opened found).trans advances.kept).trans keeps
  · have differ : other ≠ name := fun same => bad (same ▸ isGood)
    have same := advances.apart isGood other bad
    rw [AliasTable.find?_set, if_neg differ] at same ⊢
    exact same
  · cases done
    exact has

include entered

theorem asked_of_bad (mem : name ∈ declared.aliasNames) (bad : ¬ good name) : declared.Asked good way name s
    ((resolveAlias (AliasTarget.lower declared.table) (depth + 1) name).run.run s) := by
  let known (now : Lowering) : Prop := declared.Settles good (insert name way) now.aliases ∧
    (declared.Fresh good s.aliases → declared.Fresh good now.aliases)
  let step (now later : Lowering) : Prop := now.aliases.Kept later.aliases ∧ now.pending ⊆ later.pending
  let fault (now later : Lowering) (error : ResolveError) : Prop :=
    declared.Settles good (insert name way) later.aliases ∧ step now later ∧ ∀ members, error = .aliasCycle members →
      ∃ other inner last, declared.Refers name other ∧ members = inner ++ [last] ∧
        declared.Traced (insert name way) other now.aliases later.aliases inner last
  have trans {a b c : Lowering} (first : step a b) (second : step b c) : step a c :=
    ⟨first.1.trans second.1, List.Subset.trans first.2 second.2⟩
  have laws : Moves.Laws known step fault := by
    refine ⟨fun _ => ⟨.refl _, List.Subset.refl _⟩, trans,
      fun so _ => ⟨so, .refl _, subset_append_left _ _⟩,
      fun so plain => ⟨so.1, ⟨.refl _, List.Subset.refl _⟩, fun members same => (plain members same).elim⟩, ?_⟩
    rintro a b c error moved ⟨so, more, traced⟩
    refine ⟨so, trans moved more, fun members same => ?_⟩
    obtain ⟨other, inner, last, refers, rfl, path⟩ := traced members same
    exact ⟨other, inner, last, refers, rfl, path.earlier moved.1⟩
  have moves : Moves known step fault
      ((AliasTarget.expression written path).lower declared.table (resolveAlias (AliasTarget.lower declared.table) depth))
      fun now => written.Answered (declared.table.heads path []) fun other t =>
        now.aliases.Has other t ∧ (declared.Fresh good s.aliases → good other) := by
    refine written.lower_moves laws (fun _ _ moved other t => .imp_left (moved.1 other t)) fun other named now so => ?_
    have refers : declared.Refers name other := ⟨written, path, declaredAs, named⟩
    have asked := inner other refers now so.1
    refine ⟨fun t done => ?_, fun error failed => ?_⟩
    · have isGood : declared.Fresh good s.aliases → good other := by
        intro start
        by_contra isBad
        obtain ⟨error, failed⟩ := asked.fails (so.2 start) isBad
        cases done.symm.trans failed
      refine ⟨⟨asked.settles, fun start => (so.2 start).later fun last isBad => ?_⟩,
        ⟨asked.advances.kept, asked.grows⟩, asked.ok t done, isGood⟩
      exact asked.advances.apart (isGood start) last isBad
    refine ⟨asked.settles, ⟨asked.advances.kept, asked.grows⟩, fun members same => ?_⟩
    obtain ⟨inner, last, rfl, traced⟩ := asked.traced members (same ▸ failed)
    exact ⟨other, inner, last, refers, rfl, traced⟩
  obtain ⟨answered, failed⟩ := moves { s with aliases := s.aliases.set name .inProgress } ⟨started, Fresh.start⟩
  have opens : s.aliases.Kept (s.aliases.set name .inProgress) := .opened found
  cases ran : ((AliasTarget.expression written path).lower declared.table
      (resolveAlias (AliasTarget.lower declared.table) depth)).run.run
        { s with aliases := s.aliases.set name .inProgress } with
  | mk result later =>
    rw [ran] at answered failed
    cases result with
    | ok t =>
      obtain ⟨⟨settled, _⟩, ⟨kept, grown⟩, answer⟩ := answered t rfl
      obtain ⟨finished, keeps⟩ := settled.finish isClosed
        (h.outcome_of_answered entered settled mem bad declaredAs (answer.mono fun _ _ => And.left))
      have has : (later.aliases.set name (.resolved t)).Has name t := by simp [AliasTable.Has]
      rw [resolveAlias_ok found ran]
      refine ⟨finished, ⟨(opens.trans kept).trans keeps, fun isGood => (bad isGood).elim⟩, grown, fun _ => ⟨_, has⟩,
        fun _ done => ?_, fun isGood => (bad isGood).elim, fun _ failing => (by cases failing), fun start _ => ?_,
        fun isGood => (bad isGood).elim⟩
      · cases done
        exact has
      · -- a target that is given a meaning calls only aliases that have one
        refine (bad (h.full name mem written path declaredAs answer.resolves fun other named => ?_)).elim
        obtain ⟨_, _, isGood⟩ := answer.calls other named
        exact isGood start
    | error error =>
      obtain ⟨settled, ⟨kept, grown⟩, traced⟩ := failed error rfl
      obtain ⟨finished, keeps⟩ := settled.finish isClosed (.inr ⟨bad, .inl rfl⟩)
      have has : (later.aliases.set name (.resolved .error)).Has name .error := by simp [AliasTable.Has]
      rw [resolveAlias_error found ran]
      refine ⟨finished, ⟨(opens.trans kept).trans keeps, fun isGood => (bad isGood).elim⟩, grown, fun _ => ⟨_, has⟩,
        fun _ done => (by cases done), fun isGood => (bad isGood).elim, fun members failing => ?_, fun _ _ => ⟨_, rfl⟩,
        fun isGood => (bad isGood).elim⟩
      have same : error.through name = .aliasCycle members := by simpa using failing
      cases error with
      | aliasCycle cycle =>
        obtain ⟨other, inner, last, refers, rfl, path⟩ := traced cycle rfl
        refine ((path.earlier opens).later keeps).through refers mem isClosed (fun t isOne => ?_) has same
        cases found.symm.trans isOne
      | _ => cases same

end Opened

/-- By induction on how deep the way may still get. Whatever is open, an alias that is asked for comes to a type, if it
is not on the way itself, and one with a meaning comes to that. -/
theorem resolveAlias_asked {depth : Nat} (mem : name ∈ declared.aliasNames) {s : Lowering}
    (settles : declared.Settles good way s.aliases) (deep : declared.aliasNames.card < depth + way.card)
    (apart : ∀ other ∈ way, good other → good name ∧ ¬ ReflTransGen declared.Refers name other) :
    declared.Asked good way name s
      ((resolveAlias (AliasTarget.lower declared.table) depth name).run.run s) := by
  induction depth generalizing name way s with
  | zero =>
    have few := settles.card_le
    omega
  | succ depth ih =>
    by_cases isOpen : name ∈ way
    · have bad : ¬ good name := fun isGood => (apart name isOpen isGood).2 .refl
      rw [resolveAlias_inProgress (settles.opened name isOpen).2]
      refine ⟨settles, ⟨.refl _, fun isGood => (bad isGood).elim⟩, List.Subset.refl _,
        fun isClosed => (isClosed isOpen).elim, fun _ done => (by cases done), fun isGood => (bad isGood).elim, ?_,
        fun _ _ => ⟨_, rfl⟩, fun isGood => (bad isGood).elim⟩
      rintro members ⟨⟩
      exact ⟨[], name, rfl, .singleton name, .nil, by simp, .inr ⟨isOpen, rfl⟩⟩
    rcases settles.others name mem isOpen with found | ⟨t, has, outcome⟩
    · obtain ⟨written, path, declaredAs⟩ := entered.target mem
      rw [declaredAs] at found
      have started := settles.start mem found
      have inner : ∀ other, declared.Refers name other → ∀ now : Lowering,
          declared.Settles good (insert name way) now.aliases →
            declared.Asked good (insert name way) other now
              ((resolveAlias (AliasTarget.lower declared.table) depth other).run.run now) := by
        intro other refers now settled
        refine ih (entered.mem_of_refers refers) settled ?_ fun last isIn isGood => ?_
        · rw [Finset.card_insert_of_notMem isOpen]
          omega
        · rcases Finset.mem_insert.1 isIn with rfl | isIn
          · exact ⟨h.refers _ _ isGood refers, fun back => h.acyclic _ isGood (.head' refers back)⟩
          · obtain ⟨mine, away⟩ := apart last isIn isGood
            exact ⟨h.refers _ _ mine refers, fun on => away (.head refers on)⟩
      by_cases isGood : good name
      · exact h.asked_of_good declaredAs found isOpen started inner isGood
      · exact h.asked_of_bad entered declaredAs found isOpen started inner mem isGood
    · rw [resolveAlias_resolved has]
      refine ⟨settles, ⟨.refl _, fun _ _ _ => rfl⟩, List.Subset.refl _, fun _ => ⟨t, has⟩, fun _ done => ?_,
        fun isGood => ?_, fun _ failed => (by cases failed), fun fresh bad => (fresh name mem bad t has).elim,
        fun _ gathered => gathered⟩
      · cases done
        exact has
      · rcases outcome with ⟨_, rfl⟩ | ⟨bad, _⟩
        · rfl
        · exact (bad isGood).elim

theorem resolve_asked (mem : name ∈ declared.aliasNames) {s : Lowering} (settles : declared.Settles good ∅ s.aliases) :
    declared.Asked good ∅ name s ((declared.table.resolveAlias name).run.run s) := by
  rw [DeclTable.resolveAlias, LowerM.run_get_bind]
  exact h.resolveAlias_asked entered mem settles (settles.deep entered) fun _ isIn => by simp at isIn

/-- Aliases resolved one after the other come to types, in whatever order. Nothing is reported exactly if all of them
have a meaning. -/
theorem resolveEach_settles {uses : List AliasSource} (each : ∀ source ∈ uses, source ∈ declared.table.aliases)
    {s : Lowering} (settles : declared.Settles good ∅ s.aliases) :
    declared.Settles good ∅ (declared.resolveEach uses s).1.aliases ∧
      s.aliases.Kept (declared.resolveEach uses s).1.aliases ∧
      (∀ source ∈ uses, ∃ t, (declared.resolveEach uses s).1.aliases.Has source.name t) ∧
      (declared.Fresh good s.aliases →
        ((declared.resolveEach uses s).2 = [] ↔ ∀ source ∈ uses, good source.name)) := by
  induction uses generalizing s with
  | nil => exact ⟨settles, .refl _, fun _ mem => (by cases mem), fun _ => ⟨fun _ _ mem => (by cases mem), fun _ => rfl⟩⟩
  | cons source rest ih =>
    obtain ⟨isOne, others⟩ := forall_mem_cons.1 each
    have mem := mem_aliasNames.2 ⟨source, isOne, rfl⟩
    have asked := h.resolve_asked entered mem settles
    obtain ⟨settled, kept, all, silent⟩ := ih others asked.settles
    obtain ⟨t, has⟩ := asked.has (by simp)
    rw [resolveEach_cons, silent_cons]
    refine ⟨settled, asked.advances.kept.trans kept, forall_mem_cons.2 ⟨⟨t, kept _ _ has⟩, all⟩, fun fresh => ?_⟩
    rw [forall_mem_cons]
    by_cases isGood : good source.name
    · rw [and_iff_right isGood, and_iff_right ⟨_, asked.gives isGood⟩]
      exact silent (fresh.later (asked.advances.apart isGood))
    · obtain ⟨error, failed⟩ := asked.fails fresh isGood
      have none : ¬ ∃ t, ((declared.table.resolveAlias source.name).run.run s).1 = .ok t := by
        rintro ⟨t, done⟩
        cases done.symm.trans failed
      rw [iff_false_left (fun both => none both.1)]
      exact fun both => isGood both.1

end Grounded

/-- Where every alias has a meaning, the bounds that are left to be checked are the applications in the targets of the
aliases, whatever the order in which these are resolved. -/
theorem Grounded.mem_pending (h : declared.Grounded (· ∈ declared.aliasNames)) (entered : declared.EnteredAliases)
    {uses : List AliasSource} (all : ∀ source, source ∈ uses ↔ source ∈ declared.table.aliases) (bound : PendingBound) :
    bound ∈ (declared.resolveEach uses { aliases := declared.aliases }).1.pending ↔
      ∃ name ∈ declared.aliasNames, bound ∈ declared.applications name := by
  have gathers : ∀ (uses : List AliasSource) (s : Lowering), (∀ source ∈ uses, source ∈ declared.table.aliases) →
      declared.Settles (· ∈ declared.aliasNames) ∅ s.aliases → declared.Gathered (· ∈ declared.aliasNames) s →
        declared.Gathered (· ∈ declared.aliasNames) (declared.resolveEach uses s).1 := by
    intro uses
    induction uses with
    | nil => exact fun _ _ _ gathered => gathered
    | cons source rest ih =>
      intro s each settles gathered
      obtain ⟨isOne, others⟩ := forall_mem_cons.1 each
      have mem := mem_aliasNames.2 ⟨source, isOne, rfl⟩
      have asked := h.resolve_asked entered mem settles
      rw [resolveEach_cons]
      exact ih _ others asked.settles (asked.gathered mem gathered)
  have initial : declared.Gathered (· ∈ declared.aliasNames) { aliases := declared.aliases } := by
    refine ⟨fun _ mem => (by cases mem), fun name mem t has => ?_⟩
    obtain ⟨written, path, found⟩ := entered.target mem
    cases found.symm.trans has
  have gathered := gathers uses _ (fun source => (all source).1) (.initial _ _) initial
  refine ⟨gathered.inside bound, ?_⟩
  rintro ⟨name, mem, isOne⟩
  obtain ⟨source, isSource, rfl⟩ := mem_aliasNames.1 mem
  obtain ⟨_, _, each, _⟩ := h.resolveEach_settles entered (fun source => (all source).1)
    (s := { aliases := declared.aliases }) (.initial _ _)
  obtain ⟨t, has⟩ := each source ((all source).2 isSource)
  exact gathered.all _ mem t has isOne

end Declarations

end SemanticChecker
