import Mathlib
import SemanticChecker.Ty.Unifier

/-! Runs of the unifier. A run starts without bindings and unifies pair after pair, whether a pair
clashes or not. Every unifier on the way is settled: what a bound slot stands for mentions no bound slot,
so bindings lead nowhere twice and one pass resolves a type. A later unifier only fills slots that an
earlier one left open, and filling keeps types in agreement. -/
namespace SemanticChecker

open List

namespace Ty

theorem fill_fill (value further : Nat → Ty) (t : Ty) :
    (t.fill value).fill further = t.fill fun index => (value index).fill further := by
  induction t using byParts (Q := fun ts =>
      fillAll further (fillAll value ts) = fillAll (fun index => (value index).fill further) ts) <;>
    simp_all [fill, fillAll]

mutual

/-- Two types are the same but for places where one of them is the error type. -/
inductive Agrees : Ty → Ty → Prop
  | refl (t : Ty) : Agrees t t
  | errorLeft (t : Ty) : Agrees .error t
  | errorRight (t : Ty) : Agrees t .error
  | tuple {as bs : List Ty} : AgreesAll as bs → Agrees (.tuple as) (.tuple bs)
  | list {a b : Ty} : Agrees a b → Agrees (.list a) (.list b)
  | dict {a b c d : Ty} : Agrees a c → Agrees b d → Agrees (.dict a b) (.dict c d)
  | struct {as bs : List Ty} (id : StructId) : AgreesAll as bs → Agrees (.struct id as) (.struct id bs)
  | function {as bs cs ds : List Ty} :
    AgreesAll as cs → AgreesAll bs ds → Agrees (.function as bs) (.function cs ds)

inductive AgreesAll : List Ty → List Ty → Prop
  | nil : AgreesAll [] []
  | cons {a b : Ty} {as bs : List Ty} : Agrees a b → AgreesAll as bs → AgreesAll (a :: as) (b :: bs)

end

theorem agreesAll_of_zip {as bs : List Ty} (count : as.length = bs.length)
    (h : ∀ pair ∈ as.zip bs, Agrees pair.1 pair.2) : AgreesAll as bs := by
  induction as generalizing bs with
  | nil =>
    cases bs with
    | nil => exact .nil
    | cons _ _ => cases count
  | cons a as ih =>
    cases bs with
    | nil => cases count
    | cons b bs =>
      have tail := ih (Nat.succ.inj count) fun pair hp => h pair (mem_cons_of_mem _ hp)
      exact .cons (h (a, b) mem_cons_self) tail

mutual

theorem Agrees.fill (value : Nat → Ty) : ∀ {a b : Ty}, Agrees a b → Agrees (a.fill value) (b.fill value)
  | _, _, .refl t => .refl (t.fill value)
  | _, _, .errorLeft t => .errorLeft (t.fill value)
  | _, _, .errorRight t => .errorRight (t.fill value)
  | _, _, .tuple parts => .tuple (parts.fill value)
  | _, _, .list element => .list (element.fill value)
  | _, _, .dict key entry => .dict (key.fill value) (entry.fill value)
  | _, _, .struct id arguments => .struct id (arguments.fill value)
  | _, _, .function parameters returns => .function (parameters.fill value) (returns.fill value)

theorem AgreesAll.fill (value : Nat → Ty) :
    ∀ {as bs : List Ty}, AgreesAll as bs → AgreesAll (fillAll value as) (fillAll value bs)
  | _, _, .nil => .nil
  | _, _, .cons head tail => .cons (head.fill value) (tail.fill value)

end

end Ty

namespace UnifyNeed

def MetBy (value : Nat → Ty) : UnifyNeed → Prop
  | .nothing => True
  | .bind slot t rest =>
    value slot = t.fill value ∧ ∀ pair ∈ rest, Ty.Agrees (pair.1.fill value) (pair.2.fill value)
  | .clash _ => False

variable {value : Nat → Ty} {need : UnifyNeed}

@[simp] theorem metBy_within (expected found : Ty) : (need.within expected found).MetBy value ↔ need.MetBy value := by
  cases need <;> rfl

/-- Going on past a need either meets what comes next, or leaves it over and agreed. -/
theorem MetBy.of_andThen {left : List (Ty × Ty)} {next : Unit → UnifyNeed} (h : (need.andThen left next).MetBy value) :
    need.MetBy value ∧ ((next ()).MetBy value ∨ ∀ pair ∈ left, Ty.Agrees (pair.1.fill value) (pair.2.fill value)) := by
  cases need with
  | nothing => exact ⟨trivial, .inl h⟩
  | clash _ => exact h.elim
  | bind slot t rest =>
    obtain ⟨bound, pairs⟩ := h
    exact ⟨⟨bound, fun pair hp => pairs pair (mem_append_left _ hp)⟩,
      .inr fun pair hp => pairs pair (mem_append_right _ hp)⟩

theorem MetBy.of_ofSlot {slot : Nat} {t : Ty} (h : (ofSlot slot t).MetBy value) : value slot = t.fill value := by
  rw [ofSlot] at h
  split at h
  · exact h.elim
  · exact h.1

end UnifyNeed

namespace Ty

theorem zip_fillAll (value : Nat → Ty) (as bs : List Ty) :
    (fillAll value as).zip (fillAll value bs) =
      (as.zip bs).map fun pair => (pair.1.fill value, pair.2.fill value) := by
  rw [fillAll_eq_map, fillAll_eq_map, zip_map]
  rfl

theorem agreesAll_fill_of_zip {value : Nat → Ty} {as bs : List Ty} (count : as.length = bs.length)
    (h : ∀ pair ∈ as.zip bs, Agrees (pair.1.fill value) (pair.2.fill value)) :
    AgreesAll (fillAll value as) (fillAll value bs) := by
  refine agreesAll_of_zip (by simpa [fillAll_eq_map] using count) fun pair hp => ?_
  rw [zip_fillAll] at hp
  obtain ⟨source, hs, rfl⟩ := mem_map.1 hp
  exact h source hs

mutual

theorem agrees_of_metBy (value : Nat → Ty) (a b : Ty) (h : (a.need b).MetBy value) :
    Agrees (a.fill value) (b.fill value) := by
  unfold need at h
  split at h
  · rename_i same
    exact same ▸ .refl _
  · split at h
    · exact .errorLeft _
    · exact .errorRight _
    · rw [fill, h.of_ofSlot]
      exact .refl _
    · rw [fill, h.of_ofSlot]
      exact .refl _
    · split at h
      · rename_i count
        exact .tuple (agreesAll_of_metBy value _ _ count ((UnifyNeed.metBy_within _ _).1 h))
      · exact h.elim
    · exact .list (agrees_of_metBy value _ _ ((UnifyNeed.metBy_within _ _).1 h))
    · obtain ⟨key, rest⟩ := UnifyNeed.MetBy.of_andThen ((UnifyNeed.metBy_within _ _).1 h)
      refine .dict (agrees_of_metBy value _ _ key) ?_
      rcases rest with next | left
      · exact agrees_of_metBy value _ _ next
      · exact left _ mem_cons_self
    · split at h
      · rename_i count
        obtain ⟨first, rest⟩ := UnifyNeed.MetBy.of_andThen ((UnifyNeed.metBy_within _ _).1 h)
        refine .function (agreesAll_of_metBy value _ _ count.1 first) ?_
        rcases rest with next | left
        · exact agreesAll_of_metBy value _ _ count.2 next
        · exact agreesAll_fill_of_zip count.2 left
      · exact h.elim
    · split at h
      · rename_i same
        obtain ⟨rfl, count⟩ := same
        exact .struct _ (agreesAll_of_metBy value _ _ count ((UnifyNeed.metBy_within _ _).1 h))
      · exact h.elim
    · exact h.elim
decreasing_by all_goals (subst_vars; simp +arith)

theorem agreesAll_of_metBy (value : Nat → Ty) :
    ∀ as bs : List Ty, as.length = bs.length → (needAll as bs).MetBy value →
      AgreesAll (fillAll value as) (fillAll value bs)
  | [], [], _, _ => .nil
  | a :: as, b :: bs, count, h => by
    rw [needAll] at h
    obtain ⟨head, rest⟩ := h.of_andThen
    refine .cons (agrees_of_metBy value a b head) ?_
    rcases rest with next | left
    · exact agreesAll_of_metBy value as bs (Nat.succ.inj count) next
    · exact agreesAll_fill_of_zip (Nat.succ.inj count) left
decreasing_by all_goals simp +arith

end

end Ty

namespace Unifier

def IsBound (u : Unifier) (slot : Nat) : Prop :=
  (u.bindings.lookup slot).isSome

/-- One slot is mentioned by what another stands for. -/
def LeadsTo (u : Unifier) (slot index : Nat) : Prop :=
  ∃ t, u.bindings.lookup slot = some t ∧ index ∈ t.slots

def Settled (u : Unifier) : Prop :=
  ∀ slot index, u.LeadsTo slot index → ¬ u.IsBound index

variable {u : Unifier} {slot : Nat} {t : Ty} {index : Nat} {later : Unifier} {expected found : Ty}
  {rest : List (Ty × Ty)}

theorem value_of_unbound (h : ¬ u.IsBound slot) : u.value slot = .slot slot := by
  rw [IsBound, Option.not_isSome_iff_eq_none] at h
  rw [value, h]
  rfl

theorem resolve_of_unbound (h : ∀ slot ∈ t.slots, ¬ u.IsBound slot) : u.resolve t = t := by
  rw [resolve_eq_fill]
  exact Ty.fill_eq_self fun slot hs => value_of_unbound (h slot hs)

theorem Settled.unbound_value (h : u.Settled) (slot : Nat) : ∀ index ∈ (u.value slot).slots, ¬ u.IsBound index := by
  intro index hi
  rw [value] at hi
  cases found : u.bindings.lookup slot with
  | none =>
    rw [found] at hi
    simp only [Option.getD_none, Ty.slots, mem_singleton] at hi
    simp [IsBound, hi, found]
  | some t =>
    rw [found] at hi
    exact h slot index ⟨t, found, hi⟩

theorem Settled.unbound_resolve (h : u.Settled) (t : Ty) : ∀ index ∈ (u.resolve t).slots, ¬ u.IsBound index := by
  intro index hi
  rw [resolve_eq_fill, Ty.slots_fill] at hi
  obtain ⟨slot, _, hi⟩ := mem_flatMap.1 hi
  exact h.unbound_value slot index hi

theorem Settled.resolve_resolve (h : u.Settled) (t : Ty) : u.resolve (u.resolve t) = u.resolve t :=
  resolve_of_unbound (h.unbound_resolve t)

theorem isBound_bind : (u.bind slot t).IsBound index ↔ index = slot ∨ u.IsBound index := by
  rw [IsBound, IsBound, lookup_bind]
  by_cases h : index = slot <;> simp [h]

/-- What a slot is bound to: a type free of bound slots and of the slot itself. -/
structure Fresh (u : Unifier) (slot : Nat) (t : Ty) : Prop where
  unbound : ¬ u.IsBound slot
  notMentioned : slot ∉ t.slots
  resolved : ∀ index ∈ t.slots, ¬ u.IsBound index

theorem Settled.bind {u : Unifier} (h : u.Settled) {slot : Nat} {t : Ty} (fresh : u.Fresh slot t) :
    (u.bind slot t).Settled := by
  rintro key index ⟨s, found, hi⟩ bound
  have unbound : index ≠ slot ∧ ¬ u.IsBound index := by
    rw [lookup_bind] at found
    split at found
    · obtain rfl := Option.some.inj found
      exact ⟨fun same => fresh.notMentioned (same ▸ hi), fresh.resolved index hi⟩
    · obtain ⟨value, old, rfl⟩ := Option.map_eq_some_iff.1 found
      obtain ⟨differ, hi⟩ := Ty.mem_slots_fill_only fresh.notMentioned hi
      exact ⟨differ, hi.elim (fun hi => h key index ⟨value, old, hi⟩) (fresh.resolved index)⟩
  exact (isBound_bind.1 bound).elim unbound.1 unbound.2

/-- A later unifier resolves as an earlier one does and fills in some of the slots that are left. -/
def Extends (u later : Unifier) : Prop :=
  ∃ value : Nat → Ty, ∀ t, later.resolve t = (u.resolve t).fill value

theorem Extends.refl (u : Unifier) : u.Extends u :=
  ⟨.slot, fun _ => (Ty.fill_eq_self fun _ _ => rfl).symm⟩

theorem Extends.trans {v w : Unifier} (first : u.Extends v) (second : v.Extends w) : u.Extends w := by
  obtain ⟨f, first⟩ := first
  obtain ⟨g, second⟩ := second
  refine ⟨fun index => (f index).fill g, fun t => ?_⟩
  rw [second, first, Ty.fill_fill]

theorem resolve_bind (unbound : ¬ u.IsBound slot) (s : Ty) :
    (u.bind slot t).resolve s = (u.resolve s).fill (Ty.only slot t) := by
  rw [resolve_eq_fill, resolve_eq_fill, Ty.fill_fill]
  congr
  funext index
  rw [value_bind]
  split
  · rename_i same
    rw [same, value_of_unbound unbound, Ty.fill, Ty.only, if_pos rfl]
  · rfl

theorem extends_bind (unbound : ¬ u.IsBound slot) : u.Extends (u.bind slot t) :=
  ⟨Ty.only slot t, resolve_bind unbound⟩

theorem Extends.resolve_resolve {u later : Unifier} (h : u.Settled) (ext : u.Extends later) (t : Ty) :
    later.resolve (u.resolve t) = later.resolve t := by
  obtain ⟨value, filled⟩ := ext
  rw [filled, filled, h.resolve_resolve]

theorem Extends.agrees (ext : u.Extends later) {a b : Ty} (h : Ty.Agrees (u.resolve a) (u.resolve b)) :
    Ty.Agrees (later.resolve a) (later.resolve b) := by
  obtain ⟨value, filled⟩ := ext
  rw [filled, filled]
  exact h.fill value

theorem Settled.fresh_of_need (h : u.Settled) (asked : (u.resolve expected).need (u.resolve found) = .bind slot t rest) :
    u.Fresh slot t := by
  have within := (u.resolve expected).need_isWithin (u.resolve found)
  rw [asked] at within
  obtain ⟨mem, free, parts, _⟩ := within
  have unbound : ∀ index ∈ (u.resolve expected).slots ++ (u.resolve found).slots, ¬ u.IsBound index :=
    fun index hi => (mem_append.1 hi).elim (h.unbound_resolve expected index)
      (h.unbound_resolve found index)
  exact ⟨unbound slot mem, free, fun index hi => unbound index (parts hi)⟩

/-- Once a slot is bound as two types ask for, and what is left agrees, the two types agree. -/
theorem agrees_of_bind (h : u.Settled) (asked : (u.resolve expected).need (u.resolve found) = .bind slot t rest)
    (ext : (u.bind slot t).Extends later)
    (left : ∀ pair ∈ rest, Ty.Agrees (later.resolve pair.1) (later.resolve pair.2)) :
    Ty.Agrees (later.resolve expected) (later.resolve found) := by
  have fresh := h.fresh_of_need asked
  have first : u.Extends later := (extends_bind fresh.unbound).trans ext
  have bound : later.resolve (.slot slot) = later.resolve t := by
    obtain ⟨value, filled⟩ := ext
    have atSlot : (u.bind slot t).resolve (.slot slot) = t := by
      rw [resolve_eq_fill, Ty.fill, value_bind, if_pos rfl]
    have atValue : (u.bind slot t).resolve t = t := by
      refine resolve_of_unbound fun index hi mem => ?_
      exact (isBound_bind.1 mem).elim (fun same => fresh.notMentioned (same ▸ hi)) (fresh.resolved index hi)
    rw [filled, filled, atSlot, atValue]
  have met : ((u.resolve expected).need (u.resolve found)).MetBy later.value := by
    rw [asked]
    refine ⟨?_, fun pair hp => ?_⟩
    · rw [← resolve_eq_fill, ← bound, resolve_eq_fill, Ty.fill]
    · rw [← resolve_eq_fill, ← resolve_eq_fill]
      exact left pair hp
  have agrees := Ty.agrees_of_metBy later.value _ _ met
  rwa [← resolve_eq_fill, ← resolve_eq_fill, first.resolve_resolve h, first.resolve_resolve h] at agrees

theorem Settled.agrees_of_nothing (h : u.Settled) (asked : (u.resolve expected).need (u.resolve found) = .nothing) :
    Ty.Agrees (u.resolve expected) (u.resolve found) := by
  have met : ((u.resolve expected).need (u.resolve found)).MetBy u.value := by
    rw [asked]
    trivial
  have agrees := Ty.agrees_of_metBy u.value _ _ met
  rwa [← resolve_eq_fill, ← resolve_eq_fill, h.resolve_resolve, h.resolve_resolve] at agrees

/-- Working through pairs keeps a unifier settled and only fills in slots; if no pair clashes, all of
them agree in the end. -/
theorem Settled.solve {u : Unifier} (h : u.Settled) (pairs : List (Ty × Ty)) (resolved : List Ty) :
    (u.solve pairs resolved).unifier.Settled ∧ u.Extends (u.solve pairs resolved).unifier ∧
      ((u.solve pairs resolved).agreed → ∀ pair ∈ pairs,
        Ty.Agrees ((u.solve pairs resolved).unifier.resolve pair.1)
          ((u.solve pairs resolved).unifier.resolve pair.2)) := by
  fun_induction Unifier.solve u pairs resolved with
  | case1 u resolved => exact ⟨h, .refl u, fun _ _ hp => by cases hp⟩
  | case2 u resolved expected found rest left right asked ih =>
    obtain ⟨settled, ext, agreed⟩ := ih h
    refine ⟨settled, ext, fun done pair hp => ?_⟩
    rcases mem_cons.1 hp with rfl | hp
    · exact ext.agrees (h.agrees_of_nothing asked)
    · exact agreed done pair hp
  | case3 u resolved expected found rest left right slot t more asked ih =>
    have fresh := h.fresh_of_need asked
    obtain ⟨settled, ext, agreed⟩ := ih (h.bind fresh)
    refine ⟨settled, (extends_bind fresh.unbound).trans ext, fun done pair hp => ?_⟩
    have more := agreed done
    rcases mem_cons.1 hp with rfl | hp
    · exact agrees_of_bind h asked ext fun pair hp => more pair (mem_append_left _ hp)
    · exact more pair (mem_append_right _ hp)
  | case4 u resolved expected found rest left right error asked =>
    exact ⟨h, .refl u, fun done => by cases done⟩

theorem Settled.unify {u : Unifier} (h : u.Settled) (expected found : Ty) :
    (u.unify expected found).unifier.Settled ∧ u.Extends (u.unify expected found).unifier ∧
      ((u.unify expected found).clash = none →
        Ty.Agrees ((u.unify expected found).unifier.resolve expected)
          ((u.unify expected found).unifier.resolve found)) := by
  rw [Unifier.unify]
  cases asked : (u.resolve expected).need (u.resolve found) with
  | nothing =>
    exact ⟨h, .refl u, fun _ => h.agrees_of_nothing asked⟩
  | clash error => exact ⟨h, .refl u, fun done => by cases done⟩
  | bind slot t rest =>
    have fresh := h.fresh_of_need asked
    obtain ⟨settled, ext, agreed⟩ := (h.bind fresh).solve rest [u.resolve found, u.resolve expected]
    refine ⟨settled, (extends_bind fresh.unbound).trans ext, fun done => ?_⟩
    refine agrees_of_bind h asked ext (agreed ?_)
    dsimp only at done
    split at done
    · assumption
    · cases done

/-- The unifier after a sequence of pairs, each of which may clash. -/
def run (u : Unifier) (pairs : List (Ty × Ty)) : Unifier :=
  pairs.foldl (fun u pair => (u.unify pair.1 pair.2).unifier) u

theorem settled_empty : Settled {} := by
  rintro _ _ ⟨_, found, _⟩
  cases found

theorem Settled.run {u : Unifier} (h : u.Settled) (pairs : List (Ty × Ty)) :
    (u.run pairs).Settled ∧ u.Extends (u.run pairs) := by
  induction pairs generalizing u with
  | nil => exact ⟨h, .refl u⟩
  | cons pair pairs ih =>
    obtain ⟨settled, ext, _⟩ := h.unify pair.1 pair.2
    obtain ⟨last, more⟩ := ih settled
    exact ⟨last, ext.trans more⟩

end Unifier

end SemanticChecker
