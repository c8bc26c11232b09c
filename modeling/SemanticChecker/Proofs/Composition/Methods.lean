import SemanticChecker.Proofs.Composition.Fields

/-! The methods of a layout. Parents are merged one after the other, and a method that comes in is compared with the one
that is kept so far and with no other. Still, of the methods of one name that are inherited the first with a body is
kept, or else the first, and the origins of all that have bodies are noted once two of them differ. So it does not
depend on the order of parents which names have methods, which of these have bodies, and which are ambiguous. -/
namespace SemanticChecker

open List CompositionIssue

namespace Merge

def method? (m : Merge) (name : String) : Option ResolvedMethod :=
  m.methods.find? fun method => method.name == name

def noted (m : Merge) (name : String) : List (String × List StructId) :=
  m.ambiguous.filter fun entry => entry.1 == name

section Steps

variable {m : Merge} {method existing : ResolvedMethod} {name : String} {origins : List StructId}

theorem method?_replaceMethod (found : m.method? method.name = some existing) (name : String) :
    (m.replaceMethod method).method? name = if method.name = name then some method else m.method? name := by
  rw [method?] at found
  rw [replaceMethod, method?, method?]
  dsimp only
  generalize m.methods = methods at found
  induction methods with
  | nil => cases found
  | cons other rest ih =>
    by_cases here : other.name = method.name
    · by_cases same : method.name = name <;> simp [findIdx_cons, here, same]
    · have missed : (other.name == method.name) = false := by simpa using here
      rw [find?_cons_of_neg (by simpa using here)] at found
      rw [findIdx_cons, missed, cond_false, set_cons_succ, find?_cons, find?_cons, ih found]
      by_cases same : other.name = name
      · have different : method.name ≠ name := fun again => here (same.trans again.symm)
        rw [if_neg different, if_neg different]
      · rw [beq_eq_false_iff_ne.2 same]

variable {first second : StructId} {other : String}

theorem noted_addOrigin_of_any (taken : (m.ambiguous.any fun (key, _) => key == other) = true) (name : String) :
    (m.addOrigin other first second).noted name = (m.noted name).map fun entry =>
      if entry.1 == other then (entry.1, entry.2 ++ [second]) else entry := by
  rw [addOrigin, if_pos taken, noted, noted, filter_map]
  congr 2
  funext entry
  simp only [Function.comp]
  split <;> rfl

theorem noted_addOrigin_of_ne (different : other ≠ name) :
    (m.addOrigin other first second).noted name = m.noted name := by
  cases taken : m.ambiguous.any fun (key, _) => key == other with
  | true =>
    rw [noted_addOrigin_of_any taken]
    conv_rhs => rw [← map_id (m.noted name)]
    refine map_congr_left fun entry mem => if_neg ?_
    have isName : entry.1 = name := by simpa using (mem_filter.1 mem).2
    simpa [isName] using different.symm
  | false =>
    rw [addOrigin, if_neg (by simp [taken])]
    simp [noted, different]

theorem noted_addOrigin_of_nil (none : m.noted name = []) :
    (m.addOrigin name first second).noted name = [(name, [first, second])] := by
  have free : (m.ambiguous.any fun (other, _) => other == name) = false := by
    simpa [noted, filter_eq_nil_iff] using none
  rw [addOrigin, if_neg (by simp [free]), noted, filter_append, ← noted, none]
  simp

theorem noted_addOrigin_of_single (single : m.noted name = [(name, origins)]) :
    (m.addOrigin name first second).noted name = [(name, origins ++ [second])] := by
  have taken : (name, origins) ∈ m.ambiguous := mem_of_mem_filter (single ▸ mem_cons_self : _ ∈ m.noted name)
  rw [noted_addOrigin_of_any (any_eq_true.2 ⟨_, taken, by simp⟩), single]
  simp

end Steps

def bodied (pool : List ResolvedMethod) (name : String) : List ResolvedMethod :=
  pool.filter fun method => method.name == name && method.hasBody

def chosen? (pool : List ResolvedMethod) (name : String) : Option ResolvedMethod :=
  (bodied pool name).head?.or (pool.find? fun method => method.name == name)

/-- The first of the methods with bodies is kept; the origins of others are noted beside its own. -/
def dispute (name : String) : List ResolvedMethod → List (String × List StructId)
  | [] => []
  | kept :: others =>
    match (others.filter fun other => other.origin ≠ kept.origin).map (·.origin) with
    | [] => []
    | rivals => [(name, kept.origin :: rivals)]

/-- The merge has one method for every name among the methods that have come in. -/
structure Keeps (pool : List ResolvedMethod) (m : Merge) : Prop where
  names : (m.methods.map (·.name)).Nodup
  kept : ∀ name, m.method? name = chosen? pool name
  disputed : ∀ name, m.noted name = dispute name (bodied pool name)

def SameBody (pool : List ResolvedMethod) : Prop :=
  ∀ a ∈ pool, ∀ b ∈ pool, a.name = b.name → a.origin = b.origin → a.hasBody = b.hasBody

/-- What becomes of a method that comes in, by what is kept under its name. -/
theorem inheritMethod_cases (owner : StructId) (span : Span) (m : Merge) (incoming : ResolvedMethod) :
    m.method? incoming.name = none ∧ (m.inheritMethod owner span incoming).methods = m.methods ++ [incoming] ∧
        (m.inheritMethod owner span incoming).ambiguous = m.ambiguous ∨
      ∃ existing, m.method? incoming.name = some existing ∧
        ((m.inheritMethod owner span incoming).methods = m.methods ∧
            (m.inheritMethod owner span incoming).ambiguous = m.ambiguous ∧
            (existing.origin = incoming.origin ∨ incoming.hasBody = false) ∨
          (m.inheritMethod owner span incoming).methods = (m.replaceMethod incoming).methods ∧
            (m.inheritMethod owner span incoming).ambiguous = m.ambiguous ∧
            existing.hasBody = false ∧ incoming.hasBody = true ∨
          (m.inheritMethod owner span incoming).methods = m.methods ∧
            (m.inheritMethod owner span incoming).ambiguous =
              (m.addOrigin incoming.name existing.origin incoming.origin).ambiguous ∧
            existing.origin ≠ incoming.origin ∧ existing.hasBody = true ∧ incoming.hasBody = true) := by
  rw [inheritMethod]
  split
  · exact .inl ⟨‹_›, rfl, rfl⟩
  · rename_i existing found
    refine .inr ⟨existing, found, ?_⟩
    split
    · exact .inl ⟨rfl, rfl, .inl ‹_›⟩
    · rename_i different
      cases old : existing.hasBody <;> cases new : incoming.hasBody <;> dsimp only
      · exact .inl ⟨rfl, rfl, .inr rfl⟩
      · rw [if_pos rfl]
        refine .inr (.inl ⟨?_, ?_, rfl, rfl⟩) <;> split <;> rfl
      · rw [if_neg Bool.false_ne_true]
        refine .inl ⟨?_, ?_, .inr rfl⟩ <;> split <;> rfl
      · refine .inr (.inr ⟨?_, rfl, different, rfl, rfl⟩)
        rw [addOrigin]
        split <;> rfl

theorem bodied_concat (pool : List ResolvedMethod) (method : ResolvedMethod) (name : String) :
    bodied (pool ++ [method]) name =
      bodied pool name ++ if method.name = name ∧ method.hasBody = true then [method] else [] := by
  simp [bodied, filter_append, filter_cons]

variable {pool : List ResolvedMethod} {method : ResolvedMethod} {name : String}

theorem of_chosen? (found : chosen? pool name = some method) : method ∈ pool ∧ method.name = name ∧
      (bodied pool name = [] ∧ method.hasBody = false ∨
        method.hasBody = true ∧ ∃ rest, bodied pool name = method :: rest) := by
  rw [chosen?] at found
  cases all : bodied pool name with
  | nil =>
    rw [all, head?_nil, Option.none_or] at found
    have mem := mem_of_find?_eq_some found
    have isName : method.name = name := by simpa using find?_some found
    refine ⟨mem, isName, .inl ⟨rfl, ?_⟩⟩
    simpa [isName] using filter_eq_nil_iff.1 all method mem
  | cons first rest =>
    rw [all, head?_cons, Option.some_or] at found
    cases found
    have isOne : method ∈ bodied pool name := all ▸ mem_cons_self
    obtain ⟨mem, named⟩ := mem_filter.1 isOne
    rw [Bool.and_eq_true, beq_iff_eq] at named
    exact ⟨mem, named.1, .inr ⟨named.2, rest, rfl⟩⟩

theorem isSome_chosen? : (chosen? pool name).isSome ↔ ∃ method ∈ pool, method.name = name := by
  constructor
  · intro some
    obtain ⟨method, found⟩ := Option.isSome_iff_exists.1 some
    obtain ⟨mem, isName, _⟩ := of_chosen? found
    exact ⟨method, mem, isName⟩
  · rintro ⟨method, mem, isName⟩
    rw [chosen?, Option.isSome_or, Bool.or_eq_true, find?_isSome]
    exact .inr ⟨method, mem, beq_iff_eq.2 isName⟩

theorem mem_bodied : method ∈ bodied pool name ↔ method ∈ pool ∧ method.name = name ∧ method.hasBody = true := by
  rw [bodied, mem_filter, Bool.and_eq_true, beq_iff_eq]

theorem chosen?_hasBody :
    (∃ method ∈ chosen? pool name, method.hasBody = true) ↔
      ∃ method ∈ pool, method.name = name ∧ method.hasBody = true := by
  constructor
  · rintro ⟨method, found, body⟩
    obtain ⟨mem, isName, _⟩ := of_chosen? found
    exact ⟨method, mem, isName, body⟩
  · rintro ⟨method, mem, isName, body⟩
    obtain ⟨kept, found⟩ := Option.isSome_iff_exists.1 (isSome_chosen?.2 ⟨method, mem, isName⟩)
    refine ⟨kept, found, ?_⟩
    rcases (of_chosen? found).2.2 with ⟨none, _⟩ | ⟨body, _⟩
    · exact absurd (none ▸ mem_bodied.2 ⟨mem, isName, body⟩) not_mem_nil
    · exact body

/-- A name is disputed if its methods with bodies have different origins, and then all of them are listed. -/
theorem dispute_spec (name : String) (bodies : List ResolvedMethod) :
    (dispute name bodies ≠ [] ↔ ∃ a ∈ bodies, ∃ b ∈ bodies, a.origin ≠ b.origin) ∧
      (dispute name bodies).length ≤ 1 ∧ ∀ entry ∈ dispute name bodies, ∀ origin,
        origin ∈ entry.2 ↔ ∃ method ∈ bodies, method.origin = origin := by
  cases bodies with
  | nil => simp [dispute]
  | cons kept others =>
    rw [dispute]
    split
    · rename_i none
      have same : ∀ method ∈ kept :: others, method.origin = kept.origin := by
        simpa [filter_eq_nil_iff] using none
      refine ⟨⟨absurd rfl, fun ⟨a, isA, b, isB, different⟩ => ?_⟩, by simp, by simp⟩
      exact absurd ((same a isA).trans (same b isB).symm) different
    · rename_i rivals some
      have listed : ∀ origin, origin ∈ (others.filter fun other => other.origin ≠ kept.origin).map (·.origin) ↔
          origin ≠ kept.origin ∧ ∃ method ∈ others, method.origin = origin := by
        intro origin
        simp only [mem_map, mem_filter, decide_eq_true_eq]
        constructor
        · rintro ⟨method, ⟨mem, different⟩, rfl⟩
          exact ⟨different, method, mem, rfl⟩
        · rintro ⟨different, method, mem, rfl⟩
          exact ⟨method, ⟨mem, different⟩, rfl⟩
      refine ⟨⟨fun _ => ?_, fun _ => by simp⟩, by simp, forall_mem_singleton.2 fun origin => ?_⟩
      · obtain ⟨origin, mem⟩ := exists_mem_of_ne_nil _ some
        obtain ⟨different, method, isOne, rfl⟩ := (listed origin).1 mem
        exact ⟨method, mem_cons_of_mem _ isOne, kept, mem_cons_self, different⟩
      · rw [mem_cons, listed]
        by_cases first : origin = kept.origin
        · simp [first]
        · simp [first, Ne.symm first]

theorem inheritMethod_of_ne (owner : StructId) (span : Span) (m : Merge) {incoming : ResolvedMethod}
    (different : incoming.name ≠ name) : (m.inheritMethod owner span incoming).method? name = m.method? name ∧
      (m.inheritMethod owner span incoming).noted name = m.noted name := by
  rcases inheritMethod_cases owner span m incoming with ⟨_, methods, ambiguous⟩ |
    ⟨existing, found, ⟨methods, ambiguous, _⟩ | ⟨methods, ambiguous, _⟩ | ⟨methods, ambiguous, _⟩⟩ <;>
    rw [method?, noted, methods, ambiguous]
  · simp [method?, noted, find?_append, different]
  · exact ⟨rfl, rfl⟩
  · exact ⟨(method?_replaceMethod found name).trans (if_neg different), rfl⟩
  · exact ⟨rfl, noted_addOrigin_of_ne different⟩

namespace Keeps

variable {pool : List ResolvedMethod} {m later : Merge}

theorem congr (methods : later.methods = m.methods) (ambiguous : later.ambiguous = m.ambiguous) (h : m.Keeps pool) :
    later.Keeps pool := by
  obtain ⟨names, kept, disputed⟩ := h
  refine ⟨methods ▸ names, fun name => ?_, fun name => ?_⟩
  · rw [method?, methods]
    exact kept name
  · rw [noted, ambiguous]
    exact disputed name

theorem inheritMethod {incoming : ResolvedMethod} {owner : StructId} {span : Span} (h : m.Keeps pool)
    (same : SameBody (pool ++ [incoming])) : (m.inheritMethod owner span incoming).Keeps (pool ++ [incoming]) := by
  suffices step : ∀ name, _ ∧ _ from
    ⟨(inheritMethod_places owner span m incoming).nodup h.names, fun name => (step name).1, fun name => (step name).2⟩
  intro name
  rw [chosen?, bodied_concat, find?_append]
  by_cases isName : incoming.name = name
  case neg =>
    obtain ⟨kept, notes⟩ := inheritMethod_of_ne owner span m isName
    rw [kept, notes, if_neg fun both => isName both.1]
    simpa [isName] using ⟨h.kept name, h.disputed name⟩
  subst isName
  have before := h.disputed incoming.name
  rcases inheritMethod_cases owner span m incoming with ⟨missing, methods, ambiguous⟩ |
    ⟨existing, found, step⟩
  · obtain ⟨noBody, noName⟩ := Option.or_eq_none_iff.1 ((h.kept incoming.name).symm.trans missing)
    rw [head?_eq_none_iff] at noBody
    rw [noBody] at before
    have kept : (m.inheritMethod owner span incoming).method? incoming.name = some incoming := by
      rw [method?, methods, find?_append, ← method?, missing]
      simp
    rw [kept, noBody, noName, noted, ambiguous, ← noted, before]
    split <;> simp [dispute]
  · obtain ⟨mem, isName, bodies⟩ := of_chosen? ((h.kept _).symm.trans found)
    have stays : (m.inheritMethod owner span incoming).methods = m.methods →
        (m.inheritMethod owner span incoming).method? incoming.name = some existing := by
      intro methods
      rw [method?, methods]
      exact found
    rcases step with ⟨methods, ambiguous, either⟩ | ⟨methods, ambiguous, old, new⟩ |
      ⟨methods, ambiguous, different, old, new⟩
    · rw [stays methods, noted, ambiguous, ← noted, before]
      rcases bodies with ⟨noBody, old⟩ | ⟨old, rest, all⟩
      · have new : incoming.hasBody = false := either.elim (fun origin =>
          (same existing (mem_append_left _ mem) incoming (by simp) isName origin).symm.trans old) id
        have first := (h.kept incoming.name).symm.trans found
        rw [chosen?, noBody, head?_nil, Option.none_or] at first
        simp [noBody, new, first]
      · rw [all]
        by_cases new : incoming.hasBody = true
        · have origin := either.resolve_right (by simp [new])
          simp [new, dispute, filter_append, origin]
        · simp [new]
    · rcases bodies with ⟨noBody, _⟩ | ⟨body, _⟩
      · have kept : (m.inheritMethod owner span incoming).method? incoming.name = some incoming := by
          rw [method?, methods]
          exact (method?_replaceMethod found _).trans (if_pos rfl)
        rw [kept, noted, ambiguous, ← noted, before, noBody]
        simp [new, dispute]
      · cases old.symm.trans body
    · rcases bodies with ⟨_, body⟩ | ⟨_, rest, all⟩
      · cases old.symm.trans body
      · rw [stays methods, noted, ambiguous, ← noted, all]
        rw [all, dispute] at before
        have both : incoming.name = incoming.name ∧ incoming.hasBody = true := ⟨rfl, new⟩
        rw [if_pos both, cons_append, dispute, filter_append, map_append]
        split at before
        · rename_i rivals
          rw [noted_addOrigin_of_nil before, rivals]
          simp [different.symm]
        · rename_i rivals
          rw [noted_addOrigin_of_single before]
          simp [different.symm]

theorem inheritAll {table : DeclTable} {own : StructDef} {parents : List (Ty × Layout)}
    (same : SameBody (inherited table parents)) :
    (parents.foldl (Merge.inherit table own) {}).Keeps (inherited table parents) := by
  let P (items : List ResolvedMethod) (m : Merge) := SameBody items → m.Keeps items
  have step : ∀ span items m incoming, P items m →
      P (items ++ [incoming]) (Merge.inheritMethod own.id span m incoming) := by
    intro span items m incoming h same
    exact (h fun a isA b isB => same a (mem_append_left _ isA) b (mem_append_left _ isB)).inheritMethod same
  have empty : P [] {} := fun _ => ⟨nodup_nil, fun _ => rfl, fun _ => rfl⟩
  refine foldl_flatMap (P := P) (fun items m parent h => ?_) parents empty same
  rw [inherit_eq]
  obtain ⟨methods, ambiguous⟩ := inheritOthers_eq table own m parent
  exact foldl_append (step _) _ fun same => .congr methods ambiguous (h same)

end Keeps

theorem overrideMethod_view (owner : StructId) (m : Merge) (method : ResolvedMethod) (name : String) :
    (m.overrideMethod owner method).method? name = (if method.name = name then some method else m.method? name) ∧
      (m.overrideMethod owner method).noted name = if method.name = name then [] else m.noted name := by
  have notes : ((m.ambiguous.filter fun (other, _) => other != method.name).filter fun entry => entry.1 == name) =
      if method.name = name then [] else m.noted name := by
    rw [filter_filter, noted]
    split
    · rename_i same
      simp [filter_eq_nil_iff, same]
    · rename_i different
      refine filter_congr fun entry _ => ?_
      by_cases here : entry.1 = name
      · simp [here, Ne.symm different]
      · simp [here]
  rw [overrideMethod]
  dsimp only
  split
  · rename_i missing
    refine ⟨?_, notes⟩
    rw [method?, method?, find?_append]
    split
    · rename_i same
      rw [← same, missing]
      simp
    · rename_i different
      simp [different]
  · rename_i existing found
    split <;> exact ⟨method?_replaceMethod found name, notes⟩

/-- A method that a struct declares counts if it is the first of its name and no field has the name. -/
theorem addOwnMethods_view (owner : StructId) (name : String) : ∀ (methods : List ResolvedMethod)
    (declared : List String) (m : Merge) (accepted : Option ResolvedMethod),
    accepted = (if declared.contains name || m.fields.any fun field => field.name == name then none
      else methods.find? fun method => method.name == name) →
    (m.addOwnMethods owner declared methods).method? name = accepted.or (m.method? name) ∧
      (m.addOwnMethods owner declared methods).noted name = if accepted.isSome then [] else m.noted name
  | [], _, _, _, rfl => by
    rw [addOwnMethods]
    split <;> exact ⟨rfl, rfl⟩
  | first :: rest, declared, m, _, rfl => by
    obtain ⟨kept, notes⟩ := addOwnMethods_view owner name rest (first.name :: declared)
      (if declared.contains first.name || m.fields.any fun field => field.name == first.name then
        m.report (.duplicateField owner first.name first.span) else m.overrideMethod owner first) _ rfl
    rw [addOwnMethods, kept, notes]
    obtain ⟨method, entries⟩ := overrideMethod_view owner m first name
    by_cases same : first.name = name
    · subst same
      rw [if_pos rfl] at method entries
      cases taken : declared.contains first.name || m.fields.any fun field => field.name == first.name with
      | true => simp [method?, noted, report]
      | false => simp [method, entries]
    · rw [if_neg same] at method entries
      cases declared.contains first.name || m.fields.any fun field => field.name == first.name with
      | true => simp [same, Ne.symm same, method?, noted, report]
      | false => simp [same, Ne.symm same, method, entries, (overrideMethod_places owner m first).fields]

theorem nodup_addOwnMethods (owner : StructId) : ∀ (methods : List ResolvedMethod) (declared : List String) (m : Merge),
    (m.methods.map (·.name)).Nodup → ((m.addOwnMethods owner declared methods).methods.map (·.name)).Nodup
  | [], _, _, names => names
  | method :: rest, declared, m, names => by
    rw [addOwnMethods]
    refine nodup_addOwnMethods owner rest _ _ ?_
    split
    · exact names
    · exact (overrideMethod_places owner m method).nodup names

end Merge

/-- The origins that are reported for a method of a struct as ambiguous. -/
def CompositionIssue.origins? (id : StructId) (name : String) : CompositionIssue → Option (List StructId)
  | ambiguousMethod owner method origins => if owner = id ∧ method = name then some origins else none
  | _ => none

theorem CompositionIssue.origins?_eq_none {id : StructId} {name : String} {issue : CompositionIssue}
    (code : issue.code ≠ .ambiguousMethod) : issue.origins? id name = none := by
  cases issue with
  | ambiguousMethod => exact absurd rfl code
  | _ => rfl

namespace StructDef

variable {table : DeclTable} {own : StructDef} {parents : List (Ty × Layout)}

/-- The method of a name that a struct declares and that counts: the first one, unless a field has the name. -/
def accepted? (own : StructDef) (fields : List ResolvedField) (name : String) : Option ResolvedMethod :=
  if fields.any fun field => field.name == name then none
  else own.ownMethods.find? fun method => method.name == name

theorem of_accepted? {fields : List ResolvedField} {name : String} {method : ResolvedMethod}
    (found : own.accepted? fields name = some method) : method.origin = own.id ∧ method.name = name ∧
      method ∈ own.ownMethods ∧ ∀ field ∈ fields, field.name ≠ name := by
  rw [accepted?] at found
  split at found
  · cases found
  · rename_i free
    have mem := mem_of_find?_eq_some found
    obtain ⟨_, _, same⟩ := mem_map.1 mem
    exact ⟨same ▸ rfl, by simpa using find?_some found, mem, by simpa using free⟩

theorem mergeMembers_view (same : Merge.SameBody (Merge.inherited table parents)) (name : String) :
    ((own.mergeMembers table parents).methods.map (·.name)).Nodup ∧
      (own.mergeMembers table parents).method? name =
        (own.accepted? (own.mergeMembers table parents).fields name).or
          (Merge.chosen? (Merge.inherited table parents) name) ∧
      (own.mergeMembers table parents).noted name =
        if (own.accepted? (own.mergeMembers table parents).fields name).isSome then []
        else Merge.dispute name (Merge.bodied (Merge.inherited table parents) name) := by
  let m := own.ownFields.foldl (Merge.addOwnField own.id) (parents.foldl (Merge.inherit table own) {})
  have inherits : m.Keeps (Merge.inherited table parents) := by
    obtain ⟨methods, _, ambiguous⟩ := Merge.addOwnFields_eq own.id own.ownFields _
    exact .congr methods ambiguous (.inheritAll same)
  obtain ⟨kept, notes⟩ := Merge.addOwnMethods_view own.id name own.ownMethods [] m (own.accepted? m.fields name) rfl
  rw [inherits.kept] at kept
  rw [inherits.disputed] at notes
  rw [mergeMembers, Merge.reportAmbiguous_eq, (Merge.addOwnMethods_eq own.id own.ownMethods [] m).1]
  exact ⟨Merge.nodup_addOwnMethods own.id own.ownMethods [] m inherits.names, kept, notes⟩

theorem origins_compose (table : DeclTable) (own : StructDef) (parents : List (Ty × Layout)) (tainted : Bool)
    (id : StructId) (name : String) : (own.compose table parents tainted).2.filterMap (origins? id name) =
      if own.id = id then ((own.mergeMembers table parents).noted name).map (·.2) else [] := by
  obtain ⟨more, same, codes⟩ := own.mergeMembers_adds table parents
  have others : more.filterMap (origins? id name) = [] := by
    refine filterMap_eq_nil_iff.2 fun issue mem => origins?_eq_none ?_
    rcases codes issue mem with code | code <;> rw [code] <;> decide
  have ambiguous : ∀ entries : List (String × List StructId),
      (entries.map fun entry => CompositionIssue.ambiguousMethod own.id entry.1 entry.2).filterMap
        (origins? id name) =
      if own.id = id then (entries.filter fun entry => entry.1 == name).map (·.2) else [] := by
    intro entries
    induction entries with
    | nil => simp
    | cons entry rest ih =>
      by_cases owner : own.id = id <;> by_cases here : entry.1 = name <;>
        simp_all [origins?]
  have merged : (own.mergeMembers table parents).issues.filterMap (origins? id name) =
      if own.id = id then ((own.mergeMembers table parents).noted name).map (·.2) else [] := by
    rw [mergeMembers, Merge.reportAmbiguous_eq, same, filterMap_append, nil_append, others, ambiguous]
    rfl
  rw [compose]
  split
  · exact merged
  · rw [filterMap_append, merged]
    simp [origins?]

end StructDef

end SemanticChecker
