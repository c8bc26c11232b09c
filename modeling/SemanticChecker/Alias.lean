import SemanticChecker.Source.Declaration
import SemanticChecker.Ty.Basic
import SemanticChecker.Diagnostic

/-! Type aliases. An alias is resolved when it is first needed and keeps the type it was resolved to;
one that cannot be resolved keeps the error type, so that the failure shows once. An alias that is
needed while it is being resolved closes a cycle. -/
namespace SemanticChecker

inductive ResolveError where
  | unresolved (name : String)
  /-- The aliases from the one that is repeated, on to the point reached so far. -/
  | aliasCycle (members : List String)
  | argumentCount (name : String) (expected found : Nat)
  | unknownBound (name : String)
  deriving DecidableEq, Repr

namespace ResolveError

def message : ResolveError → String
  | unresolved name => s!"unknown type '{name}'"
  | aliasCycle members => "type alias cycle: " ++ " -> ".intercalate members
  | argumentCount name expected found => s!"'{name}' expects {expected} type argument(s), found {found}"
  | unknownBound name => s!"unknown bound '{name}'"

def code : ResolveError → DiagnosticCode
  | aliasCycle _ => .aliasCycle
  | _ => .unresolvedType

def diagnostic (error : ResolveError) (span : Span) : Diagnostic :=
  { code := error.code, message := error.message, span := some span }

def isClosed : List String → Bool
  | first :: second :: rest => (second :: rest).getLast? == some first
  | _ => false

/-- The error as seen from an alias on the way to it: a cycle that is still open goes through it. -/
def through (name : String) : ResolveError → ResolveError
  | aliasCycle members => if isClosed members then aliasCycle members else aliasCycle (name :: members)
  | other => other

end ResolveError

inductive AliasTarget where
  | type (type : Ty)
  | expression (expression : TypeExpr) (module : ModulePath)

inductive AliasEntry where
  | pending (target : AliasTarget)
  | inProgress
  | resolved (type : Ty)

def AliasEntry.type? : AliasEntry → Option Ty
  | resolved type => some type
  | _ => none

/-- The aliases by name; of two entries for one name the first counts. -/
structure AliasTable where
  entries : List (String × AliasEntry) := []

def builtinAlias? : String → Option Primitive
  | "int" => some .int64
  | "uint" => some .uint64
  | "float32" => some .float
  | "string" => some .str
  | _ => none

namespace AliasTable

def standard : AliasTable :=
  ⟨["int", "uint", "float32", "string"].filterMap fun name =>
    (builtinAlias? name).map fun kind => (name, .resolved (.primitive kind))⟩

def find? (table : AliasTable) (name : String) : Option AliasEntry :=
  table.entries.lookup name

def contains (table : AliasTable) (name : String) : Bool :=
  (table.find? name).isSome

def set (table : AliasTable) (name : String) (entry : AliasEntry) : AliasTable :=
  ⟨(name, entry) :: table.entries⟩

def type? (table : AliasTable) (name : String) : Option Ty :=
  table.find? name >>= AliasEntry.type?

def types (table : AliasTable) : List Ty :=
  table.entries.filterMap (·.2.type?)

/-- The copy of a type that an alias was resolved to already. Aliases for equal types then have them in
common in memory. -/
def share (table : AliasTable) (t : Ty) : Ty :=
  t.shareWith table.types

@[simp] theorem share_eq (table : AliasTable) (t : Ty) : table.share t = t :=
  t.shareWith_eq _

@[simp] theorem find?_set (table : AliasTable) (name other : String) (entry : AliasEntry) :
    (table.set name entry).find? other = if other = name then some entry else table.find? other := by
  by_cases h : other = name
  · simp [find?, set, h]
  · have differ : (other == name) = false := by simpa using h
    simp [find?, set, List.lookup_cons, h, differ]

end AliasTable

/-- A struct applied to arguments, whose bounds are checked once every declaration is known. -/
structure PendingBound where
  owner : StructId
  arguments : List Ty
  span : Span

/-- What giving meaning to written types changes: the aliases that are resolved on the way, and the
struct applications that are met, in order. -/
structure Lowering where
  aliases : AliasTable := {}
  pending : List PendingBound := []

/-- Work on written types that may fail; what was done before a failure stays. -/
abbrev LowerM := ExceptT ResolveError (StateM Lowering)

namespace LowerM

def setAlias (name : String) (entry : AliasEntry) : LowerM Unit :=
  modify fun s => { s with aliases := s.aliases.set name entry }

def addPending (bound : PendingBound) : LowerM Unit :=
  modify fun s => { s with pending := s.pending ++ [bound] }

end LowerM

/-- Resolves an alias. `lower` gives a target its meaning and may resolve further aliases. The number
bounds how many aliases may be open at once; the number of entries is always enough, since no alias is
opened twice. -/
def resolveAlias (lower : (String → LowerM Ty) → AliasTarget → LowerM Ty) : Nat → String → LowerM Ty
  | 0, name => throw (.unresolved name)
  | depth + 1, name => do
    match (← get).aliases.find? name with
    | none => throw (.unresolved name)
    | some (.resolved type) => pure type
    | some .inProgress => throw (.aliasCycle [name])
    | some (.pending target) =>
      LowerM.setAlias name .inProgress
      match ← ExceptT.lift (lower (resolveAlias lower depth) target).run with
      | .ok type =>
        let type := (← get).aliases.share type
        LowerM.setAlias name (.resolved type)
        pure type
      | .error error =>
        LowerM.setAlias name (.resolved .error)
        throw (error.through name)

end SemanticChecker
