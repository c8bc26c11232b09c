/-! Dotted module paths and the names that a reference inside a module may mean. -/
namespace SemanticChecker

/-- The path that stands before every name a unit declares. -/
structure ModulePath where
  segments : List String := []
  deriving DecidableEq, Repr, Inhabited

namespace ModulePath

def splitChars (cut : Char → Bool) : List Char → List (List Char)
  | [] => [[]]
  | c :: rest =>
    match splitChars cut rest with
    | [] => [[c]]
    | piece :: pieces => if cut c then [] :: piece :: pieces else (c :: piece) :: pieces

/-- Reads a path; dots and slashes separate segments, and empty segments are dropped. -/
def ofText (text : String) : ModulePath :=
  ⟨((splitChars (fun c => c == '.' || c == '/') text.toList).filter (!·.isEmpty)).map String.ofList⟩

def root : ModulePath := ⟨[]⟩

def isRoot (path : ModulePath) : Bool :=
  path.segments.isEmpty

def text (path : ModulePath) : String :=
  ".".intercalate path.segments

def qualify (path : ModulePath) (name : String) : String :=
  if path.isRoot then name else path.text ++ "." ++ name

/-- The names tried, in order, when `name` is written inside the module. -/
def candidates (path : ModulePath) (name : String) : List String :=
  if path.isRoot then [name] else [path.qualify name, name]

end ModulePath

end SemanticChecker
