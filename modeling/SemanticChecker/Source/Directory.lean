/-! A working directory that holds at most one file, and what reading a path in it gives. -/
namespace SemanticChecker

inductive ReadError where
  | missing
  | notADirectory
  | isADirectory
  | nameTooLong
  | zeroInName
  deriving DecidableEq, Repr

def ReadError.message : ReadError → String
  | missing => "No such file or directory (os error 2)"
  | notADirectory => "Not a directory (os error 20)"
  | isADirectory => "Is a directory (os error 21)"
  | nameTooLong => "File name too long (os error 36)"
  | zeroInName => "file name contained an unexpected NUL byte"

/-- The name and the contents of the one file, if there is one. -/
structure Directory where
  file : Option (String × String)

namespace Directory

inductive Place where
  | here
  /-- A directory above this one, of which nothing is known. -/
  | above
  | file (contents : String)

/-- The most bytes a name may have, and a path with the zero that ends it. -/
def nameLimit : Nat := 255

def pathLimit : Nat := 4096

def absent (segment : String) : ReadError :=
  if nameLimit < segment.utf8ByteSize then .nameTooLong else .missing

def enter (directory : Directory) : Place → String → Except ReadError Place
  | .file _, _ => .error .notADirectory
  | .above, segment =>
    if segment = "" || segment = "." || segment = ".." then .ok .above else .error (absent segment)
  | .here, segment =>
    if segment = "" || segment = "." then .ok .here
    else if segment = ".." then .ok .above
    else
      match directory.file with
      | some (name, contents) => if name = segment then .ok (.file contents) else .error (absent segment)
      | none => .error (absent segment)

def walk (directory : Directory) (place : Place) : List String → Except ReadError Place
  | [] => .ok place
  | segment :: rest =>
    match directory.enter place segment with
    | .ok place => walk directory place rest
    | .error e => .error e

def read (directory : Directory) (path : String) : Except ReadError String :=
  if path.toList.any (·.toNat == 0) then .error .zeroInName
  else if path = "" then .error .missing
  else if pathLimit ≤ path.utf8ByteSize then .error .nameTooLong
  else
    let start := if path.startsWith "/" then Place.above else Place.here
    match directory.walk start (path.splitOn "/") with
    | .ok (.file contents) => .ok contents
    | .ok _ => .error .isADirectory
    | .error e => .error e

end Directory

end SemanticChecker
