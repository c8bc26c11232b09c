/-! The primitive kinds of the language, their names and, for the integer kinds, the values they hold. -/
namespace SemanticChecker

inductive Primitive where
  | int8 | int16 | int32 | int64
  | uint8 | uint16 | uint32 | uint64
  | float | float64
  | bool | str
  deriving DecidableEq, Repr

namespace Primitive

def all : List Primitive :=
  [int8, int16, int32, int64, uint8, uint16, uint32, uint64, float, float64, bool, str]

def name : Primitive → String
  | int8 => "int8"
  | int16 => "int16"
  | int32 => "int32"
  | int64 => "int64"
  | uint8 => "uint8"
  | uint16 => "uint16"
  | uint32 => "uint32"
  | uint64 => "uint64"
  | float => "float"
  | float64 => "float64"
  | bool => "bool"
  | str => "str"

def ofName? (text : String) : Option Primitive :=
  all.find? fun kind => kind.name == text

def isSigned : Primitive → Bool
  | int8 | int16 | int32 | int64 => true
  | _ => false

def isUnsigned : Primitive → Bool
  | uint8 | uint16 | uint32 | uint64 => true
  | _ => false

def isInteger (kind : Primitive) : Bool :=
  kind.isSigned || kind.isUnsigned

def isFloat : Primitive → Bool
  | float | float64 => true
  | _ => false

def isNumeric (kind : Primitive) : Bool :=
  kind.isInteger || kind.isFloat

def range? : Primitive → Option (Int × Int)
  | int8 => some (-128, 127)
  | int16 => some (-32768, 32767)
  | int32 => some (-2147483648, 2147483647)
  | int64 => some (-9223372036854775808, 9223372036854775807)
  | uint8 => some (0, 255)
  | uint16 => some (0, 65535)
  | uint32 => some (0, 4294967295)
  | uint64 => some (0, 18446744073709551615)
  | _ => none

/-- Whether an integer literal is a value of the kind; kinds without a range hold every literal. -/
def holds (kind : Primitive) (value : Int) : Bool :=
  match kind.range? with
  | some (least, greatest) => least ≤ value && value ≤ greatest
  | none => true

end Primitive

end SemanticChecker
