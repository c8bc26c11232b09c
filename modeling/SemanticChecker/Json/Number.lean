import SemanticChecker.Json.Value

/-! The values of numbers in a document: whole numbers exactly, and doubles. -/
namespace SemanticChecker

namespace NumberText

def digitValue (c : Char) : Nat :=
  c.toNat - '0'.toNat

def naturalOf (digits : List Char) : Nat :=
  digits.foldl (fun value c => value * 10 + digitValue c) 0

def natural? (limit : Nat) (text : String) : Option Nat :=
  let digits := text.toList
  if digits.isEmpty || !digits.all Char.isDigit then none
  else
    let value := naturalOf digits
    if value ≤ limit then some value else none

def integer? (text : String) : Option Int :=
  match text.toList with
  | '-' :: digits => (natural? (Nat.pow 2 127) (String.ofList digits)).map fun value => -(value : Int)
  | digits => (natural? (Nat.pow 2 127 - 1) (String.ofList digits)).map fun value => (value : Int)

/-- Digits collected into a significand of 64 bits, and the power of ten it stands for. -/
structure Scaled where
  significand : Nat
  exponent : Int

namespace Scaled

def push? (significand : Nat) (c : Char) : Option Nat :=
  let next := significand * 10 + digitValue c
  if next < UInt64.size then some next else none

/-- Digits before the point: from the first that has no room on, each only raises the exponent. -/
def whole (scaled : Scaled) : List Char → Scaled
  | [] => scaled
  | c :: rest =>
    match push? scaled.significand c with
    | some significand => whole ⟨significand, scaled.exponent⟩ rest
    | none => ⟨scaled.significand, scaled.exponent + (rest.length + 1)⟩

/-- Digits after the point: from the first that has no room on, all are dropped. -/
def fraction (scaled : Scaled) : List Char → Scaled
  | [] => scaled
  | c :: rest =>
    match push? scaled.significand c with
    | some significand => fraction ⟨significand, scaled.exponent - 1⟩ rest
    | none => scaled

def power (n : Nat) : Float :=
  Float.ofScientific 1 false n

/-- One multiplication or division by a power of ten, the largest of which is 1e308. A smaller number
is divided more than once, within `steps`. Nothing when the number is too large. -/
def scale : Nat → Float → Int → Option Float
  | 0, value, _ => some value
  | steps + 1, value, exponent =>
    if exponent.natAbs ≤ 308 then
      if 0 ≤ exponent then
        let scaled := value * power exponent.natAbs
        if scaled.isInf then none else some scaled
      else some (value / power exponent.natAbs)
    else if value == 0 then some value
    else if 0 ≤ exponent then none
    else scale steps (value / power 308) (exponent + 308)

def float? (scaled : Scaled) : Option Float :=
  scale 5 scaled.significand.toUInt64.toFloat scaled.exponent

end Scaled

def exponentOf : List Char → Int
  | '+' :: digits => naturalOf digits
  | '-' :: digits => -(naturalOf digits : Int)
  | digits => naturalOf digits

def float? (text : String) : Option Float :=
  let (negative, unsigned) := match text.toList with
    | '-' :: rest => (true, rest)
    | rest => (false, rest)
  let whole := unsigned.takeWhile Char.isDigit
  let afterWhole := unsigned.dropWhile Char.isDigit
  let (fraction, afterFraction) := match afterWhole with
    | '.' :: rest => (rest.takeWhile Char.isDigit, rest.dropWhile Char.isDigit)
    | rest => ([], rest)
  let digits := (Scaled.whole ⟨0, 0⟩ whole).fraction fraction
  let exponent := digits.exponent + exponentOf (afterFraction.drop 1)
  (Scaled.float? ⟨digits.significand, exponent⟩).map fun value => if negative then -value else value

end NumberText

namespace Json

def natural? (limit : Nat) : Json → Option Nat
  | number text => NumberText.natural? limit text
  | _ => none

def integer? : Json → Option Int
  | number text => NumberText.integer? text
  | _ => none

def float? : Json → Option Float
  | number text => NumberText.float? text
  | _ => none

end Json

end SemanticChecker
