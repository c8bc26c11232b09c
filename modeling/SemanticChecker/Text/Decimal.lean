/-! Decimal texts of double-precision numbers. The digits are the fewest that read back as the number
and, among those, the nearest; they are found by exact arithmetic on the bits. How the digits are laid
out is up to the format that is written. -/
namespace SemanticChecker

structure Decimal where
  digits : Nat
  exponent : Int
  deriving DecidableEq, Repr

/-- A finite double without its sign, `significand * 2 ^ exponent`. -/
structure BinaryFloat where
  significand : Nat
  exponent : Int
  /-- The next smaller double is half as far away as the next greater one. -/
  narrowBelow : Bool

namespace BinaryFloat

def ofBits (bits : Nat) : BinaryFloat :=
  let exponent : Nat := bits / Nat.pow 2 52 % Nat.pow 2 11
  let fraction : Nat := bits % Nat.pow 2 52
  if exponent = 0 then ⟨fraction, -1074, false⟩
  else ⟨Nat.pow 2 52 + fraction, (exponent : Int) - 1075, fraction = 0 && 1 < exponent⟩

def powerOfTwo (e : Int) : Nat × Nat :=
  (Nat.pow 2 e.toNat, Nat.pow 2 (-e).toNat)

def ratio (x : BinaryFloat) : Nat × Nat :=
  let (up, down) := powerOfTwo x.exponent
  (x.significand * up, down)

end BinaryFloat

namespace Decimal

def compareBinary (d : Decimal) (n : Nat) (e : Int) : Ordering :=
  compare (d.digits * Nat.pow 10 d.exponent.toNat * Nat.pow 2 (-e).toNat)
    (n * Nat.pow 2 e.toNat * Nat.pow 10 (-d.exponent).toNat)

/-- Whether the decimal lies among the reals that are nearest to the double; the ends of that interval
belong to it when the significand is even. -/
def readsBackAs (d : Decimal) (x : BinaryFloat) : Bool :=
  let low := if x.narrowBelow then 4 * x.significand - 1 else 4 * x.significand - 2
  let high := 4 * x.significand + 2
  let closed := x.significand % 2 = 0
  let atLow := d.compareBinary low (x.exponent - 2)
  let atHigh := d.compareBinary high (x.exponent - 2)
  (atLow == .gt || (closed && atLow == .eq)) && (atHigh == .lt || (closed && atHigh == .eq))

/-- The least `k` from `k` on, within `steps`, with the fraction below `10 ^ k`. -/
def scaleFrom (numerator denominator : Nat) : Nat → Int → Int
  | 0, k => k
  | steps + 1, k =>
    if numerator * Nat.pow 10 (-k).toNat < denominator * Nat.pow 10 k.toNat then k
    else scaleFrom numerator denominator steps (k + 1)

/-- How an exact tie between two candidates is broken. -/
inductive Tie where
  | up | even

/-- Of the neighbours of the double on the grid `10 ^ exponent`, the one that reads back; of two, the
nearer. -/
def onGrid (x : BinaryFloat) (tie : Tie) (exponent : Int) : Option Decimal :=
  let (numerator, denominator) := x.ratio
  let top := numerator * Nat.pow 10 (-exponent).toNat
  let bottom := denominator * Nat.pow 10 exponent.toNat
  let below : Decimal := ⟨top / bottom, exponent⟩
  let above : Decimal := ⟨top / bottom + 1, exponent⟩
  match below.readsBackAs x, above.readsBackAs x with
  | true, true =>
    match compare (2 * top) ((below.digits + above.digits) * bottom) with
    | .lt => some below
    | .gt => some above
    | .eq =>
      match tie with
      | .up => some above
      | .even => if below.digits % 2 = 0 then some below else some above
  | true, false => some below
  | false, true => some above
  | false, false => none

def strip : Nat → Decimal → Decimal
  | 0, d => d
  | steps + 1, d =>
    if d.digits % 10 = 0 && d.digits != 0 then strip steps ⟨d.digits / 10, d.exponent + 1⟩ else d

/-- The shortest decimal that reads back as a positive double. Seventeen digits are always enough; if
they were not, the exact value would be written. -/
def shortest (x : BinaryFloat) (tie : Tie) : Decimal :=
  let (numerator, denominator) := x.ratio
  let scale := scaleFrom numerator denominator 700 (-330)
  let found := (List.range 17).findSome? fun n : Nat => onGrid x tie (scale - (n + 1 : Nat))
  let exact : Decimal :=
    ⟨x.significand * Nat.pow 2 x.exponent.toNat * Nat.pow 5 (-x.exponent).toNat, min x.exponent 0⟩
  strip 800 (found.getD exact)

def digitText (d : Decimal) : String :=
  toString d.digits

/-- The exponent of the digit after the point, were the point put before the first digit. -/
def pointAt (d : Decimal) : Int :=
  d.digitText.length + d.exponent

def zeros (n : Nat) : String :=
  String.ofList (List.replicate n '0')

/-- The decimal without an exponent; `point` ends a number that has no fraction. -/
def positional (d : Decimal) (point : String) : String :=
  let digits := d.digitText
  let pointPlace := d.pointAt
  if 0 ≤ d.exponent then digits ++ zeros d.exponent.toNat ++ point
  else if 0 < pointPlace then
    String.ofList (digits.toList.take pointPlace.toNat) ++ "." ++ String.ofList (digits.toList.drop pointPlace.toNat)
  else "0." ++ zeros (-pointPlace).toNat ++ digits

/-- One digit, a point if more follow, and an exponent that always has a sign. -/
def scientific (d : Decimal) : String :=
  let power := d.pointAt - 1
  let exponent := (if power < 0 then "e-" else "e+") ++ toString power.natAbs
  match d.digitText.toList with
  | [] => exponent
  | [digit] => String.ofList [digit] ++ exponent
  | digit :: rest => String.ofList (digit :: '.' :: rest) ++ exponent

end Decimal

namespace FloatText

def isNegative (value : Float) : Bool :=
  value.toBits.toNat / Nat.pow 2 63 = 1

/-- The text of a finite double, laid out by `layout` unless it is zero. -/
def render (value : Float) (tie : Decimal.Tie) (zero : String) (layout : Decimal → String) : String :=
  let magnitude := BinaryFloat.ofBits (value.toBits.toNat % Nat.pow 2 63)
  let text := if magnitude.significand = 0 then zero else layout (Decimal.shortest magnitude tie)
  if isNegative value then "-" ++ text else text

/-- Numbers in messages never have an exponent, and whole numbers have no point. -/
def inMessage (value : Float) : String :=
  render value .up "0" fun d => d.positional ""

/-- Numbers in a written unit have a point, or an exponent when they are below 1e-5 or from 1e16 on. -/
def inUnit (value : Float) : String :=
  render value .even "0.0" fun d =>
    if -5 < d.pointAt && d.pointAt ≤ 16 then d.positional ".0" else d.scientific

def bits (value : Float) : String :=
  let digits := Nat.toDigits 16 value.toBits.toNat
  String.ofList (List.replicate (16 - digits.length) '0' ++ digits)

/-- A position in the total order of doubles, in which -0 comes before 0. -/
def orderKey (value : Float) : Int :=
  let magnitude : Nat := value.toBits.toNat % Nat.pow 2 63
  if isNegative value then -(magnitude : Int) - 1 else magnitude

/-- The double nearest to a natural number, ties to the even significand. -/
def ofNat (n : Nat) : Float :=
  if n < UInt64.size then n.toUInt64.toFloat
  else
    let shift := n.log2 - 63
    let kept := n / Nat.pow 2 shift
    let sticky := if n % Nat.pow 2 shift = 0 then kept else kept ||| 1
    sticky.toUInt64.toFloat.scaleB shift

def ofInt (n : Int) : Float :=
  if n < 0 then -(ofNat n.natAbs) else ofNat n.natAbs

end FloatText

end SemanticChecker
