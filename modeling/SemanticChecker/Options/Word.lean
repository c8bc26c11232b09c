import SemanticChecker.Primitive

/-! Words of an options document and what they stand for. A word may carry a tag, which says how it is
meant. -/
namespace SemanticChecker

inductive WordStyle where
  | plain | quoted | literal | folded
  deriving DecidableEq, Repr

structure OptionWord where
  text : String := ""
  style : WordStyle := .plain
  tag : Option String := none
  deriving DecidableEq, Repr

namespace OptionWord

def coreTags : String := "tag:yaml.org,2002:"

/-- Whether a word may be read as a value of the core type: it is plain, or a literal block with the tag
of that type. -/
def readsAs (word : OptionWord) (core : String) : Bool :=
  word.style == .plain || (word.style == .literal && word.tag == some (coreTags ++ core))

def bool? (word : OptionWord) : Option Bool :=
  if !word.readsAs "bool" then none
  else if word.text ∈ ["true", "True", "TRUE"] then some true
  else if word.text ∈ ["false", "False", "FALSE"] then some false
  else none

def digitValue? (c : Char) : Option Nat :=
  if c.isDigit then some (c.toNat - '0'.toNat)
  else if 'a' ≤ c && c ≤ 'f' then some (c.toNat - 'a'.toNat + 10)
  else if 'A' ≤ c && c ≤ 'F' then some (c.toNat - 'A'.toNat + 10)
  else none

/-- Digits of a number in the given base, most significant first, within 64 bits. -/
def digits? (base : Nat) (text : List Char) : Option Nat :=
  if text.isEmpty then none
  else do
    let value ← text.foldlM (fun value c => do
      let digit ← digitValue? c
      if digit < base then some (value * base + digit) else none) 0
    if value < UInt64.size then some value else none

/-- A number without a fraction, within 64 bits: decimal without needless zeros, or in base 16, 8 or 2
after `0x`, `0o` or `0b`; a plus sign may stand before it. -/
def natural? (word : OptionWord) : Option Nat :=
  let unsigned := match word.text.toList with
    | '+' :: rest => rest
    | text => text
  if !word.readsAs "int" then none
  else
    match unsigned with
    | ['0'] => some 0
    | '0' :: 'x' :: digits => digits? 16 digits
    | '0' :: 'o' :: digits => digits? 8 digits
    | '0' :: 'b' :: digits => digits? 2 digits
    | '0' :: _ => none
    | digits => digits? 10 digits

def isNull (word : OptionWord) : Bool :=
  word.style == .plain && word.text ∈ ["", "~", "null", "Null", "NULL"]

/-- The name in a tag of the document's own, which starts with an exclamation mark. -/
def ownTag? (word : OptionWord) : Option String :=
  match word.tag.map String.toList with
  | some ['!'] => some "!"
  | some ('!' :: name) => some (String.ofList name)
  | _ => none

/-- A primitive, by its name: as the word itself, or as the tag of a word that stands for nothing. -/
def kind? (word : OptionWord) : Option Primitive :=
  match word.ownTag? with
  | some name => if word.isNull then Primitive.ofName? name else none
  | none => Primitive.ofName? word.text

end OptionWord

end SemanticChecker
