import SemanticChecker.Json.Token
import SemanticChecker.Json.Value

/-! Reads a document from its tokens. Containers part way through are frames of a stack, so that
nesting is bounded by nothing but the text. -/
namespace SemanticChecker

/-- A container part way through, with what it holds in reverse. -/
inductive JsonFrame where
  | array (items : List Json)
  | object (members : List (Option String × Json)) (key : Option String)

inductive JsonExpects where
  | value
  /-- A value or the end of an array that is still empty. -/
  | firstItem
  /-- A key or the end of an object that is still empty. -/
  | firstKey
  | key
  | colon
  | next
  | nothing

structure JsonReader where
  stack : List JsonFrame := []
  expects : JsonExpects := .value
  result : Option Json := none

namespace JsonReader

def put (reader : JsonReader) (value : Json) : JsonReader :=
  match reader.stack with
  | [] => { reader with expects := .nothing, result := some value }
  | .array items :: rest => { reader with stack := .array (value :: items) :: rest, expects := .next }
  | .object members key :: rest =>
    { reader with stack := .object ((key, value) :: members) key :: rest, expects := .next }

def value? (reader : JsonReader) : JsonToken → Option JsonReader
  | .null => some (reader.put .null)
  | .bool value => some (reader.put (.bool value))
  | .number text => some (reader.put (.number text))
  | .string value => some (reader.put (.string value))
  | .openBracket => some { reader with stack := .array [] :: reader.stack, expects := .firstItem }
  | .openBrace => some { reader with stack := .object [] none :: reader.stack, expects := .firstKey }
  | _ => none

def key? (reader : JsonReader) (token : JsonToken) : Option JsonReader :=
  match token, reader.stack with
  | .string key, .object members _ :: rest =>
    some { reader with stack := .object members key :: rest, expects := .colon }
  | _, _ => none

/-- Ends the innermost container, if the mark is the one that ends it. -/
def close? (reader : JsonReader) (token : JsonToken) : Option JsonReader :=
  match token, reader.stack with
  | .closeBracket, .array items :: rest =>
    some ({ reader with stack := rest }.put (.array items.reverse))
  | .closeBrace, .object members _ :: rest =>
    some ({ reader with stack := rest }.put (.object members.reverse))
  | _, _ => none

def step (reader : JsonReader) (token : JsonToken) : Option JsonReader :=
  match reader.expects with
  | .value => reader.value? token
  | .firstItem => if token = .closeBracket then reader.close? token else reader.value? token
  | .firstKey => if token = .closeBrace then reader.close? token else reader.key? token
  | .key => reader.key? token
  | .colon => if token = .colon then some { reader with expects := .value } else none
  | .next =>
    if token = .comma then
      match reader.stack with
      | .array _ :: _ => some { reader with expects := .value }
      | .object .. :: _ => some { reader with expects := .key }
      | [] => none
    else reader.close? token
  | .nothing => none

end JsonReader

def Json.ofText? (text : String) : Option Json := do
  let tokens ← JsonToken.ofText? text
  let reader ← tokens.foldlM JsonReader.step {}
  reader.result

end SemanticChecker
