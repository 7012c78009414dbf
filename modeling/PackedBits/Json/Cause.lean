import PackedBits.Decimal.Shortest
import PackedBits.Text.Quote

/-!
# What can be wrong with a text

Every way in which a text fails to be a bitmap in JSON, as data. `Cause.message` is the only place
that knows the wording.
-/

namespace PackedBits.Json

/-! ## What was expected, and what was found -/

/-- The fields of a bitmap. -/
inductive Field where
  | bits
  | elems
  deriving DecidableEq

/-- The key of a field. -/
def Field.key : Field → List Char
  | .bits => ['b', 'i', 't', 's']
  | .elems => ['e', 'l', 'e', 'm', 's']

/-- The key of a field, between backquotes. -/
def Field.name (field : Field) : String := "`" ++ String.ofList field.key ++ "`"

/-- What a reader was about to read. -/
inductive Expectation where
  | size
  | word
  | list
  | record
  deriving DecidableEq

/-- How an expectation is named. -/
def Expectation.name : Expectation → String
  | .size => "usize"
  | .word => "u64"
  | .list => "a sequence"
  | .record => "struct BitArrayRepr"

/-- A value of another kind than was expected. -/
inductive Found where
  | null
  | boolean (b : Bool)
  | integer (n : Int)
  | real (x : Float)
  | string (s : List Char)
  | list
  | record

/-- Numbers from 0.00001 on and below ten to the 16th are written positionally. -/
def realStyle : Decimal.Style := ⟨-5, 15⟩

/-- How a value is named that was not expected. -/
def Found.name : Found → String
  | .null => "null"
  | .boolean b => s!"boolean `{b}`"
  | .integer n => s!"integer `{n}`"
  | .real x => "floating point `" ++ String.ofList (Decimal.render realStyle x) ++ "`"
  | .string s => "string " ++ Text.quote s
  | .list => "sequence"
  | .record => "map"

/-! ## Causes -/

/-- Why a text was not read. -/
inductive Cause where
  | endInValue
  | endInList
  | endInObject
  | endInString
  | expectedName
  | expectedValue
  | expectedColon
  | expectedListComma
  | expectedObjectComma
  | expectedKey
  | trailingComma
  | trailingCharacters
  | invalidNumber
  | numberOutOfRange
  | controlCharacter
  | invalidEscape
  | loneSurrogate
  | unfinishedSurrogate
  | invalidType (found : Found) (expected : Expectation)
  | negativeInteger (magnitude : Nat) (expected : Expectation)
  | invalidLength (length : Nat)
  | unknownField (key : List Char)
  | duplicateField (field : Field)
  | missingField (field : Field)

/-- What a cause is reported as. -/
def Cause.message : Cause → String
  | .endInValue => "EOF while parsing a value"
  | .endInList => "EOF while parsing a list"
  | .endInObject => "EOF while parsing an object"
  | .endInString => "EOF while parsing a string"
  | .expectedName => "expected ident"
  | .expectedValue => "expected value"
  | .expectedColon => "expected `:`"
  | .expectedListComma => "expected `,` or `]`"
  | .expectedObjectComma => "expected `,` or `\x7d`"
  | .expectedKey => "key must be a string"
  | .trailingComma => "trailing comma"
  | .trailingCharacters => "trailing characters"
  | .invalidNumber => "invalid number"
  | .numberOutOfRange => "number out of range"
  | .controlCharacter => "control character (\\u0000-\\u001F) found while parsing a string"
  | .invalidEscape => "invalid escape"
  | .loneSurrogate => "lone leading surrogate in hex escape"
  | .unfinishedSurrogate => "unexpected end of hex escape"
  | .invalidType found expected => s!"invalid type: {found.name}, expected {expected.name}"
  | .negativeInteger magnitude expected =>
    s!"invalid value: integer `-{magnitude}`, expected {expected.name}"
  | .invalidLength length =>
    s!"invalid length {length}, expected {Expectation.record.name} with 2 elements"
  | .unknownField key =>
    "unknown field `" ++ String.ofList key ++
      s!"`, expected {Field.bits.name} or {Field.elems.name}"
  | .duplicateField field => s!"duplicate field {field.name}"
  | .missingField field => s!"missing field {field.name}"

/-- A cause, and how many bytes of the text are left at the place it is reported for. -/
structure Fault where
  cause : Cause
  left : Nat

/-- What an attempt at reading gives. -/
abbrev Attempt : Type → Type := Except Fault

end PackedBits.Json
