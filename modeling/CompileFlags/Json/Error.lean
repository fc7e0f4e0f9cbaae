import CompileFlags.Text.Quoted
import CompileFlags.Json.Number

/-!
# What can be wrong with a document

A document ends too early, is no well-formed text, or is well formed and not of the expected
shape. The wording stands here and nowhere else.
-/

namespace CompileFlags.Json

inductive Unfinished where
  | value
  | list
  | object
  | string
  deriving DecidableEq, Repr

inductive Malformation where
  | expectedValue
  | expectedLiteral
  | expectedColon
  | expectedListCommaOrEnd
  | expectedObjectCommaOrEnd
  | trailingComma
  | keyNotString
  | trailingCharacters
  | invalidNumber
  | numberOutOfRange
  | invalidEscape
  | unfinishedSurrogate
  | loneSurrogate
  | invalidCodePoint
  | controlCharacter
  deriving DecidableEq, Repr

inductive Found where
  | null
  | boolean (b : Bool)
  | number (n : Number)
  | string (s : String)
  | list
  | object
  deriving DecidableEq, Repr

inductive Expected where
  | document
  | entry
  | path
  | string
  | list
  deriving DecidableEq, Repr

/-- The members of an entry that are read. -/
inductive Field where
  | directory
  | file
  | arguments
  | command
  deriving DecidableEq, Repr

/-- What keeps a well-formed value from being an entry. -/
inductive Mismatch where
  | missing (field : Field)
  | duplicate (field : Field)
  /-- An entry written as a list that is too short. -/
  | tooShort (length : Nat)
  | wrongType (found : Found) (expected : Expected)
  deriving DecidableEq, Repr

inductive Error where
  | eof (at_ : Unfinished)
  | malformed (why : Malformation)
  | mismatch (why : Mismatch)
  deriving DecidableEq, Repr

inductive Category where
  | eof
  | malformed
  | data
  deriving DecidableEq, Repr

def Unfinished.text : Unfinished → String
  | value => "a value"
  | list => "a list"
  | object => "an object"
  | string => "a string"

def Malformation.message : Malformation → String
  | expectedValue => "expected value"
  | expectedLiteral => "expected ident"
  | expectedColon => "expected `:`"
  | expectedListCommaOrEnd => "expected `,` or `]`"
  | expectedObjectCommaOrEnd => "expected `,` or `\x7d`"
  | trailingComma => "trailing comma"
  | keyNotString => "key must be a string"
  | trailingCharacters => "trailing characters"
  | invalidNumber => "invalid number"
  | numberOutOfRange => "number out of range"
  | invalidEscape => "invalid escape"
  | unfinishedSurrogate => "unexpected end of hex escape"
  | loneSurrogate => "lone leading surrogate in hex escape"
  | invalidCodePoint => "invalid unicode code point"
  | controlCharacter => "control character (\\u0000-\\u001F) found while parsing a string"

def Found.text : Found → String
  | null => "null"
  | boolean b => "boolean `" ++ (if b then "true" else "false") ++ "`"
  | number n => n.describe
  | string s => "string " ++ Quoted.encode s
  | list => "sequence"
  | object => "map"

def Expected.text : Expected → String
  | document => "a sequence"
  | entry => "struct Entry"
  | path => "path string"
  | string => "a string"
  | list => "a sequence"

def Field.name : Field → String
  | directory => "directory"
  | file => "file"
  | arguments => "arguments"
  | command => "command"

def Field.ofName? (name : String) : Option Field :=
  [directory, file, arguments, command].find? (·.name == name)

def Mismatch.message : Mismatch → String
  | missing f => "missing field `" ++ f.name ++ "`"
  | duplicate f => "duplicate field `" ++ f.name ++ "`"
  | tooShort n => "invalid length " ++ toString n ++ ", expected struct Entry with 4 elements"
  | wrongType found expected =>
    "invalid type: " ++ found.text ++ ", expected " ++ expected.text

namespace Error

def category : Error → Category
  | eof _ => .eof
  | malformed _ => .malformed
  | mismatch _ => .data

def message : Error → String
  | eof u => "EOF while parsing " ++ u.text
  | malformed m => m.message
  | mismatch m => m.message

end Error

end CompileFlags.Json
