import CompileFlags.Json.Error

/-!
# Reading a document from left to right

A document is a list of bytes. A reader takes what it needs from the front and returns the rest;
the first error ends the reading. The readers of this file take what stands between values: blanks,
literals, and the punctuation of lists and objects. A list is read by a reader of its items.
-/

namespace CompileFlags.Json

abbrev Bytes := List UInt8

/-- A reader returns a value and the bytes after it, or the first error. -/
abbrev Reader (α : Type) := Bytes → Except Error (α × Bytes)

abbrev byte (c : Char) : UInt8 := c.toUInt8

def isBlank (b : UInt8) : Bool :=
  b == byte ' ' || b == byte '\t' || b == byte '\n' || b == byte '\r'

def isDigit (b : UInt8) : Bool :=
  byte '0' ≤ b && b ≤ byte '9'

def skipBlanks (s : Bytes) : Bytes :=
  s.dropWhile isBlank

/-- Read the remaining letters of a literal. -/
def literal : List Char → Bytes → Except Error Bytes
  | [], s => .ok s
  | _ :: _, [] => .error (.eof .value)
  | c :: cs, b :: s => if b = byte c then literal cs s else .error (.malformed .expectedLiteral)

inductive Turn where
  | item (rest : Bytes)
  | ended (rest : Bytes)
  deriving DecidableEq, Repr

/-- Go to the next element of a list, or past its end. A comma stands between elements, none
before the first and none after the last. -/
def nextElement (first : Bool) (s : Bytes) : Except Error Turn :=
  match skipBlanks s with
  | [] => .error (.eof .list)
  | b :: r =>
    if b = byte ']' then .ok (.ended r)
    else if first then .ok (.item (b :: r))
    else if b = byte ',' then
      match skipBlanks r with
      | [] => .error (.eof .value)
      | c :: t => if c = byte ']' then .error (.malformed .trailingComma) else .ok (.item (c :: t))
    else .error (.malformed .expectedListCommaOrEnd)

/-- Read the rest of a list in at most so many rounds; the items already read are listed last
first. -/
def readItems {α : Type} (read : Nat → Reader α) :
    Nat → List α → Bytes → Except Error (List α × Bytes)
  | 0, _, _ => .error (.eof .list)
  | n + 1, items, s => do
    match ← nextElement items.isEmpty s with
    | .ended rest => .ok (items.reverse, rest)
    | .item s =>
      let (item, s) ← read n s
      readItems read n (item :: items) s

/-- Go past the quote that opens the next member name of an object, or past the object's end. -/
def nextMember (first : Bool) (s : Bytes) : Except Error Turn :=
  match skipBlanks s with
  | [] => .error (.eof .object)
  | b :: r =>
    if b = byte '\x7d' then .ok (.ended r)
    else if first then
      if b = byte '"' then .ok (.item r) else .error (.malformed .keyNotString)
    else if b = byte ',' then
      match skipBlanks r with
      | [] => .error (.eof .value)
      | c :: t =>
        if c = byte '"' then .ok (.item t)
        else if c = byte '\x7d' then .error (.malformed .trailingComma)
        else .error (.malformed .keyNotString)
    else .error (.malformed .expectedObjectCommaOrEnd)

def colon (s : Bytes) : Except Error Bytes :=
  match skipBlanks s with
  | [] => .error (.eof .object)
  | b :: r => if b = byte ':' then .ok r else .error (.malformed .expectedColon)

end CompileFlags.Json
