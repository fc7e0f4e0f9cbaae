import CompileFlags.Json.Basic

/-!
# Strings of a document

A string is scanned byte by byte up to its closing quote. A string that is read must spell Unicode
text: its surrogate escapes pair up and its bytes are UTF-8. A string that is skipped is only
checked for its form.
-/

namespace CompileFlags.Json.Text

inductive Mode where
  | read
  | skip
  deriving DecidableEq, Repr

inductive Place where
  | plain
  | escape
  /-- Inside the digits of an escaped unit, after a first surrogate if there is one. Digits are
  listed last first. -/
  | digits (first : Option Nat) (seen : List UInt8)
  /-- After a first surrogate; a backslash must follow. -/
  | surrogate (first : Nat)
  /-- After the backslash of the second surrogate. -/
  | surrogateEscape (first : Nat)
  deriving DecidableEq, Repr

def hexValue (b : UInt8) : Option Nat :=
  if isDigit b then some (b - byte '0').toNat
  else if byte 'a' ≤ b ∧ b ≤ byte 'f' then some ((b - byte 'a').toNat + 10)
  else if byte 'A' ≤ b ∧ b ≤ byte 'F' then some ((b - byte 'A').toNat + 10)
  else none

/-- The unit that hexadecimal digits, last first, stand for. -/
def unit : List UInt8 → Option Nat
  | [] => some 0
  | b :: bs => do return (← unit bs) * 16 + (← hexValue b)

def escaped (b : UInt8) : Option UInt8 :=
  if b = byte '"' ∨ b = byte '\\' ∨ b = byte '/' then some b
  else if b = byte 'b' then some 8
  else if b = byte 'f' then some 12
  else if b = byte 'n' then some 10
  else if b = byte 'r' then some 13
  else if b = byte 't' then some 9
  else none

def isHighSurrogate (u : Nat) : Bool :=
  0xD800 ≤ u && u ≤ 0xDBFF

def isLowSurrogate (u : Nat) : Bool :=
  0xDC00 ≤ u && u ≤ 0xDFFF

def pair (high low : Nat) : Nat :=
  (high - 0xD800) * 0x400 + (low - 0xDC00) + 0x10000

def utf8 (n : Nat) : List UInt8 :=
  String.utf8EncodeChar (Char.ofNat n)

abbrev Step := Except Error (Place × List UInt8)

def complete (mode : Mode) (first : Option Nat) (u : Nat) : Step :=
  match mode, first with
  | .skip, _ => .ok (.plain, [])
  | .read, none =>
    if isLowSurrogate u then .error (.malformed .loneSurrogate)
    else if isHighSurrogate u then .ok (.surrogate u, [])
    else .ok (.plain, utf8 u)
  | .read, some high =>
    if isLowSurrogate u then .ok (.plain, utf8 (pair high u))
    else .error (.malformed .loneSurrogate)

/-- What one byte does, the closing quote apart. -/
def step (mode : Mode) (place : Place) (b : UInt8) : Step :=
  match place with
  | .plain =>
    if b = byte '\\' then .ok (.escape, [])
    else if b < 0x20 then .error (.malformed .controlCharacter)
    else .ok (.plain, [b])
  | .escape =>
    if b = byte 'u' then .ok (.digits none [], [])
    else match escaped b with
      | some c => .ok (.plain, [c])
      | none => .error (.malformed .invalidEscape)
  | .digits first seen =>
    if seen.length < 3 then .ok (.digits first (b :: seen), [])
    else match unit (b :: seen) with
      | some u => complete mode first u
      | none => .error (.malformed .invalidEscape)
  | .surrogate high =>
    if b = byte '\\' then .ok (.surrogateEscape high, [])
    else .error (.malformed .unfinishedSurrogate)
  | .surrogateEscape high =>
    if b = byte 'u' then .ok (.digits (some high) [], [])
    else .error (.malformed .unfinishedSurrogate)

/-- Scan up to and over the closing quote. The text so far is listed last byte first. -/
def scan (mode : Mode) : Place → List UInt8 → Bytes → Except Error (List UInt8 × Bytes)
  | _, _, [] => .error (.eof .string)
  | place, text, b :: s =>
    if place = .plain ∧ b = byte '"' then .ok (text.reverse, s)
    else match step mode place b with
      | .ok (place, out) => scan mode place (out.reverse ++ text) s
      | .error e => .error e

def decode (bytes : List UInt8) : Option String :=
  String.fromUTF8? bytes.toByteArray

def read (s : Bytes) : Except Error (String × Bytes) :=
  match scan .read .plain [] s with
  | .error e => .error e
  | .ok (bytes, rest) =>
    match decode bytes with
    | some text => .ok (text, rest)
    | none => .error (.malformed .invalidCodePoint)

def skip (s : Bytes) : Except Error Bytes :=
  (scan .skip .plain [] s).map Prod.snd

end CompileFlags.Json.Text
