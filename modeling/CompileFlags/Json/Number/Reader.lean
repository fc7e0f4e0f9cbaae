import CompileFlags.Json.Basic

/-!
# Reading and skipping numbers

A number that is read keeps as many leading digits as fit an unsigned 64-bit significand, and
becomes a double as soon as it has a fraction, an exponent or more digits. A number that is skipped
is only checked for its form.
-/

namespace CompileFlags.Json.Number

def maxSignificand : Nat := UInt64.size - 1

/-- The largest exponent that is told apart from larger ones. -/
def maxExponent : Nat := UInt32.size / 2 - 1

/-- The largest power of ten below the largest double. -/
def maxPower : Nat := 308

def digitValue (b : UInt8) : Nat :=
  (b - byte '0').toNat

/-- Take digits into the significand while it does not overflow; the others are left. -/
def absorb (significand : Nat) : List UInt8 → Nat × List UInt8
  | [] => (significand, [])
  | d :: ds =>
    let next := significand * 10 + digitValue d
    if next ≤ maxSignificand then absorb next ds else (significand, d :: ds)

def spanDigits (s : Bytes) : List UInt8 × Bytes :=
  (s.takeWhile isDigit, s.dropWhile isDigit)

def power (n : Nat) : Binary64 :=
  (Binary64.nearest (Nat.pow 10 n) 1).getD .zero

/-- Divide by a power of ten, in steps that a double can express. -/
def shrink (x : Binary64) (n : Nat) : Binary64 :=
  if n ≤ maxPower then (x.div (power n)).getD .zero
  else if x.units = 0 then x
  else shrink ((x.div (power maxPower)).getD .zero) (n - maxPower)
  termination_by n
  decreasing_by simp [maxPower] at *; omega

/-- The double for a significand and a power of ten; none if it is too large. -/
def assemble (significand : Nat) (e : Int) : Option Binary64 := do
  let x ← Binary64.nearest significand 1
  if e < 0 then some (shrink x e.natAbs)
  else if e.natAbs ≤ maxPower then x.mul (power e.natAbs)
  else if x.units = 0 then some x
  else none

def double? (minus : Bool) (significand : Nat) (e : Int) (rest : Bytes) :
    Except Error (Number × Bytes) :=
  match assemble significand e with
  | some x => .ok (.double minus x, rest)
  | none => .error (.malformed .numberOutOfRange)

def isExponentMark (b : UInt8) : Bool :=
  b == byte 'e' || b == byte 'E'

def readExponent (minus : Bool) (significand : Nat) (start : Int) (s : Bytes) :
    Except Error (Number × Bytes) :=
  let (down, s) := match s with
    | b :: r => if b = byte '-' then (true, r) else if b = byte '+' then (false, r) else (false, s)
    | [] => (false, s)
  match s with
  | [] => .error (.eof .value)
  | b :: _ =>
    if !isDigit b then .error (.malformed .invalidNumber)
    else
      let (digits, rest) := spanDigits s
      let e := digits.foldl (fun n d ↦ n * 10 + digitValue d) 0
      if maxExponent < e then
        if significand ≠ 0 ∧ down = false then .error (.malformed .numberOutOfRange)
        else .ok (.double minus .zero, rest)
      else double? minus significand (if down then start - e else start + e) rest

/-- Read what may follow the digits of a double: an exponent or nothing. -/
def readTail (minus : Bool) (significand : Nat) (e : Int) (s : Bytes) :
    Except Error (Number × Bytes) :=
  match s with
  | b :: r =>
    if isExponentMark b then readExponent minus significand e r
    else double? minus significand e s
  | [] => double? minus significand e s

def readFraction (minus : Bool) (significand : Nat) (e : Int) (s : Bytes) :
    Except Error (Number × Bytes) :=
  let (digits, rest) := spanDigits s
  match digits, rest with
  | [], [] => .error (.eof .value)
  | [], _ :: _ => .error (.malformed .invalidNumber)
  | _ :: _, _ =>
    let (significand, left) := absorb significand digits
    readTail minus significand (e - (digits.length - left.length : Nat)) rest

/-- The integer with a sign and a magnitude; a double where 64 bits do not hold it. -/
def ofInteger (minus : Bool) (n : Nat) (rest : Bytes) : Except Error (Number × Bytes) :=
  if !minus then .ok (.natural n, rest)
  else if 0 < n ∧ n ≤ UInt64.size / 2 then .ok (.negative n, rest)
  else double? true n 0 rest

def readAfterDigits (minus : Bool) (digits : List UInt8) (s : Bytes) :
    Except Error (Number × Bytes) :=
  let (significand, left) := absorb 0 digits
  match s with
  | b :: r =>
    if b = byte '.' then readFraction minus significand left.length r
    else if isExponentMark b then readExponent minus significand left.length r
    else if left.isEmpty then ofInteger minus significand s
    else double? minus significand left.length s
  | [] =>
    if left.isEmpty then ofInteger minus significand s
    else double? minus significand left.length s

def readUnsigned (minus : Bool) (s : Bytes) : Except Error (Number × Bytes) :=
  match s with
  | [] => .error (.eof .value)
  | b :: r =>
    if b = byte '0' then
      match r with
      | c :: _ =>
        if isDigit c then .error (.malformed .invalidNumber) else readAfterDigits minus [b] r
      | [] => readAfterDigits minus [b] r
    else if isDigit b then
      let (digits, rest) := spanDigits s
      readAfterDigits minus digits rest
    else .error (.malformed .invalidNumber)

def skipExponent (s : Bytes) : Except Error Bytes :=
  let s := match s with
    | b :: r => if b = byte '-' || b = byte '+' then r else s
    | [] => s
  match s with
  | b :: r =>
    if isDigit b then .ok (r.dropWhile isDigit) else .error (.malformed .invalidNumber)
  | [] => .error (.malformed .invalidNumber)

/-- Skip what may follow the digits of a number: an exponent or nothing. -/
def skipTail (s : Bytes) : Except Error Bytes :=
  match s with
  | b :: r => if isExponentMark b then skipExponent r else .ok s
  | [] => .ok s

def skipFraction (s : Bytes) : Except Error Bytes :=
  match s with
  | b :: r =>
    if isDigit b then skipTail (r.dropWhile isDigit) else .error (.malformed .invalidNumber)
  | [] => .error (.malformed .invalidNumber)

def skipAfterDigits (s : Bytes) : Except Error Bytes :=
  match s with
  | b :: r =>
    if b = byte '.' then skipFraction r else skipTail s
  | [] => .ok s

def skipUnsigned (s : Bytes) : Except Error Bytes :=
  match s with
  | [] => .error (.malformed .invalidNumber)
  | b :: r =>
    if b = byte '0' then
      match r with
      | c :: _ =>
        if isDigit c then .error (.malformed .invalidNumber) else skipAfterDigits r
      | [] => .ok r
    else if isDigit b then skipAfterDigits (r.dropWhile isDigit)
    else .error (.malformed .invalidNumber)

end CompileFlags.Json.Number
