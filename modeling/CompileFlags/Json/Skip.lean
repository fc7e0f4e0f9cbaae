import CompileFlags.Json.Number.Reader
import CompileFlags.Json.Text

/-!
# Skipping a value

The value of a member that is not read must still have the form of a value, nested to any depth.
The open lists and objects are kept on a stack, innermost first, so that depth costs no recursion.
-/

namespace CompileFlags.Json.Skip

inductive Frame where
  | list
  | object
  deriving DecidableEq, Repr

def Frame.closing : Frame → UInt8
  | list => byte ']'
  | object => byte '\x7d'

def Frame.unfinished : Frame → Unfinished
  | list => .list
  | object => .object

def Frame.expectedEnd : Frame → Malformation
  | list => .expectedListCommaOrEnd
  | object => .expectedObjectCommaOrEnd

/-- After a value, or after an opening bracket: close what ends here, until a value is due or
the stack is empty. A comma counts only after a value. -/
def close : Bool → List Frame → Bytes → Except Error (List Frame × Bytes)
  | _, [], s => .ok ([], s)
  | _, frame :: _, [] => .error (.eof frame.unfinished)
  | after, frame :: outer, b :: s =>
    if isBlank b then close after (frame :: outer) s
    else if b = byte ',' ∧ after then .ok (frame :: outer, s)
    else if b = frame.closing then close true outer s
    else if after then .error (.malformed frame.expectedEnd)
    else .ok (frame :: outer, b :: s)

def name (s : Bytes) : Except Error Bytes :=
  match skipBlanks s with
  | [] => .error (.eof .object)
  | b :: r =>
    if b = byte '"' then (Text.skip r).bind colon else .error (.malformed .keyNotString)

/-- Skip the start of a value: a scalar as a whole, or an opening bracket. -/
def start (s : Bytes) : Except Error (Option Frame × Bytes) :=
  match skipBlanks s with
  | [] => .error (.eof .value)
  | b :: r =>
    let scalar : Except Error Bytes → Except Error (Option Frame × Bytes) := Except.map (none, ·)
    if b = byte 'n' then scalar (literal ['u', 'l', 'l'] r)
    else if b = byte 't' then scalar (literal ['r', 'u', 'e'] r)
    else if b = byte 'f' then scalar (literal ['a', 'l', 's', 'e'] r)
    else if b = byte '-' then scalar (Number.skipUnsigned r)
    else if isDigit b then scalar (Number.skipUnsigned (b :: r))
    else if b = byte '"' then scalar (Text.skip r)
    else if b = byte '[' then .ok (some .list, r)
    else if b = byte '\x7b' then .ok (some .object, r)
    else .error (.malformed .expectedValue)

/-- Skip values until the stack is empty, in at most so many rounds. Every round takes at least one
byte, so more rounds than there are bytes are always enough. -/
def rounds : Nat → List Frame → Bytes → Except Error Bytes
  | 0, _, _ => .error (.eof .value)
  | n + 1, stack, s => do
    let (opened, s) ← start s
    let (stack, s) ← match opened with
      | some frame => close false (frame :: stack) s
      | none => close true stack s
    match stack with
    | [] => .ok s
    | .list :: _ => rounds n stack s
    | .object :: _ => rounds n stack (← name s)

def value (budget : Nat) (s : Bytes) : Except Error Bytes :=
  rounds budget [] s

end CompileFlags.Json.Skip
