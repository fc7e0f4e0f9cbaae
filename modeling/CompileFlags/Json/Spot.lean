import CompileFlags.Json.Number.Reader

/-!
# Where a text stops

How far into a token a text has come, by its bytes alone: in a string, in a number, or between
tokens, where literals are counted in. Some numbers are complete where the text stops. Others still
need a digit.
-/

namespace CompileFlags.Json

inductive Spot where
  | gap
  /-- After the sign of a number. -/
  | minus
  | whole
  | point
  | fraction
  /-- After the mark of an exponent. -/
  | mark
  /-- After the sign of an exponent. -/
  | sign
  | power
  | text
  /-- After a backslash in a string. -/
  | escape
  deriving DecidableEq, Repr

namespace Spot

/-- What a byte starts between tokens. -/
def enter (b : UInt8) : Spot :=
  if b = byte '"' then text
  else if b = byte '-' then minus
  else if isDigit b then whole
  else gap

def step (p : Spot) (b : UInt8) : Spot :=
  match p with
  | gap | minus => enter b
  | whole =>
    if isDigit b then whole
    else if b = byte '.' then point
    else if Number.isExponentMark b then mark
    else enter b
  | point => if isDigit b then fraction else enter b
  | fraction =>
    if isDigit b then fraction else if Number.isExponentMark b then mark else enter b
  | mark =>
    if isDigit b then power else if b = byte '+' || b = byte '-' then sign else enter b
  | sign | power => if isDigit b then power else enter b
  | text => if b = byte '"' then gap else if b = byte '\\' then escape else text
  | escape => text

def after (p : Spot) (s : Bytes) : Spot :=
  s.foldl step p

/-- A number that needs another digit. -/
def isPending : Spot → Bool
  | minus | point | mark | sign => true
  | gap | whole | fraction | power | text | escape => false

end Spot

/-- The text stops in a number that cannot end there. -/
def EndsInNumber (s : Bytes) : Prop :=
  (Spot.gap.after s).isPending

instance (s : Bytes) : Decidable (EndsInNumber s) :=
  inferInstanceAs (Decidable (_ = _))

end CompileFlags.Json
