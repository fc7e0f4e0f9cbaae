import CompileFlags.Decimal

/-!
# Numbers as messages name them

A number is an integer as far as 64 bits hold it, signed or not, and a double otherwise.
-/

namespace CompileFlags.Json

inductive Number where
  | natural (n : Nat)
  /-- The integer `-n`, with `n` positive. -/
  | negative (n : Nat)
  | double (minus : Bool) (magnitude : Binary64)
  deriving DecidableEq, Repr

namespace Number

def describe : Number → String
  | natural n => "integer `" ++ toString n ++ "`"
  | negative n => "integer `-" ++ toString n ++ "`"
  | double minus x =>
    "floating point `" ++ (if minus then "-" else "") ++ (Decimal.shortest x).text ++ "`"

end Number

end CompileFlags.Json
