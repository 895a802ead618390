/-!
# The range of numbers

A written number has to fit the range of double precision. It is read as a significand of at most
64 bits and a decimal exponent: digits that no longer fit the significand are dropped, and those of
them before the point raise the exponent. Significand and power of ten are rounded to 53 bits each,
and the number is out of range if their product would be rounded past the largest finite value.
-/

namespace ImportSuffix.Json

/-- The largest significand. -/
def maxSignificand : Nat := Nat.pow 2 64 - 1

/-- The value of a decimal digit. -/
def digitValue (c : Char) : Nat := c.toNat - 48

/-- Takes digits into a significand as long as it does not grow past the largest one; the result is
the significand and the number of digits that are left. -/
def absorb : Nat → List Char → Nat × Nat
  | significand, [] => (significand, 0)
  | significand, d :: rest =>
    if significand * 10 + digitValue d ≤ maxSignificand then
      absorb (significand * 10 + digitValue d) rest
    else (significand, rest.length + 1)

/-- The nearest number with at most 53 significant bits; of two equally near ones, the one with an
even last bit. -/
def roundBits (n : Nat) : Nat :=
  if n < Nat.pow 2 53 then n
  else
    let unit := Nat.pow 2 (n.log2 - 52)
    let below := n / unit
    let excess := n % unit
    if 2 * excess > unit || (2 * excess == unit && below % 2 == 1) then (below + 1) * unit
    else below * unit

/-- The least magnitude that is rounded to infinity. -/
def overflowBound : Nat := Nat.pow 2 1024 - Nat.pow 2 970

/-- Whether a significand times a power of ten is out of range. -/
def isOutOfRange (significand : Nat) (exponent : Int) : Bool :=
  significand != 0 && (exponent > 308 || (exponent ≥ 0 &&
    overflowBound ≤ roundBits significand * roundBits (Nat.pow 10 exponent.toNat)))

/-- Whether a number with these digits before the point, after the point and with this exponent is
out of range. -/
def exceedsRange (whole fraction : List Char) (exponent : Int) : Bool :=
  let (significand, dropped) := absorb 0 whole
  let (significand, unread) := absorb significand fraction
  isOutOfRange significand (exponent + dropped - (fraction.length - unread : Nat))

end ImportSuffix.Json
