/-!
# Digits

Digits of bases up to thirty-six: after nine come the letters, of either case when read, in lower
case when written.
-/

namespace Espalier.Text

/-- The value of a digit of the given base. -/
def digitValue? (base : Nat) (c : Char) : Option Nat :=
  let value? :=
    if c.isDigit then some (c.toNat - '0'.toNat)
    else if 'a' ≤ c ∧ c ≤ 'z' then some (c.toNat - 'a'.toNat + 10)
    else if 'A' ≤ c ∧ c ≤ 'Z' then some (c.toNat - 'A'.toNat + 10)
    else none
  value?.filter (· < base)

/-- The digit of value `d`, below thirty-six. -/
def digitChar (d : Nat) : Char := if d < 10 then Char.ofNat (48 + d) else Char.ofNat (87 + d)

/-- The digits of `n`, most significant first; at least one. -/
def digitsOf (base n : Nat) : List Char :=
  if base ≤ 1 ∨ n < base then [digitChar n]
  else digitsOf base (n / base) ++ [digitChar (n % base)]
termination_by n
decreasing_by
  exact Nat.div_lt_self (by omega) (by omega)

/-- The number written by decimal digits, characters other than digits counting as zero. -/
def natOfDigits (ds : List Char) : Nat :=
  ds.foldl (fun n d => 10 * n + (d.toNat - '0'.toNat)) 0

/-- A code point in lower-case hexadecimal, without leading zeros. -/
def hex (n : Nat) : String := String.ofList (digitsOf 16 n)

/-- A code point in lower-case hexadecimal, filled up to four digits. -/
def hex4 (n : Nat) : String :=
  let ds := digitsOf 16 n
  String.ofList (List.replicate (4 - ds.length) '0' ++ ds)

end Espalier.Text
