/-!
# Hexadecimal numerals

Addresses, sizes and words are shown as `0x` and lower-case hexadecimal digits.
-/

namespace Chainload.Numeral

/-- The hexadecimal digits of a number, lower case and without leading zeros; zero is `0`. -/
def hexDigits (n : Nat) : List Char :=
  Nat.toDigits 16 n

/-- `0x` and the digits, as in `0x1f00`. -/
def hex (n : Nat) : String :=
  "0x" ++ String.ofList (hexDigits n)

/-- `0x` and at least `digits` digits, with zeros in front, as in `0x00001f00`. -/
def paddedHex (digits n : Nat) : String :=
  "0x" ++ String.ofList ((hexDigits n).leftpad digits '0')

end Chainload.Numeral
