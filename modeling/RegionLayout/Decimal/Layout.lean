import RegionLayout.Decimal.Shortest

/-!
The text of a float: its shortest decimal, laid out by positions or with an exponent.
-/

namespace RegionLayout.Decimal

/-- The decisions of one way to write floats. -/
structure Layout where
  /-- The exponents of a first digit that is written by position. -/
  positionalFrom : Int
  positionalTo : Int
  /-- What a whole number ends in. -/
  wholeEnd : String
  notANumber : String
  infinity : String

def exponentBits (bits : Nat) : Nat :=
  bits / Nat.pow 2 52 % Nat.pow 2 11

def fractionBits (bits : Nat) : Nat :=
  bits % Nat.pow 2 52

/-- The shortest decimal of a finite float that is not zero, from its bits. -/
def ofBits (bits : Nat) : Decimal :=
  let exponent := exponentBits bits
  let fraction := fractionBits bits
  if exponent = 0 then shortest fraction (-1074) false
  else shortest (Nat.pow 2 52 + fraction) (exponent - 1075) (fraction = 0 && 1 < exponent)

namespace Layout

/-- Digits with the point after the first `places` of them, padded with zeros. -/
def positional (layout : Layout) (digits : List Char) (places : Int) : List Char :=
  if places ≤ 0 then '0' :: '.' :: (List.replicate (-places).toNat '0' ++ digits)
  else if digits.length ≤ places.toNat then
    digits ++ List.replicate (places.toNat - digits.length) '0' ++ layout.wholeEnd.toList
  else digits.take places.toNat ++ '.' :: digits.drop places.toNat

def scientific (digits : List Char) (exponent : Int) : List Char :=
  let fraction := digits.drop 1
  digits.take 1 ++ (if fraction.isEmpty then [] else '.' :: fraction) ++ 'e' ::
    (toString exponent).toList

def magnitude (layout : Layout) (bits : Nat) : List Char :=
  if exponentBits bits = 0 ∧ fractionBits bits = 0 then '0' :: layout.wholeEnd.toList
  else
    let decimal := ofBits bits
    let digits := Nat.toDigits 10 decimal.digits
    let leading := decimal.exponent + digits.length - 1
    if layout.positionalFrom ≤ leading ∧ leading ≤ layout.positionalTo then
      layout.positional digits (leading + 1)
    else scientific digits leading

def writeBits (layout : Layout) (bits : Nat) : String :=
  if exponentBits bits = 2047 ∧ fractionBits bits ≠ 0 then layout.notANumber
  else
    let sign := if bits / Nat.pow 2 63 = 1 then "-" else ""
    if exponentBits bits = 2047 then sign ++ layout.infinity
    else sign ++ String.ofList (layout.magnitude bits)

def write (layout : Layout) (value : Float) : String :=
  layout.writeBits value.toBits.toNat

end Layout

end RegionLayout.Decimal
