import PosDictionary.Decimal.Shortest

/-!
# Layout of decimals

How a decimal is written: positionally while its point lies near its digits, and with an exponent
of ten otherwise. A positional number always shows a point with a digit on each side, and an
exponent always shows its sign.
-/

namespace PosDictionary.Decimal

/-- The point may stand at most this far behind the first digit. -/
def maxPoint : Int := 16

/-- The point stands more than this far behind the first digit; negative is before it. -/
def minPoint : Int := -5

/-- The text of an exponent of ten. -/
def exponentText (e : Int) : List Char :=
  (if 0 ≤ e then ['e', '+'] else ['e', '-']) ++ (Nat.repr e.natAbs).toList

/-- The text of `n * 10 ^ exponent`. -/
def layout (n : Nat) (exponent : Int) : String :=
  let digits := (Nat.repr n).toList
  let point : Int := digits.length + exponent
  let zeros := fun (count : Int) => List.replicate count.toNat '0'
  String.ofList <|
    if 0 ≤ exponent ∧ point ≤ maxPoint then
      digits ++ zeros exponent ++ ['.', '0']
    else if 0 < point ∧ point ≤ maxPoint then
      digits.take point.toNat ++ ['.'] ++ digits.drop point.toNat
    else if minPoint < point ∧ point ≤ 0 then
      ['0', '.'] ++ zeros (-point) ++ digits
    else
      let fraction := if digits.length = 1 then [] else ['.'] ++ digits.drop 1
      digits.take 1 ++ fraction ++ exponentText (point - 1)

/-- The text of a finite floating-point number. -/
def ofFloat (x : Float) : String :=
  let bits := x.toBits
  let sign := if bits >>> 63 = 0 then "" else "-"
  if bits <<< 1 = 0 then
    sign ++ "0.0"
  else
    let (n, exponent) := (Binary.ofBits bits).shortest
    sign ++ layout n exponent

end PosDictionary.Decimal
