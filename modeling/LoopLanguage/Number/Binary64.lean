/-!
Binary floating point numbers of 64 bits, as exact values. A decimal is rounded to the nearest of
them, a tie going to the even neighbour; a number is written with the fewest digits that round
back to it.
-/

namespace LoopLanguage

/-- A finite number is its significand times two to its exponent, with a sign of its own, so that
there are two zeros. -/
inductive Binary64 where
  | finite (negative : Bool) (significand : Nat) (exponent : Int)
  | infinite (negative : Bool)
  | nan
  deriving DecidableEq

namespace Binary64

def leastExponent : Int := -1074

def greatestExponent : Int := 971

def zero (negative : Bool) : Binary64 := .finite negative 0 leastExponent

/-- `num / den` to the nearest whole number, a tie going to the even one. -/
def roundDiv (num den : Nat) : Nat :=
  let q := num / den
  let r := num % den
  if 2 * r > den || (2 * r == den && q % 2 == 1) then q + 1 else q

/-- The fraction `num / den` divided by two to the power `e`, again as a fraction. -/
def scaleDown (num den : Nat) (e : Int) : Nat × Nat :=
  if e ≥ 0 then (num, den * Nat.pow 2 e.toNat) else (num * Nat.pow 2 (-e).toNat, den)

/-- The number nearest to `num / den`. -/
def ofRatio (negative : Bool) (num den : Nat) : Binary64 :=
  let guess : Int := Int.ofNat num.log2 - Int.ofNat den.log2 - 52
  let (n, d) := scaleDown num den guess
  let e := max (if n / d < Nat.pow 2 52 then guess - 1 else guess) leastExponent
  let (n, d) := scaleDown num den e
  let m := roundDiv n d
  let (m, e) := if m = Nat.pow 2 53 then (Nat.pow 2 52, e + 1) else (m, e)
  if e > greatestExponent then .infinite negative else .finite negative m e

/-- How many decimal digits a number has. -/
def digitCount (n : Nat) : Nat := (Nat.toDigits 10 n).length

/-- The number nearest to `digits * 10 ^ scale`. -/
def ofDecimal (negative : Bool) (digits : Nat) (scale : Int) : Binary64 :=
  let magnitude := Int.ofNat (digitCount digits) + scale
  if digits = 0 || magnitude < -400 then zero negative
  else if magnitude > 400 then .infinite negative
  else if scale ≥ 0 then ofRatio negative (digits * Nat.pow 10 scale.toNat) 1
  else ofRatio negative digits (Nat.pow 10 (-scale).toNat)

/-- The whole part of a finite number. -/
def truncate (negative : Bool) (significand : Nat) (exponent : Int) : Int :=
  let n : Nat :=
    if exponent ≥ 0 then significand * Nat.pow 2 exponent.toNat
    else significand / Nat.pow 2 (-exponent).toNat
  if negative then -(n : Int) else n

/-- The whole number that a number is equal to, if there is one. -/
def whole? : Binary64 → Option Int
  | .finite negative significand exponent =>
    if exponent ≥ 0 || significand % Nat.pow 2 (-exponent).toNat == 0 then
      some (truncate negative significand exponent)
    else none
  | _ => none

/-- The power of ten of the leading digit of `num / den`. -/
def leadingPower (num den : Nat) : Int :=
  if num ≥ den then Int.ofNat (digitCount (num / den)) - 1
  else -Int.ofNat (digitCount ((den - 1) / num))

/-- The candidate with `count` digits for the number `num / den`, if one lies between the bounds
`low / den` and `high / den`: of the two neighbours on the grid the nearer. -/
def nearestOnGrid (count num low high den : Nat) (closed : Bool) : Option (Nat × Int) :=
  let power := leadingPower num den - Int.ofNat count + 1
  let up := if power ≥ 0 then 1 else Nat.pow 10 (-power).toNat
  let unit := if power ≥ 0 then den * Nat.pow 10 power.toNat else den
  let below := num * up / unit
  let fits (k : Nat) : Bool :=
    if closed then low * up ≤ k * unit && k * unit ≤ high * up
    else low * up < k * unit && k * unit < high * up
  let above := below + 1
  let nearer := roundDiv (num * up) unit
  if fits nearer then some (nearer, power)
  else if fits below then some (below, power)
  else if fits above then some (above, power)
  else none

/-- The fewest digits that round back to the number, and the power of ten of the last one. -/
def shortest (significand : Nat) (exponent : Int) : Nat × Int :=
  let (num, den) := scaleDown (4 * significand) 4 (-exponent)
  let (half, _) := scaleDown 2 4 (-exponent)
  let lower := if significand = Nat.pow 2 52 && exponent > leastExponent then half / 2 else half
  let closed := significand % 2 == 0
  ((List.range 17).findSome? fun k =>
    nearestOnGrid (k + 1) num (num - lower) (num + half) den closed).getD (significand, exponent)

/-- Digits without the zeros at their end. -/
private def trimZeros (digits : List Char) : List Char :=
  (digits.reverse.dropWhile (· = '0')).reverse

/-- Positional from `0.0001` up to sixteen digits before the point, else with an exponent of at
least two digits; a whole number keeps one zero after the point. -/
def text : Binary64 → String
  | .nan => "nan"
  | .infinite negative => if negative then "-inf" else "inf"
  | .finite negative significand exponent =>
    let sign := if negative then "-" else ""
    if significand = 0 then sign ++ "0.0"
    else
      let (value, power) := shortest significand exponent
      let written := Nat.toDigits 10 value
      let digits := trimZeros written
      let point := Int.ofNat written.length + power
      if -4 < point && point ≤ 16 then
        if point ≤ 0 then
          sign ++ "0." ++ String.ofList (List.replicate (-point).toNat '0' ++ digits)
        else if digits.length ≤ point.toNat then
          sign ++ String.ofList (digits ++ List.replicate (point.toNat - digits.length) '0') ++ ".0"
        else
          sign ++ String.ofList (digits.take point.toNat) ++ "." ++
            String.ofList (digits.drop point.toNat)
      else
        let e := point - 1
        let size := Nat.repr e.natAbs
        let fraction := if digits.length > 1 then "." ++ String.ofList (digits.drop 1) else ""
        sign ++ String.ofList (digits.take 1) ++ fraction ++ "e" ++ (if e < 0 then "-" else "+") ++
          (if size.length < 2 then "0" ++ size else size)

end Binary64

end LoopLanguage
