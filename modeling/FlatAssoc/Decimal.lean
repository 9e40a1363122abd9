/-!
# Decimals

The decimal notation of an integer has no leading zeros and a minus sign in front of a negative
one. A finite binary fraction is read back from every decimal nearer to it than to its neighbours.
Of these decimals the shortest has the fewest digits, and among those it is the nearest, with an
even last digit if two are equally near.
-/

namespace FlatAssoc

namespace Decimal

/-- The character of a digit below ten. -/
def digitChar (d : Nat) : Char := Char.ofNat (48 + d)

/-- The digit that a character stands for. -/
def digit? (c : Char) : Option Nat :=
  if 48 ≤ c.toNat ∧ c.toNat ≤ 57 then some (c.toNat - 48) else none

def digits (n : Nat) : List Nat :=
  if n < 10 then [n] else digits (n / 10) ++ [n % 10]

/-- The number that has the given digits. -/
def ofDigits (ds : List Nat) : Nat := ds.foldl (fun n d => 10 * n + d) 0

/-- The notation of a natural number. -/
def ofNat (n : Nat) : List Char := (digits n).map digitChar

/-- The notation of an integer. -/
def ofInt : Int → List Char
  | .ofNat n => ofNat n
  | .negSucc n => '-' :: ofNat (n + 1)

/-- The leading digits of a text and what follows them. -/
def spanDigits : List Char → List Nat × List Char
  | [] => ([], [])
  | c :: cs =>
    match digit? c with
    | some d => (d :: (spanDigits cs).1, (spanDigits cs).2)
    | none => ([], c :: cs)

/-! ## The shortest decimal of a binary fraction -/

/-- The decimal `significand · 10 ^ exponent`. -/
structure Scientific where
  significand : Nat
  exponent : Int
  deriving DecidableEq, Repr

/-- The number `num / den` and the ends of the interval that is read back as it. -/
structure Interval where
  low : Nat
  value : Nat
  high : Nat
  den : Nat
  closed : Bool

namespace Interval

/-- The interval of `mantissa · 2 ^ exponent`; below a power of two the gap is half as wide. -/
def ofBinary (mantissa : Nat) (exponent : Int) (narrow : Bool) : Interval :=
  let scale := Nat.pow 2 (exponent - 2).toNat
  { low := (4 * mantissa - if narrow then 1 else 2) * scale
    value := 4 * mantissa * scale
    high := (4 * mantissa + 2) * scale
    den := Nat.pow 2 (2 - exponent).toNat
    closed := mantissa % 2 == 0 }

/-- Whether `c · 10 ^ k` lies in the interval. -/
def holds (i : Interval) (c : Nat) (k : Int) : Bool :=
  let x := c * Nat.pow 10 k.toNat * i.den
  let s := Nat.pow 10 (-k).toNat
  if i.closed then i.low * s ≤ x && x ≤ i.high * s else i.low * s < x && x < i.high * s

/-- The nearest point of the grid `10 ^ k` that the interval holds, of the two around its value. -/
def hit? (i : Interval) (k : Int) : Option Nat :=
  let step := Nat.pow 10 k.toNat * i.den
  let x := i.value * Nat.pow 10 (-k).toNat
  let c := x / step
  match i.holds c k, i.holds (c + 1) k with
  | true, true =>
    let twice := 2 * (x % step)
    some (if twice < step ∨ twice = step ∧ c % 2 = 0 then c else c + 1)
  | true, false => some c
  | false, true => some (c + 1)
  | false, false => none

/-- The place of the first digit of the value. -/
def magnitude (i : Interval) : Int :=
  if i.den ≤ i.value then (digits (i.value / i.den)).length - 1
  else
    let j := (digits (i.den / i.value)).length
    if i.den ≤ i.value * Nat.pow 10 (j - 1) then -(j - 1 : Nat) else -(j : Nat)

/-- The hit on the coarsest grid that has one, of those with up to `places` digits. -/
def shortest (i : Interval) (places : Nat) : Option Scientific :=
  (List.range places).findSome? fun n =>
    let k := i.magnitude - Int.ofNat n
    (i.hit? k).map fun c => ⟨c, k⟩

end Interval

/-- The same decimal without trailing zeros of the significand. -/
def Scientific.normalize (s : Scientific) : Scientific :=
  let zeros := ((digits s.significand).reverse.takeWhile (· == 0)).length
  ⟨s.significand / Nat.pow 10 zeros, s.exponent + Int.ofNat zeros⟩

/-- The weight of the sign among the bits of a binary fraction. -/
def signUnit : Nat := Nat.pow 2 63

/-- The weight of the exponent among the bits of a binary fraction. -/
def exponentUnit : Nat := Nat.pow 2 52

/-- The shortest decimal of the magnitude of a finite, non-zero binary fraction. -/
def ofFloat (x : Float) : Scientific :=
  let bits := x.toBits.toNat % signUnit
  let field : Nat := bits / exponentUnit
  let fraction : Nat := bits % exponentUnit
  let interval :=
    if field = 0 then Interval.ofBinary fraction (-1074) false
    else Interval.ofBinary (exponentUnit + fraction) (field - 1075) (fraction == 0 && field > 1)
  ((interval.shortest 17).getD ⟨0, 0⟩).normalize

/-- How a decimal is laid out. -/
structure Layout where
  /-- The greatest number of digits before the point that are written out. -/
  whole : Nat
  /-- The greatest number of zeros between the point and the first digit that are written out. -/
  zeros : Nat
  /-- Whether an exponent that is not negative has a plus sign. -/
  plus : Bool

/-- The mark of an exponent, its sign and its digits. -/
def Layout.power (l : Layout) (e : Int) : List Char :=
  'e' :: (if l.plus ∧ 0 ≤ e then ['+'] else []) ++ ofInt e

/-- A decimal fraction with its sign; what is too long to write out has an exponent. -/
def Layout.render (l : Layout) (negative : Bool) (s : Scientific) : List Char :=
  let ds := ofNat s.significand
  let point := ds.length + s.exponent
  let body :=
    if 0 ≤ s.exponent ∧ point ≤ l.whole then
      ds ++ List.replicate s.exponent.toNat '0' ++ ['.', '0']
    else if 0 < point ∧ point ≤ l.whole then
      ds.take point.toNat ++ '.' :: ds.drop point.toNat
    else if -(l.zeros : Int) ≤ point ∧ point ≤ 0 then
      ['0', '.'] ++ List.replicate (-point).toNat '0' ++ ds
    else
      ds.take 1 ++ (if ds.length = 1 then [] else '.' :: ds.drop 1) ++ l.power (point - 1)
  if negative then '-' :: body else body

/-- Up to sixteen digits before the point and four zeros after it are written out, and an exponent
always has a sign. -/
def standardLayout : Layout := ⟨16, 4, true⟩

/-- The shortest text of a finite binary fraction. -/
def floatText (x : Float) : List Char :=
  let negative := signUnit ≤ x.toBits.toNat
  standardLayout.render negative (if x == 0 then ⟨0, 0⟩ else ofFloat x)

end Decimal

end FlatAssoc
