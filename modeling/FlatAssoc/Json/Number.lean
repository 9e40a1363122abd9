import FlatAssoc.Decimal
import FlatAssoc.Failure

/-!
# Numbers in a document

An integer is read exactly while it fits a word; a number with a fraction or an exponent, one that
is too large, and a negative zero are binary fractions. Digits that no longer fit the word count
as zeros before the point and are ignored after it.
-/

namespace FlatAssoc

namespace Json

/-- A reader takes something from the front of a text and leaves the rest. -/
abbrev Read (α : Type) := List Char → Except Error (α × List Char)

/-- A number as it is written, less its sign. -/
structure Numeral where
  whole : List Nat
  fraction : Option (List Nat)
  exponent : Option (Bool × List Nat)
  deriving DecidableEq, Repr

/-- A number as it is understood. -/
inductive Number where
  | integer (n : Int)
  | real (x : Float)

/-- At least one digit. -/
def readDigits : Read (List Nat) := fun cs =>
  match cs, Decimal.spanDigits cs with
  | [], _ => .error .ended
  | _ :: _, ([], _) => .error .malformed
  | _ :: _, (ds, rest) => .ok (ds, rest)

/-- The digits before the point: a leading zero stands alone. -/
def readWhole : Read (List Nat) := fun cs =>
  match readDigits cs with
  | .ok (0 :: _ :: _, _) => .error .malformed
  | r => r

/-- A point and the digits after it, if there is a point. -/
def readFraction : Read (Option (List Nat))
  | '.' :: cs => (fun (ds, rest) => (some ds, rest)) <$> readDigits cs
  | cs => .ok (none, cs)

def readExponent : Read (Option (Bool × List Nat)) := fun cs =>
  match cs with
  | 'e' :: cs | 'E' :: cs =>
    match cs with
    | '-' :: cs => (fun (ds, rest) => (some (true, ds), rest)) <$> readDigits cs
    | '+' :: cs => (fun (ds, rest) => (some (false, ds), rest)) <$> readDigits cs
    | cs => (fun (ds, rest) => (some (false, ds), rest)) <$> readDigits cs
  | cs => .ok (none, cs)

/-- A number as it is written, after its sign. -/
def readNumeral : Read Numeral := fun cs => do
  let (whole, cs) ← readWhole cs
  let (fraction, cs) ← readFraction cs
  let (exponent, cs) ← readExponent cs
  pure (⟨whole, fraction, exponent⟩, cs)

/-- The values of a word. -/
def wordLimit : Nat := UInt64.size

/-- Appends digits to a significand while it fits a word, and answers the digits left over. -/
def accumulate (n : Nat) : List Nat → Nat × List Nat
  | [] => (n, [])
  | d :: ds => if 10 * n + d < wordLimit then accumulate (10 * n + d) ds else (n, d :: ds)

/-- The greatest power of ten that a binary fraction holds. -/
def greatestPower : Nat := 308

/-- `x · 10 ^ e`, rounded after each step; `none` if it is too large. -/
def scale (x : Float) (e : Int) : Option Float :=
  if _h : e.natAbs ≤ greatestPower then
    let power := Float.ofScientific 1 false e.natAbs
    if 0 ≤ e then
      if (x * power).isInf then none else some (x * power)
    else some (x / power)
  else if x == 0 then some x
  else if 0 ≤ e then none
  else scale (x / Float.ofScientific 1 false greatestPower) (e + greatestPower)
  termination_by e.natAbs
  decreasing_by simp only [greatestPower] at *; omega

/-- The magnitudes of an exponent end here. -/
def exponentLimit : Nat := Nat.pow 2 31 - 1

/-- The sum of two exponents, kept within the limits. -/
def addExponents (a b : Int) : Int := max (-(exponentLimit + 1 : Int)) (min exponentLimit (a + b))

/-- The magnitude of a number as a binary fraction; `none` if it is too large. -/
def Numeral.magnitude (n : Numeral) : Option Float :=
  let (whole, dropped) := accumulate 0 n.whole
  let (significand, ignored) := accumulate whole (n.fraction.getD [])
  let places := (n.fraction.getD []).length - ignored.length
  let start : Int := dropped.length - places
  let x := Float.ofNat significand
  match n.exponent with
  | none => scale x start
  | some (negative, ds) =>
    let e := Decimal.ofDigits ds
    if e ≤ exponentLimit then
      scale x (addExponents start (if negative then -(e : Int) else e))
    else if significand ≠ 0 ∧ !negative then none
    else some 0

/-- The integer that is written, if it is one that is read exactly. -/
def Numeral.integer? (n : Numeral) (negative : Bool) : Option Int :=
  match n.fraction, n.exponent, accumulate 0 n.whole with
  | none, none, (w, []) =>
    if negative then if w = 0 ∨ wordLimit / 2 < w then none else some (-(w : Int)) else some w
  | _, _, _ => none

/-- A number, after its sign. -/
def readNumber (negative : Bool) : Read Number := fun cs => do
  let (n, cs) ← readNumeral cs
  match n.integer? negative with
  | some i => pure (.integer i, cs)
  | none =>
    match n.magnitude with
    | some x => pure (.real (if negative then -x else x), cs)
    | none => throw .malformed

def Number.found : Number → Found
  | .integer n => .integer n
  | .real x => .real (String.ofList (Decimal.floatText x))

end Json

end FlatAssoc
