import FlatAssoc.Cursor

/-!
# Scripts

A script is a finite sequence of requests to a cursor. The readings it produces keep apart the
items that were handed out from those that were only looked at, because a cursor that lends its
items for change changes exactly those it hands out.
-/

namespace FlatAssoc

/-- A request to a cursor. -/
inductive Request where
  | next
  | nextBack
  | nth (n : Nat)
  | nthBack (n : Nat)
  | length
  | bounds
  | clone
  | debug
  | last
  | count
  | collect
  | reversed
  | share
  deriving DecidableEq, Repr

/-- What a cursor answers to a request. -/
inductive Reading (α : Type) where
  /-- One item was handed out, or none was left. -/
  | item (x : Option α)
  /-- All items left were handed out, in this order. -/
  | items (xs : List α)
  /-- The items left were looked at. -/
  | view (xs : List α)
  /-- The items left are to be put into words. -/
  | words (xs : List α)
  /-- A number of items. -/
  | number (n : Nat)
  /-- A lower and an upper bound on the number of items left. -/
  | bounds (lower upper : Nat)
  deriving DecidableEq, Repr

namespace Reading

variable {α β : Type}

/-- The items that a reading handed out. -/
def handedOut : Reading α → List α
  | .item x => x.toList
  | .items xs => xs
  | _ => []

/-- The same reading of other items. -/
def map (f : α → β) : Reading α → Reading β
  | .item x => .item (x.map f)
  | .items xs => .items (xs.map f)
  | .view xs => .view (xs.map f)
  | .words xs => .words (xs.map f)
  | .number n => .number n
  | .bounds l u => .bounds l u

end Reading

namespace Cursor

variable {ρ α : Type} [Cursor ρ α]

/-- The answer to one request, with what is left of the cursor unless the request used it up. -/
def respond (c : ρ) : Request → Reading α × Option ρ
  | .next => (next c).map .item some
  | .nextBack => (nextBack c).map .item some
  | .nth n => (nth n c).map .item some
  | .nthBack n => (nthBack n c).map .item some
  | .length => (.number (size c), some c)
  | .bounds => (.bounds (size c) (size c), some c)
  | .clone => (.view (collect c), some c)
  | .debug => (.words (rest c), some c)
  | .last => (.item (last c), none)
  | .count => (.number (count c), none)
  | .collect => (.items (collect c), none)
  | .reversed => (.items (reversed c), none)
  | .share => (.view (collect c), none)

/-- The readings of a script, up to the first request that uses the cursor up. -/
def play (c : ρ) : List Request → List (Reading α)
  | [] => []
  | r :: rs =>
    match respond c r with
    | (reading, none) => [reading]
    | (reading, some c) => reading :: play c rs

/-- The items that a script hands out, in the order in which it does. -/
def handedOut (c : ρ) (script : List Request) : List α :=
  (play c script).flatMap Reading.handedOut

end Cursor

end FlatAssoc
