import FlatAssoc.Flat.Lookup

/-!
# Removal

Entries leave from the ends, by position, by match, by a range of positions, or by the verdict of
a visitor; those that stay keep their order.
-/

namespace FlatAssoc

/-- The number of positions there are; a position that does not stay below it does not exist. -/
def positionLimit : Nat := UInt64.size

/-- One end of a range of positions. -/
inductive Bound where
  | included (n : Nat)
  | excluded (n : Nat)
  | unbounded
  deriving DecidableEq, Repr

namespace Bound

/-- The successor of a position, if it exists. -/
def succ? (n : Nat) : Option Nat := if n + 1 < positionLimit then some (n + 1) else none

/-- The first position inside, for the lower end. -/
def start? : Bound → Option Nat
  | .included n => some n
  | .excluded n => succ? n
  | .unbounded => some 0

/-- The first position outside, for the upper end of a range of `size` positions. -/
def stop? (size : Nat) : Bound → Option Nat
  | .included n => succ? n
  | .excluded n => some n
  | .unbounded => some size

end Bound

/-- Is shown an entry and the number of those shown before it, gives it a new value and says
whether it stays, unless it gives up. -/
abbrev Visitor (K V : Type) := Nat → Entry K V → V × Option Bool

/-- A visitor that never gives up. -/
def Visitor.ofTotal {K V : Type} (visit : Nat → Entry K V → V × Bool) : Visitor K V :=
  fun n e => ((visit n e).1, some (visit n e).2)

namespace Flat

variable {m : Multiplicity} {K V : Type}

/-- Takes out all entries. -/
def clear (c : Flat m K V) : Flat m K V := empty c.order

/-- Takes out the entry at position `i`. -/
def eraseIdx (c : Flat m K V) (i : Nat) : Flat m K V :=
  { c with entries := c.entries.eraseIdx i }

/-- Takes out and answers the entry at position `i`. -/
def removeAt? (c : Flat m K V) (i : Nat) : Option (Entry K V × Flat m K V) :=
  (c.get? i).map fun e => (e, c.eraseIdx i)

/-- Takes out and answers the first entry. -/
def popFirst? (c : Flat m K V) : Option (Entry K V × Flat m K V) := c.removeAt? 0

/-- Takes out and answers the last entry. -/
def popLast? (c : Flat m K V) : Option (Entry K V × Flat m K V) := c.removeAt? (c.size - 1)

/-- Takes out and answers the first match. -/
def take? (c : Flat m K V) (p : Probe K) : Asked K (Option (Entry K V × Flat m K V)) :=
  (·.bind c.removeAt?) <$> c.find? p

/-- Takes out the entries of a part, which it answers in order. -/
def removePart (c : Flat m K V) (start stop : Nat) : Attempt m K V (List (Entry K V)) :=
  match c.entries.part start stop with
  | .ok taken => (.ok taken.toList, { c with entries := c.entries.eraseRange start stop })
  | .error e => (.error e, c)

/-- Takes out all matches, and answers how many there were. -/
def removeAll (c : Multimap K V) (p : Probe K) : Asked K (Attempt .repeated K V Nat) := do
  match ← c.outside p with
  | true => pure (.ok 0, c)
  | false =>
    (fun r =>
      let taken := c.removePart r.1 r.2
      ((fun _ => r.2 - r.1) <$> taken.1, taken.2)) <$> c.bounds p

/-- Takes out the entries between two bounds, which it answers in order. -/
def removeRange (c : Flat m K V) (lo hi : Bound) : Attempt m K V (List (Entry K V)) :=
  match lo.start?, hi.stop? c.size with
  | some start, some stop => c.removePart start stop
  | _, _ => (.error .badRange, c)

def drain (c : Flat m K V) : Attempt m K V (List (Entry K V)) :=
  c.removeRange .unbounded .unbounded

/-- Shows the entries `es` to a visitor, of which `n` were shown others before. Of those, `kept`
stay and `gone` go; an entry that stays trades places with the first one that goes. In the end
those that go are cut off, but a visitor that gives up leaves them where they are by then. -/
def sweep (visit : Visitor K V) (n : Nat) (kept gone : List (Entry K V)) :
    List (Entry K V) → Except Failure Unit × List (Entry K V)
  | [] => (.ok (), kept)
  | e :: es =>
    let e' := { e with value := (visit n e).1 }
    match (visit n e).2, gone with
    | none, gone => (.error .visitorFailed, kept ++ gone ++ e' :: es)
    | some false, gone => sweep visit (n + 1) kept (gone ++ [e']) es
    | some true, [] => sweep visit (n + 1) (kept ++ [e']) [] es
    | some true, g :: gone => sweep visit (n + 1) (kept ++ [e']) (gone ++ [g]) es

/-- Keeps the entries that a visitor lets stay, as long as it does not give up. -/
def retainWhile (c : Flat m K V) (visit : Visitor K V) : Attempt m K V Unit :=
  let swept := sweep visit 0 [] [] c.toList
  (swept.1, { c with entries := .ofList swept.2 })

/-- Keeps the entries that a visitor lets stay. -/
def retain (c : Flat m K V) (visit : Nat → Entry K V → V × Bool) : Flat m K V :=
  (c.retainWhile (Visitor.ofTotal visit)).2

/-! ## The entries after each removal -/

@[simp] theorem toList_clear (c : Flat m K V) : c.clear.toList = [] := rfl

@[simp] theorem toList_eraseIdx (c : Flat m K V) (i : Nat) :
    (c.eraseIdx i).toList = c.toList.eraseIdx i := c.entries.toList_eraseIdx i

theorem removePart_eq_ok (c : Flat m K V) {start stop : Nat} (h : c.entries.IsPart start stop) :
    c.removePart start stop = (.ok ((c.toList.take stop).drop start),
      { c with entries := c.entries.eraseRange start stop }) := by
  simp only [removePart, Buffer.part_eq_ok h]
  exact congrArg (fun es => (Except.ok es, _)) (c.entries.toList_window start stop)

theorem removePart_eq_error (c : Flat m K V) {start stop : Nat}
    (h : ¬ c.entries.IsPart start stop) : c.removePart start stop = (.error .badRange, c) := by
  simp only [removePart, Buffer.part_eq_error h]

theorem exists_drain_eq (c : Flat m K V) :
    ∃ d, c.drain = (.ok c.toList, d) ∧ d.order = c.order ∧ d.toList = [] := by
  have hpart : c.entries.IsPart 0 c.size := ⟨Nat.zero_le _, Nat.le_refl _⟩
  have hlength : c.toList.length ≤ c.size := Nat.le_of_eq c.size_eq_length.symm
  have hok := removePart_eq_ok c hpart
  rw [List.drop_zero, List.take_of_length_le hlength] at hok
  refine ⟨_, hok, rfl, ?_⟩
  rw [toList, Buffer.toList_eraseRange _ hpart.1, List.take_zero, List.nil_append]
  exact List.drop_of_length_le hlength

/-- A visitor that never gives up leaves the entries that it lets stay, in their order. -/
theorem sweep_ofTotal (visit : Nat → Entry K V → V × Bool) (n : Nat)
    (kept gone es : List (Entry K V)) :
    sweep (Visitor.ofTotal visit) n kept gone es =
      (.ok (), kept ++ (es.zipIdx n).filterMap fun (e, i) =>
        if (visit i e).2 then some { e with value := (visit i e).1 } else none) := by
  induction es generalizing n kept gone with
  | nil => simp [sweep]
  | cons e es ih =>
    cases hstay : (visit n e).2 with
    | false => simp [sweep, Visitor.ofTotal, hstay, ih]
    | true => cases gone <;> simp [sweep, Visitor.ofTotal, hstay, ih]

theorem toList_retain (c : Flat m K V) (visit : Nat → Entry K V → V × Bool) :
    (c.retain visit).toList = c.toList.zipIdx.filterMap fun (e, i) =>
      if (visit i e).2 then some { e with value := (visit i e).1 } else none := by
  rw [retain, retainWhile, sweep_ofTotal, List.nil_append]
  exact Buffer.toList_ofList _

end Flat

end FlatAssoc
