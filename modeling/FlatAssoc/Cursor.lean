/-!
# Cursors

A cursor yields the items of a sequence from both ends until none is left. What it can be asked for
beyond a single step is by default a repetition of such steps, and a cursor that can do better
overrides it. The plain cursor over a list, which drops what it skips, is the one that all others
are compared with.
-/

namespace FlatAssoc

/-- Yields items from both ends. -/
class Cursor (ρ : Type) (α : outParam Type) where
  /-- The items left, in order. -/
  rest : ρ → List α
  /-- The number of items left, which bounds it from below and from above as well. -/
  size : ρ → Nat
  next : ρ → Option α × ρ
  nextBack : ρ → Option α × ρ
  /-- Skips `n` items from the front and takes the next one. -/
  nth : Nat → ρ → Option α × ρ
  /-- Skips `n` items from the back and takes the next one. -/
  nthBack : Nat → ρ → Option α × ρ
  /-- The last of the items that are yet to come. -/
  last : ρ → Option α
  /-- How many items are yet to come. -/
  count : ρ → Nat
  /-- The items that are yet to come. -/
  collect : ρ → List α
  /-- The items that are yet to come from the back. -/
  reversed : ρ → List α

/-- A way to take items one by one, each of which leaves fewer of them. -/
structure Stepping (ρ α : Type) where
  step : ρ → Option α × ρ
  size : ρ → Nat
  size_lt (c : ρ) (h : (step c).1.isSome) : size (step c).2 < size c

namespace Stepping

variable {ρ α β : Type}

/-- Folds the items that come until none is left. -/
def fold (s : Stepping ρ α) (f : β → α → β) (b : β) (c : ρ) : β :=
  match _ : s.step c with
  | (none, _) => b
  | (some x, d) => s.fold f (f b x) d
  termination_by s.size c
  decreasing_by
    rename_i hstep
    have hlt := s.size_lt c
    rw [hstep] at hlt
    exact hlt rfl

def last (s : Stepping ρ α) (c : ρ) : Option α := s.fold (fun _ x => some x) none c

def count (s : Stepping ρ α) (c : ρ) : Nat := s.fold (fun n _ => n + 1) 0 c

def collect (s : Stepping ρ α) (c : ρ) : List α := (s.fold Array.push #[] c).toList

/-- Takes `n` steps and one more, and stops early once nothing is left. -/
def walk (s : Stepping ρ α) : Nat → ρ → Option α × ρ
  | 0, c => s.step c
  | n + 1, c =>
    match s.step c with
    | (none, c) => (none, c)
    | (some _, c) => s.walk n c

end Stepping

/-- The cursor over a list, in one piece. -/
instance Cursor.instList {α : Type} : Cursor (List α) α where
  rest xs := xs
  size xs := xs.length
  next xs := (xs.head?, xs.tail)
  nextBack xs := (xs.getLast?, xs.dropLast)
  nth n xs := (xs[n]?, xs.drop (n + 1))
  nthBack n xs := (xs.reverse[n]?, xs.take (xs.length - (n + 1)))
  last xs := xs.getLast?
  count xs := xs.length
  collect xs := xs
  reversed xs := xs.reverse

/-- The items left in two slices, `front` before `back`. -/
structure Halves (α : Type) where
  front : List α
  back : List α

namespace Halves

variable {α : Type}

/-- The items left, in order. -/
def toList (h : Halves α) : List α := h.front ++ h.back

def size (h : Halves α) : Nat := h.front.length + h.back.length

/-- Takes from the front slice while it lasts. -/
def next (h : Halves α) : Option α × Halves α :=
  match h.front with
  | x :: front => (some x, { h with front })
  | [] => (h.back.head?, { h with back := h.back.tail })

/-- Takes from the back slice while it lasts. -/
def nextBack (h : Halves α) : Option α × Halves α :=
  match h.back.getLast? with
  | some x => (some x, { h with back := h.back.dropLast })
  | none => (h.front.getLast?, { h with front := h.front.dropLast })

/-- Skips within the front slice if the item lies there, and jumps over all of it if not. -/
def nth (n : Nat) (h : Halves α) : Option α × Halves α :=
  if n < h.front.length then (h.front[n]?, { h with front := h.front.drop (n + 1) })
  else
    let m := n - h.front.length
    (h.back[m]?, ⟨[], h.back.drop (m + 1)⟩)

/-- Skips within the back slice if the item lies there, and jumps over all of it if not. -/
def nthBack (n : Nat) (h : Halves α) : Option α × Halves α :=
  if n < h.back.length then
    (h.back.reverse[n]?, { h with back := h.back.take (h.back.length - (n + 1)) })
  else
    let m := n - h.back.length
    (h.front.reverse[m]?, ⟨h.front.take (h.front.length - (m + 1)), []⟩)

theorem size_next_lt (h : Halves α) (hx : h.next.1.isSome) : h.next.2.size < h.size := by
  cases hfront : h.front with
  | cons x front => simp [next, size, hfront]
  | nil =>
    cases hback : h.back with
    | nil => simp [next, hfront, hback] at hx
    | cons y back => simp [next, size, hfront, hback]

theorem size_nextBack_lt (h : Halves α) (hx : h.nextBack.1.isSome) :
    h.nextBack.2.size < h.size := by
  cases hback : h.back.getLast? with
  | some x =>
    obtain ⟨back, hsplit⟩ := List.getLast?_eq_some_iff.mp hback
    simp [nextBack, size, hsplit]
  | none =>
    cases hfront : h.front.getLast? with
    | none => simp [nextBack, hfront, hback] at hx
    | some y =>
      obtain ⟨front, hsplit⟩ := List.getLast?_eq_some_iff.mp hfront
      simp [nextBack, size, hsplit, hback]

def forward : Stepping (Halves α) α := ⟨next, size, size_next_lt⟩

def backward : Stepping (Halves α) α := ⟨nextBack, size, size_nextBack_lt⟩

instance : Cursor (Halves α) α where
  rest := toList
  size := size
  next := next
  nextBack := nextBack
  nth := nth
  nthBack := nthBack
  last h := h.nextBack.1
  count := forward.count
  collect := forward.collect
  reversed := backward.collect

end Halves

/-- Two slices read with jumps from the front, and step by step from the back. -/
structure ForwardHalves (α : Type) where
  halves : Halves α

namespace ForwardHalves

variable {α : Type}

def next (c : ForwardHalves α) : Option α × ForwardHalves α :=
  let (x, h) := c.halves.next
  (x, ⟨h⟩)

def nextBack (c : ForwardHalves α) : Option α × ForwardHalves α :=
  let (x, h) := c.halves.nextBack
  (x, ⟨h⟩)

def forward : Stepping (ForwardHalves α) α where
  step := next
  size c := c.halves.size
  size_lt c := c.halves.size_next_lt

def backward : Stepping (ForwardHalves α) α where
  step := nextBack
  size c := c.halves.size
  size_lt c := c.halves.size_nextBack_lt

instance : Cursor (ForwardHalves α) α where
  rest c := c.halves.toList
  size c := c.halves.size
  next := next
  nextBack := nextBack
  nth n c := let (x, h) := c.halves.nth n; (x, ⟨h⟩)
  nthBack := backward.walk
  last := forward.last
  count := forward.count
  collect := forward.collect
  reversed := backward.collect

end ForwardHalves

/-- Two slices read step by step from either end. -/
structure SteppedHalves (α : Type) where
  halves : Halves α

namespace SteppedHalves

variable {α : Type}

def next (c : SteppedHalves α) : Option α × SteppedHalves α :=
  let (x, h) := c.halves.next
  (x, ⟨h⟩)

def nextBack (c : SteppedHalves α) : Option α × SteppedHalves α :=
  let (x, h) := c.halves.nextBack
  (x, ⟨h⟩)

def forward : Stepping (SteppedHalves α) α where
  step := next
  size c := c.halves.size
  size_lt c := c.halves.size_next_lt

def backward : Stepping (SteppedHalves α) α where
  step := nextBack
  size c := c.halves.size
  size_lt c := c.halves.size_nextBack_lt

instance : Cursor (SteppedHalves α) α where
  rest c := c.halves.toList
  size c := c.halves.size
  next := next
  nextBack := nextBack
  nth := forward.walk
  nthBack := backward.walk
  last := forward.last
  count := forward.count
  collect := forward.collect
  reversed := backward.collect

end SteppedHalves

/-- Items that have left their container, read step by step from either end. -/
structure Taken (α : Type) where
  items : List α

namespace Taken

variable {α : Type}

def next (c : Taken α) : Option α × Taken α := (c.items.head?, ⟨c.items.tail⟩)

def nextBack (c : Taken α) : Option α × Taken α := (c.items.getLast?, ⟨c.items.dropLast⟩)

def forward : Stepping (Taken α) α where
  step := next
  size c := c.items.length
  size_lt c h := by
    obtain ⟨x, hx⟩ := Option.isSome_iff_exists.mp h
    obtain ⟨xs, hxs⟩ := List.head?_eq_some_iff.mp hx
    simp [next, hxs]

def backward : Stepping (Taken α) α where
  step := nextBack
  size c := c.items.length
  size_lt c h := by
    obtain ⟨x, hx⟩ := Option.isSome_iff_exists.mp h
    obtain ⟨xs, hxs⟩ := List.getLast?_eq_some_iff.mp hx
    simp [nextBack, hxs]

instance : Cursor (Taken α) α where
  rest := items
  size c := c.items.length
  next := next
  nextBack := nextBack
  nth := forward.walk
  nthBack := backward.walk
  last := forward.last
  count := forward.count
  collect := forward.collect
  reversed := backward.collect

end Taken

end FlatAssoc
