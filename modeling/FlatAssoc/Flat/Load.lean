import FlatAssoc.Flat.Emplace

/-!
# Bulk loading

Many entries are loaded by appending them, sorting once, and then, in a unique container, keeping
the first of each class. The sort is stable, so entries that were there come before new ones, and
these stay in the order in which they came. A load reports what it did.
-/

namespace FlatAssoc

/-- What a bulk load reports. -/
inductive Event where
  /-- A buffer of this size was sorted. -/
  | sorted (size : Nat)
  /-- The uniqueness pass dropped entries. -/
  | collapsed (dropped kept : Nat)
  deriving DecidableEq, Repr

/-- An answer and the events on the way to it. -/
abbrev Reported (α : Type) := Noted Event α

variable {α : Type}

/-- The first item of each run of items that are the same as the first one of the run. -/
def firstOfRuns (same : α → α → Bool) : List α → List α
  | [] => []
  | x :: xs => x :: go x xs
where
  /-- What is kept after `x`. -/
  go (x : α) : List α → List α
    | [] => []
    | y :: ys => if same x y then go x ys else y :: go y ys

/-- What a load takes its entries from: it gives these and then comes to its end or gives up. -/
structure Source (K V : Type) where
  items : List (Entry K V)
  ends : Bool

/-- What comes after the last entry. -/
def Source.ending {K V : Type} (s : Source K V) : Except Failure Unit :=
  if s.ends then .ok () else .error .sourceFailed

namespace Flat

variable {m : Multiplicity} {K V : Type}

/-- The stable sort by key. -/
def arrange (order : Comparator K) (es : List (Entry K V)) : List (Entry K V) :=
  es.mergeSort fun a b => order.le a.key b.key

/-- The stable sort by key, reported. -/
def sort (order : Comparator K) (es : List (Entry K V)) : Reported (List (Entry K V)) :=
  ⟨arrange order es, [.sorted es.length]⟩

/-- The first entry of each run of one class. -/
def collapse (order : Comparator K) (es : List (Entry K V)) : List (Entry K V) :=
  firstOfRuns (fun a b => order.same a.key b.key) es

/-- The uniqueness pass over sorted entries, reported if it drops any; a repeated container keeps
them all. -/
def settle (m : Multiplicity) (order : Comparator K) (es : List (Entry K V)) :
    Reported (List (Entry K V)) :=
  match m with
  | .repeated => pure es
  | .unique =>
    let kept := collapse order es
    let dropped := es.length - kept.length
    ⟨kept, if dropped > 0 then [.collapsed dropped kept.length] else []⟩

def ofList (order : Comparator K) (es : List (Entry K V)) : Reported (Flat m K V) := do
  let es ← sort order es
  let es ← settle m order es
  pure ⟨order, .ofList es⟩

/-- Loads entries that several workers gather and sort, which is not reported. -/
def gather (order : Comparator K) (es : List (Entry K V)) : Reported (Flat m K V) := do
  let es ← settle m order (arrange order es)
  pure ⟨order, .ofList es⟩

/-- Loads more entries; without any, nothing happens. -/
def append (c : Flat m K V) (es : List (Entry K V)) : Reported (Flat m K V) :=
  if es.isEmpty then pure c
  else do
    let es ← sort c.order (c.toList ++ es)
    let es ← settle m c.order es
    pure { c with entries := .ofList es }

/-- Loads from a source that promises at most `upper` entries. A promise of none or of one is
believed: nothing is taken, or one entry is taken and inserted. Otherwise entries are put after all
others as they come, and a source that gives up leaves them there. -/
def extendFrom (c : Flat m K V) (upper : Option Nat) (s : Source K V) :
    Reported (Attempt m K V Unit) :=
  match upper, s.items with
  | some 0, _ => pure (.ok (), c)
  | some 1, [] => pure (s.ending, c)
  | some 1, e :: _ => pure (.ok (), (c.insert e.key e.value).value.2)
  | _, es =>
    match s.ending with
    | .ok () => (fun d => (.ok (), d)) <$> c.append es
    | .error e => pure (.error e, { c with entries := c.entries.append es })

/-- Loads from a source that comes to its end. -/
def extend (c : Flat m K V) (upper : Option Nat) (es : List (Entry K V)) :
    Reported (Flat m K V) :=
  (·.2) <$> c.extendFrom upper ⟨es, true⟩

/-- Loads entries that several workers gather and sort before they are appended. -/
def gatherInto (c : Flat m K V) (es : List (Entry K V)) : Reported (Flat m K V) :=
  c.append (arrange c.order es)

/-- Loads what several workers gather, if their source does not give up before. -/
def gatherFrom (c : Flat m K V) (s : Source K V) : Reported (Attempt m K V Unit) :=
  match s.ending with
  | .ok () => (fun d => (.ok (), d)) <$> c.gatherInto s.items
  | .error e => pure (.error e, c)

/-- Loads the entries into a new container with the same comparator. -/
def rebuild (c : Flat m K V) : Reported (Flat m K V) := ofList c.order c.toList

/-- The same entries, of which later insertions may repeat the classes. -/
def toMultimap (c : Map K V) : Multimap K V := ⟨c.order, c.entries⟩

/-- The first entry of each class. -/
def toMap (c : Multimap K V) : Reported (Map K V) := do
  let es ← settle .unique c.order c.toList
  pure ⟨c.order, .ofList es⟩

/-! ## The entries after each load -/

theorem value_settle_unique (order : Comparator K) (es : List (Entry K V)) :
    (settle .unique order es).value = collapse order es := rfl

@[simp] theorem toList_ofList (order : Comparator K) (es : List (Entry K V)) :
    (ofList order es : Reported (Flat m K V)).value.toList =
      (settle m order (arrange order es)).value := Buffer.toList_ofList _

@[simp] theorem toList_gather (order : Comparator K) (es : List (Entry K V)) :
    (gather order es : Reported (Flat m K V)).value.toList =
      (settle m order (arrange order es)).value := Buffer.toList_ofList _

theorem toList_append (c : Flat m K V) {es : List (Entry K V)} (h : es ≠ []) :
    (c.append es).value.toList = (settle m c.order (arrange c.order (c.toList ++ es))).value := by
  have : es.isEmpty = false := by simpa using h
  simp only [append, this]
  exact Buffer.toList_ofList _

theorem append_nil (c : Flat m K V) : c.append [] = pure c := rfl

/-- What an extension comes to whose source comes to its end. -/
theorem extend_eq (c : Flat m K V) (upper : Option Nat) (es : List (Entry K V)) :
    c.extend upper es = match upper, es with
      | some 0, _ => pure c
      | some 1, [] => pure c
      | some 1, e :: _ => pure (c.insert e.key e.value).value.2
      | _, es => c.append es := by
  have happend : (·.2) <$> (fun d => ((.ok () : Except Failure Unit), d)) <$> c.append es =
      c.append es := Noted.ext rfl (by rw [Noted.notes_map, Noted.notes_map])
  match upper, es with
  | some 0, _ | some 1, [] | some 1, _ :: _ => rfl
  | none, _ | some (_ + 2), _ => exact happend

theorem toList_toMap (c : Multimap K V) :
    c.toMap.value.toList = collapse c.order c.toList := Buffer.toList_ofList _

end Flat

end FlatAssoc
