import FlatAssoc.Buffer.Search
import FlatAssoc.Buffer.Slices
import FlatAssoc.Flat

/-!
# Lookups

Every lookup compares the ends first: a probe before the first key or after the last one is
answered without a search. Each comparison shows the probe one stored key, which is noted.
-/

namespace FlatAssoc

/-- An answer and the stored keys that were compared on the way to it. -/
abbrev Asked (K α : Type) := Noted K α

namespace Entry

variable {K V : Type}

/-- Shows the key to a probe. -/
def ask (p : Probe K) (e : Entry K V) : Asked K Ordering := ⟨p e.key, [e.key]⟩

@[simp] theorem value_ask (p : Probe K) (e : Entry K V) : (e.ask p).value = p e.key := rfl

@[simp] theorem notes_ask (p : Probe K) (e : Entry K V) : (e.ask p).notes = [e.key] := rfl

end Entry

namespace Flat

variable {m : Multiplicity} {K V : Type}

/-- The position of the first entry that is not before what is sought. -/
def lowerBound (c : Flat m K V) (p : Probe K) : Asked K Nat :=
  c.entries.partitionPoint fun e => (· == .lt) <$> e.ask p

/-- The position of the first entry that is after what is sought. -/
def upperBound (c : Flat m K V) (p : Probe K) : Asked K Nat :=
  c.entries.partitionPoint fun e => (· != .gt) <$> e.ask p

/-- Whether what is sought lies before the first entry or after the last one. -/
def outside (c : Flat m K V) (p : Probe K) : Asked K Bool :=
  match c.first?, c.last? with
  | some front, some back => do
    match ← front.ask p with
    | .gt => pure true
    | _ => (· == .lt) <$> back.ask p
  | _, _ => pure true

/-- The position of the first match. -/
def find? (c : Flat m K V) (p : Probe K) : Asked K (Option Nat) := do
  match ← c.outside p with
  | true => pure none
  | false =>
    let i ← c.lowerBound p
    match c.get? i with
    | none => pure none
    | some e => (fun o => if o = .eq then some i else none) <$> e.ask p

/-- The first match. -/
def firstMatch? (c : Flat m K V) (p : Probe K) : Asked K (Option (Entry K V)) :=
  (·.bind c.get?) <$> c.find? p

/-- Whether there is a match. -/
def contains (c : Flat m K V) (p : Probe K) : Asked K Bool := (·.isSome) <$> c.find? p

/-- The positions from the lower to the upper bound. -/
def bounds (c : Flat m K V) (p : Probe K) : Asked K (Nat × Nat) := do
  let lower ← c.lowerBound p
  let upper ← c.upperBound p
  pure (lower, upper)

/-- The positions of the matches; a unique container counts the first one only. -/
def equalRange (c : Flat m K V) (p : Probe K) : Asked K (Nat × Nat) :=
  match m with
  | .repeated => c.bounds p
  | .unique => do
    match ← c.find? p with
    | some i => pure (i, i + 1)
    | none => (fun i => (i, i)) <$> c.lowerBound p

/-- The number of matches; a unique container counts the first one only. -/
def count (c : Flat m K V) (p : Probe K) : Asked K Nat :=
  match m with
  | .repeated => do
    match ← c.outside p with
    | true => pure 0
    | false => (fun r => r.2 - r.1) <$> c.bounds p
  | .unique => Bool.toNat <$> c.contains p

/-- The first match, where one is required. -/
def index (c : Flat m K V) (p : Probe K) : Asked K (Except Failure V) :=
  (fun e => match e with
    | some e => .ok e.value
    | none => .error .noEntry) <$> c.firstMatch? p

/-- The positions that a traversal of all matches runs over. -/
def matchRange (c : Multimap K V) (p : Probe K) : Asked K (Nat × Nat) := do
  match ← c.outside p with
  | true => pure (0, 0)
  | false => c.bounds p

/-- Changes the value of the first match, and answers what it was. -/
def update (c : Flat m K V) (p : Probe K) (f : V → V) : Asked K (Option V × Flat m K V) :=
  (fun i => match i with
    | none => (none, c)
    | some i => ((c.get? i).map (·.value), c.modify i f)) <$> c.find? p

/-! ## What the bounds count -/

/-- The stored keys before what is sought are as many as the lower bound says. -/
theorem value_lowerBound {c : Flat m K V} {p : Probe K} (h : c.ConsistentWith p) :
    (c.lowerBound p).value = c.keys.countP fun k => p k == .lt := by
  have lead : Buffer.Leading (fun e : Entry K V => p e.key == .lt) c.entries.toList := by
    refine (List.pairwise_map.mp h).imp ?_
    intro a b hab hb
    exact beq_iff_eq.mpr (hab.1 (beq_iff_eq.mp hb))
  rw [keys, List.countP_map]
  exact Buffer.value_partitionPoint lead

/-- The stored keys not after what is sought are as many as the upper bound says. -/
theorem value_upperBound {c : Flat m K V} {p : Probe K} (h : c.ConsistentWith p) :
    (c.upperBound p).value = c.keys.countP fun k => p k != .gt := by
  have lead : Buffer.Leading (fun e : Entry K V => p e.key != .gt) c.entries.toList := by
    refine (List.pairwise_map.mp h).imp ?_
    intro a b hab hb
    exact bne_iff_ne.mpr fun ha => bne_iff_ne.mp hb (hab.2 ha)
  rw [keys, List.countP_map]
  exact Buffer.value_partitionPoint lead

theorem notes_lowerBound_ne_nil {c : Flat m K V} (h : c.toList ≠ []) (p : Probe K) :
    (c.lowerBound p).notes ≠ [] :=
  Buffer.notes_partitionPoint_ne_nil h fun e => by simp

theorem notes_upperBound_ne_nil {c : Flat m K V} (h : c.toList ≠ []) (p : Probe K) :
    (c.upperBound p).notes ≠ [] :=
  Buffer.notes_partitionPoint_ne_nil h fun e => by simp

end Flat

end FlatAssoc
