import FlatAssoc.Buffer
import FlatAssoc.Comparator
import FlatAssoc.Failure

/-!
# Flat associative containers

A flat container keeps its entries side by side in the order of their keys. A unique one holds one
entry of each class of equal keys, a repeated one holds all of them, the older before the newer. A
set is a container whose entries carry no value.
-/

namespace FlatAssoc

/-- A key and the value stored with it. -/
structure Entry (K V : Type) where
  key : K
  value : V
  deriving DecidableEq, Repr

namespace Entry

variable {K V : Type}

/-- The entry as a pair. -/
def pair (e : Entry K V) : K × V := (e.key, e.value)

/-- The entry of a pair. -/
def ofPair (p : K × V) : Entry K V := ⟨p.1, p.2⟩

/-- Changes the value and keeps the key. -/
def update (e : Entry K V) (f : V → V) : Entry K V := { e with value := f e.value }

@[simp] theorem pair_ofPair (p : K × V) : (ofPair p).pair = p := rfl

@[simp] theorem ofPair_pair (e : Entry K V) : ofPair e.pair = e := rfl

@[simp] theorem key_update (e : Entry K V) (f : V → V) : (e.update f).key = e.key := rfl

@[simp] theorem value_update (e : Entry K V) (f : V → V) : (e.update f).value = f e.value := rfl

end Entry

/-- How many entries of one class a container holds. -/
inductive Multiplicity where
  | unique
  | repeated
  deriving DecidableEq, Repr

/-- Entries side by side, in the order of their keys. -/
structure Flat (m : Multiplicity) (K V : Type) where
  order : Comparator K
  entries : Buffer (Entry K V)

/-- One value for each class of keys. -/
abbrev Map (K V : Type) := Flat .unique K V

/-- Any number of values for each class of keys. -/
abbrev Multimap (K V : Type) := Flat .repeated K V

/-- An answer or a failure, with the container that is left either way. -/
abbrev Attempt (m : Multiplicity) (K V α : Type) := Except Failure α × Flat m K V

namespace Flat

variable {m : Multiplicity} {K V : Type}

/-- The entries in order. -/
def toList (c : Flat m K V) : List (Entry K V) := c.entries.toList

def keys (c : Flat m K V) : List K := c.toList.map (·.key)

/-- A container without entries. -/
def empty (order : Comparator K) : Flat m K V := ⟨order, .empty⟩

def size (c : Flat m K V) : Nat := c.entries.size

def isEmpty (c : Flat m K V) : Bool := c.size == 0

/-- The entry with the least key, the oldest of its class. -/
def first? (c : Flat m K V) : Option (Entry K V) := c.entries.first?

/-- The entry with the greatest key, the newest of its class. -/
def last? (c : Flat m K V) : Option (Entry K V) := c.entries.last?

def get? (c : Flat m K V) (i : Nat) : Option (Entry K V) := c.entries.get? i

/-- Changes the value at position `i`. -/
def modify (c : Flat m K V) (i : Nat) (f : V → V) : Flat m K V :=
  { c with entries := c.entries.modify i (·.update f) }

/-- Changes the values at the given positions, one after the other. -/
def modifyAll (c : Flat m K V) (positions : List Nat) (f : V → V) : Flat m K V :=
  positions.foldl (fun c i => c.modify i f) c

/-- Two containers are the same if they hold the same keys and values in the same order; their
comparators play no part. -/
def same [DecidableEq K] [DecidableEq V] (c d : Flat m K V) : Bool := c.toList == d.toList

/-- No key stands after a greater one, and in a unique container not after an equal one either. -/
def Valid (c : Flat m K V) : Prop :=
  match m with
  | .unique => c.keys.Pairwise fun a b => c.order a b = .lt
  | .repeated => c.keys.Pairwise fun a b => c.order a b ≠ .gt

/-- The probe sees the stored keys before, at and after what is sought, in this order. -/
def ConsistentWith (c : Flat m K V) (p : Probe K) : Prop := p.Consistent c.keys

@[simp] theorem toList_empty (order : Comparator K) :
    (empty order : Flat m K V).toList = [] := rfl

theorem size_eq_length (c : Flat m K V) : c.size = c.toList.length := c.entries.size_eq_length

theorem first?_eq (c : Flat m K V) : c.first? = c.toList.head? := c.entries.first?_eq

theorem last?_eq (c : Flat m K V) : c.last? = c.toList.getLast? := c.entries.last?_eq

theorem get?_eq (c : Flat m K V) (i : Nat) : c.get? i = c.toList[i]? := c.entries.get?_eq i

@[simp] theorem toList_modify (c : Flat m K V) (i : Nat) (f : V → V) :
    (c.modify i f).toList = c.toList.modify i (·.update f) := c.entries.toList_modify i _

/-- Whatever its multiplicity, a valid container has no key after a greater one. -/
theorem Valid.pairwise {c : Flat m K V} (h : c.Valid) :
    c.keys.Pairwise fun a b => c.order a b ≠ .gt := by
  cases m with
  | repeated => exact h
  | unique =>
    refine List.Pairwise.imp ?_ h
    intro a b hab hgt
    rw [hab] at hgt
    cases hgt

/-- A key, seen from a valid container, is a consistent probe. -/
theorem Valid.consistentWith_probe {c : Flat m K V} [Std.TransCmp c.order] (h : c.Valid) (k : K) :
    c.ConsistentWith (c.order.probe k) := by
  refine h.pairwise.imp ?_
  intro a b hab
  have hle : (c.order a b).isLE := Ordering.isLE_iff_ne_gt.mpr hab
  simp only [Comparator.probe_apply]
  refine ⟨fun hb => Std.TransCmp.lt_of_isLE_of_lt hle hb, fun ha => ?_⟩
  have hka : c.order k a = .lt := Std.OrientedCmp.lt_of_gt ha
  exact Std.OrientedCmp.gt_of_lt (Std.TransCmp.lt_of_lt_of_isLE hka hle)

end Flat

end FlatAssoc
