/-!
# Comparators and probes

A comparator orders two keys. A probe says where a stored key stands relative to what is sought,
so the stored key is always its left operand; a probe may be coarser than a key and match several
stored keys that differ from one another.
-/

namespace FlatAssoc

variable {K P : Type}

/-- An order of keys; `.eq` puts two keys into one class, it does not make them identical. -/
abbrev Comparator (K : Type) := K → K → Ordering

/-- Where a stored key stands: before what is sought, at it, or after it. -/
abbrev Probe (K : Type) := K → Ordering

namespace Comparator

/-- The probe that seeks the class of `k`. -/
def probe (c : Comparator K) (k : K) : Probe K := fun stored => c stored k

/-- The same classes in the opposite order. -/
def reverse (c : Comparator K) : Comparator K := fun a b => (c a b).swap

/-- Whether `a` may stand before `b`. -/
def le (c : Comparator K) (a b : K) : Bool := (c a b).isLE

/-- Whether `a` and `b` are in one class. -/
def same (c : Comparator K) (a b : K) : Bool := c a b == .eq

@[simp] theorem probe_apply (c : Comparator K) (k s : K) : c.probe k s = c s k := rfl

@[simp] theorem reverse_apply (c : Comparator K) (a b : K) : c.reverse a b = (c a b).swap := rfl

end Comparator

/-- Along `keys` the probe answers `.lt` first, then `.eq`, then `.gt`. -/
def Probe.Consistent (p : Probe K) (keys : List K) : Prop :=
  keys.Pairwise fun a b => (p b = .lt → p a = .lt) ∧ (p a = .gt → p b = .gt)

instance (p : Probe K) (keys : List K) : Decidable (p.Consistent keys) := by
  unfold Probe.Consistent
  infer_instance

/-- What a keyed operation is asked for: a key, or a probe of its own. -/
inductive Target (K : Type) where
  | key (k : K)
  | probe (p : Probe K)

/-- The probe of a target in a container ordered by `c`. -/
def Target.under (c : Comparator K) : Target K → Probe K
  | .key k => c.probe k
  | .probe p => p

@[simp] theorem Target.under_key (c : Comparator K) (k : K) :
    (Target.key k).under c = c.probe k := rfl

@[simp] theorem Target.under_probe (c : Comparator K) (p : Probe K) :
    (Target.probe p).under c = p := rfl

end FlatAssoc
