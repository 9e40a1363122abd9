import FlatAssoc.Buffer
import FlatAssoc.Cursor
import FlatAssoc.Failure

/-!
# The slices of a buffer

A cursor over a part of a buffer starts from the parts of the two slices that lie in it. The items
that it yields are those of the part, wherever the seam lies.
-/

namespace FlatAssoc

namespace Buffer

variable {α : Type}

def zipIdx (b : Buffer α) : Buffer (α × Nat) :=
  ⟨b.front.zipIdx, b.back.zipIdx b.front.size⟩

/-- The positions from `start` up to, not including, `stop` are a part of the buffer. -/
def IsPart (b : Buffer α) (start stop : Nat) : Prop := start ≤ stop ∧ stop ≤ b.size

instance (b : Buffer α) (start stop : Nat) : Decidable (b.IsPart start stop) := by
  unfold IsPart
  infer_instance

/-- The slices restricted to the positions from `start` up to, not including, `stop`. -/
def window (b : Buffer α) (start stop : Nat) : Halves α :=
  ⟨(b.front.toList.take stop).drop start,
    (b.back.toList.take (stop - b.front.size)).drop (start - b.front.size)⟩

/-- A cursor over a part of the buffer. -/
def part (b : Buffer α) (start stop : Nat) : Except Failure (Halves α) :=
  if b.IsPart start stop then .ok (b.window start stop) else .error .badRange

/-- A cursor over the whole buffer. -/
def halves (b : Buffer α) : Halves α := ⟨b.front.toList, b.back.toList⟩

@[simp] theorem toList_zipIdx (b : Buffer α) : b.zipIdx.toList = b.toList.zipIdx := by
  simp [zipIdx, toList, List.zipIdx_append]

@[simp] theorem toList_halves (b : Buffer α) : b.halves.toList = b.toList := rfl

theorem toList_window (b : Buffer α) (start stop : Nat) :
    (b.window start stop).toList = (b.toList.take stop).drop start := by
  simp only [window, Halves.toList, toList, List.take_append, List.drop_append,
    Array.length_toList, List.length_take]
  by_cases h : stop ≤ b.front.size
  · have hs : stop - b.front.size = 0 := by omega
    simp [hs]
  · rw [Nat.min_eq_right (by omega)]

theorem part_eq_ok {b : Buffer α} {start stop : Nat} (h : b.IsPart start stop) :
    b.part start stop = .ok (b.window start stop) := if_pos h

theorem part_eq_error {b : Buffer α} {start stop : Nat} (h : ¬ b.IsPart start stop) :
    b.part start stop = .error .badRange := if_neg h

end Buffer

end FlatAssoc
