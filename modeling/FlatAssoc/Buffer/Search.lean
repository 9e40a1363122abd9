import FlatAssoc.Buffer
import FlatAssoc.Noted

/-!
# Binary search

`partitionPoint` is the number of leading items that satisfy a test, for a test that no item after
the first failure satisfies again. It looks at the seam first and then halves one of the slices,
so it tests at least one item of a buffer that has any.
-/

namespace FlatAssoc

namespace Buffer

variable {ν α : Type}

/-- The first position in `[lo, hi)` whose item fails `before`, or `hi`. -/
def bisect (xs : Array α) (before : α → Noted ν Bool) (lo hi : Nat) (h : hi ≤ xs.size) :
    Noted ν Nat :=
  if hlt : lo < hi then
    have : (lo + hi) / 2 < xs.size := by omega
    before xs[(lo + hi) / 2] >>= fun
      | true => bisect xs before ((lo + hi) / 2 + 1) hi h
      | false => bisect xs before lo ((lo + hi) / 2) (by omega)
  else pure lo
  termination_by hi - lo

/-- The first position of one slice whose item fails `before`, or its size. -/
def bisectAll (xs : Array α) (before : α → Noted ν Bool) : Noted ν Nat :=
  bisect xs before 0 xs.size (Nat.le_refl _)

/-- The first position whose item fails `before`, or the size. -/
def partitionPoint (b : Buffer α) (before : α → Noted ν Bool) : Noted ν Nat :=
  match b.back[0]? with
  | none => bisectAll b.front before
  | some x => before x >>= fun
    | true => (b.front.size + ·) <$> bisectAll b.back before
    | false => bisectAll b.front before

/-! ## What a search finds -/

/-- No item that fails the test stands before one that satisfies it. -/
def Leading (test : α → Bool) (xs : List α) : Prop :=
  xs.Pairwise fun x y => test y → test x

/-- `n` is where the items stop to satisfy the test. -/
def Parts (test : α → Bool) (xs : Array α) (n : Nat) : Prop :=
  n ≤ xs.size ∧ ∀ (i : Nat) x, xs[i]? = some x → (test x ↔ i < n)

variable {xs : Array α} {before : α → Noted ν Bool} {lo hi : Nat}

theorem bisect_parts (h : hi ≤ xs.size) (hle : lo ≤ hi)
    (lead : ∀ (i j : Nat) x y, i ≤ j → xs[i]? = some x → xs[j]? = some y →
      (before y).value → (before x).value)
    (below : ∀ (i : Nat) x, i < lo → xs[i]? = some x → (before x).value)
    (above : ∀ (i : Nat) x, hi ≤ i → xs[i]? = some x → ¬ (before x).value) :
    Parts (fun x => (before x).value) xs (bisect xs before lo hi h).value := by
  fun_induction bisect xs before lo hi h with
  | case1 lo hi h hlt mid ihTrue ihFalse =>
    have hmid : xs[(lo + hi) / 2]? = some xs[(lo + hi) / 2] := Array.getElem?_eq_getElem mid
    rw [Noted.value_bind]
    cases hv : (before xs[(lo + hi) / 2]).value with
    | true =>
      refine ihTrue (by omega) ?_ above
      intro i x hi' hx
      exact lead i _ x _ (by omega) hx hmid hv
    | false =>
      refine ihFalse (by omega) below ?_
      intro i x hi' hx hb
      have := lead _ i _ x hi' hmid hx hb
      simp [hv] at this
  | case2 lo hi h hge =>
    obtain rfl : lo = hi := by omega
    refine ⟨h, fun i x hx => ⟨fun hb => ?_, fun hi' => below i x hi' hx⟩⟩
    rcases Nat.lt_or_ge i lo with hlt | hle
    · exact hlt
    · exact absurd hb (above i x hle hx)

theorem bisectAll_parts (h : Leading (fun x => (before x).value) xs.toList) :
    Parts (fun x => (before x).value) xs (bisectAll xs before).value := by
  refine bisect_parts (Nat.le_refl _) (Nat.zero_le _) ?_ (by intro i x hi; omega) ?_
  · intro i j x y hij hx hy hb
    rcases Nat.eq_or_lt_of_le hij with rfl | hlt
    · rw [hx] at hy
      cases hy
      exact hb
    · rw [← Array.getElem?_toList] at hx hy
      obtain ⟨hi, rfl⟩ := List.getElem?_eq_some_iff.mp hx
      obtain ⟨hj, rfl⟩ := List.getElem?_eq_some_iff.mp hy
      exact List.pairwise_iff_getElem.mp h i j hi hj hlt hb
  · intro i x hi hx
    rw [Array.getElem?_eq_none hi] at hx
    cases hx

theorem countP_of_parts {test : α → Bool} {n : Nat} (h : Parts test xs n) :
    xs.toList.countP test = n := by
  obtain ⟨hn, hp⟩ := h
  have hsplit := List.take_append_drop n xs.toList
  rw [← hsplit, List.countP_append]
  have hfront : (xs.toList.take n).countP test = n := by
    rw [List.countP_eq_length.mpr, List.length_take, Array.length_toList, Nat.min_eq_left hn]
    intro x hx
    obtain ⟨i, hi, rfl⟩ := List.getElem_of_mem hx
    rw [List.length_take] at hi
    refine (hp i _ ?_).mpr (by omega)
    rw [List.getElem_take, ← Array.getElem?_toList, List.getElem?_eq_getElem]
  have hback : (xs.toList.drop n).countP test = 0 := by
    rw [List.countP_eq_zero]
    intro x hx hb
    obtain ⟨i, hi, rfl⟩ := List.getElem_of_mem hx
    rw [List.length_drop, Array.length_toList] at hi
    have := (hp (n + i) _ ?_).mp hb
    · omega
    · rw [List.getElem_drop, ← Array.getElem?_toList, List.getElem?_eq_getElem]
  rw [hfront, hback, Nat.add_zero]

/-- A search finds the number of items that satisfy the test. -/
theorem value_partitionPoint {b : Buffer α} (h : Leading (fun x => (before x).value) b.toList) :
    (b.partitionPoint before).value = b.toList.countP fun x => (before x).value := by
  obtain ⟨hf, hb, hfb⟩ := List.pairwise_append.mp h
  rw [toList, List.countP_append]
  unfold partitionPoint
  split
  · rename_i hx
    have : b.back.toList = [] := by
      simpa [Array.getElem?_eq_none_iff] using hx
    rw [this, ← countP_of_parts (bisectAll_parts hf)]
    rfl
  · rename_i x hx
    have hmem : x ∈ b.back.toList := by
      rw [← Array.getElem?_toList] at hx
      exact List.mem_of_getElem? hx
    rw [Noted.value_bind]
    cases hv : (before x).value with
    | true =>
      have hall : b.front.toList.countP (fun x => (before x).value) = b.front.size := by
        rw [← Array.length_toList]
        exact List.countP_eq_length.mpr fun y hy => hfb y hy x hmem hv
      rw [hall, countP_of_parts (bisectAll_parts hb)]
      rfl
    | false =>
      have hnone : b.back.toList.countP (fun x => (before x).value) = 0 := by
        rw [List.countP_eq_zero]
        intro y hy hb'
        obtain ⟨rest, hrest⟩ : ∃ rest, b.back.toList = x :: rest := by
          rw [← Array.getElem?_toList] at hx
          cases hl : b.back.toList with
          | nil => simp [hl] at hx
          | cons z zs =>
            simp only [hl, List.getElem?_cons_zero, Option.some.injEq] at hx
            exact ⟨zs, by rw [hx]⟩
        rw [hrest] at hy hb
        rcases List.mem_cons.mp hy with rfl | hy
        · simp [hv] at hb'
        · have := (List.pairwise_cons.mp hb).1 y hy hb'
          simp [hv] at this
      rw [hnone, countP_of_parts (bisectAll_parts hf)]
      rfl

theorem notes_partitionPoint_ne_nil {b : Buffer α} (hb : b.toList ≠ [])
    (hn : ∀ x, (before x).notes ≠ []) : (b.partitionPoint before).notes ≠ [] := by
  unfold partitionPoint
  split
  · rename_i hx
    have hsize : 0 < b.front.size := by
      have hback : b.back.toList = [] := by simpa [Array.getElem?_eq_none_iff] using hx
      rw [toList, hback, List.append_nil] at hb
      simpa [Array.size_pos_iff] using hb
    unfold bisectAll bisect
    rw [dif_pos hsize]
    simp [hn]
  · simp [hn]

end Buffer

end FlatAssoc
