import FlatAssoc.Cursor.Script

/-!
# Cursors that answer as a list does

A cursor is lawful if it answers each request as the list of the items left would. Jumping, walking
and folding are lawful, so a script reads the same from two slices, from owned items and from the
list itself.
-/

namespace FlatAssoc

open Cursor in
/-- Answers each request as the list of the items left does. -/
class LawfulCursor (ρ : Type) (α : outParam Type) [Cursor ρ α] : Prop where
  size_eq (c : ρ) : size c = (rest c).length
  next_fst (c : ρ) : (next c).1 = (rest c).head?
  rest_next (c : ρ) : rest (next c).2 = (rest c).tail
  nextBack_fst (c : ρ) : (nextBack c).1 = (rest c).getLast?
  rest_nextBack (c : ρ) : rest (nextBack c).2 = (rest c).dropLast
  nth_fst (n : Nat) (c : ρ) : (nth n c).1 = (rest c)[n]?
  rest_nth (n : Nat) (c : ρ) : rest (nth n c).2 = (rest c).drop (n + 1)
  nthBack_fst (n : Nat) (c : ρ) : (nthBack n c).1 = (rest c).reverse[n]?
  rest_nthBack (n : Nat) (c : ρ) :
    rest (nthBack n c).2 = (rest c).take ((rest c).length - (n + 1))
  last_eq (c : ρ) : last c = (rest c).getLast?
  count_eq (c : ρ) : count c = (rest c).length
  collect_eq (c : ρ) : collect c = rest c
  reversed_eq (c : ρ) : reversed c = (rest c).reverse

instance {α : Type} : LawfulCursor (List α) α where
  size_eq _ := rfl
  next_fst _ := rfl
  rest_next _ := rfl
  nextBack_fst _ := rfl
  rest_nextBack _ := rfl
  nth_fst _ _ := rfl
  rest_nth _ _ := rfl
  nthBack_fst _ _ := rfl
  rest_nthBack _ _ := rfl
  last_eq _ := rfl
  count_eq _ := rfl
  collect_eq _ := rfl
  reversed_eq _ := rfl

/-! ## Step by step -/

namespace Stepping

variable {ρ α β : Type} {s : Stepping ρ α} {items : ρ → List α}

section

variable (hx : ∀ c, (s.step c).1 = (items c).head?)
  (hr : ∀ c, items (s.step c).2 = (items c).tail)

include hx hr

theorem walk_front (n : Nat) (c : ρ) :
    (s.walk n c).1 = (items c)[n]? ∧ items (s.walk n c).2 = (items c).drop (n + 1) := by
  induction n generalizing c with
  | zero => exact ⟨by rw [walk, hx, List.head?_eq_getElem?], by rw [walk, hr, List.drop_one]⟩
  | succ n ih =>
    have h₁ := hx c
    have h₂ := hr c
    unfold walk
    split
    · rename_i c' heq
      rw [heq] at h₁ h₂
      have hnil : items c = [] := List.head?_eq_none_iff.mp h₁.symm
      simp only at h₂
      simp [h₂, hnil]
    · rename_i x c' heq
      rw [heq] at h₁ h₂
      obtain ⟨xs, hxs⟩ := List.head?_eq_some_iff.mp h₁.symm
      simp only [hxs, List.tail_cons] at h₂
      simpa [hxs, h₂] using ih c'

theorem fold_eq (f : β → α → β) (b : β) (c : ρ) : s.fold f b c = (items c).foldl f b := by
  fun_induction fold s f b c with
  | case1 b c d hstep =>
    have hhead := hx c
    rw [hstep] at hhead
    rw [List.head?_eq_none_iff.mp hhead.symm, List.foldl_nil]
  | case2 b c x d hstep ih =>
    have hhead := hx c
    have htail := hr c
    rw [hstep] at hhead htail
    obtain ⟨xs, hxs⟩ := List.head?_eq_some_iff.mp hhead.symm
    rw [ih, htail, hxs, List.tail_cons, List.foldl_cons]

theorem last_eq (c : ρ) : s.last c = (items c).getLast? := by
  have hlast (xs : List α) (b : Option α) :
      xs.foldl (fun _ x => some x) b = xs.getLast?.or b := by
    induction xs generalizing b with
    | nil => rfl
    | cons x xs ih => rw [List.foldl_cons, ih, List.getLast?_cons]; cases xs.getLast? <;> rfl
  rw [last, fold_eq hx hr, hlast, Option.or_none]

theorem count_eq (c : ρ) : s.count c = (items c).length := by
  rw [count, fold_eq hx hr, List.foldl_add_const, Nat.zero_add, Nat.one_mul]

theorem collect_eq (c : ρ) : s.collect c = items c := by
  rw [collect, fold_eq hx hr, List.foldl_push_eq_append]
  simp

end

section

variable (hx : ∀ c, (s.step c).1 = (items c).getLast?)
  (hr : ∀ c, items (s.step c).2 = (items c).dropLast)

include hx hr

/-- Steps from the back are steps from the front of the items in reverse. -/
theorem step_reverse : (∀ c, (s.step c).1 = (items c).reverse.head?) ∧
    ∀ c, (items (s.step c).2).reverse = (items c).reverse.tail :=
  ⟨fun c => by rw [hx, List.head?_reverse], fun c => by rw [hr, List.tail_reverse]⟩

theorem walk_back (n : Nat) (c : ρ) :
    (s.walk n c).1 = (items c).reverse[n]? ∧
      items (s.walk n c).2 = (items c).take ((items c).length - (n + 1)) := by
  obtain ⟨hx', hr'⟩ := step_reverse hx hr
  obtain ⟨hitem, hrest⟩ := @walk_front ρ α s (fun c => (items c).reverse) hx' hr' n c
  refine ⟨hitem, ?_⟩
  rw [← List.reverse_inj, hrest, List.drop_reverse]

theorem collect_back (c : ρ) : s.collect c = (items c).reverse := by
  obtain ⟨hx', hr'⟩ := step_reverse hx hr
  exact @collect_eq ρ α s (fun c => (items c).reverse) hx' hr' c

end

end Stepping

/-! ## Two slices -/

namespace Halves

variable {α : Type}

theorem next_fst (h : Halves α) : h.next.1 = h.toList.head? := by
  unfold next toList
  split <;> rename_i hf <;> simp [hf]

theorem toList_next (h : Halves α) : h.next.2.toList = h.toList.tail := by
  unfold next toList
  split <;> rename_i hf <;> simp [hf]

theorem nextBack_fst (h : Halves α) : h.nextBack.1 = h.toList.getLast? := by
  unfold nextBack toList
  split <;> rename_i hb <;> simp [hb, List.getLast?_append]

theorem toList_nextBack (h : Halves α) : h.nextBack.2.toList = h.toList.dropLast := by
  unfold nextBack toList
  split
  · rename_i x hb
    have : h.back ≠ [] := by
      intro hnil
      simp [hnil] at hb
    simp [List.dropLast_append_of_ne_nil this]
  · rename_i hb
    simp [List.getLast?_eq_none_iff.mp hb]

theorem nth_fst (n : Nat) (h : Halves α) : (h.nth n).1 = h.toList[n]? := by
  unfold nth toList
  split
  · rename_i hn
    rw [List.getElem?_append_left hn]
  · rename_i hn
    rw [List.getElem?_append_right (by omega)]

theorem toList_nth (n : Nat) (h : Halves α) : (h.nth n).2.toList = h.toList.drop (n + 1) := by
  unfold nth toList
  rw [List.drop_append]
  split
  · rename_i hn
    rw [show n + 1 - h.front.length = 0 by omega, List.drop_zero]
  · rename_i hn
    rw [List.drop_of_length_le (show h.front.length ≤ n + 1 by omega),
      show n + 1 - h.front.length = n - h.front.length + 1 by omega]

theorem nthBack_fst (n : Nat) (h : Halves α) : (h.nthBack n).1 = h.toList.reverse[n]? := by
  unfold nthBack toList
  rw [List.reverse_append]
  split
  · rename_i hn
    rw [List.getElem?_append_left (by simpa using hn)]
  · rename_i hn
    rw [List.getElem?_append_right (by simpa using hn), List.length_reverse]

theorem toList_nthBack (n : Nat) (h : Halves α) :
    (h.nthBack n).2.toList = h.toList.take (h.toList.length - (n + 1)) := by
  unfold nthBack toList
  rw [List.take_append, List.length_append]
  split
  · rename_i hn
    rw [List.take_of_length_le (show h.front.length ≤ _ by omega),
      show h.front.length + h.back.length - (n + 1) - h.front.length =
        h.back.length - (n + 1) by omega]
  · rename_i hn
    rw [show h.front.length + h.back.length - (n + 1) - h.front.length = 0 by omega,
      show h.front.length + h.back.length - (n + 1) =
        h.front.length - (n - h.back.length + 1) by omega, List.take_zero]

theorem size_eq (h : Halves α) : h.size = h.toList.length := List.length_append.symm

instance : LawfulCursor (Halves α) α where
  size_eq := size_eq
  next_fst := next_fst
  rest_next := toList_next
  nextBack_fst := nextBack_fst
  rest_nextBack := toList_nextBack
  nth_fst := nth_fst
  rest_nth := toList_nth
  nthBack_fst := nthBack_fst
  rest_nthBack := toList_nthBack
  last_eq := nextBack_fst
  count_eq := forward.count_eq next_fst toList_next
  collect_eq := forward.collect_eq next_fst toList_next
  reversed_eq := backward.collect_back nextBack_fst toList_nextBack

end Halves

namespace ForwardHalves

variable {α : Type}

def toList (c : ForwardHalves α) : List α := c.halves.toList

theorem next_fst (c : ForwardHalves α) : c.next.1 = c.toList.head? := c.halves.next_fst

theorem toList_next (c : ForwardHalves α) : c.next.2.toList = c.toList.tail :=
  c.halves.toList_next

theorem nextBack_fst (c : ForwardHalves α) : c.nextBack.1 = c.toList.getLast? :=
  c.halves.nextBack_fst

theorem toList_nextBack (c : ForwardHalves α) : c.nextBack.2.toList = c.toList.dropLast :=
  c.halves.toList_nextBack

instance : LawfulCursor (ForwardHalves α) α where
  size_eq c := c.halves.size_eq
  next_fst := next_fst
  rest_next := toList_next
  nextBack_fst := nextBack_fst
  rest_nextBack := toList_nextBack
  nth_fst n c := c.halves.nth_fst n
  rest_nth n c := c.halves.toList_nth n
  nthBack_fst n c := (backward.walk_back nextBack_fst toList_nextBack n c).1
  rest_nthBack n c := (backward.walk_back nextBack_fst toList_nextBack n c).2
  last_eq := forward.last_eq next_fst toList_next
  count_eq := forward.count_eq next_fst toList_next
  collect_eq := forward.collect_eq next_fst toList_next
  reversed_eq := backward.collect_back nextBack_fst toList_nextBack

end ForwardHalves

namespace SteppedHalves

variable {α : Type}

def toList (c : SteppedHalves α) : List α := c.halves.toList

theorem next_fst (c : SteppedHalves α) : c.next.1 = c.toList.head? := c.halves.next_fst

theorem toList_next (c : SteppedHalves α) : c.next.2.toList = c.toList.tail :=
  c.halves.toList_next

theorem nextBack_fst (c : SteppedHalves α) : c.nextBack.1 = c.toList.getLast? :=
  c.halves.nextBack_fst

theorem toList_nextBack (c : SteppedHalves α) : c.nextBack.2.toList = c.toList.dropLast :=
  c.halves.toList_nextBack

instance : LawfulCursor (SteppedHalves α) α where
  size_eq c := c.halves.size_eq
  next_fst := next_fst
  rest_next := toList_next
  nextBack_fst := nextBack_fst
  rest_nextBack := toList_nextBack
  nth_fst n c := (forward.walk_front next_fst toList_next n c).1
  rest_nth n c := (forward.walk_front next_fst toList_next n c).2
  nthBack_fst n c := (backward.walk_back nextBack_fst toList_nextBack n c).1
  rest_nthBack n c := (backward.walk_back nextBack_fst toList_nextBack n c).2
  last_eq := forward.last_eq next_fst toList_next
  count_eq := forward.count_eq next_fst toList_next
  collect_eq := forward.collect_eq next_fst toList_next
  reversed_eq := backward.collect_back nextBack_fst toList_nextBack

end SteppedHalves

/-! ## Owned items -/

namespace Taken

variable {α : Type}

theorem next_fst (c : Taken α) : c.next.1 = c.items.head? := rfl

theorem items_next (c : Taken α) : c.next.2.items = c.items.tail := rfl

theorem nextBack_fst (c : Taken α) : c.nextBack.1 = c.items.getLast? := rfl

theorem items_nextBack (c : Taken α) : c.nextBack.2.items = c.items.dropLast := rfl

instance : LawfulCursor (Taken α) α where
  size_eq _ := rfl
  next_fst := next_fst
  rest_next := items_next
  nextBack_fst := nextBack_fst
  rest_nextBack := items_nextBack
  nth_fst n c := (forward.walk_front next_fst items_next n c).1
  rest_nth n c := (forward.walk_front next_fst items_next n c).2
  nthBack_fst n c := (backward.walk_back nextBack_fst items_nextBack n c).1
  rest_nthBack n c := (backward.walk_back nextBack_fst items_nextBack n c).2
  last_eq := forward.last_eq next_fst items_next
  count_eq := forward.count_eq next_fst items_next
  collect_eq := forward.collect_eq next_fst items_next
  reversed_eq := backward.collect_back nextBack_fst items_nextBack

end Taken

/-! ## Scripts -/

namespace Cursor

variable {ρ α : Type} [Cursor ρ α] [LawfulCursor ρ α]

theorem respond_fst (c : ρ) (r : Request) : (respond c r).1 = (respond (rest c) r).1 := by
  cases r with
  | next => exact congrArg Reading.item (LawfulCursor.next_fst c)
  | nextBack => exact congrArg Reading.item (LawfulCursor.nextBack_fst c)
  | nth n => exact congrArg Reading.item (LawfulCursor.nth_fst n c)
  | nthBack n => exact congrArg Reading.item (LawfulCursor.nthBack_fst n c)
  | length => exact congrArg Reading.number (LawfulCursor.size_eq c)
  | bounds => exact congrArg (fun n => Reading.bounds n n) (LawfulCursor.size_eq c)
  | clone | share => exact congrArg Reading.view (LawfulCursor.collect_eq c)
  | debug => rfl
  | last => exact congrArg Reading.item (LawfulCursor.last_eq c)
  | count => exact congrArg Reading.number (LawfulCursor.count_eq c)
  | collect => exact congrArg Reading.items (LawfulCursor.collect_eq c)
  | reversed => exact congrArg Reading.items (LawfulCursor.reversed_eq c)

theorem respond_snd (c : ρ) (r : Request) :
    (respond c r).2.map rest = (respond (rest c) r).2 := by
  cases r <;> simp only [respond, Prod.map_snd, Option.map_some, Option.map_none]
  · exact congrArg some (LawfulCursor.rest_next c)
  · exact congrArg some (LawfulCursor.rest_nextBack c)
  · exact congrArg some (LawfulCursor.rest_nth _ c)
  · exact congrArg some (LawfulCursor.rest_nthBack _ c)

/-- A script reads the same from a lawful cursor and from the list of its items. -/
theorem play_eq_play_rest (c : ρ) (script : List Request) :
    play c script = play (rest c) script := by
  induction script generalizing c with
  | nil => rfl
  | cons r rs ih =>
    have h₁ := respond_fst c r
    have h₂ := respond_snd c r
    unfold play
    cases hc : respond c r with
    | mk x rest' =>
      cases hl : respond (rest c) r with
      | mk y ys =>
        rw [hc, hl] at h₁ h₂
        subst h₁
        subst h₂
        cases rest' with
        | none => rfl
        | some c' => exact congrArg (x :: ·) (ih c')

theorem respond_map {α β : Type} (f : α → β) (xs : List α) (r : Request) :
    respond (xs.map f) r = ((respond xs r).1.map f, (respond xs r).2.map (List.map f)) := by
  cases r with
  | nthBack n =>
    have hitem : (xs.map f).reverse[n]? = xs.reverse[n]?.map f := by
      rw [← List.map_reverse, List.getElem?_map]
    simp [respond, nthBack, Reading.map, hitem]
  | _ =>
    simp [respond, size, next, nextBack, nth, rest, last, count, collect, reversed, Reading.map]

theorem play_map {α β : Type} (f : α → β) (xs : List α) (script : List Request) :
    play (xs.map f) script = (play xs script).map (Reading.map f) := by
  induction script generalizing xs with
  | nil => rfl
  | cons r rs ih =>
    unfold play
    rw [respond_map]
    cases respond xs r with
    | mk x left =>
      cases left with
      | none => rfl
      | some ys => exact congrArg (x.map f :: ·) (ih ys)

end Cursor

end FlatAssoc
