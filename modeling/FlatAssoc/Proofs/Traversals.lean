import FlatAssoc.Cursor.Lemmas
import FlatAssoc.Proofs.Runs

/-!
# Traversals

A cursor over a part of a buffer reads as a cursor over the list of the items in it
(`Cursor.ReadsAs`), whether it jumps over the seam, walks over it or owns the items. What the list
cursor does is accounted for item by item: each one is handed out, skipped or left, and only one of
the three (`Cursor.perm_accounts`). Once nothing is left, nothing ever comes
(`Cursor.pairwise_play`).
-/

namespace FlatAssoc

/-! ## Accounts of a script -/

/-- Whether the request uses the cursor up. -/
def Request.usesUp : Request → Bool
  | .last | .count | .collect | .reversed | .share => true
  | _ => false

/-- The items that a request does not hand out and does not leave either. -/
def Request.skipped {α : Type} (xs : List α) : Request → List α
  | .nth n => xs.take n
  | .nthBack n => xs.drop (xs.length - n)
  | .last => xs.dropLast
  | .count | .share => xs
  | _ => []

/-- There is nothing in the reading. -/
def Reading.IsBlank {α : Type} : Reading α → Prop
  | .item x => x = none
  | .items xs | .view xs | .words xs => xs = []
  | .number n => n = 0
  | .bounds lower upper => lower = 0 ∧ upper = 0

namespace Cursor

variable {ρ α : Type}

/-- The items of at most `n` steps, which end once nothing is left. -/
def steps (step : ρ → Option α × ρ) : Nat → ρ → List α
  | 0, _ => []
  | n + 1, c =>
    match step c with
    | (none, _) => []
    | (some x, c) => x :: steps step n c

/-- The items that a script leaves. -/
def left (xs : List α) : List Request → List α
  | [] => xs
  | r :: rs =>
    match (respond xs r).2 with
    | none => []
    | some ys => left ys rs

/-- The items that a script does not hand out and does not leave either. -/
def skipped (xs : List α) : List Request → List α
  | [] => []
  | r :: rs =>
    r.skipped xs ++
      match (respond xs r).2 with
      | none => []
      | some ys => skipped ys rs

/-! ## Steps -/

theorem steps_front {step : ρ → Option α × ρ} (items : ρ → List α)
    (hx : ∀ c, (step c).1 = (items c).head?) (hr : ∀ c, items (step c).2 = (items c).tail)
    (n : Nat) (c : ρ) : steps step n c = (items c).take n := by
  induction n generalizing c with
  | zero => rfl
  | succ n ih =>
    have h₁ := hx c
    have h₂ := hr c
    unfold steps
    split
    · rename_i c' heq
      rw [heq] at h₁
      rw [List.head?_eq_none_iff.mp h₁.symm]
      rfl
    · rename_i x c' heq
      rw [heq] at h₁ h₂
      obtain ⟨xs, hxs⟩ := List.head?_eq_some_iff.mp h₁.symm
      rw [ih, h₂, hxs]
      rfl

theorem steps_back {step : ρ → Option α × ρ} {items : ρ → List α}
    (hx : ∀ c, (step c).1 = (items c).getLast?)
    (hr : ∀ c, items (step c).2 = (items c).dropLast) (n : Nat) (c : ρ) :
    steps step n c = (items c).reverse.take n := by
  refine steps_front (fun c => (items c).reverse) (fun c => ?_) (fun c => ?_) n c
  · rw [hx, List.head?_reverse]
  · rw [hr, List.tail_reverse]

/-! ## One request -/

/-- A request that does not use the cursor up leaves a cursor. -/
theorem exists_respond (xs : List α) {r : Request} (h : r.usesUp = false) :
    ∃ x ys, respond xs r = (x, some ys) := by
  cases r with
  | next | nextBack | nth | nthBack | length | bounds | clone | debug => exact ⟨_, _, rfl⟩
  | last | count | collect | reversed | share => cases h

theorem perm_nth (n : Nat) (xs : List α) :
    (xs[n]?.toList ++ xs.take n ++ xs.drop (n + 1)).Perm xs := by
  rw [List.append_assoc]
  refine (List.perm_append_comm_assoc _ _ _).trans ?_
  rw [← List.drop_eq_getElem?_toList_append, List.take_append_drop]

theorem perm_nthBack (n : Nat) (xs : List α) :
    (xs.reverse[n]?.toList ++ xs.drop (xs.length - n) ++
      xs.take (xs.length - (n + 1))).Perm xs := by
  have h := perm_nth n xs.reverse
  rw [List.take_reverse, List.drop_reverse] at h
  refine (List.Perm.append ?_ (List.reverse_perm _).symm).trans (h.trans (List.reverse_perm xs))
  exact (List.reverse_perm _).symm.append_left _

/-- A request hands out, skips or leaves each item. -/
theorem perm_respond (xs : List α) (r : Request) :
    ((respond xs r).1.handedOut ++ r.skipped xs ++ (respond xs r).2.getD []).Perm xs := by
  have hlast : (xs.getLast?.toList ++ xs.dropLast).Perm xs := by
    have h := perm_nthBack 0 xs
    rw [Nat.sub_zero, List.drop_length, List.append_nil, ← List.head?_eq_getElem?,
      List.head?_reverse, Nat.zero_add, ← List.dropLast_eq_take] at h
    exact h
  cases r with
  | next =>
    cases xs with
    | nil => exact .nil
    | cons x xs => exact .refl _
  | nextBack =>
    show (xs.getLast?.toList ++ [] ++ xs.dropLast).Perm xs
    rwa [List.append_nil]
  | nth n => exact perm_nth n xs
  | nthBack n => exact perm_nthBack n xs
  | last =>
    show (xs.getLast?.toList ++ xs.dropLast ++ []).Perm xs
    rwa [List.append_nil]
  | reversed =>
    show (xs.reverse ++ [] ++ []).Perm xs
    rw [List.append_nil, List.append_nil]
    exact List.reverse_perm xs
  | length | bounds | clone | debug => exact .refl _
  | count | collect | share =>
    simp [respond, Request.skipped, Reading.handedOut, Cursor.collect]

/-- What a request leaves stands side by side in the list. -/
theorem infix_respond (xs : List α) (r : Request) : (respond xs r).2.getD [] <:+: xs := by
  cases r with
  | next => exact (List.tail_suffix xs).isInfix
  | nextBack => exact (List.dropLast_prefix xs).isInfix
  | nth n => exact (List.drop_suffix _ xs).isInfix
  | nthBack n => exact (List.take_prefix _ xs).isInfix
  | length | bounds | clone | debug => exact List.infix_refl xs
  | last | count | collect | reversed | share => exact List.nil_infix

/-- A request that finds no item leaves none. -/
theorem respond_of_none {xs : List α} {r : Request} (h : (respond xs r).1 = .item none) :
    (respond xs r).2.getD [] = [] := by
  cases r with
  | next =>
    have hnil : xs = [] := List.head?_eq_none_iff.mp (Reading.item.inj h)
    rw [hnil]
    rfl
  | nextBack =>
    have hnil : xs = [] := List.getLast?_eq_none_iff.mp (Reading.item.inj h)
    rw [hnil]
    rfl
  | nth n =>
    have hlen : xs.length ≤ n := List.getElem?_eq_none_iff.mp (Reading.item.inj h)
    exact List.drop_of_length_le (by omega)
  | nthBack n =>
    have hlen : xs.reverse.length ≤ n := List.getElem?_eq_none_iff.mp (Reading.item.inj h)
    rw [List.length_reverse] at hlen
    show xs.take (xs.length - (n + 1)) = []
    rw [Nat.sub_eq_zero_of_le (by omega), List.take_zero]
  | length | bounds | clone | debug => cases h
  | last | count | collect | reversed | share => rfl

theorem respond_nil (r : Request) :
    (respond ([] : List α) r).1.IsBlank ∧ (respond ([] : List α) r).2.getD [] = [] := by
  cases r with
  | nthBack n => exact ⟨rfl, List.take_nil⟩
  | bounds => exact ⟨⟨rfl, rfl⟩, rfl⟩
  | _ => exact ⟨rfl, rfl⟩

/-! ## Scripts -/

theorem handedOut_cons (xs : List α) (r : Request) (rs : List Request) :
    handedOut xs (r :: rs) = (respond xs r).1.handedOut ++
      match (respond xs r).2 with
      | none => []
      | some ys => handedOut ys rs := by
  unfold handedOut
  rw [play]
  cases respond xs r with
  | mk x after => cases after <;> simp

/-- A script hands out, skips or leaves each item, and does only one of the three with it. -/
theorem perm_accounts (xs : List α) (script : List Request) :
    (handedOut xs script ++ skipped xs script ++ left xs script).Perm xs := by
  induction script generalizing xs with
  | nil => exact .refl xs
  | cons r rs ih =>
    have hstep := perm_respond xs r
    rw [handedOut_cons, skipped, left]
    cases hafter : (respond xs r).2 with
    | none =>
      rw [hafter] at hstep
      simpa using hstep
    | some ys =>
      rw [hafter] at hstep
      refine List.Perm.trans ?_ hstep
      refine List.Perm.trans ?_ ((ih ys).append_left _)
      -- what the request skips moves past what the rest of the script hands out
      simp only [List.append_assoc]
      refine List.Perm.append_left _ ?_
      exact List.perm_append_comm_assoc _ _ _

theorem infix_left (xs : List α) (script : List Request) : left xs script <:+: xs := by
  induction script generalizing xs with
  | nil => exact List.infix_refl xs
  | cons r rs ih =>
    have hstep := infix_respond xs r
    rw [left]
    cases hafter : (respond xs r).2 with
    | none => exact List.nil_infix
    | some ys =>
      rw [hafter] at hstep
      exact (ih ys).trans hstep

/-- As long as no request uses the cursor up, the next script starts from what is left. -/
theorem play_append (xs : List α) {script : List Request}
    (h : ∀ r ∈ script, r.usesUp = false) (more : List Request) :
    play xs (script ++ more) = play xs script ++ play (left xs script) more := by
  induction script generalizing xs with
  | nil => rfl
  | cons r rs ih =>
    obtain ⟨x, ys, hr⟩ := exists_respond xs (h r List.mem_cons_self)
    have hrest := ih ys fun r hr => h r (List.mem_cons_of_mem _ hr)
    simp only [List.cons_append, play, left, hr, hrest]

theorem isBlank_of_mem_play_nil {script : List Request} {x : Reading α}
    (h : x ∈ play ([] : List α) script) : x.IsBlank := by
  induction script with
  | nil => cases h
  | cons r rs ih =>
    obtain ⟨hblank, hafter⟩ := @respond_nil α r
    rw [play] at h
    cases hr : respond ([] : List α) r with
    | mk y after =>
      rw [hr] at h hblank hafter
      cases after with
      | none =>
        obtain rfl := List.mem_singleton.mp h
        exact hblank
      | some ys =>
        obtain rfl : ys = [] := hafter
        rcases List.mem_cons.mp h with rfl | h
        · exact hblank
        · exact ih h

/-- Once an item was asked for and none was left, nothing ever comes. -/
theorem pairwise_play (xs : List α) (script : List Request) :
    (play xs script).Pairwise fun x y => x = .item none → y.IsBlank := by
  induction script generalizing xs with
  | nil => exact .nil
  | cons r rs ih =>
    rw [play]
    cases hr : respond xs r with
    | mk x after =>
      cases after with
      | none => exact List.pairwise_singleton _ _
      | some ys =>
        refine .cons (fun y hy hx => ?_) (ih ys)
        have hnone : (respond xs r).1 = .item none := by rw [hr]; exact hx
        have hnil := respond_of_none hnone
        rw [hr] at hnil
        obtain rfl : ys = [] := hnil
        exact isBlank_of_mem_play_nil hy

theorem length_left (xs : List α) (script : List Request) :
    (left xs script).length =
      xs.length - ((handedOut xs script).length + (skipped xs script).length) := by
  have h := (perm_accounts xs script).length_eq
  rw [List.length_append, List.length_append] at h
  omega

theorem handedOut_map {β : Type} (f : α → β) (xs : List α) (script : List Request) :
    handedOut (xs.map f) script = (handedOut xs script).map f := by
  have hreading (x : Reading α) : (x.map f).handedOut = x.handedOut.map f := by
    cases x with
    | item x => cases x <;> rfl
    | items | view | words | number | bounds => rfl
  unfold handedOut
  rw [play_map, List.flatMap_map, List.map_flatMap]
  simp only [hreading]

theorem left_map {β : Type} (f : α → β) (xs : List α) (script : List Request) :
    left (xs.map f) script = (left xs script).map f := by
  induction script generalizing xs with
  | nil => rfl
  | cons r rs ih =>
    rw [left, left, respond_map]
    cases (respond xs r).2 with
    | none => rfl
    | some ys => exact ih ys

/-- The cursor reads as the cursor over `xs` does, which accounts for each item of `xs`. -/
structure ReadsAs [Cursor ρ α] (c : ρ) (xs : List α) : Prop where
  play_eq (script : List Request) : play c script = play xs script
  /-- If a part of each item is shown, a script reads as it does from the list of these parts. -/
  map_play {β : Type} (f : α → β) (script : List Request) :
    (play c script).map (Reading.map f) = play (xs.map f) script
  /-- Step by step the items come in order, each one once, and then nothing. -/
  steps_next (n : Nat) : steps next n c = xs.take n
  steps_nextBack (n : Nat) : steps nextBack n c = xs.reverse.take n
  /-- Each item is handed out, skipped or left, and only one of the three. -/
  accounts (script : List Request) :
    (handedOut c script ++ skipped xs script ++ left xs script).Perm xs
  /-- The length is the number of items that are neither handed out nor skipped so far. -/
  length_eq (script : List Request) (h : ∀ r ∈ script, r.usesUp = false) :
    play c (script ++ [.length]) = play c script ++
      [.number (xs.length - ((handedOut c script).length + (skipped xs script).length))]
  /-- Once nothing came, nothing ever comes. -/
  exhausted (script : List Request) :
    (play c script).Pairwise fun x y => x = .item none → y.IsBlank

theorem handedOut_eq_handedOut_rest [Cursor ρ α] [LawfulCursor ρ α] (c : ρ)
    (script : List Request) : handedOut c script = handedOut (rest c) script := by
  unfold handedOut
  rw [play_eq_play_rest]

theorem readsAs_rest [Cursor ρ α] [LawfulCursor ρ α] (c : ρ) : ReadsAs c (rest c) where
  play_eq := play_eq_play_rest c
  map_play f script := by rw [play_eq_play_rest, play_map]
  steps_next := (steps_front _ LawfulCursor.next_fst LawfulCursor.rest_next · c)
  steps_nextBack := (steps_back LawfulCursor.nextBack_fst LawfulCursor.rest_nextBack · c)
  accounts script := by
    rw [handedOut_eq_handedOut_rest]
    exact perm_accounts (rest c) script
  length_eq script h := by
    rw [handedOut_eq_handedOut_rest, ← length_left, play_eq_play_rest c, play_eq_play_rest c,
      play_append _ h]
    rfl
  exhausted script := by
    rw [play_eq_play_rest]
    exact pairwise_play (rest c) script

end Cursor

/-! ## Traversals of a container -/

theorem Buffer.part_zero_size {α : Type} (b : Buffer α) : b.part 0 b.size = .ok b.halves := by
  rw [part_eq_ok ⟨Nat.zero_le _, Nat.le_refl _⟩]
  have hfront : b.front.toList.take b.size = b.front.toList :=
    List.take_of_length_le (by simp [size])
  have hback : b.back.toList.take (b.size - b.front.size) = b.back.toList :=
    List.take_of_length_le (by simp [size])
  rw [window, hfront, hback, List.drop_zero, Nat.zero_sub, List.drop_zero]
  rfl

/-- The traversal runs over the whole container and changes no value. -/
def Tour.IsPlain {K : Type} : Tour K → Prop
  | .entries | .keys | .values | .ownedEntries | .ownedKeys | .ownedValues | .drained => True
  | .lentEntries | .lentValues | .matching _ | .lentMatching _ => False

variable {m : Multiplicity} {K V : Type}

/-- A traversal of the whole container reads as its entries do. -/
theorem Flat.readings_tour {c : Flat m K V} {t : Tour K} (ht : t.IsPlain)
    (script : List Request) (f : V → V) :
    ∃ d, (c.tour t script f).value = Toured.done d ∧
      d.readings = Cursor.play c.toList script := by
  cases t with
  | entries => exact ⟨_, rfl, Cursor.play_eq_play_rest c.entries.halves script⟩
  | keys => exact ⟨_, rfl, Cursor.play_eq_play_rest (ForwardHalves.mk c.entries.halves) script⟩
  | values => exact ⟨_, rfl, Cursor.play_eq_play_rest (SteppedHalves.mk c.entries.halves) script⟩
  | ownedEntries | ownedKeys | ownedValues =>
    exact ⟨_, rfl, Cursor.play_eq_play_rest (Taken.mk c.toList) script⟩
  | drained =>
    obtain ⟨d, hd, -⟩ := c.exists_drain_eq
    refine ⟨⟨Cursor.play (Taken.mk c.toList) script, d⟩, ?_,
      Cursor.play_eq_play_rest (Taken.mk c.toList) script⟩
    simp only [tour, Noted.value_pure, hd]
    rfl
  | lentEntries | lentValues | matching | lentMatching => cases ht

namespace Session

variable [DecidableEq K] [DecidableEq V] [Inhabited V] [Key K] [Document K V]

/-- Wherever the seam of a buffer lies, a cursor over a part of it reads as one over the list of
the entries in this part, whether it jumps from both ends, from the front only or from neither, and
so does one that owns them. The traversals of a container read as its list of entries. -/
theorem traversals_read_as_lists (m : Multiplicity) (order : Comparator K)
    (saved : List (Container K V)) {b : Buffer (Entry K V)} {es : List (Entry K V)}
    (hb : b.toList = es) :
    (∀ start stop, start ≤ stop → stop ≤ es.length →
      let slice := (es.take stop).drop start
      ∃ halves, b.part start stop = .ok halves ∧ Cursor.ReadsAs halves slice ∧
        Cursor.ReadsAs (ForwardHalves.mk halves) slice ∧
        Cursor.ReadsAs (SteppedHalves.mk halves) slice ∧
        Cursor.ReadsAs (Taken.mk slice) slice) ∧
      b.part 0 es.length = .ok b.halves ∧
      ∀ t : Tour K, t.IsPlain → ∀ (script : List Request) (f : V → V),
        let s : Session K V := ⟨(⟨order, b⟩ : Flat m K V).pack, saved⟩
        (s.step (.tour t script f)).answer =
          .ok (.list ((Cursor.play es script).map t.answer)) := by
  subst hb
  refine ⟨fun start stop hle hsize => ?_, ?_, fun t ht script f => ?_⟩
  · have hpart : b.IsPart start stop := ⟨hle, by rwa [Buffer.size_eq_length]⟩
    refine ⟨_, Buffer.part_eq_ok hpart, ?_⟩
    rw [← Buffer.toList_window]
    exact ⟨Cursor.readsAs_rest _, Cursor.readsAs_rest (ForwardHalves.mk _),
      Cursor.readsAs_rest (SteppedHalves.mk _), Cursor.readsAs_rest (Taken.mk _)⟩
  · rw [← Buffer.size_eq_length]
    exact b.part_zero_size
  · obtain ⟨d, hd, hreadings⟩ := Flat.readings_tour (c := ⟨order, b⟩) ht script f
    have hlist : (⟨order, b⟩ : Flat m K V).toList = b.toList := rfl
    rw [← hlist, ← hreadings]
    exact answer_step_of_ok rfl (Flat.outcome_tour hd)

/-- The seam lies inside the part. A jump from the front crosses it and one from the back finds too
few entries left. -/
theorem traversals_read_as_lists_seam :
    let es : List (Entry Int64 Int64) := [⟨0, 5⟩, ⟨1, 6⟩, ⟨2, 7⟩, ⟨3, 8⟩, ⟨4, 9⟩, ⟨6, 3⟩]
    let b : Buffer (Entry Int64 Int64) :=
      ⟨#[⟨0, 5⟩, ⟨1, 6⟩, ⟨2, 7⟩], #[⟨3, 8⟩, ⟨4, 9⟩, ⟨6, 3⟩]⟩
    let s : Session Int64 Int64 := ⟨.map ⟨KeyOrder.int.order, b⟩, []⟩
    b.toList = es ∧
      (∃ halves, b.part 1 5 = .ok halves ∧
        Cursor.play halves [.nth 2, .length, .nthBack 4, .next] =
          [.item (some ⟨3, 8⟩), .number 1, .item none, .item none]) ∧
      (s.step (.tour .keys [.nextBack, .nth 3, .collect] id)).answer =
        .ok (.list [.key 6, .key 3, .list [.key 4]]) := by
  intro es b s
  have hb : b.toList = es := rfl
  obtain ⟨hparts, -, htours⟩ := traversals_read_as_lists .unique KeyOrder.int.order [] hb
  obtain ⟨halves, hpart, hreads, -⟩ := hparts 1 5 (by decide) (by decide)
  refine ⟨hb, ⟨halves, hpart, ?_⟩, ?_⟩
  · exact hreads.play_eq _
  · exact htours .keys trivial _ id

end Session

end FlatAssoc
