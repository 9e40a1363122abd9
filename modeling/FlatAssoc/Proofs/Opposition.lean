import FlatAssoc.Proofs.Refinement
import Mathlib.Data.List.Basic

/-!
# Maps of opposite orders

Two maps from classes oppose each other if they hold the same of each class and list the classes in
opposite orders (`ClassMap.Opposes`). A step of one and its mirror image on the other, which is the
same step except at an end or at a position, keep them opposed and answer alike, except that a
position is counted from the other end (`ClassMap.mirrorImage_step`). The entries of one are the
reverse of those of the other as long as a class holds one entry at most; a queue keeps its order.
-/

namespace FlatAssoc

variable {m : Multiplicity} {K V : Type} {order : Comparator K}

/-! ## Opposite orders -/

theorem Comparator.same_reverse (order : Comparator K) : order.reverse.same = order.same := by
  funext a b
  rw [same, same, reverse_apply]
  cases order a b <;> rfl

theorem ofClass_reverse (order : Comparator K) (k : K) (es : List (Entry K V)) :
    ofClass order.reverse k es = ofClass order k es := by
  unfold ofClass
  rw [Comparator.same_reverse]

/-- What a probe finds before its target in the reverse of a list, it finds after it in the list
once its answers are swapped. -/
theorem countP_lt_reverse (order : Comparator K) (k : K) (es : List (Entry K V)) :
    (es.reverse.countP fun e => order.reverse e.key k == .lt) =
      es.countP fun e => order e.key k == .gt := by
  rw [List.countP_reverse]
  refine List.countP_congr fun e _ => ?_
  rw [Comparator.reverse_apply]
  cases order e.key k <;> simp

theorem countP_ne_gt_reverse (order : Comparator K) (k : K) (es : List (Entry K V)) :
    (es.reverse.countP fun e => order.reverse e.key k != .gt) =
      es.countP fun e => order e.key k != .lt := by
  rw [List.countP_reverse]
  refine List.countP_congr fun e _ => ?_
  rw [Comparator.reverse_apply]
  cases order e.key k <;> simp

theorem countP_lt_add_countP_gt (p : Probe K) (es : List (Entry K V)) :
    (es.countP fun e => p e.key == .lt) + (es.countP fun e => p e.key == .gt) =
      (es.filter fun e => p e.key != .eq).length := by
  induction es with
  | nil => rfl
  | cons e es ih =>
    rw [List.countP_cons, List.countP_cons, List.filter_cons]
    cases p e.key <;> simp <;> omega

/-! ## Mirror images of steps and answers -/

/-- The position that stands as far from the back of `size` entries as `i` stands from the front;
a position that does not exist stays. -/
def opposite (size i : Nat) : Nat := if i < size then size - 1 - i else i

theorem getElem?_reverse_opposite {α : Type} (xs : List α) (i : Nat) :
    xs.reverse[opposite xs.length i]? = xs[i]? := by
  unfold opposite
  split
  · rename_i hi
    rw [List.getElem?_reverse (by omega)]
    congr 1
    omega
  · rename_i hi
    rw [List.getElem?_eq_none (by simpa using hi), List.getElem?_eq_none (by simpa using hi)]

/-- The step at the opposite end or position of `size` entries. -/
def KeyedStep.mirrored (size : Nat) : KeyedStep K V m → KeyedStep K V m
  | .popFirst => .popLast
  | .popLast => .popFirst
  | .removeAt i => .removeAt (opposite size i)
  | x => x

/-- The answer with its position, if it gives one, counted from the back of `size` entries. -/
def Answer.fromBack (size : Nat) : Answer K V → Answer K V
  | .list (.number p :: rest) => .list (.number (size - 1 - p) :: rest)
  | a => a

theorem Answer.fromBack_optional (size : Nat) (f : Facet) (e : Option (Entry K V)) :
    (Answer.optional f e).fromBack size = .optional f e := by
  cases e <;> cases f <;> rfl

namespace ClassMap

/-! ## Maps that oppose each other -/

/-- The two maps hold the same of each class and list the classes in opposite orders. -/
def Opposes (r : ClassMap m order V) (r' : ClassMap m order.reverse V) : Prop :=
  ∀ k, r'.content k = r.content k

theorem opposes_empty : (empty : ClassMap m order V).Opposes empty := fun _ => rfl

variable [Std.TransCmp order]

theorem ranked_lt (r : ClassMap m order V) : r.ranked.Pairwise fun a b => order a b = .lt := by
  refine (r.sorted_ranked.and r.distinct_ranked).imp fun {a b} h => ?_
  cases hab : order a b with
  | lt => rfl
  | eq => exact absurd hab h.2
  | gt => exact absurd hab h.1

namespace Opposes

variable {r : ClassMap m order V} {r' : ClassMap m order.reverse V}

omit [Std.TransCmp order] in
theorem oldest_eq (h : r.Opposes r') (k : K) : r'.oldest k = r.oldest k :=
  congrArg List.head? (h k)

omit [Std.TransCmp order] in
theorem full_eq (h : r.Opposes r') (k : K) : r'.full k = r.full k := congrArg m.full (h k)

theorem listing_eq (h : r.Opposes r') : r'.listing = r.ranked.reverse.flatMap r.content := by
  have hcontent : r'.content = r.content := funext h
  have hranked : r.ranked.reverse.Pairwise fun a b => order.reverse a b = .lt := by
    refine List.pairwise_reverse.mpr (r.ranked_lt.imp fun hab => ?_)
    rwa [Comparator.reverse_eq_swap]
  rw [← hcontent]
  apply r'.listing_eq_flatMap hranked
  intro k hk
  rw [h k] at hk
  obtain ⟨a, ha, hak⟩ := r.covered k hk
  refine ⟨a, List.mem_reverse.mpr (mem_ranked.mpr ha), ?_⟩
  rw [Comparator.reverse_apply, hak]
  rfl

theorem add (h : r.Opposes r') (e : Entry K V) : (r.add e).Opposes (r'.add e) := by
  intro k
  rw [r.content_add, r'.content_add, h k, ofClass_reverse]

theorem addAll (h : r.Opposes r') (es : List (Entry K V)) :
    (r.addAll es).Opposes (r'.addAll es) := by
  intro k
  rw [r.content_addAll, r'.content_addAll, h k, ofClass_reverse]

theorem change (h : r.Opposes r') (k : K) (f : V → V) :
    (r.change k f).Opposes (r'.change k f) := by
  intro a
  rw [r.content_change, r'.content_change, h a, Comparator.same_reverse]

theorem erase (h : r.Opposes r') (k : K) (i : Nat) : (r.erase k i).Opposes (r'.erase k i) := by
  intro a
  rw [r.content_erase, r'.content_erase, h a, Comparator.same_reverse]

end Opposes

/-! ## Classes of one entry -/

section

variable {r s : ClassMap .unique order V} {r' : ClassMap .unique order.reverse V} {k : K}

omit [Std.TransCmp order] in
theorem length_content_le_one (r : ClassMap .unique order V) (k : K) :
    (r.content k).length ≤ 1 := by
  rw [← r.kept k]
  exact List.length_take_le 1 _

omit [Std.TransCmp order] in
theorem reverse_content (r : ClassMap .unique order V) (k : K) :
    (r.content k).reverse = r.content k := by
  have hle := r.length_content_le_one k
  match hes : r.content k with
  | [] => rfl
  | [_] => rfl
  | _ :: _ :: _ =>
    rw [hes] at hle
    simp at hle

theorem Opposes.assign (h : r.Opposes r') (k : K) (v : V) :
    (r.assign k v).Opposes (r'.assign k v) := by
  unfold ClassMap.assign
  rw [h.full_eq]
  by_cases hfull : r.full k
  · rw [if_pos hfull, if_pos hfull]
    exact h.change k _
  · rw [if_neg hfull, if_neg hfull]
    exact h.add _

/-- A class of one entry is its own reverse, so that the listing as a whole is reversed. -/
theorem Opposes.listing_eq_reverse (h : r.Opposes r') : r'.listing = r.listing.reverse := by
  rw [h.listing_eq, listing, List.reverse_flatMap]
  exact congrArg (List.flatMap · _) (funext fun a => (r.reverse_content a).symm)

theorem ofClass_take_listing {i : Nat} {e : Entry K V} (he : r.listing[i]? = some e) :
    ofClass order e.key (r.listing.take i) = [] := by
  obtain ⟨front, back, hlist, rfl⟩ := exists_split he
  have hclass : ofClass order e.key front ++ e :: ofClass order e.key back = r.content e.key := by
    rw [← r.ofClass_listing, hlist, ofClass_append, ofClass_cons_same (Comparator.eq_self _)]
  have hle := r.length_content_le_one e.key
  rw [← hclass, List.length_append, List.length_cons] at hle
  rw [hlist, List.take_left]
  exact List.length_eq_zero_iff.mp (by omega)

/-! ## Positions -/

/-- `s` holds an entry of the class of `k`, and of the other classes what `r` holds. -/
structure Fills (r : ClassMap .unique order V) (k : K) (s : ClassMap .unique order V) :
    Prop where
  length_content : (s.content k).length = 1
  content_other : ∀ a, order k a ≠ .eq → s.content a = r.content a

omit [Std.TransCmp order] in
theorem fills_self (h : r.full k = true) : r.Fills k r := by
  refine ⟨?_, fun _ _ => rfl⟩
  have hle := r.length_content_le_one k
  have hne : r.content k ≠ [] := by
    intro hnil
    rw [full, hnil] at h
    cases h
  have hpos := List.length_pos_iff.mpr hne
  omega

theorem fills_add (r : ClassMap .unique order V) (k : K) (v : V) : r.Fills k (r.add ⟨k, v⟩) := by
  constructor
  · rw [r.content_add, ofClass_cons_same (Comparator.eq_self k), ofClass_nil]
    show ((r.content k ++ [_]).take 1).length = 1
    rw [List.length_take, List.length_append]
    simp
  · intro a hka
    rw [r.content_add, ofClass_cons_other hka, ofClass_nil, List.append_nil, r.kept]

theorem fills_change (h : r.full k = true) (f : V → V) : r.Fills k (r.change k f) := by
  constructor
  · rw [r.content_change, if_pos (Comparator.same_iff.mpr (Comparator.eq_self k)),
      List.length_modify]
    exact (fills_self h).length_content
  · intro a hka
    rw [r.content_change, if_neg (mt Comparator.same_iff.mp hka)]

theorem fills_assign (r : ClassMap .unique order V) (k : K) (v : V) :
    r.Fills k (r.assign k v) := by
  unfold assign
  by_cases hfull : r.full k
  · rw [if_pos hfull]
    exact fills_change hfull _
  · rw [if_neg hfull]
    exact r.fills_add k v

/-- With the class of `k` filled, the listing is one entry longer than what is held of the other
classes. -/
theorem Fills.length_listing (h : r.Fills k s) :
    s.listing.length = (r.listing.filter fun e => order e.key k != .eq).length + 1 := by
  have hother : (s.listing.filter fun e => order e.key k != .eq) =
      r.listing.filter fun e => order e.key k != .eq := by
    have hsorted (t : ClassMap .unique order V) :
        Sorted order (t.listing.filter fun e => order e.key k != .eq) :=
      t.sorted_listing.sublist List.filter_sublist
    apply (hsorted s).ext (hsorted r)
    intro a
    rw [ofClass_filter_ne, ofClass_filter_ne, s.ofClass_listing, r.ofClass_listing]
    split
    · rfl
    · rename_i hka
      exact h.content_other a (mt Comparator.same_iff.mpr hka)
  have hclass : (s.listing.filter fun e => order e.key k == .eq) = s.content k :=
    s.ofClass_listing k
  rw [List.length_eq_length_filter_add fun e => order e.key k == .eq, hclass, h.length_content,
    ← hother, Nat.add_comm]
  rfl

theorem Opposes.rank_add_rank (h : r.Opposes r') (k : K) :
    rank .unique order k r.listing + rank .unique order.reverse k r'.listing =
      (r.listing.filter fun e => order e.key k != .eq).length := by
  rw [h.listing_eq_reverse, rank, rank, countP_lt_reverse]
  exact countP_lt_add_countP_gt (order.probe k) r.listing

/-- An entry has the place that it has in the opposite map, counted from the back of the map that
holds it. -/
theorem Opposes.placed_eq (h : r.Opposes r') (hs : r.Fills k s) :
    r'.placed k = ⟨s.listing.length - 1 - (r.placed k).position, (r.placed k).inserted⟩ := by
  have hranks := h.rank_add_rank k
  have hlength := hs.length_listing
  unfold placed
  rw [h.full_eq, hlength, ← hranks, Nat.add_sub_cancel, Nat.add_sub_cancel_left]

/-! ## Steps -/

/-- What one map comes to is the mirror image of what the other comes to. -/
structure MirrorImage (x : Except Failure (Answer K V) × ClassMap .unique order V)
    (x' : Except Failure (Answer K V) × ClassMap .unique order.reverse V) : Prop where
  answer_eq : x'.1 = Answer.fromBack x.2.listing.length <$> x.1
  opposes : x.2.Opposes x'.2

variable {s' : ClassMap .unique order.reverse V}

theorem mirrorImage_placed (h : r.Opposes r') (hs : r.Fills k s) (hss : s.Opposes s')
    (rest : Bool → List (Answer K V)) :
    MirrorImage (.ok (.list (.number (r.placed k).position :: rest (r.placed k).inserted)), s)
      (.ok (.list (.number (r'.placed k).position :: rest (r'.placed k).inserted)), s') := by
  refine ⟨?_, hss⟩
  rw [h.placed_eq hs]
  rfl

omit [Std.TransCmp order] in
theorem mirrorImage_afterMaking (h : r.Opposes r') (make : Maker V)
    {next : V → Answer K V × ClassMap .unique order V}
    {next' : V → Answer K V × ClassMap .unique order.reverse V}
    (hnext : ∀ v, MirrorImage (.ok (next v).1, (next v).2) (.ok (next' v).1, (next' v).2)) :
    MirrorImage (r.afterMaking make next) (r'.afterMaking make next') := by
  cases make with
  | gives v => exact hnext v
  | fails => exact ⟨rfl, h⟩

variable [Inhabited V]

theorem mirrorImage_removeAt (h : r.Opposes r') (i : Nat) :
    MirrorImage (r.step (.removeAt i)) (r'.step (.removeAt (opposite r.listing.length i))) := by
  have hget : r'.listing[opposite r.listing.length i]? = r.listing[i]? := by
    rw [h.listing_eq_reverse, getElem?_reverse_opposite]
  simp only [step, hget]
  cases he : r.listing[i]? with
  | none => exact ⟨rfl, h⟩
  | some e =>
    rw [he] at hget
    simp only [ofClass_take_listing he, ofClass_take_listing hget]
    exact ⟨rfl, h.erase e.key 0⟩

/-- A step and its mirror image answer alike, except that a position is counted from the other
end, and keep two maps opposed. -/
theorem mirrorImage_step (h : r.Opposes r') (x : KeyedStep K V .unique) :
    MirrorImage (r.step x) (r'.step (x.mirrored r.listing.length)) := by
  cases x with
  | look f k =>
    refine ⟨?_, h⟩
    show Except.ok (Answer.optional f (r'.oldest k)) = .ok (Answer.fromBack _ _)
    rw [Answer.fromBack_optional, h.oldest_eq]
  | update k f =>
    refine ⟨?_, h.change k f⟩
    show Except.ok (Answer.optional .value (r'.oldest k)) = .ok (Answer.fromBack _ _)
    rw [Answer.fromBack_optional, h.oldest_eq]
  | take f k =>
    refine ⟨?_, h.erase k 0⟩
    show Except.ok (Answer.optional f (r'.oldest k)) = .ok (Answer.fromBack _ _)
    rw [Answer.fromBack_optional, h.oldest_eq]
  | insert k v => exact mirrorImage_placed h (r.fills_add k v) (h.add ⟨k, v⟩) fun b => [.flag b]
  | insertOrAssign k v =>
    exact mirrorImage_placed h (r.fills_assign k v) (h.assign k v) fun b => [.flag b]
  | emplace k make =>
    show MirrorImage (if r.full k then _ else _) (if r'.full k then _ else _)
    rw [h.full_eq]
    by_cases hfull : r.full k = true
    · rw [if_pos hfull, if_pos hfull]
      exact mirrorImage_placed h (fills_self hfull) h fun b => [.flag b, .flag false]
    · rw [if_neg hfull, if_neg hfull]
      refine mirrorImage_afterMaking h make fun v => ?_
      exact mirrorImage_placed h (r.fills_add k v) (h.add ⟨k, v⟩) fun b => [.flag b, .flag true]
  | emplaceOrAssign k make =>
    refine mirrorImage_afterMaking h make fun v => ?_
    exact mirrorImage_placed h (r.fills_assign k v) (h.assign k v) fun b => [.flag b, .flag true]
  | getOrInsertWith k make f =>
    simp only [KeyedStep.mirrored, step, h.oldest_eq]
    cases r.oldest k with
    | some e => exact ⟨rfl, h.change k f⟩
    | none => exact mirrorImage_afterMaking h make fun v => ⟨rfl, h.add _⟩
  | getOrDefault k f =>
    simp only [KeyedStep.mirrored, step, h.oldest_eq]
    cases r.oldest k with
    | some e => exact ⟨rfl, h.change k f⟩
    | none => exact ⟨rfl, h.add _⟩
  | extend upper items => exact ⟨rfl, h.addAll _⟩
  | gather items => exact ⟨rfl, h.addAll items⟩
  | clear => exact ⟨rfl, opposes_empty⟩
  | removeAt i => exact mirrorImage_removeAt h i
  | popFirst =>
    have hlength : r'.listing.length - 1 = opposite r.listing.length 0 := by
      rw [h.listing_eq_reverse, List.length_reverse]
      unfold opposite
      split <;> omega
    show MirrorImage (r.step .popFirst) (r'.step .popLast)
    rw [r.step_popFirst, r'.step_popLast, hlength]
    exact mirrorImage_removeAt h 0
  | popLast =>
    have hzero : 0 = opposite r.listing.length (r.listing.length - 1) := by
      unfold opposite
      split <;> omega
    show MirrorImage (r.step .popLast) (r'.step .popFirst)
    rw [r.step_popLast, r'.step_popFirst, hzero]
    exact mirrorImage_removeAt h _

end

end ClassMap

end FlatAssoc
