import FlatAssoc.Flat.Emplace
import FlatAssoc.Flat.Remove
import FlatAssoc.Proofs.Classes

/-!
# Places

Where a lookup or an insertion ends up, counted over the stored keys. The two comparisons with the
ends that come before a search never change its outcome: `value_find?` for a probe, `value_spot`
for a key that is to be added.
-/

namespace FlatAssoc

/-! ## Leading items -/

namespace Buffer.Leading

variable {α : Type} {test : α → Bool} {x : α} {xs : List α}

theorem of_cons (h : Leading test (x :: xs)) : Leading test xs := List.Pairwise.of_cons h

theorem eq_false_of_head (h : Leading test xs) (hx : xs.head? = some x) (ht : test x = false) :
    ∀ y ∈ xs, test y = false := by
  obtain ⟨ys, rfl⟩ := List.head?_eq_some_iff.mp hx
  intro y hy
  rcases List.mem_cons.mp hy with rfl | hy
  · exact ht
  · cases hty : test y with
    | false => rfl
    | true => exact ((List.pairwise_cons.mp h).1 y hy hty).symm.trans ht

theorem eq_true_of_last (h : Leading test xs) (hx : xs.getLast? = some x) (ht : test x = true) :
    ∀ y ∈ xs, test y = true := by
  obtain ⟨ys, rfl⟩ := List.getLast?_eq_some_iff.mp hx
  intro y hy
  rcases List.mem_append.mp hy with hy | hy
  · exact (List.pairwise_append.mp h).2.2 y hy x (by simp) ht
  · obtain rfl : y = x := by simpa using hy
    exact ht

theorem take_countP (h : Leading test xs) : xs.take (xs.countP test) = xs.filter test := by
  induction xs with
  | nil => rfl
  | cons x xs ih =>
    cases ht : test x with
    | true => simp [ht, ih h.of_cons]
    | false =>
      have hall := h.eq_false_of_head rfl ht
      have hzero : (x :: xs).countP test = 0 :=
        List.countP_eq_zero.mpr fun y hy => by simp [hall y hy]
      have hnil : (x :: xs).filter test = [] :=
        List.filter_eq_nil_iff.mpr fun y hy => by simp [hall y hy]
      rw [hzero, hnil, List.take_zero]

theorem drop_countP (h : Leading test xs) :
    xs.drop (xs.countP test) = xs.filter fun y => !test y := by
  induction xs with
  | nil => rfl
  | cons x xs ih =>
    cases ht : test x with
    | true => simp [ht, ih h.of_cons]
    | false =>
      have hall := h.eq_false_of_head rfl ht
      have hzero : (x :: xs).countP test = 0 :=
        List.countP_eq_zero.mpr fun y hy => by simp [hall y hy]
      have hself : ((x :: xs).filter fun y => !test y) = x :: xs :=
        List.filter_eq_self.mpr fun y hy => by simp [hall y hy]
      rw [hzero, hself, List.drop_zero]

end Buffer.Leading

namespace Flat

open Buffer (Leading)

variable {m : Multiplicity} {K V : Type} {c : Flat m K V} {p : Probe K}

theorem any_match_eq_false {es : List (Entry K V)} (h : ∀ e ∈ es, p e.key ≠ .eq) :
    (es.any fun e => p e.key == .eq) = false :=
  List.any_eq_false.mpr fun e he => by simpa using h e he

theorem any_match_eq_not_isEmpty (order : Comparator K) (k : K) (es : List (Entry K V)) :
    (es.any fun e => order e.key k == .eq) = !(ofClass order k es).isEmpty := by
  rw [Bool.eq_iff_iff]
  simp [ofClass, Comparator.same]

/-! ## Lookups -/

theorem ConsistentWith.leading_lt (h : c.ConsistentWith p) :
    Leading (fun e : Entry K V => p e.key == .lt) c.toList := by
  refine (List.pairwise_map.mp h).imp fun hab hb => ?_
  exact beq_iff_eq.mpr (hab.1 (beq_iff_eq.mp hb))

theorem ConsistentWith.leading_ne_gt (h : c.ConsistentWith p) :
    Leading (fun e : Entry K V => p e.key != .gt) c.toList := by
  refine (List.pairwise_map.mp h).imp fun hab hb => ?_
  exact bne_iff_ne.mpr fun ha => bne_iff_ne.mp hb (hab.2 ha)

theorem value_lowerBound_toList (h : c.ConsistentWith p) :
    (c.lowerBound p).value = c.toList.countP fun e => p e.key == .lt :=
  (value_lowerBound h).trans List.countP_map

theorem value_upperBound_toList (h : c.ConsistentWith p) :
    (c.upperBound p).value = c.toList.countP fun e => p e.key != .gt :=
  (value_upperBound h).trans List.countP_map

theorem ends_of_ne_nil (h : c.toList ≠ []) :
    ∃ front back, c.first? = some front ∧ c.last? = some back ∧
      c.toList.head? = some front ∧ c.toList.getLast? = some back := by
  obtain ⟨front, hf⟩ := Option.ne_none_iff_exists'.mp (mt List.head?_eq_none_iff.mp h)
  obtain ⟨back, hb⟩ := Option.ne_none_iff_exists'.mp (mt List.getLast?_eq_none_iff.mp h)
  exact ⟨front, back, by rw [first?_eq, hf], by rw [last?_eq, hb], hf, hb⟩

theorem no_match_of_outside (h : c.ConsistentWith p) (ho : (c.outside p).value = true) :
    ∀ e ∈ c.toList, p e.key ≠ .eq := by
  by_cases hnil : c.toList = []
  · simp [hnil]
  · obtain ⟨front, back, hfirst, hlast, hf, hb⟩ := ends_of_ne_nil hnil
    simp only [outside, hfirst, hlast, Noted.value_bind, Entry.value_ask] at ho
    intro e he heq
    cases hp : p front.key with
    | gt =>
      have := h.leading_ne_gt.eq_false_of_head hf (by simp [hp]) e he
      simp [heq] at this
    | lt | eq =>
      simp only [hp, Noted.value_map, Entry.value_ask] at ho
      have := h.leading_lt.eq_true_of_last hb ho e he
      simp [heq] at this

/-- The entries before, at and after what is sought, one after the other. -/
theorem ConsistentWith.toList_eq (h : c.ConsistentWith p) :
    c.toList = (c.toList.filter fun e => p e.key == .lt) ++
      ((c.toList.filter fun e => p e.key == .eq) ++ c.toList.filter fun e => p e.key == .gt) := by
  have hrest : Leading (fun e : Entry K V => p e.key != .gt)
      (c.toList.filter fun e => !(p e.key == .lt)) :=
    h.leading_ne_gt.sublist List.filter_sublist
  conv => lhs; rw [← List.take_append_drop (c.toList.countP fun e => p e.key == .lt) c.toList]
  rw [h.leading_lt.take_countP, h.leading_lt.drop_countP]
  congr 1
  conv =>
    lhs
    rw [← List.take_append_drop
      ((c.toList.filter fun e => !(p e.key == .lt)).countP fun e => p e.key != .gt)
      (c.toList.filter fun e => !(p e.key == .lt))]
  rw [hrest.take_countP, hrest.drop_countP, List.filter_filter, List.filter_filter]
  congr 1 <;> refine List.filter_congr fun e _ => ?_ <;> cases p e.key <;> rfl

/-- The entry at the lower bound is the first match, or if there is none the first one after. -/
theorem get?_lowerBound (h : c.ConsistentWith p) :
    c.get? (c.toList.countP fun e => p e.key == .lt) =
      ((c.toList.filter fun e => p e.key == .eq) ++
        c.toList.filter fun e => p e.key == .gt).head? := by
  rw [get?_eq, List.countP_eq_length_filter]
  refine (congrArg (fun es : List (Entry K V) => es[_]?) h.toList_eq).trans ?_
  rw [List.getElem?_append_right (Nat.le_refl _), Nat.sub_self, List.head?_eq_getElem?]

theorem any_get?_lowerBound (h : c.ConsistentWith p) :
    ((c.get? (c.toList.countP fun e => p e.key == .lt)).any fun e => p e.key == .eq) =
      c.toList.any fun e => p e.key == .eq := by
  have hany : (c.toList.any fun e => p e.key == .eq) =
      !(c.toList.filter fun e => p e.key == .eq).isEmpty := by
    rw [Bool.eq_iff_iff]
    simp
  rw [get?_lowerBound h, hany]
  cases heq : c.toList.filter fun e => p e.key == .eq with
  | cons f fs =>
    have hf : f ∈ c.toList.filter fun e => p e.key == .eq := heq ▸ List.mem_cons_self
    simpa using (List.mem_filter.mp hf).2
  | nil =>
    cases hgt : c.toList.filter fun e => p e.key == .gt with
    | nil => rfl
    | cons f fs =>
      have hf : f ∈ c.toList.filter fun e => p e.key == .gt := hgt ▸ List.mem_cons_self
      have hpf : p f.key = .gt := by simpa using (List.mem_filter.mp hf).2
      simp [hpf]

/-- A lookup finds the first match, at the lower bound. -/
theorem value_find? (h : c.ConsistentWith p) :
    (c.find? p).value =
      if c.toList.any fun e => p e.key == .eq then
        some (c.toList.countP fun e => p e.key == .lt)
      else none := by
  simp only [find?, Noted.value_bind]
  cases ho : (c.outside p).value with
  | true => simp [any_match_eq_false (no_match_of_outside h ho)]
  | false =>
    simp only [Noted.value_bind, value_lowerBound_toList h, ← any_get?_lowerBound h]
    cases c.get? (c.toList.countP fun e => p e.key == .lt) with
    | none => rfl
    | some e => by_cases he : p e.key = .eq <;> simp [he]

/-! ## All matches -/

theorem countP_ne_gt (p : Probe K) (es : List (Entry K V)) :
    (es.countP fun e => p e.key != .gt) =
      (es.countP fun e => p e.key == .lt) + es.countP fun e => p e.key == .eq := by
  induction es with
  | nil => rfl
  | cons e es ih =>
    rw [List.countP_cons, List.countP_cons, List.countP_cons, ih]
    cases p e.key <;> simp <;> omega

theorem isPart_bounds (h : c.ConsistentWith p) :
    c.entries.IsPart (c.bounds p).value.1 (c.bounds p).value.2 := by
  show (c.lowerBound p).value ≤ (c.upperBound p).value ∧ (c.upperBound p).value ≤ c.size
  rw [value_lowerBound_toList h, value_upperBound_toList h, size_eq_length]
  constructor
  · rw [countP_ne_gt]
    exact Nat.le_add_right _ _
  · exact List.countP_le_length

theorem toList_outside_bounds (h : c.ConsistentWith p) :
    c.toList.take (c.bounds p).value.1 ++ c.toList.drop (c.bounds p).value.2 =
      c.toList.filter fun e => p e.key != .eq := by
  show c.toList.take (c.lowerBound p).value ++ c.toList.drop (c.upperBound p).value = _
  rw [value_lowerBound_toList h, value_upperBound_toList h, h.leading_lt.take_countP,
    h.leading_ne_gt.drop_countP]
  conv => rhs; rw [h.toList_eq]
  rw [List.filter_append, List.filter_append, List.filter_filter, List.filter_filter,
    List.filter_filter]
  have hnone : (c.toList.filter fun e => p e.key != .eq && p e.key == .eq) = [] :=
    List.filter_eq_nil_iff.mpr fun e _ => by cases p e.key <;> simp
  rw [hnone, List.nil_append]
  congr 1 <;> refine List.filter_congr fun e _ => ?_ <;> cases p e.key <;> rfl

theorem value_removeAll {c : Multimap K V} {p : Probe K} (h : c.ConsistentWith p) :
    ∃ d : Multimap K V,
      (c.removeAll p).value = (.ok (c.toList.countP fun e => p e.key == .eq), d) ∧
        d.order = c.order ∧ d.toList = c.toList.filter fun e => p e.key != .eq := by
  simp only [removeAll, Noted.value_bind]
  cases ho : (c.outside p).value with
  | true =>
    have hnone := no_match_of_outside h ho
    refine ⟨c, ?_, rfl, ?_⟩
    · rw [List.countP_eq_zero.mpr fun e he => by simpa using hnone e he]
      rfl
    · exact (List.filter_eq_self.mpr fun e he => by simpa using hnone e he).symm
  | false =>
    have hpart := isPart_bounds h
    have hcount : (c.bounds p).value.2 - (c.bounds p).value.1 =
        c.toList.countP fun e => p e.key == .eq := by
      show (c.upperBound p).value - (c.lowerBound p).value = _
      rw [value_lowerBound_toList h, value_upperBound_toList h, countP_ne_gt,
        Nat.add_sub_cancel_left]
    refine ⟨{ c with
      entries := c.entries.eraseRange (c.bounds p).value.1 (c.bounds p).value.2 }, ?_, rfl, ?_⟩
    · rw [Noted.value_map, removePart_eq_ok c hpart, ← hcount]
      rfl
    · rw [← toList_outside_bounds h]
      exact Buffer.toList_eraseRange _ hpart.1

/-! ## Insertion -/

section

variable [Std.TransCmp c.order] (h : c.Valid) (k : K)

include h

theorem Valid.leading_lt :
    Leading (fun e : Entry K V => c.order e.key k == .lt) c.toList :=
  (h.consistentWith_probe k).leading_lt

theorem Valid.leading_ne_gt :
    Leading (fun e : Entry K V => c.order e.key k != .gt) c.toList :=
  (h.consistentWith_probe k).leading_ne_gt

/-- A new entry goes after all entries whose keys are not greater. -/
theorem value_insertPosition :
    (c.insertPosition k).value = c.toList.countP fun e => c.order e.key k != .gt := by
  by_cases hnil : c.toList = []
  · simp [insertPosition, first?_eq, hnil]
  · obtain ⟨front, back, hfirst, hlast, hf, hb⟩ := ends_of_ne_nil hnil
    simp only [insertPosition, hfirst, hlast, Noted.value_bind, Entry.value_ask,
      Comparator.probe_apply]
    cases hfk : c.order front.key k with
    | gt =>
      have hall := (h.leading_ne_gt k).eq_false_of_head hf (by simp [hfk])
      exact (List.countP_eq_zero.mpr fun e he => by simp [hall e he]).symm
    | lt | eq =>
      simp only [Noted.value_bind, Entry.value_ask, Comparator.probe_apply]
      cases hbk : c.order back.key k with
      | gt => exact value_upperBound_toList (h.consistentWith_probe k)
      | lt | eq =>
        have hall := (h.leading_ne_gt k).eq_true_of_last hb (by simp [hbk])
        rw [List.countP_eq_length.mpr hall]
        exact c.size_eq_length

end

/-- If the last entry of a map is of the class of `k`, all others come before it. -/
theorem countP_lt_of_last {c : Map K V} [Std.TransCmp c.order] (h : c.Valid) {k : K}
    {back : Entry K V} (hb : c.toList.getLast? = some back) (hbk : c.order back.key k = .eq) :
    (c.toList.countP fun e => c.order e.key k == .lt) = c.size - 1 := by
  obtain ⟨es, hes⟩ := List.getLast?_eq_some_iff.mp hb
  have hpair : c.toList.Pairwise fun a b => c.order a.key b.key = .lt := List.pairwise_map.mp h
  rw [hes] at hpair
  have hall : (es.countP fun e => c.order e.key k == .lt) = es.length := by
    refine List.countP_eq_length.mpr fun e he => beq_iff_eq.mpr ?_
    exact Std.TransCmp.lt_of_lt_of_eq ((List.pairwise_append.mp hpair).2.2 e he back (by simp)) hbk
  rw [size_eq_length, hes, List.countP_append, hall]
  simp [hbk]

/-- The class of `k` is where the entries with smaller keys end, or belongs there. -/
theorem value_locate {c : Map K V} [Std.TransCmp c.order] (h : c.Valid) (k : K) :
    (c.locate k).value =
      if (ofClass c.order k c.toList).isEmpty then
        .free (c.toList.countP fun e => c.order e.key k == .lt)
      else .held (c.toList.countP fun e => c.order e.key k == .lt) := by
  by_cases hnil : c.toList = []
  · simp [locate, first?_eq, hnil]
  · obtain ⟨front, back, hfirst, hlast, hf, hb⟩ := ends_of_ne_nil hnil
    simp only [locate, hfirst, hlast, Noted.value_bind, Entry.value_ask, Comparator.probe_apply]
    have hzero (hne : c.order front.key k ≠ .lt) :
        (c.toList.countP fun e => c.order e.key k == .lt) = 0 := by
      have hall := (h.leading_lt k).eq_false_of_head hf (by simpa using hne)
      exact List.countP_eq_zero.mpr fun e he => by simp [hall e he]
    cases hfk : c.order front.key k with
    | gt =>
      have hall := (h.leading_ne_gt k).eq_false_of_head hf (by simp [hfk])
      have hclass : ofClass c.order k c.toList = [] :=
        ofClass_eq_nil.mpr fun e he heq => by simpa [heq] using hall e he
      simp [hclass, hzero (by simp [hfk])]
    | eq =>
      have hclass := List.ne_nil_of_mem (mem_ofClass.mpr ⟨List.mem_of_head? hf, hfk⟩)
      simp [hclass, hzero (by simp [hfk])]
    | lt =>
      simp only [Noted.value_bind, Entry.value_ask, Comparator.probe_apply]
      cases hbk : c.order back.key k with
      | lt =>
        have hall := (h.leading_lt k).eq_true_of_last hb (by simp [hbk])
        have hclass : ofClass c.order k c.toList = [] :=
          ofClass_eq_nil.mpr fun e he heq => by simpa [heq] using hall e he
        simp [hclass, List.countP_eq_length.mpr hall, size_eq_length]
      | eq =>
        have hclass := List.ne_nil_of_mem (mem_ofClass.mpr ⟨List.mem_of_getLast? hb, hbk⟩)
        simp [hclass, countP_lt_of_last h hb hbk]
      | gt =>
        have hcons := h.consistentWith_probe k
        have hpos := value_lowerBound_toList hcons
        have hany := any_get?_lowerBound hcons
        simp only [Comparator.probe_apply, any_match_eq_not_isEmpty] at hpos hany
        simp only [Noted.value_bind, hpos]
        cases hg : c.get? (c.toList.countP fun e => c.order e.key k == .lt) with
        | none => simpa [hg] using hany
        | some e =>
          rw [hg, Option.any_some] at hany
          cases hclass : (ofClass c.order k c.toList).isEmpty <;> simp [hclass] at hany <;>
            simp [hany]

end Flat

end FlatAssoc
