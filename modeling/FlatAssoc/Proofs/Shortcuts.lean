import FlatAssoc.Key.WeakOrder
import FlatAssoc.Proofs.Panics

/-!
# Shortcuts of insertions

An insertion looks at the two ends before it searches, and it puts a new entry before or after all
others where it can. None of this shows in what it comes to: the place that it finds is the one that
a search of all entries finds (`Flat.insertPosition_eq_upperBound`, `Flat.locate_eq_held_iff`,
`Flat.locate_eq_free_iff`), and the new entry parts the old ones there.
-/

namespace FlatAssoc

namespace Flat

variable {m : Multiplicity} {K V : Type} {order : Comparator K} [Std.TransCmp order]

/-- What the ends settle for a class that may be repeated, the search would have found. -/
theorem insertPosition_eq_upperBound {c : Multimap K V} (h : c.ValidFor order) (k : K) :
    (c.insertPosition k).value = (c.upperBound (order.probe k)).value := by
  obtain ⟨rfl, hvalid⟩ := h
  rw [value_insertPosition hvalid, value_upperBound_toList (hvalid.consistentWith_probe k)]
  rfl

section

variable {c : Map K V} (h : c.ValidFor order) {k : K} {i : Nat}

include h

/-- All entries before the one of a class are smaller, and all after it are greater. -/
theorem rank_eq_of_getElem? {e : Entry K V} (he : c.toList[i]? = some e)
    (hek : order e.key k = .eq) : rank .unique order k c.toList = i := by
  obtain ⟨rfl, hvalid⟩ := h
  have hpair : c.toList.Pairwise fun a b => c.order a.key b.key = .lt := List.pairwise_map.mp hvalid
  obtain ⟨front, back, hsplit, hlen⟩ := exists_split he
  rw [hsplit] at hpair
  obtain ⟨-, hback, hfront⟩ := List.pairwise_append.mp hpair
  have hbefore : (front.countP fun x => c.order x.key k == .lt) = front.length := by
    refine List.countP_eq_length.mpr fun x hx => beq_iff_eq.mpr ?_
    exact Std.TransCmp.lt_of_lt_of_eq (hfront x hx e List.mem_cons_self) hek
  have hafter : (back.countP fun x => c.order x.key k == .lt) = 0 := by
    refine List.countP_eq_zero.mpr fun x hx hlt => ?_
    have hkx : c.order k x.key = .lt :=
      Std.TransCmp.lt_of_eq_of_lt (Std.OrientedCmp.eq_symm hek) (List.rel_of_pairwise_cons hback hx)
    rw [Std.OrientedCmp.gt_of_lt hkx] at hlt
    cases hlt
  rw [rank, hsplit, List.countP_append, List.countP_cons, hbefore, hafter, hek, hlen]
  rfl

/-- A class is located where an entry of it stands, and there is one such position at most. -/
theorem locate_eq_held_iff :
    (c.locate k).value = .held i ↔ ∃ e, c.toList[i]? = some e ∧ order e.key k = .eq := by
  have hmem {f : Entry K V} (hf : c.toList[i]? = some f) (hfk : order f.key k = .eq) :
      f ∈ ofClass order k c.toList := mem_ofClass.mpr ⟨List.mem_of_getElem? hf, hfk⟩
  rcases ofClass_cases h k with he | ⟨e, he⟩
  · have hfree : (c.locate k).value = .free _ := value_spot_free h he
    rw [hfree]
    refine ⟨fun hheld => (nomatch hheld), fun ⟨f, hf, hfk⟩ => ?_⟩
    exact absurd (hmem hf hfk) (by simp [he])
  · have hheld : (c.locate k).value = .held _ := value_spot_held h he
    have hek : order e.key k = .eq := (mem_ofClass.mp (he ▸ List.mem_cons_self)).2
    rw [hheld]
    constructor
    · rintro ⟨rfl⟩
      exact ⟨e, getElem?_rank h he, hek⟩
    · rintro ⟨f, hf, hfk⟩
      rw [rank_eq_of_getElem? h hf hfk]

/-- A class that no entry is of belongs where a search for it ends. -/
theorem locate_eq_free_iff :
    (c.locate k).value = .free i ↔
      (∀ e ∈ c.toList, order e.key k ≠ .eq) ∧ i = (c.lowerBound (order.probe k)).value := by
  have hrank : (c.lowerBound (order.probe k)).value = rank .unique order k c.toList :=
    value_lowerBound_toList (h.consistentWith k)
  rw [hrank]
  rcases ofClass_cases h k with he | ⟨e, he⟩
  · have hfree : (c.locate k).value = .free _ := value_spot_free h he
    rw [hfree]
    constructor
    · rintro ⟨rfl⟩
      exact ⟨ofClass_eq_nil.mp he, rfl⟩
    · rintro ⟨-, rfl⟩
      rfl
  · have hheld : (c.locate k).value = .held _ := value_spot_held h he
    have hmem : e ∈ ofClass order k c.toList := he ▸ List.mem_cons_self
    rw [hheld]
    refine ⟨fun hfree => (nomatch hfree), fun ⟨hnone, _⟩ => ?_⟩
    exact absurd (mem_ofClass.mp hmem).2 (hnone e (mem_ofClass.mp hmem).1)

end

/-- An entry placed at position `i` comes after those that stood before it and before the others. -/
def PartedAt (c : Flat m K V) (i : Nat) : Prop :=
  i ≤ c.size ∧ ∀ e, (c.place i e).toList = c.toList.take i ++ e :: c.toList.drop i

omit [Std.TransCmp order] in
theorem partedAt {c : Flat m K V} {i : Nat} (h : i ≤ c.size) : c.PartedAt i :=
  ⟨h, toList_place c h⟩

/-- The end checks of an insertion change nothing in what it finds. In a multimap it is the upper
bound; in a map it is the one position of the class or, if there is none, the lower bound. A new
entry parts the old ones at the place found, whether it is put before all of them, after all of
them or in between. -/
theorem insertion_shortcuts_eq_search (order : Comparator K) [Std.TransCmp order] (k : K) :
    (∀ c : Multimap K V, c.ValidFor order →
      (c.insertPosition k).value = (c.upperBound (order.probe k)).value ∧
        c.PartedAt (c.insertPosition k).value) ∧
      ∀ c : Map K V, c.ValidFor order →
        (∀ i, (c.locate k).value = .held i ↔
          ∃ e, c.toList[i]? = some e ∧ order e.key k = .eq) ∧
        (∀ i, (c.locate k).value = .free i ↔
          (∀ e ∈ c.toList, order e.key k ≠ .eq) ∧ i = (c.lowerBound (order.probe k)).value) ∧
        ∀ i, (c.locate k).value = .free i → c.PartedAt i := by
  refine ⟨fun c h => ⟨insertPosition_eq_upperBound h k, ?_⟩, fun c h =>
    ⟨fun i => locate_eq_held_iff h, fun i => locate_eq_free_iff h, fun i hi => ?_⟩⟩
  · exact partedAt ((inBounds h).free k _ rfl)
  · exact partedAt ((inBounds h).free k i hi)

/-- Keys of one last digit are one class. A key of the last class goes after all others without a
search, one of an inner class after its class, and in a map neither of them has a place of its
own. -/
theorem insertion_shortcuts_eq_search_digits :
    let order := KeyOrder.intMod.order
    let c : Multimap Int64 Int64 := ⟨order, ⟨#[⟨1, 2⟩, ⟨13, 0⟩], #[⟨3, 3⟩, ⟨7, 1⟩]⟩⟩
    let d : Map Int64 Int64 := ⟨order, ⟨#[⟨1, 2⟩], #[⟨13, 0⟩, ⟨7, 1⟩]⟩⟩
    c.ValidFor order ∧ d.ValidFor order ∧
      (c.upperBound (order.probe 17)).value = 4 ∧ (c.insertPosition 17).value = 4 ∧
      (c.insertPosition 23).value = 3 ∧
      (c.place 3 ⟨23, 4⟩).toList = [⟨1, 2⟩, ⟨13, 0⟩, ⟨3, 3⟩, ⟨23, 4⟩, ⟨7, 1⟩] ∧
      (d.locate 17).value = .held 2 ∧ (d.locate 23).value = .held 1 ∧
      (d.locate 5).value = .free 2 := by
  intro order c d
  have hc : c.ValidFor order := ⟨rfl, by show List.Pairwise _ _; decide⟩
  have hd : d.ValidFor order := ⟨rfl, by show List.Pairwise _ _; decide⟩
  have hinner : (c.insertPosition 23).value = 3 := by decide +kernel
  obtain ⟨hlast, -⟩ := (insertion_shortcuts_eq_search order 17).1 c hc
  obtain ⟨-, -, hparted⟩ := (insertion_shortcuts_eq_search order 23).1 c hc
  obtain ⟨hheld, -⟩ := (insertion_shortcuts_eq_search order 17).2 d hd
  obtain ⟨hheld', -⟩ := (insertion_shortcuts_eq_search order 23).2 d hd
  obtain ⟨-, hfree, -⟩ := (insertion_shortcuts_eq_search order 5).2 d hd
  have hupper : (c.upperBound (order.probe 17)).value = 4 := by decide +kernel
  rw [hinner] at hparted
  refine ⟨hc, hd, hupper, hlast.trans hupper, hinner, hparted ⟨23, 4⟩, ?_, ?_, ?_⟩
  · exact (hheld 2).mpr ⟨⟨7, 1⟩, rfl, by decide⟩
  · exact (hheld' 1).mpr ⟨⟨13, 0⟩, rfl, by decide⟩
  · exact (hfree 2).mpr ⟨by decide +kernel, by decide +kernel⟩

end Flat

end FlatAssoc
