import FlatAssoc.Key.WeakOrder
import FlatAssoc.Proofs.Constructions

/-!
# Load order

What is loaded into a new container is known from what it keeps of each class, and nothing of a
class is lost or merged with another on the way. So two lists of items end in the same entries
exactly if they have the same to keep of each class (`Flat.TakesIn.toList_eq_iff`): a multimap
keeps all of it in the order in which it came, a map the first item only.
-/

namespace FlatAssoc

variable {m : Multiplicity} {K V : Type} {order : Comparator K}

theorem Multiplicity.keep_unique_eq_iff {α : Type} {xs ys : List α} :
    Multiplicity.unique.keep xs = Multiplicity.unique.keep ys ↔ xs.head? = ys.head? := by
  show xs.take 1 = ys.take 1 ↔ xs.head? = ys.head?
  rw [List.take_one, List.take_one]
  constructor
  · intro h
    have hhead := congrArg List.head? h
    rwa [Option.head?_toList, Option.head?_toList] at hhead
  · intro h
    rw [h]

variable [Std.TransCmp order]

/-- Two containers that were loaded from nothing have the same entries if and only if each class
gives both the same to keep. -/
theorem Flat.TakesIn.toList_eq_iff {xs ys : List (Entry K V)} {c d : Flat m K V}
    (hc : TakesIn order (empty order) xs c) (hd : TakesIn order (empty order) ys d) :
    c.toList = d.toList ↔ ∀ k, m.keep (ofClass order k xs) = m.keep (ofClass order k ys) := by
  have hxs (k : K) : ofClass order k c.toList = m.keep (ofClass order k xs) := hc.ofClass_eq k
  have hys (k : K) : ofClass order k d.toList = m.keep (ofClass order k ys) := hd.ofClass_eq k
  constructor
  · intro heq k
    rw [← hxs, ← hys, heq]
  · intro h
    apply hc.validFor.sorted.ext hd.validFor.sorted
    intro k
    rw [hxs, hys, h]

namespace Build

variable [Document K V]

/-- However two lists of items are loaded, they make the same multimap if and only if they have
the same items of each class in the same order, and they make the same map if and only if they
have the same first item of each class. -/
theorem toList_run_eq_iff (order : Comparator K) [Std.TransCmp order] {xs ys : List (Entry K V)}
    {b b' : Build K V} (hb : b.Loads xs) (hb' : b'.Loads ys) :
    (∃ c d : Reported (Multimap K V),
      b.run .repeated order = .ok c ∧ b'.run .repeated order = .ok d ∧
        (c.value.toList = d.value.toList ↔ ∀ k, ofClass order k xs = ofClass order k ys)) ∧
      ∃ c d : Reported (Map K V), b.run .unique order = .ok c ∧ b'.run .unique order = .ok d ∧
        (c.value.toList = d.value.toList ↔
          ∀ k, (ofClass order k xs).head? = (ofClass order k ys).head?) := by
  constructor
  · obtain ⟨c, hc, hxs⟩ := hb.takesIn .repeated order
    obtain ⟨d, hd, hys⟩ := hb'.takesIn .repeated order
    exact ⟨c, d, hc, hd, hxs.toList_eq_iff hys⟩
  · obtain ⟨c, hc, hxs⟩ := hb.takesIn .unique order
    obtain ⟨d, hd, hys⟩ := hb'.takesIn .unique order
    refine ⟨c, d, hc, hd, (hxs.toList_eq_iff hys).trans ?_⟩
    exact forall_congr' fun k => Multiplicity.keep_unique_eq_iff

/-- Keys of one last digit are one class. The two lists differ in the second item that ends in
three, which the multimap keeps and the map does not. -/
theorem toList_run_eq_iff_digits :
    let xs : List (Entry Int64 Int64) := [⟨13, 0⟩, ⟨1, 1⟩, ⟨3, 2⟩]
    let ys : List (Entry Int64 Int64) := [⟨1, 1⟩, ⟨13, 0⟩, ⟨23, 2⟩]
    (collected xs).Loads xs ∧ (gathered ys).Loads ys ∧
      (∃ c d : Reported (Multimap Int64 Int64),
        (collected xs).run .repeated KeyOrder.intMod.order = .ok c ∧
          (gathered ys).run .repeated KeyOrder.intMod.order = .ok d ∧
          c.value.toList ≠ d.value.toList) ∧
      ∀ k, (ofClass KeyOrder.intMod.order k xs).head? =
        (ofClass KeyOrder.intMod.order k ys).head? := by
  intro xs ys
  have hcollected : (collected xs : Build Int64 Int64).Loads xs := .collected
  have hgathered : (gathered ys : Build Int64 Int64).Loads ys := .gathered
  have hxs : (inserted xs : Build Int64 Int64).Loads xs := .inserted
  have hys : (inserted ys : Build Int64 Int64).Loads ys := .inserted
  obtain ⟨⟨c, d, hc, hd, hmulti⟩, -⟩ :=
    toList_run_eq_iff KeyOrder.intMod.order hcollected hgathered
  obtain ⟨-, c', d', hc', hd', hmap⟩ := toList_run_eq_iff KeyOrder.intMod.order hxs hys
  refine ⟨hcollected, hgathered, ⟨c, d, hc, hd, fun heq => ?_⟩, hmap.mp ?_⟩
  · have hthree := hmulti.mp heq 3
    revert hthree
    decide +kernel
  · cases hc'
    cases hd'
    decide +kernel

end Build

end FlatAssoc
