import FlatAssoc.Flat.Load

/-!
# Entries class by class

A list sorted by a weak order is determined by what it holds of each class of equal keys
(`Sorted.ext`). The stable sort changes no class (`ofClass_arrange`), and the uniqueness pass over
a sorted list keeps the first entry of each (`ofClass_collapse`), so a bulk load is known once the
classes of its input are.
-/

namespace FlatAssoc

variable {K V : Type} {order : Comparator K}

/-! ## Weak orders -/

namespace Comparator

theorem same_iff {a b : K} : order.same a b ↔ order a b = .eq := beq_iff_eq

theorem same_eq_false {a b : K} : order.same a b = false ↔ order a b ≠ .eq := beq_eq_false_iff_ne

variable [Std.TransCmp order] {a b c : K}

theorem eq_self (a : K) : order a a = .eq := Std.ReflCmp.compare_self

/-- Keys of one class have the same place against all others. -/
theorem same_congr_left (h : order a b = .eq) (c : K) : order.same a c = order.same b c := by
  rw [same, same, Std.TransCmp.congr_left h]

theorem same_congr_right (h : order a b = .eq) (c : K) : order.same c a = order.same c b := by
  rw [same, same, Std.TransCmp.congr_right h]

theorem ne_gt_trans (hab : order a b ≠ .gt) (hbc : order b c ≠ .gt) : order a c ≠ .gt := by
  simp only [ne_eq, ← Ordering.isLE_iff_ne_gt] at *
  exact Std.TransCmp.isLE_trans hab hbc

theorem ne_gt_self (a : K) : order a a ≠ .gt := by
  have h : order a a = .eq := eq_self a
  rw [h]
  exact Ordering.noConfusion

theorem ne_gt_of_gt (h : order a b = .gt) : order b a ≠ .gt := by
  rw [Std.OrientedCmp.lt_of_gt h]
  exact Ordering.noConfusion

theorem eq_of_ne_gt (hab : order a b ≠ .gt) (hba : order b a ≠ .gt) : order a b = .eq :=
  Std.OrientedCmp.isLE_antisymm (Ordering.isLE_iff_ne_gt.mpr hab) (Ordering.isLE_iff_ne_gt.mpr hba)

theorem le_trans (a b c : K) (hab : order.le a b) (hbc : order.le b c) : order.le a c :=
  Std.TransCmp.isLE_trans hab hbc

theorem le_total (a b : K) : order.le a b || order.le b a := by
  have hswap : order b a = (order a b).swap := Std.OrientedCmp.eq_swap
  rw [le, le, hswap]
  cases order a b <;> rfl

end Comparator

/-! ## Sorted lists -/

/-- No key stands after a greater one. -/
def Sorted (order : Comparator K) (es : List (Entry K V)) : Prop :=
  es.Pairwise fun a b => order a.key b.key ≠ .gt

/-- The entries of the class of `k`, in order. -/
def ofClass (order : Comparator K) (k : K) (es : List (Entry K V)) : List (Entry K V) :=
  es.filter fun e => order.same e.key k

@[simp] theorem ofClass_nil (k : K) : ofClass order k ([] : List (Entry K V)) = [] := rfl

@[simp] theorem ofClass_append (k : K) (es fs : List (Entry K V)) :
    ofClass order k (es ++ fs) = ofClass order k es ++ ofClass order k fs := List.filter_append _ _

theorem ofClass_cons_same {k : K} {e : Entry K V} (h : order e.key k = .eq)
    (es : List (Entry K V)) : ofClass order k (e :: es) = e :: ofClass order k es :=
  List.filter_cons_of_pos (Comparator.same_iff.mpr h)

theorem ofClass_cons_other {k : K} {e : Entry K V} (h : order e.key k ≠ .eq)
    (es : List (Entry K V)) : ofClass order k (e :: es) = ofClass order k es :=
  List.filter_cons_of_neg (mt Comparator.same_iff.mp h)

theorem mem_ofClass {k : K} {e : Entry K V} {es : List (Entry K V)} :
    e ∈ ofClass order k es ↔ e ∈ es ∧ order e.key k = .eq := by
  rw [ofClass, List.mem_filter, Comparator.same_iff]

theorem ofClass_eq_nil {k : K} {es : List (Entry K V)} :
    ofClass order k es = [] ↔ ∀ e ∈ es, order e.key k ≠ .eq := by
  simp only [ofClass, List.filter_eq_nil_iff, Comparator.same_iff, ne_eq]

/-- A filter that treats all keys of one class alike keeps the class or drops it. -/
theorem ofClass_filter (test : K → Bool) {k : K} (h : ∀ a, order a k = .eq → test a = test k)
    (es : List (Entry K V)) :
    ofClass order k (es.filter fun e => test e.key) =
      if test k then ofClass order k es else [] := by
  have hand (e : Entry K V) :
      (order.same e.key k && test e.key) = (order.same e.key k && test k) := by
    cases hek : order.same e.key k with
    | false => rfl
    | true => rw [h e.key (Comparator.same_iff.mp hek)]
  rw [ofClass, List.filter_filter, List.filter_congr fun e _ => hand e]
  cases test k <;> simp [ofClass]

section

variable [Std.TransCmp order]

theorem ofClass_congr {a b : K} (h : order a b = .eq) (es : List (Entry K V)) :
    ofClass order a es = ofClass order b es :=
  List.filter_congr fun _ _ => Comparator.same_congr_right h _

/-- Without the entries of one class, nothing of it is left and all of the others. -/
theorem ofClass_filter_ne (k a : K) (es : List (Entry K V)) :
    ofClass order a (es.filter fun e => order e.key k != .eq) =
      if order.same k a then [] else ofClass order a es := by
  rw [ofClass_filter (fun x => order x k != .eq) (k := a)]
  · have hswap : order a k = (order k a).swap := Std.OrientedCmp.eq_swap
    rw [hswap, Comparator.same]
    cases order k a <;> rfl
  · intro x hxa
    rw [Std.TransCmp.congr_left hxa]

theorem sorted_of_class {k : K} {es : List (Entry K V)} (h : ∀ e ∈ es, order e.key k = .eq) :
    Sorted order es := by
  refine List.pairwise_iff_forall_sublist.mpr fun {a b} hab => ?_
  have ha := h a (hab.subset (by simp))
  have hb := h b (hab.subset (by simp))
  rw [Std.TransCmp.eq_trans ha (Std.OrientedCmp.eq_symm hb)]
  exact Ordering.noConfusion

theorem Sorted.head_le {e f : Entry K V} {es : List (Entry K V)} (h : Sorted order (e :: es))
    (hf : f ∈ e :: es) : order e.key f.key ≠ .gt := by
  rcases List.mem_cons.mp hf with rfl | hf
  · exact Comparator.ne_gt_self _
  · exact List.rel_of_pairwise_cons h hf

/-- Sorted lists that hold the same of every class are equal. -/
theorem Sorted.ext {es fs : List (Entry K V)} (he : Sorted order es) (hf : Sorted order fs)
    (h : ∀ k, ofClass order k es = ofClass order k fs) : es = fs := by
  induction es generalizing fs with
  | nil =>
    cases fs with
    | nil => rfl
    | cons f fs =>
      have hk := h f.key
      rw [ofClass_cons_same (Comparator.eq_self _)] at hk
      cases hk
  | cons e es ih =>
    cases fs with
    | nil =>
      have hk := h e.key
      rw [ofClass_cons_same (Comparator.eq_self _)] at hk
      cases hk
    | cons f fs =>
      -- Each head occurs in the other list, so they are of one class and both first of it.
      have hef : e ∈ f :: fs := by
        have hmem : e ∈ ofClass order e.key (e :: es) :=
          mem_ofClass.mpr ⟨List.mem_cons_self, Comparator.eq_self _⟩
        rw [h] at hmem
        exact (mem_ofClass.mp hmem).1
      have hfe : f ∈ e :: es := by
        have hmem : f ∈ ofClass order f.key (f :: fs) :=
          mem_ofClass.mpr ⟨List.mem_cons_self, Comparator.eq_self _⟩
        rw [← h] at hmem
        exact (mem_ofClass.mp hmem).1
      have hsame : order f.key e.key = .eq :=
        Comparator.eq_of_ne_gt (hf.head_le hef) (he.head_le hfe)
      have hk := h e.key
      rw [ofClass_cons_same (Comparator.eq_self _), ofClass_cons_same hsame] at hk
      obtain ⟨rfl, -⟩ := List.cons.inj hk
      refine congrArg (e :: ·) (ih he.of_cons hf.of_cons fun k => ?_)
      have hk := h k
      by_cases hek : order e.key k = .eq
      · rw [ofClass_cons_same hek, ofClass_cons_same hek] at hk
        exact (List.cons.inj hk).2
      · rwa [ofClass_cons_other hek, ofClass_cons_other hek] at hk

end

/-! ## What is kept of a class -/

namespace Multiplicity

variable {α : Type}

/-- What a container of this multiplicity keeps of the items of one class, the oldest first. -/
def keep : Multiplicity → List α → List α
  | .unique, xs => xs.take 1
  | .repeated, xs => xs

@[simp] theorem keep_nil (m : Multiplicity) : m.keep ([] : List α) = [] := by
  cases m <;> rfl

/-- What is dropped early would be dropped later. -/
theorem keep_keep_append (m : Multiplicity) (xs ys : List α) :
    m.keep (m.keep xs ++ ys) = m.keep (xs ++ ys) := by
  cases m with
  | repeated => rfl
  | unique => cases xs <;> simp [keep]

theorem keep_keep (m : Multiplicity) (xs : List α) : m.keep (m.keep xs) = m.keep xs := by
  simpa using m.keep_keep_append xs []

theorem keep_sublist (m : Multiplicity) (xs : List α) : (m.keep xs).Sublist xs := by
  cases m with
  | unique => exact List.take_sublist 1 xs
  | repeated => exact List.Sublist.refl xs

/-- If a container has room for some items of a class, it has room for as many or fewer. -/
theorem keep_eq_self_of_length_le {m : Multiplicity} {xs ys : List α} (h : m.keep xs = xs)
    (hl : ys.length ≤ xs.length) : m.keep ys = ys := by
  cases m with
  | repeated => rfl
  | unique =>
    have hone : xs.length ≤ 1 := by
      rw [← h]
      exact List.length_take_le 1 xs
    exact List.take_of_length_le (Nat.le_trans hl hone)

end Multiplicity

namespace Flat

variable {m : Multiplicity}

/-! ## Bulk loads -/

theorem collapse_sublist (es : List (Entry K V)) : (collapse order es).Sublist es := by
  have hgo (x : Entry K V) (es : List (Entry K V)) :
      (firstOfRuns.go (fun a b : Entry K V => order.same a.key b.key) x es).Sublist es := by
    induction es generalizing x with
    | nil => exact List.Sublist.slnil
    | cons y ys ih =>
      unfold firstOfRuns.go
      split
      · exact (ih x).cons y
      · exact (ih y).cons_cons y
  cases es with
  | nil => exact List.Sublist.slnil
  | cons e es => exact (hgo e es).cons_cons e

theorem sorted_settle {es : List (Entry K V)} (h : Sorted order es) :
    Sorted order (settle m order es).value := by
  cases m with
  | unique => exact h.sublist (collapse_sublist es)
  | repeated => exact h

variable [Std.TransCmp order]

theorem sorted_arrange (es : List (Entry K V)) : Sorted order (arrange order es) :=
  (List.pairwise_mergeSort (fun a b c => Comparator.le_trans a.key b.key c.key)
    (fun a b => Comparator.le_total a.key b.key) es).imp fun h => Ordering.isLE_iff_ne_gt.mp h

theorem ofClass_arrange (k : K) (es : List (Entry K V)) :
    ofClass order k (arrange order es) = ofClass order k es := by
  have hsorted : Sorted order (ofClass order k es) :=
    sorted_of_class fun e he => (mem_ofClass.mp he).2
  have hsub : (ofClass order k es).Sublist (arrange order es) :=
    List.sublist_mergeSort (fun a b c => Comparator.le_trans a.key b.key c.key)
      (fun a b => Comparator.le_total a.key b.key)
      (hsorted.imp fun h => Ordering.isLE_iff_ne_gt.mpr h) List.filter_sublist
  have hperm : (ofClass order k (arrange order es)).Perm (ofClass order k es) :=
    (List.mergeSort_perm es _).filter _
  have hclass : ofClass order k (ofClass order k es) = ofClass order k es := by
    simp [ofClass, List.filter_filter]
  refine (List.Sublist.eq_of_length ?_ hperm.length_eq.symm).symm
  rw [← hclass]
  exact hsub.filter _

/-- After a smaller head no entry is of its class. -/
theorem ofClass_eq_nil_of_lt {e f : Entry K V} {es : List (Entry K V)} {k : K}
    (h : Sorted order (f :: es)) (hef : order e.key f.key = .lt) (hek : order e.key k = .eq) :
    ofClass order k (f :: es) = [] := by
  refine ofClass_eq_nil.mpr fun g hg hgk => ?_
  have hfg : (order f.key g.key).isLE := Ordering.isLE_iff_ne_gt.mpr (h.head_le hg)
  have heg : order e.key g.key = .eq := Std.TransCmp.eq_trans hek (Std.OrientedCmp.eq_symm hgk)
  rw [Std.TransCmp.lt_of_lt_of_isLE hef hfg] at heg
  cases heg

theorem ofClass_collapse {es : List (Entry K V)} (h : Sorted order es) (k : K) :
    ofClass order k (collapse order es) = (ofClass order k es).take 1 := by
  have hgo (x : Entry K V) (es : List (Entry K V)) (h : Sorted order (x :: es)) :
      ofClass order k
          (x :: firstOfRuns.go (fun a b : Entry K V => order.same a.key b.key) x es) =
        (ofClass order k (x :: es)).take 1 := by
    induction es generalizing x with
    | nil =>
      refine (List.take_of_length_le ?_).symm
      exact List.length_filter_le _ _
    | cons y ys ih =>
      unfold firstOfRuns.go
      split
      · rename_i hxy
        have hxy := Comparator.same_iff.mp hxy
        rw [ih x (h.sublist ((List.sublist_cons_self y ys).cons_cons x))]
        by_cases hxk : order x.key k = .eq
        · simp [ofClass_cons_same hxk]
        · have hyk : order y.key k ≠ .eq := by rwa [← Std.TransCmp.congr_left hxy]
          simp only [ofClass_cons_other hxk, ofClass_cons_other hyk]
      · rename_i hxy
        have hxy : order x.key y.key = .lt := by
          have hle := h.head_le (List.mem_cons_of_mem x List.mem_cons_self)
          have hne := mt Comparator.same_iff.mpr hxy
          cases hc : order x.key y.key <;> simp_all
        by_cases hxk : order x.key k = .eq
        · have hnil := ofClass_eq_nil_of_lt h.of_cons hxy hxk
          rw [ofClass_cons_same hxk, ofClass_cons_same hxk, ih y h.of_cons, hnil]
          rfl
        · rw [ofClass_cons_other hxk, ofClass_cons_other hxk, ih y h.of_cons]
  cases es with
  | nil => rfl
  | cons e es => exact hgo e es h

/-- Over a sorted list, the pass that a container makes keeps of each class what it may hold. -/
theorem ofClass_settle {es : List (Entry K V)} (h : Sorted order es) (k : K) :
    ofClass order k (settle m order es).value = m.keep (ofClass order k es) := by
  cases m with
  | unique => exact ofClass_collapse h k
  | repeated => rfl

/-! ## Valid containers -/

theorem length_ofClass_le_one {es : List (Entry K V)}
    (h : es.Pairwise fun a b => order a.key b.key = .lt) (k : K) :
    (ofClass order k es).length ≤ 1 := by
  have hlt : (ofClass order k es).Pairwise fun a b => order a.key b.key = .lt :=
    h.sublist List.filter_sublist
  have hmem : ∀ e ∈ ofClass order k es, order e.key k = .eq := fun e he => (mem_ofClass.mp he).2
  match hes : ofClass order k es with
  | [] => simp
  | [_] => simp
  | a :: b :: _ =>
    rw [hes] at hlt hmem
    have hab := List.rel_of_pairwise_cons hlt List.mem_cons_self
    have ha := hmem a (by simp)
    have hb := hmem b (by simp)
    rw [Std.TransCmp.eq_trans ha (Std.OrientedCmp.eq_symm hb)] at hab
    cases hab

theorem pairwise_lt_of_sorted {es : List (Entry K V)} (h : Sorted order es)
    (hone : ∀ k, (ofClass order k es).length ≤ 1) :
    es.Pairwise fun a b => order a.key b.key = .lt := by
  refine List.pairwise_iff_forall_sublist.mpr fun {a b} hab => ?_
  have hle := List.pairwise_iff_forall_sublist.mp h hab
  cases hc : order a.key b.key with
  | lt => rfl
  | gt => exact absurd hc hle
  | eq =>
    have hpair : ofClass order b.key [a, b] = [a, b] := by
      rw [ofClass_cons_same hc, ofClass_cons_same (Comparator.eq_self _), ofClass_nil]
    have hsub : (ofClass order b.key [a, b]).Sublist (ofClass order b.key es) := hab.filter _
    have := hsub.length_le
    rw [hpair] at this
    have := hone b.key
    simp at *
    omega

end Flat

namespace Flat

variable {m : Multiplicity} {c : Flat m K V}

/-- A container is valid if its entries are sorted and it holds of each class what it keeps. -/
theorem valid_iff [Std.TransCmp c.order] :
    c.Valid ↔ Sorted c.order c.toList ∧
      ∀ k, m.keep (ofClass c.order k c.toList) = ofClass c.order k c.toList := by
  cases m with
  | repeated => exact Iff.trans List.pairwise_map ⟨fun h => ⟨h, fun _ => rfl⟩, fun h => h.1⟩
  | unique =>
    refine Iff.trans List.pairwise_map ⟨fun h => ⟨?_, fun k => ?_⟩, fun ⟨h, hone⟩ => ?_⟩
    · refine h.imp fun hab => ?_
      rw [hab]
      exact Ordering.noConfusion
    · exact List.take_of_length_le (length_ofClass_le_one h k)
    · refine pairwise_lt_of_sorted h fun k => ?_
      rw [← hone k]
      exact List.length_take_le 1 _

/-- A valid container whose comparator is `order`. -/
structure ValidFor (order : Comparator K) (c : Flat m K V) : Prop where
  order_eq : c.order = order
  valid : c.Valid

theorem validFor_iff [Std.TransCmp order] :
    c.ValidFor order ↔ c.order = order ∧ Sorted order c.toList ∧
      ∀ k, m.keep (ofClass order k c.toList) = ofClass order k c.toList := by
  constructor
  · rintro ⟨rfl, h⟩
    exact ⟨rfl, valid_iff.mp h⟩
  · rintro ⟨rfl, h⟩
    exact ⟨rfl, valid_iff.mpr h⟩

theorem ValidFor.sorted [Std.TransCmp order] (h : c.ValidFor order) : Sorted order c.toList :=
  (validFor_iff.mp h).2.1

theorem ValidFor.keep_ofClass [Std.TransCmp order] (h : c.ValidFor order) (k : K) :
    m.keep (ofClass order k c.toList) = ofClass order k c.toList := (validFor_iff.mp h).2.2 k

theorem ValidFor.consistentWith [Std.TransCmp order] (h : c.ValidFor order) (k : K) :
    c.ConsistentWith (order.probe k) := by
  obtain ⟨rfl, hvalid⟩ := h
  exact hvalid.consistentWith_probe k

theorem validFor_empty : (empty order : Flat m K V).ValidFor order := by
  refine ⟨rfl, ?_⟩
  cases m <;> exact List.Pairwise.nil

end Flat

end FlatAssoc
