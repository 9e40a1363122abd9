import FlatAssoc.Key.Order

/-!
# The orders of keys are weak orders

Each order compares some measure of its keys, so two keys may be in one class and differ. What a
container promises for weak orders therefore holds for all of these, and for their reverses.
-/

namespace FlatAssoc

namespace Comparator

variable {K : Type} {order : Comparator K} [Std.TransCmp order]

theorem reverse_eq_swap (a b : K) : order.reverse a b = order b a :=
  Std.OrientedCmp.eq_swap.symm

instance : Std.TransCmp order.reverse where
  eq_swap := congrArg Ordering.swap Std.OrientedCmp.eq_swap
  isLE_trans hab hbc := by
    rw [reverse_eq_swap] at *
    exact Std.TransCmp.isLE_trans hbc hab

end Comparator

namespace KeyOrder

variable {K P A B : Type}

instance [Ord A] [Std.TransOrd A] [Ord B] (measure : K → A) (coarser : A → B) (target : P → B) :
    Std.TransCmp (byMeasure measure coarser target : KeyOrder K P).order where
  eq_swap {a b} := Std.OrientedOrd.eq_swap (a := measure a) (b := measure b)
  isLE_trans {a b c} :=
    Std.TransOrd.isLE_trans (a := measure a) (b := measure b) (c := measure c)

instance (o : KeyOrder K P) [Std.TransCmp o.order] : Std.TransCmp o.reverse.order :=
  inferInstanceAs (Std.TransCmp o.order.reverse)

instance : Std.TransCmp int.order := inferInstanceAs (Std.TransCmp (byMeasure _ _ _).order)

instance : Std.TransCmp intAbs.order := inferInstanceAs (Std.TransCmp (byMeasure _ _ _).order)

instance : Std.TransCmp intMod.order := inferInstanceAs (Std.TransCmp (byMeasure _ _ _).order)

instance : Std.TransCmp text.order :=
  inferInstanceAs (Std.TransCmp fun a b : String => compare a b)

instance : Std.TransCmp textLength.order :=
  inferInstanceAs (Std.TransCmp (byMeasure _ _ _).order)

instance : Std.TransCmp textLengthThen.order :=
  inferInstanceAs (Std.TransCmp (compareLex textLength.order text.order))

instance : Std.TransCmp textFolded.order where
  eq_swap {a b} := Std.OrientedOrd.eq_swap (a := lowered a) (b := lowered b)
  isLE_trans {a b c} :=
    Std.TransOrd.isLE_trans (a := lowered a) (b := lowered b) (c := lowered c)

instance : Std.TransCmp list.order where
  eq_swap {a b} := Std.OrientedOrd.eq_swap (a := a.map Int64.toInt) (b := b.map Int64.toInt)
  isLE_trans {a b c} :=
    Std.TransOrd.isLE_trans (a := a.map Int64.toInt) (b := b.map Int64.toInt)
      (c := c.map Int64.toInt)

instance : Std.TransCmp listLength.order :=
  inferInstanceAs (Std.TransCmp (byMeasure _ _ _).order)

instance : Std.TransCmp pairFirst.order := inferInstanceAs (Std.TransCmp (byMeasure _ _ _).order)

instance : Std.TransCmp pairSecond.order := inferInstanceAs (Std.TransCmp (byMeasure _ _ _).order)

instance : Std.TransCmp pair.order :=
  inferInstanceAs (Std.TransCmp (compareLex pairFirst.order pairSecond.order))

end KeyOrder

end FlatAssoc
