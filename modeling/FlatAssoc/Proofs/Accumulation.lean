import FlatAssoc.Proofs.Commutation
import FlatAssoc.Proofs.Offers
import Mathlib.Data.List.Forall2

/-!
# Accumulation

Amounts are added to the values of a map one by one, each to the class of its key, which starts at
zero if the map does not hold it. Every class then comes to what its entry and its items merge to:
the first key, with the sum of all values as far as 64 bits hold it. An addition merges its item
into its class and leaves the others alone (`Flat.exists_addsUp`). Since merging early is merging
late (`merged_merged_append`), a run of additions merges all of its items
(`Session.exists_credits`), and the values do not depend on the order in which the items come
(`Flat.AddsUp.value_eq_of_perm`).
-/

namespace FlatAssoc

variable {K V : Type} {order : Comparator K}

/-- The addition of an amount to the value of a class, which starts at zero if it is new. -/
def Step.credit (e : Entry K Int64) : Step K Int64 := .getOrDefault e.key (· + e.value)

/-! ## Sums over a class -/

/-- The sum of the values, whether or not 64 bits hold it. -/
def total : List (Entry K Int64) → Int
  | [] => 0
  | e :: es => e.value.toInt + total es

/-- What the entries of one class come to: the first key, with the sum of the values as far as 64
bits hold it. -/
def merged : List (Entry K Int64) → List (Entry K Int64)
  | [] => []
  | e :: es => [⟨e.key, .ofInt (total (e :: es))⟩]

@[simp] theorem total_nil : total ([] : List (Entry K Int64)) = 0 := rfl

@[simp] theorem total_cons (e : Entry K Int64) (es : List (Entry K Int64)) :
    total (e :: es) = e.value.toInt + total es := rfl

@[simp] theorem total_append (es fs : List (Entry K Int64)) :
    total (es ++ fs) = total es + total fs := by
  induction es with
  | nil => exact (Int.zero_add _).symm
  | cons e es ih => rw [List.cons_append, total_cons, total_cons, ih, Int.add_assoc]

theorem total_perm {es fs : List (Entry K Int64)} (h : es.Perm fs) : total es = total fs := by
  induction h with
  | nil => rfl
  | cons e _ ih => rw [total_cons, total_cons, ih]
  | swap e f es =>
    simp only [total_cons]
    omega
  | trans _ _ ih ih' => exact ih.trans ih'

theorem merged_singleton (e : Entry K Int64) : merged [e] = [e] := by
  simp [merged]

theorem merged_pair (e f : Entry K Int64) : merged [e, f] = [⟨e.key, e.value + f.value⟩] := by
  simp [merged, Int64.ofInt_add]

/-- A sum that wraps around on the way wraps around to the same at the end. -/
theorem ofInt_toInt_add (a b : Int) :
    Int64.ofInt ((Int64.ofInt a).toInt + b) = Int64.ofInt (a + b) := by
  rw [Int64.ofInt_add, Int64.ofInt_toInt, ← Int64.ofInt_add]

/-- What is merged early would be merged later. -/
theorem merged_merged_append (es fs : List (Entry K Int64)) :
    merged (merged es ++ fs) = merged (es ++ fs) := by
  cases es with
  | nil => rfl
  | cons e es =>
    show [Entry.mk e.key (Int64.ofInt ((Int64.ofInt (total (e :: es))).toInt + total fs))] =
      [⟨e.key, Int64.ofInt (total (e :: es ++ fs))⟩]
    rw [ofInt_toInt_add, total_append]

theorem head?_merged (es : List (Entry K Int64)) :
    (merged es).head? = es.head?.map fun e => ⟨e.key, .ofInt (total es)⟩ := by
  cases es <;> rfl

theorem merged_perm {es fs : List (Entry K Int64)} (h : es.Perm fs) :
    (merged es).map (·.value) = (merged fs).map (·.value) := by
  have htotal := total_perm h
  cases es with
  | nil => rw [h.nil_eq]
  | cons e es =>
    cases fs with
    | nil => cases h.eq_nil
    | cons f fs =>
      show [Int64.ofInt _] = [Int64.ofInt _]
      rw [htotal]

/-! ## Maps -/

namespace Flat

/-- The value that a map holds of the class of `k`, or zero if it holds none. -/
def balance (order : Comparator K) (c : Map K Int64) (k : K) : Int64 :=
  ((c.holder? order k).map (·.value)).getD 0

/-- `d` is valid, holds of each class what the entry of `c` and the items come to, and has one more
entry than `c` for each class of the items that is new. -/
structure AddsUp (order : Comparator K) (c : Map K Int64) (items : List (Entry K Int64))
    (d : Map K Int64) : Prop where
  validFor : d.ValidFor order
  ofClass_eq : ∀ k, ofClass order k d.toList =
    merged (ofClass order k c.toList ++ ofClass order k items)
  size_eq : d.size = c.size +
    (firsts order items).countP fun e => (c.holder? order e.key).isNone

/-- `d` is `c` with the amounts of the items added to the values of their classes. -/
structure Credited (order : Comparator K) (c : Map K Int64) (items : List (Entry K Int64))
    (d : Map K Int64) : Prop where
  validFor : d.ValidFor order
  /-- The value is that from before, or zero, plus the amounts as far as 64 bits hold the sum. -/
  balance_eq : ∀ k, d.balance order k =
    .ofInt ((c.balance order k).toInt + total (ofClass order k items))
  /-- The key is that from before, or else the first one of the items. -/
  key_eq : ∀ k, (d.holder? order k).map (·.key) =
    ((c.holder? order k).or (ofClass order k items).head?).map (·.key)
  /-- A class without an item is as it was. -/
  unpaid : ∀ k, ofClass order k items = [] → ofClass order k d.toList = ofClass order k c.toList
  /-- There is one entry more for each class of the items that was not held. -/
  size_eq : d.size = c.size +
    (firsts order items).countP fun e => (c.holder? order e.key).isNone

variable {c d f : Map K Int64}

/-- After an addition a class is new if it was and the addition was to another one. -/
theorem AddsUp.isNone_eq {e : Entry K Int64} (h : AddsUp order c [e] d) (k : K) :
    (d.holder? order k).isNone = ((c.holder? order k).isNone && !order.same e.key k) := by
  have hone : (ofClass order k [e]).head?.isNone = !order.same e.key k := by
    unfold ofClass
    cases hek : order.same e.key k <;> simp [hek]
  rw [holder?_eq_head?, holder?_eq_head?, h.ofClass_eq, head?_merged, Option.isNone_map,
    List.head?_append, ← hone]
  cases (ofClass order k c.toList).head? <;> rfl

theorem AddsUp.cons {e : Entry K Int64} {es : List (Entry K Int64)} (h : AddsUp order c [e] d)
    (h' : AddsUp order d es f) : AddsUp order c (e :: es) f := by
  refine ⟨h'.validFor, fun k => ?_, ?_⟩
  · rw [h'.ofClass_eq, h.ofClass_eq, merged_merged_append, List.append_assoc, ← ofClass_append]
    rfl
  · -- among the later items, those of the class of `e` start no class any more
    rw [h'.size_eq, h.size_eq]
    simp only [h.isNone_eq, firsts, List.countP_cons, List.countP_filter, List.filter_nil,
      List.countP_nil]
    omega

theorem AddsUp.value_eq_of_perm {items items' : List (Entry K Int64)}
    (hd : AddsUp order c items d) (hf : AddsUp order c items' f) (hperm : items'.Perm items)
    (k : K) : (f.holder? order k).map (·.value) = (d.holder? order k).map (·.value) := by
  have hclass : (ofClass order k items').Perm (ofClass order k items) := hperm.filter _
  rw [holder?_eq_head?, holder?_eq_head?, ← List.head?_map, ← List.head?_map, hd.ofClass_eq,
    hf.ofClass_eq, merged_perm (hclass.append_left _)]

variable [Std.TransCmp order]

/-- An entry of a valid map is what its class comes to. -/
theorem merged_ofClass (h : c.ValidFor order) (k : K) :
    merged (ofClass order k c.toList) = ofClass order k c.toList := by
  rcases ofClass_cases h k with he | ⟨e, he⟩
  · rw [he]
    rfl
  · rw [he, merged_singleton]

theorem total_ofClass (h : c.ValidFor order) (k : K) :
    total (ofClass order k c.toList) = (c.balance order k).toInt := by
  rw [balance, holder?_eq_head?]
  rcases ofClass_cases h k with he | ⟨e, he⟩
  · rw [he]
    rfl
  · rw [he]
    exact Int.add_zero _

theorem AddsUp.refl (h : c.ValidFor order) : AddsUp order c [] c := by
  refine ⟨h, fun k => ?_, rfl⟩
  rw [ofClass_nil, List.append_nil, merged_ofClass h]

/-! ## Values and keys -/

section

variable {items : List (Entry K Int64)} (h : c.ValidFor order) (hd : AddsUp order c items d)

include h hd

theorem AddsUp.balance_eq (k : K) : d.balance order k =
    Int64.ofInt ((c.balance order k).toInt + total (ofClass order k items)) := by
  rw [← total_ofClass h, ← total_append, balance, holder?_eq_head?, hd.ofClass_eq]
  cases ofClass order k c.toList ++ ofClass order k items <;> rfl

theorem AddsUp.credited : Credited order c items d where
  validFor := hd.validFor
  balance_eq := hd.balance_eq h
  key_eq k := by
    rw [holder?_eq_head?, holder?_eq_head?, hd.ofClass_eq, head?_merged, List.head?_append,
      Option.map_map]
    rfl
  unpaid k hk := by
    rw [hd.ofClass_eq, hk, List.append_nil, merged_ofClass h]
  size_eq := hd.size_eq

end

theorem AddsUp.balance_key_eq (h : c.ValidFor order) {e : Entry K Int64}
    (hd : AddsUp order c [e] d) :
    d.balance order e.key = c.balance order e.key + e.value := by
  rw [hd.balance_eq h, ofClass_cons_same (Comparator.eq_self _), ofClass_nil]
  simp [Int64.ofInt_add]

/-! ## Additions -/

/-- An addition to a class that is not held starts it at zero. -/
theorem addsUp_free (h : c.ValidFor order) {e : Entry K Int64}
    (he : ofClass order e.key c.toList = []) :
    AddsUp order c [e] ((c.place (rank .unique order e.key c.toList) ⟨e.key, default⟩).modify
      (rank .unique order e.key c.toList) (· + e.value)) := by
  have hzero : default + e.value = e.value := Int64.zero_add e.value
  obtain ⟨r, hr⟩ := exists_agrees h
  have hagrees := agrees_place_modify hr he default (· + e.value)
  rw [hzero] at hagrees
  refine ⟨hagrees.validFor, fun k => ?_, ?_⟩
  · rw [hagrees.ofClass_eq, r.content_add, ← hr.ofClass_eq]
    by_cases hek : order e.key k = .eq
    · rw [← ofClass_congr hek, he, List.nil_append, ofClass_cons_same hek, ofClass_nil,
        merged_singleton]
      rfl
    · rw [ofClass_cons_other hek, ofClass_nil, List.append_nil, h.keep_ofClass, merged_ofClass h]
  · rw [size_eq_length, toList_modify, List.length_modify, ← size_eq_length,
      size_place (rank_le_size e.key)]
    simp [firsts, holder?_of_nil he]

theorem addsUp_held (h : c.ValidFor order) {e old : Entry K Int64}
    (hold : ofClass order e.key c.toList = [old]) :
    AddsUp order c [e] (c.modify (rank .unique order e.key c.toList) (· + e.value)) := by
  obtain ⟨r, hr⟩ := exists_agrees h
  have hagrees := agrees_modify hr hold (· + e.value)
  refine ⟨hagrees.validFor, fun k => ?_, ?_⟩
  · rw [hagrees.ofClass_eq, r.content_change, ← hr.ofClass_eq]
    by_cases hek : order e.key k = .eq
    · rw [if_pos (Comparator.same_iff.mpr hek), ← ofClass_congr hek, hold,
        ofClass_cons_same hek, ofClass_nil]
      exact (merged_pair old e).symm
    · rw [if_neg (mt Comparator.same_iff.mp hek), ofClass_cons_other hek, ofClass_nil,
        List.append_nil, merged_ofClass h]
  · rw [size_eq_length, toList_modify, List.length_modify, ← size_eq_length]
    simp [firsts, holder?_of_ofClass hold]

variable [DecidableEq K] [Key K]

/-- One addition succeeds and answers the value that the class then has. -/
theorem exists_addsUp (h : c.ValidFor order) (e : Entry K Int64) :
    ∃ d : Map K Int64, AddsUp order c [e] d ∧
      (c.step (.credit e)).outcome = .ok (.value (d.balance order e.key), d.pack) := by
  rcases ofClass_cases h e.key with he | ⟨old, hold⟩
  · have hd := addsUp_free h he
    refine ⟨_, hd, ?_⟩
    rw [hd.balance_key_eq h, balance, holder?_of_nil he]
    show (attempting (c.getOrDefault e.key _) .value).outcome = _
    rw [attempting, value_getOrDefault_free h he]
    rfl
  · have hd := addsUp_held h hold
    refine ⟨_, hd, ?_⟩
    rw [hd.balance_key_eq h, balance, holder?_of_ofClass hold]
    show (attempting (c.getOrDefault e.key _) .value).outcome = _
    rw [attempting, value_getOrDefault_held h hold]
    rfl

end Flat

/-! ## Runs of additions -/

namespace Session

variable [DecidableEq K] [Key K] {s : Session K Int64} {c : Map K Int64}

/-- The reply tells the value that the class of the item has after the step. -/
def Tells (order : Comparator K) (e : Entry K Int64) (y : Reply K Int64) : Prop :=
  ∃ d : Map K Int64, y.session.current = d.pack ∧ y.answer = .ok (.value (d.balance order e.key))

/-- Additions succeed one after the other and add up. -/
theorem exists_credits [Std.TransCmp order] (h : c.ValidFor order) (hs : s.current = c.pack)
    (items : List (Entry K Int64)) :
    ∃ d : Map K Int64, s.after (items.map .credit) = { s with current := d.pack } ∧
      List.Forall₂ (Tells order) items (s.run (items.map .credit)) ∧ c.AddsUp order items d := by
  induction items generalizing s c with
  | nil =>
    refine ⟨c, ?_, .nil, .refl h⟩
    rw [← hs]
    rfl
  | cons e es ih =>
    obtain ⟨d, hone, hout⟩ := Flat.exists_addsUp h e
    have hcurrent := current_step hs hout
    obtain ⟨f, hafter, htells, hrest⟩ := ih hone.validFor hcurrent
    refine ⟨f, ?_, .cons ⟨d, hcurrent, answer_step_of_ok hs hout⟩ htells, hone.cons hrest⟩
    show (s.step (.credit e)).session.after (es.map .credit) = _
    rw [hafter, session_step_of_ok hs hout]

/-- Amounts that are added to a map one by one add up exactly: each addition tells the value that
its class then has, and in the end every class has the value from before, or zero, plus all of its
amounts, as far as 64 bits hold the sum. Stored keys stay, new classes have the first key that was
given for them, and classes without an item are as they were. The items may come in any order. -/
theorem credits_add_up [Std.TransCmp order] (hr : s.Reached order) (hs : s.current = c.pack)
    (items : List (Entry K Int64)) :
    ∃ d : Map K Int64, s.after (items.map .credit) = { s with current := d.pack } ∧
      List.Forall₂ (Tells order) items (s.run (items.map .credit)) ∧ c.Credited order items d ∧
      ∀ items' : List (Entry K Int64), items'.Perm items →
        ∃ d' : Map K Int64, s.after (items'.map .credit) = { s with current := d'.pack } ∧
          ∀ k, (d'.holder? order k).map (·.value) = (d.holder? order k).map (·.value) := by
  have hvalid : c.ValidFor order := hr.validFor_current hs
  obtain ⟨d, hafter, htells, hadds⟩ := exists_credits hvalid hs items
  refine ⟨d, hafter, htells, hadds.credited hvalid, fun items' hperm => ?_⟩
  obtain ⟨d', hafter', -, hadds'⟩ := exists_credits hvalid hs items'
  exact ⟨d', hafter', hadds.value_eq_of_perm hadds' hperm⟩

/-- Keys of one last digit are one class. The sum of the class of 13 passes the greatest value and
goes on from the least one, and the class of 24 is new. -/
theorem credits_add_up_digits :
    let s : Session Int64 Int64 :=
      Session.after ⟨.map (.empty KeyOrder.intMod.order), []⟩
        [.insert 13 9223372036854775807, .insert 1 1]
    let items : List (Entry Int64 Int64) := [⟨24, 5⟩, ⟨3, 2⟩, ⟨4, -7⟩]
    (s.after (items.map .credit)).current.toList =
        [⟨1, 1⟩, ⟨13, -9223372036854775807⟩, ⟨24, -2⟩] ∧
      ∃ c d : Map Int64 Int64, s.current = c.pack ∧
        (s.after (items.map .credit)).current = d.pack ∧
        d.balance KeyOrder.intMod.order 23 =
          .ofInt ((c.balance KeyOrder.intMod.order 23).toInt + 2) ∧
        d.balance KeyOrder.intMod.order 34 = .ofInt (5 + -7) ∧ d.size = c.size + 1 := by
  intro s items
  have hreached : s.Reached KeyOrder.intMod.order := ⟨.unique, .empty, _, _, rfl, rfl⟩
  obtain ⟨c, hs, hlist⟩ : ∃ c : Map Int64 Int64, s.current = c.pack ∧
      c.toList = [⟨1, 1⟩, ⟨13, 9223372036854775807⟩] := ⟨_, rfl, by decide +kernel⟩
  obtain ⟨d, hafter, -, hcredited, -⟩ := credits_add_up hreached hs items
  have hfour : c.holder? KeyOrder.intMod.order 34 = none := by
    rw [Flat.holder?, hlist]
    decide
  refine ⟨by decide +kernel, c, d, hs, by rw [hafter], hcredited.balance_eq 23, ?_, ?_⟩
  · rw [hcredited.balance_eq, Flat.balance, hfour]
    rfl
  · rw [hcredited.size_eq]
    simp only [Flat.holder?, hlist]
    exact congrArg (c.size + ·) (by decide +kernel)

end Session

end FlatAssoc
