import FlatAssoc.Proofs.Runs

/-!
# Constructions

A container may be built from a list of items at once, by several workers, from a document that
lists them, or by one insertion after the other. Each way takes in the items from nothing, so all
of them end in the same entries: the stable sort of the items, of which a unique container admits
the first of each class (`Flat.TakesIn.toList_eq_arrange`).
-/

namespace FlatAssoc

variable {m : Multiplicity} {K V : Type} {order : Comparator K}

/-! ## Stable sorts -/

/-- `fs` are the entries of `es` in the order of their keys, those of each class in the order in
which they came. -/
structure IsStableSort (order : Comparator K) (es fs : List (Entry K V)) : Prop where
  perm : fs.Perm es
  sorted : Sorted order fs
  stable : ∀ k, ofClass order k fs = ofClass order k es

section

variable [Std.TransCmp order]

theorem isStableSort_arrange (es : List (Entry K V)) :
    IsStableSort order es (Flat.arrange order es) :=
  ⟨List.mergeSort_perm es _, Flat.sorted_arrange es, fun k => Flat.ofClass_arrange k es⟩

theorem IsStableSort.unique {es fs gs : List (Entry K V)} (hf : IsStableSort order es fs)
    (hg : IsStableSort order es gs) : fs = gs := by
  apply hf.sorted.ext hg.sorted
  intro k
  rw [hf.stable, hg.stable]

end

/-! ## First items -/

/-- The first item of each class, in the order of the list. -/
def firsts (order : Comparator K) : List (Entry K V) → List (Entry K V)
  | [] => []
  | e :: es => e :: (firsts order es).filter fun f => !order.same e.key f.key

theorem firsts_sublist (es : List (Entry K V)) : (firsts order es).Sublist es := by
  induction es with
  | nil => exact List.Sublist.slnil
  | cons e es ih => exact (List.filter_sublist.trans ih).cons_cons e

theorem ofClass_firsts [Std.TransCmp order] (k : K) (es : List (Entry K V)) :
    ofClass order k (firsts order es) = (ofClass order k es).take 1 := by
  induction es with
  | nil => rfl
  | cons e es ih =>
    -- the filter drops the class of the head and leaves all others alone
    have hrest : ofClass order k ((firsts order es).filter fun f => !order.same e.key f.key) =
        if !order.same e.key k then ofClass order k (firsts order es) else [] :=
      ofClass_filter (fun a => !order.same e.key a)
        (fun a ha => by rw [Comparator.same_congr_right ha]) _
    rw [firsts]
    by_cases hek : order e.key k = .eq
    · rw [ofClass_cons_same hek, ofClass_cons_same hek, hrest, Comparator.same_iff.mpr hek]
      rfl
    · rw [ofClass_cons_other hek, ofClass_cons_other hek, hrest,
        Comparator.same_eq_false.mpr hek, ← ih]
      rfl

/-- The items that a container built from a list holds: all of them, or the first of each class. -/
def Multiplicity.admitted (m : Multiplicity) (order : Comparator K) (es : List (Entry K V)) :
    List (Entry K V) :=
  match m with
  | .unique => firsts order es
  | .repeated => es

theorem Multiplicity.ofClass_admitted [Std.TransCmp order] (m : Multiplicity) (k : K)
    (es : List (Entry K V)) :
    ofClass order k (m.admitted order es) = m.keep (ofClass order k es) := by
  cases m with
  | unique => exact ofClass_firsts k es
  | repeated => rfl

/-! ## Loads from nothing -/

namespace Flat

variable [Std.TransCmp order] {c : Flat m K V} {es : List (Entry K V)}

/-- What is taken in from nothing ends up as the stable sort of what is admitted of it. -/
theorem TakesIn.toList_eq_arrange (h : TakesIn order (empty order) es c) :
    c.toList = arrange order (m.admitted order es) := by
  apply h.validFor.sorted.ext (sorted_arrange _)
  intro k
  rw [h.ofClass_eq, ofClass_arrange, m.ofClass_admitted]
  rfl

/-- Settled entries of a sorted list are taken in from nothing. -/
theorem takesIn_settled {fs : List (Entry K V)} (ho : c.order = order) (hs : Sorted order fs)
    (hf : ∀ k, ofClass order k fs = ofClass order k es)
    (hc : c.toList = (settle m order fs).value) : TakesIn order (empty order) es c := by
  refine .of_sorted ho ?_ fun k => ?_
  · rw [hc]
    exact sorted_settle hs
  · rw [hc, ofClass_settle hs, hf]
    rfl

theorem takesIn_ofList (es : List (Entry K V)) :
    TakesIn order (empty order) es (ofList order es : Reported (Flat m K V)).value :=
  takesIn_settled rfl (sorted_arrange es) (fun k => ofClass_arrange k es) (toList_ofList order es)

theorem takesIn_gather (es : List (Entry K V)) :
    TakesIn order (empty order) es (gather order es : Reported (Flat m K V)).value :=
  takesIn_settled rfl (sorted_arrange es) (fun k => ofClass_arrange k es) (toList_gather order es)

/-- A valid container is what taking in its entries from nothing leads to. -/
theorem takesIn_toList (h : c.ValidFor order) : TakesIn order (empty order) c.toList c := by
  refine ⟨h, fun k => ?_⟩
  exact (h.keep_ofClass k).symm

theorem toList_rebuild (h : c.ValidFor order) : c.rebuild.value.toList = c.toList := by
  rw [rebuild_eq h]
  exact (takesIn_ofList c.toList).toList_eq (takesIn_toList h)

end Flat

namespace Build

variable [Document K V]

/-- A build from `items`: at once, by several workers, from a document that lists them, or by one
insertion after the other. -/
inductive Loads (items : List (Entry K V)) : Build K V → Prop
  | collected : Loads items (.collected items)
  | gathered : Loads items (.gathered items)
  | document {text : String} (h : Document.read text.toList = .ok items) :
    Loads items (.document text)
  | inserted : Loads items (.inserted items)

theorem run_document {text : String} {items : List (Entry K V)}
    (h : Document.read text.toList = .ok items) :
    (document text : Build K V).run m order = .ok (Flat.ofList order items) := by
  simp only [run, h]

theorem Loads.takesIn {items : List (Entry K V)} {b : Build K V} (h : b.Loads items)
    (m : Multiplicity) (order : Comparator K) [Std.TransCmp order] :
    ∃ x, b.run m order = .ok x ∧ Flat.TakesIn order (.empty order) items x.value := by
  cases h with
  | collected => exact ⟨_, rfl, Flat.takesIn_ofList items⟩
  | gathered => exact ⟨_, rfl, Flat.takesIn_gather items⟩
  | document h => exact ⟨_, run_document h, Flat.takesIn_ofList items⟩
  | inserted => exact ⟨_, rfl, Flat.takesIn_foldl_insert Flat.validFor_empty items⟩

/-- All ways of building a container from a list of items succeed and end in the same entries,
which are the stable sort of the items, or for a unique container of the first item of each
class. -/
theorem toList_run (m : Multiplicity) (order : Comparator K) [Std.TransCmp order]
    (items : List (Entry K V)) :
    ∃ entries, IsStableSort order (m.admitted order items) entries ∧
      ∀ b : Build K V, b.Loads items →
        ∃ x, b.run m order = .ok x ∧ x.value.order = order ∧ x.value.toList = entries := by
  refine ⟨_, isStableSort_arrange _, fun b hb => ?_⟩
  obtain ⟨x, hx, htaken⟩ := hb.takesIn m order
  exact ⟨x, hx, htaken.validFor.order_eq, htaken.toList_eq_arrange⟩

/-- Keys of one last digit are one class, of which a map admits the key that the document lists
first. -/
theorem toList_run_digits :
    let items : List (Entry Int64 Int64) := [⟨13, 0⟩, ⟨1, 1⟩, ⟨3, 2⟩]
    let text := "\x7b\"13\":0, \"1\":1, \"3\":2\x7d"
    Document.read text.toList = .ok items ∧
      Multiplicity.unique.admitted KeyOrder.intMod.order items = [⟨13, 0⟩, ⟨1, 1⟩] ∧
      ∃ entries, IsStableSort KeyOrder.intMod.order [⟨13, 0⟩, ⟨1, 1⟩] entries ∧
        ∃ x, (document text : Build Int64 Int64).run .unique KeyOrder.intMod.order = .ok x ∧
          x.value.toList = entries := by
  intro items text
  have hread : Document.read text.toList = .ok items := by
    subst items text
    with_unfolding_all rfl
  have hfirsts : Multiplicity.unique.admitted KeyOrder.intMod.order items =
      [⟨13, 0⟩, ⟨1, 1⟩] := by decide
  obtain ⟨entries, hsort, hrun⟩ := toList_run .unique KeyOrder.intMod.order items
  obtain ⟨x, hx, -, hlist⟩ := hrun _ (.document hread)
  exact ⟨hread, hfirsts, entries, hfirsts ▸ hsort, x, hx, hlist⟩

end Build

end FlatAssoc
