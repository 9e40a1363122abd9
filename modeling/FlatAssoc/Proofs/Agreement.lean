import FlatAssoc.Proofs.ClassMap
import FlatAssoc.Proofs.Runs

/-!
# Agreement with maps from classes

A container agrees with a map from classes if it is valid and holds of each class what the map
holds; its entries are then those that the map lists (`Flat.Agrees.toList_eq`). Taking in, taking
out and changing one entry keep the two in agreement.
-/

namespace FlatAssoc

variable {m : Multiplicity} {K V : Type} {order : Comparator K}

/-! ## One entry among those of its class -/

section

theorem eraseIdx_split {α : Type} (front back : List α) (x : α) :
    (front ++ x :: back).eraseIdx front.length = front ++ back := by
  rw [List.eraseIdx_append_of_length_le (Nat.le_refl _), Nat.sub_self, List.eraseIdx_cons_zero]

theorem modify_split {α : Type} (front back : List α) (x : α) (f : α → α) :
    (front ++ x :: back).modify front.length f = front ++ f x :: back := by
  rw [Buffer.modify_append, if_neg (Nat.lt_irrefl _), Nat.sub_self, List.modify_zero_cons]

variable {es : List (Entry K V)} {i : Nat} {e : Entry K V}

theorem exists_split (h : es[i]? = some e) :
    ∃ front back, es = front ++ e :: back ∧ front.length = i := by
  obtain ⟨hi, rfl⟩ := List.getElem?_eq_some_iff.mp h
  refine ⟨es.take i, es.drop (i + 1), ?_, List.length_take_of_le (Nat.le_of_lt hi)⟩
  rw [← List.drop_eq_getElem_cons hi, List.take_append_drop]

theorem ofClass_eraseIdx (h : es[i]? = some e) (k : K) :
    ofClass order k (es.eraseIdx i) =
      if order.same e.key k then (ofClass order k es).eraseIdx (ofClass order k (es.take i)).length
      else ofClass order k es := by
  obtain ⟨front, back, rfl, rfl⟩ := exists_split h
  rw [List.take_left, eraseIdx_split, ofClass_append, ofClass_append]
  split
  · rename_i hek
    rw [ofClass_cons_same (Comparator.same_iff.mp hek), eraseIdx_split]
  · rename_i hek
    rw [ofClass_cons_other (mt Comparator.same_iff.mpr hek)]

theorem ofClass_modify (h : es[i]? = some e) (f : V → V) (k : K) :
    ofClass order k (es.modify i (·.update f)) =
      if order.same e.key k then
        (ofClass order k es).modify (ofClass order k (es.take i)).length (·.update f)
      else ofClass order k es := by
  obtain ⟨front, back, rfl, rfl⟩ := exists_split h
  rw [List.take_left, modify_split, ofClass_append, ofClass_append]
  split
  · rename_i hek
    have hek : order e.key k = .eq := Comparator.same_iff.mp hek
    have hup : order (e.update f).key k = .eq := hek
    rw [ofClass_cons_same hup, ofClass_cons_same hek, modify_split]
  · rename_i hek
    have hek : order e.key k ≠ .eq := mt Comparator.same_iff.mpr hek
    have hup : order (e.update f).key k ≠ .eq := hek
    rw [ofClass_cons_other hup, ofClass_cons_other hek]

end

namespace Flat

variable {c d : Flat m K V}

/-! ## The first match of a key -/

section

variable [Std.TransCmp order] (h : c.ValidFor order) {k : K} {e : Entry K V}
  {es : List (Entry K V)}

include h

theorem value_find?_held (he : ofClass order k c.toList = e :: es) :
    (c.find? (order.probe k)).value = some (rank .unique order k c.toList) := by
  rw [value_find? (h.consistentWith k)]
  simp only [Comparator.probe_apply, any_match_eq_not_isEmpty, he]
  rfl

theorem value_find?_free (he : ofClass order k c.toList = []) :
    (c.find? (order.probe k)).value = none := by
  rw [value_find? (h.consistentWith k)]
  simp only [Comparator.probe_apply, any_match_eq_not_isEmpty, he]
  rfl

theorem getElem?_rank (he : ofClass order k c.toList = e :: es) :
    c.toList[rank .unique order k c.toList]? = some e := by
  rw [← get?_eq]
  exact get?_rank h he

/-- Before the first match there is nothing of its class. -/
theorem ofClass_take_rank (k : K) :
    ofClass order k (c.toList.take (rank .unique order k c.toList)) = [] := by
  have hlead : Buffer.Leading (fun e : Entry K V => order e.key k == .lt) c.toList :=
    (h.consistentWith k).leading_lt
  rw [rank, hlead.take_countP]
  refine ofClass_eq_nil.mpr fun x hx heq => ?_
  have hlt := (List.mem_filter.mp hx).2
  rw [heq] at hlt
  cases hlt

end

/-! ## Agreement -/

/-- The container is valid and holds of each class what the map holds of it. -/
structure Agrees (c : Flat m K V) (r : ClassMap m order V) : Prop where
  validFor : c.ValidFor order
  ofClass_eq : ∀ k, ofClass order k c.toList = r.content k

variable {r : ClassMap m order V}

theorem agrees_empty : (empty order : Flat m K V).Agrees (.empty : ClassMap m order V) :=
  ⟨validFor_empty, fun _ => rfl⟩

theorem Agrees.of_toList_eq (h : c.Agrees r) (ho : d.order = c.order)
    (hl : d.toList = c.toList) : d.Agrees r := by
  refine ⟨h.validFor.of_sublist ho ?_, fun k => ?_⟩
  · rw [keys, hl]
    exact List.Sublist.refl _
  · rw [hl, h.ofClass_eq]

theorem Agrees.of_content_eq (h : c.Agrees r) {r' : ClassMap m order V}
    (hr : ∀ k, r'.content k = r.content k) : c.Agrees r' :=
  ⟨h.validFor, fun k => (h.ofClass_eq k).trans (hr k).symm⟩

variable [Std.TransCmp order]

theorem Agrees.toList_eq (h : c.Agrees r) : c.toList = r.listing :=
  h.validFor.sorted.ext r.sorted_listing fun k =>
    (h.ofClass_eq k).trans (r.ofClass_listing k).symm

theorem Agrees.add (h : c.Agrees r) {e : Entry K V} (hd : c.TakesIn order [e] d) :
    d.Agrees (r.add e) := by
  refine ⟨hd.validFor, fun k => ?_⟩
  rw [hd.ofClass_eq, h.ofClass_eq, r.content_add]

theorem Agrees.addAll (h : c.Agrees r) {es : List (Entry K V)} (hd : c.TakesIn order es d) :
    d.Agrees (r.addAll es) := by
  refine ⟨hd.validFor, fun k => ?_⟩
  rw [hd.ofClass_eq, h.ofClass_eq, r.content_addAll]

theorem Agrees.erase (h : c.Agrees r) {i : Nat} {e : Entry K V} (he : c.toList[i]? = some e)
    {k : K} (hek : order e.key k = .eq) :
    (c.eraseIdx i).Agrees (r.erase k (ofClass order k (c.toList.take i)).length) := by
  refine ⟨validFor_eraseIdx h.validFor i, fun a => ?_⟩
  rw [toList_eraseIdx, ofClass_eraseIdx he, ClassMap.content_erase, h.ofClass_eq,
    Comparator.same_congr_left hek]
  split
  · rename_i hka
    rw [ofClass_congr (Comparator.same_iff.mp hka)]
  · rfl

theorem Agrees.change (h : c.Agrees r) {i : Nat} {e : Entry K V} (he : c.toList[i]? = some e)
    {k : K} (hek : order e.key k = .eq) (hfirst : ofClass order k (c.toList.take i) = [])
    (f : V → V) : (c.modify i f).Agrees (r.change k f) := by
  refine ⟨validFor_modify h.validFor i f, fun a => ?_⟩
  rw [toList_modify, ofClass_modify he, ClassMap.content_change, h.ofClass_eq,
    Comparator.same_congr_left hek]
  split
  · rename_i hka
    rw [← ofClass_congr (Comparator.same_iff.mp hka) (c.toList.take i), hfirst]
    rfl
  · rfl

theorem Agrees.drop (h : c.Agrees r) {k : K} (ho : d.order = c.order)
    (hl : d.toList = c.toList.filter fun e => order e.key k != .eq) : d.Agrees (r.drop k) := by
  refine ⟨h.validFor.of_sublist ho ?_, fun a => ?_⟩
  · rw [keys, hl]
    exact List.filter_sublist.map _
  · rw [hl, ofClass_filter_ne, ClassMap.content_drop, h.ofClass_eq]

/-- Where nothing of a class is held there is nothing to change. -/
theorem Agrees.change_free (h : c.Agrees r) {k : K} (he : ofClass order k c.toList = [])
    (f : V → V) : c.Agrees (r.change k f) := by
  rw [h.ofClass_eq] at he
  refine h.of_content_eq fun a => ?_
  rw [ClassMap.content_change]
  exact ClassMap.content_of_nil he (fun es => es.modify 0 (·.update f)) rfl a

theorem Agrees.erase_free (h : c.Agrees r) {k : K} (he : ofClass order k c.toList = [])
    (n : Nat) : c.Agrees (r.erase k n) := by
  rw [h.ofClass_eq] at he
  refine h.of_content_eq fun a => ?_
  rw [ClassMap.content_erase]
  exact ClassMap.content_of_nil he (fun es => es.eraseIdx n) rfl a

end Flat

end FlatAssoc
