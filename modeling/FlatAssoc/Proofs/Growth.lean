import FlatAssoc.Proofs.Places

/-!
# Growth

A container takes in entries if it then holds of each class what it keeps of the old entries
followed by the new ones (`Flat.TakesIn`). That determines its entries (`Flat.TakesIn.toList_eq`),
so single insertions and bulk loads agree as soon as each of them is shown to take in its entries:
`Flat.takesIn_insert`, `Flat.takesIn_append`, `Flat.takesIn_extend`, `Flat.takesIn_gatherInto`.
-/

namespace FlatAssoc

/-- Whether a container that holds `xs` of a class has no room for more of it. -/
def Multiplicity.full {α : Type} : Multiplicity → List α → Bool
  | .unique, xs => !xs.isEmpty
  | .repeated, _ => false

theorem Multiplicity.keep_append_of_full {α : Type} {m : Multiplicity} {xs ys : List α}
    (h : m.full xs = true) : m.keep (xs ++ ys) = m.keep xs := by
  cases m with
  | repeated => cases h
  | unique =>
    cases xs with
    | nil => cases h
    | cons x xs => rfl

theorem Multiplicity.keep_append_singleton {α : Type} {m : Multiplicity} {xs : List α} {x : α}
    (h : m.full xs = false) : m.keep (xs ++ [x]) = xs ++ [x] := by
  cases m with
  | repeated => rfl
  | unique =>
    cases xs with
    | nil => rfl
    | cons y ys => cases h

variable {m : Multiplicity} {K V : Type} {order : Comparator K}

/-- How many entries an entry of the class of `k` has before it: those of smaller keys, and in a
repeated container those of its class as well if it is new. -/
def rank (m : Multiplicity) (order : Comparator K) (k : K) (es : List (Entry K V)) : Nat :=
  match m with
  | .unique => es.countP fun e => order e.key k == .lt
  | .repeated => es.countP fun e => order e.key k != .gt

/-- `e` after all entries whose keys are not greater. -/
def joined (order : Comparator K) (e : Entry K V) (es : List (Entry K V)) : List (Entry K V) :=
  (es.filter fun x => order x.key e.key != .gt) ++
    e :: es.filter fun x => !(order x.key e.key != .gt)

section

variable [Std.TransCmp order]

theorem sorted_joined {es : List (Entry K V)} (h : Sorted order es) (e : Entry K V) :
    Sorted order (joined order e es) := by
  refine List.pairwise_append.mpr ⟨h.sublist List.filter_sublist,
    List.pairwise_cons.mpr ⟨fun a ha => ?_, h.sublist List.filter_sublist⟩, fun a ha b hb => ?_⟩
  · exact Comparator.ne_gt_of_gt (by simpa using (List.mem_filter.mp ha).2)
  · have hae : order a.key e.key ≠ .gt := by simpa using (List.mem_filter.mp ha).2
    rcases List.mem_cons.mp hb with rfl | hb
    · exact hae
    · have hbe : order b.key e.key = .gt := by simpa using (List.mem_filter.mp hb).2
      exact Comparator.ne_gt_trans hae (Comparator.ne_gt_of_gt hbe)

/-- The new entry is the last of its class, and the other classes are as they were. -/
theorem ofClass_joined (k : K) (e : Entry K V) (es : List (Entry K V)) :
    ofClass order k (joined order e es) = ofClass order k es ++ ofClass order k [e] := by
  have hcongr (a : K) (ha : order a k = .eq) : order a e.key = order k e.key :=
    Std.TransCmp.congr_left ha
  have hfront := ofClass_filter (fun a => order a e.key != .gt)
    (fun a ha => by rw [hcongr a ha]) es
  have hback := ofClass_filter (fun a => !(order a e.key != .gt))
    (fun a ha => by rw [hcongr a ha]) es
  rw [joined, ofClass_append, hfront]
  by_cases hek : order e.key k = .eq
  · have hke : order k e.key = .eq := Std.OrientedCmp.eq_symm hek
    rw [ofClass_cons_same hek, ofClass_cons_same hek, hback, ofClass_nil]
    simp [hke]
  · rw [ofClass_cons_other hek, ofClass_cons_other hek, hback, ofClass_nil]
    cases order k e.key <;> simp

end

namespace Flat

variable {c d : Flat m K V}

theorem rank_le_size (k : K) : rank m order k c.toList ≤ c.size := by
  rw [size_eq_length]
  cases m <;> exact List.countP_le_length

/-- A class with room for another entry gets it after all entries that are not greater. -/
theorem rank_eq_of_room {k : K} {es : List (Entry K V)}
    (h : m.full (ofClass order k es) = false) :
    rank m order k es = es.countP fun e => order e.key k != .gt := by
  cases m with
  | repeated => rfl
  | unique =>
    have hnil : ofClass order k es = [] := by simpa [Multiplicity.full] using h
    refine List.countP_congr fun e he => ?_
    have hne := ofClass_eq_nil.mp hnil e he
    cases hk : order e.key k with
    | eq => exact absurd hk hne
    | lt | gt => simp

section

variable [Std.TransCmp order]

/-- Where an entry is or goes, as a number of stored keys. -/
theorem value_spot (h : c.ValidFor order) (k : K) :
    (c.spot k).value =
      if m.full (ofClass order k c.toList) then .held (rank m order k c.toList)
      else .free (rank m order k c.toList) := by
  obtain ⟨rfl, hvalid⟩ := h
  cases m with
  | repeated => exact congrArg Spot.free (value_insertPosition hvalid k)
  | unique =>
    refine (value_locate hvalid k).trans ?_
    cases hclass : (ofClass c.order k c.toList).isEmpty <;> simp [Multiplicity.full, hclass, rank]

theorem toList_place_rank (h : c.ValidFor order) {e : Entry K V}
    (hroom : m.full (ofClass order e.key c.toList) = false) :
    (c.place (rank m order e.key c.toList) e).toList = joined order e c.toList := by
  obtain ⟨rfl, hvalid⟩ := h
  have hlead := hvalid.leading_ne_gt e.key
  rw [rank_eq_of_room hroom, toList_place c _ e, hlead.take_countP, hlead.drop_countP, joined]
  rw [size_eq_length]
  exact List.countP_le_length

/-- An entry is added unless its class is full, and only then is its value made. -/
theorem value_emplace {μ : Type → Type} [Monad μ] [MonadStateOf (Flat m K V) μ]
    (h : c.ValidFor order) (k : K) (make : μ V) :
    (c.emplace k make).value =
      if m.full (ofClass order k c.toList) then pure ⟨rank m order k c.toList, false⟩
      else (do
        let v ← make
        modifyThe (Flat m K V) (·.place (rank m order k c.toList) ⟨k, v⟩)
        pure ⟨rank m order k c.toList, true⟩) := by
  rw [emplace, Noted.value_map, value_spot h]
  cases m.full (ofClass order k c.toList) <;> rfl

theorem value_insert (h : c.ValidFor order) (k : K) (v : V) :
    (c.insert k v).value =
      if m.full (ofClass order k c.toList) then (⟨rank m order k c.toList, false⟩, c)
      else (⟨rank m order k c.toList, true⟩, c.place (rank m order k c.toList) ⟨k, v⟩) := by
  rw [insert, Noted.value_map, value_emplace h]
  cases m.full (ofClass order k c.toList) <;> rfl

end

/-! ## Taking in -/

/-- `d` is valid and holds of each class what a container keeps of the entries of `c` followed by
`es`. -/
structure TakesIn (order : Comparator K) (c : Flat m K V) (es : List (Entry K V))
    (d : Flat m K V) : Prop where
  validFor : d.ValidFor order
  ofClass_eq : ∀ k, ofClass order k d.toList =
    m.keep (ofClass order k c.toList ++ ofClass order k es)

variable {es fs : List (Entry K V)} {f : Flat m K V}

theorem TakesIn.trans (h : TakesIn order c es d) (h' : TakesIn order d fs f) :
    TakesIn order c (es ++ fs) f := by
  refine ⟨h'.validFor, fun k => ?_⟩
  rw [h'.ofClass_eq, h.ofClass_eq, Multiplicity.keep_keep_append, List.append_assoc,
    ofClass_append]

variable [Std.TransCmp order]

/-- Validity follows from what is held of each class. -/
theorem TakesIn.of_sorted (ho : d.order = order) (hs : Sorted order d.toList)
    (hk : ∀ k, ofClass order k d.toList =
      m.keep (ofClass order k c.toList ++ ofClass order k es)) : TakesIn order c es d := by
  refine ⟨validFor_iff.mpr ⟨ho, hs, fun k => ?_⟩, hk⟩
  rw [hk, Multiplicity.keep_keep]

theorem TakesIn.refl (h : c.ValidFor order) : TakesIn order c [] c :=
  ⟨h, fun k => by simpa using (h.keep_ofClass k).symm⟩

theorem TakesIn.toList_eq (h : TakesIn order c es d) (h' : TakesIn order c es f) :
    d.toList = f.toList :=
  h.validFor.sorted.ext h'.validFor.sorted fun k => (h.ofClass_eq k).trans (h'.ofClass_eq k).symm

theorem takesIn_place (h : c.ValidFor order) {e : Entry K V}
    (hroom : m.full (ofClass order e.key c.toList) = false) :
    TakesIn order c [e] (c.place (rank m order e.key c.toList) e) := by
  have hlist := toList_place_rank h hroom
  refine .of_sorted h.order_eq ?_ fun k => ?_
  · rw [hlist]
    exact sorted_joined h.sorted e
  · have hkeep := h.keep_ofClass k
    rw [hlist, ofClass_joined]
    by_cases hek : order e.key k = .eq
    · rw [ofClass_cons_same hek, ofClass_nil]
      refine (Multiplicity.keep_append_singleton ?_).symm
      rwa [← ofClass_congr hek]
    · rw [ofClass_cons_other hek, ofClass_nil, List.append_nil, hkeep]

/-- Entries whose classes are full are taken in by leaving all as it is. -/
theorem takesIn_of_full (h : c.ValidFor order)
    (hfull : ∀ e ∈ es, m.full (ofClass order e.key c.toList) = true) : TakesIn order c es c := by
  refine ⟨h, fun k => ?_⟩
  by_cases hnil : ofClass order k es = []
  · rw [hnil, List.append_nil, h.keep_ofClass]
  · obtain ⟨e, he⟩ := List.exists_mem_of_ne_nil _ hnil
    obtain ⟨hmem, hek⟩ := mem_ofClass.mp he
    have hk := hfull e hmem
    rw [ofClass_congr hek] at hk
    rw [Multiplicity.keep_append_of_full hk, h.keep_ofClass]

theorem takesIn_self (h : c.ValidFor order) {e : Entry K V}
    (hfull : m.full (ofClass order e.key c.toList) = true) : TakesIn order c [e] c :=
  takesIn_of_full h fun _ hf => List.mem_singleton.mp hf ▸ hfull

theorem takesIn_insert (h : c.ValidFor order) (k : K) (v : V) :
    TakesIn order c [⟨k, v⟩] (c.insert k v).value.2 := by
  rw [value_insert h]
  split
  · rename_i hfull
    exact takesIn_self h hfull
  · rename_i hroom
    exact takesIn_place (e := ⟨k, v⟩) h (by simpa using hroom)

theorem takesIn_foldl_insert (h : c.ValidFor order) (es : List (Entry K V)) :
    TakesIn order c es (es.foldl (fun c e => (c.insert e.key e.value).value.2) c) := by
  induction es generalizing c with
  | nil => exact .refl h
  | cons e es ih =>
    have hone := takesIn_insert h e.key e.value
    exact hone.trans (ih hone.validFor)

theorem takesIn_append (h : c.ValidFor order) (es : List (Entry K V)) :
    TakesIn order c es (c.append es).value := by
  obtain ⟨rfl, hvalid⟩ := h
  by_cases hnil : es = []
  · rw [hnil, append_nil]
    exact .refl ⟨rfl, hvalid⟩
  · have hlist := toList_append c hnil
    refine .of_sorted ?_ ?_ fun k => ?_
    · unfold append
      split <;> rfl
    · rw [hlist]
      exact sorted_settle (sorted_arrange _)
    · rw [hlist, ofClass_settle (sorted_arrange _), ofClass_arrange, ofClass_append]

/-- Sorting the entries before they are appended changes nothing. -/
theorem takesIn_gatherInto (h : c.ValidFor order) (es : List (Entry K V)) :
    TakesIn order c es (c.gatherInto es).value := by
  have happend := takesIn_append h (arrange c.order es)
  refine ⟨happend.validFor, fun k => (happend.ofClass_eq k).trans ?_⟩
  rw [h.order_eq, ofClass_arrange]

/-- The entries that an extension takes from a source that promises at most `upper` of them. -/
def taken (upper : Option Nat) (es : List (Entry K V)) : List (Entry K V) :=
  match upper with
  | some 0 => []
  | some 1 => es.take 1
  | _ => es

theorem takesIn_extend (h : c.ValidFor order) (upper : Option Nat) (es : List (Entry K V)) :
    TakesIn order c (taken upper es) (c.extend upper es).value := by
  match upper, es with
  | some 0, _ => exact .refl h
  | some 1, [] => exact .refl h
  | some 1, e :: _ => exact takesIn_insert h e.key e.value
  | none, es => exact takesIn_append h es
  | some (n + 2), es => exact takesIn_append h es

end Flat

end FlatAssoc
