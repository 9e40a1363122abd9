import FlatAssoc.Proofs.Growth
import FlatAssoc.Session.Step

/-!
# Maps from classes

A reference for containers that knows nothing of buffers or searches: it keeps the entries of each
class apart from those of the others, one of them or a queue of them, and lists the classes in
their order. Operations reach one class and leave the others alone.
-/

namespace FlatAssoc

/-- A map from the classes of `order` to what is held of them, the oldest entry first. -/
structure ClassMap {K : Type} (m : Multiplicity) (order : Comparator K) (V : Type) where
  /-- One key of each class that may hold something. -/
  classes : List K
  /-- What is held of the class of a key. -/
  content : K → List (Entry K V)
  distinct : classes.Pairwise fun a b => order a b ≠ .eq
  covered : ∀ k, content k ≠ [] → ∃ a ∈ classes, order a k = .eq
  respects : ∀ a b, order a b = .eq → content a = content b
  ofOneClass : ∀ k, ∀ e ∈ content k, order e.key k = .eq
  /-- Of a unique class, one entry at most. -/
  kept : ∀ k, m.keep (content k) = content k

namespace ClassMap

variable {m : Multiplicity} {K V : Type} {order : Comparator K}

/-- Nothing of any class. -/
def empty : ClassMap m order V where
  classes := []
  content _ := []
  distinct := .nil
  covered _ h := absurd rfl h
  respects _ _ _ := rfl
  ofOneClass _ _ h := nomatch h
  kept _ := Multiplicity.keep_nil m

/-! ## The listing -/

/-- The classes in their order. -/
def ranked (r : ClassMap m order V) : List K := r.classes.mergeSort order.le

/-- The entries of all classes, class after class. -/
def listing (r : ClassMap m order V) : List (Entry K V) := r.ranked.flatMap r.content

variable {r : ClassMap m order V}

theorem mem_ranked {k : K} : k ∈ r.ranked ↔ k ∈ r.classes := List.mem_mergeSort

theorem ofClass_content_same {a k : K} (h : order a k = .eq) :
    ofClass order k (r.content a) = r.content k := by
  rw [r.respects a k h]
  exact List.filter_eq_self.mpr fun e he => Comparator.same_iff.mpr (r.ofOneClass k e he)

variable [Std.TransCmp order]

theorem ofClass_content_other {a k : K} (h : order a k ≠ .eq) :
    ofClass order k (r.content a) = [] :=
  ofClass_eq_nil.mpr fun e he hek =>
    h (Std.TransCmp.eq_trans (Std.OrientedCmp.eq_symm (r.ofOneClass a e he)) hek)

theorem distinct_ranked (r : ClassMap m order V) : r.ranked.Pairwise fun a b => order a b ≠ .eq :=
  (List.mergeSort_perm _ _).symm.pairwise r.distinct fun h heq => h (Std.OrientedCmp.eq_symm heq)

theorem sorted_ranked (r : ClassMap m order V) : r.ranked.Pairwise fun a b => order a b ≠ .gt :=
  (List.pairwise_mergeSort Comparator.le_trans Comparator.le_total r.classes).imp
    Ordering.isLE_iff_ne_gt.mp

/-- Among distinct classes, one at most is that of `k`. -/
theorem ofClass_flatMap {ks : List K} (h : ks.Pairwise fun a b => order a b ≠ .eq) (k : K) :
    ofClass order k (ks.flatMap r.content) =
      if ks.any (order.same · k) then r.content k else [] := by
  induction ks with
  | nil => rfl
  | cons a ks ih =>
    rw [List.flatMap_cons, ofClass_append, ih h.of_cons, List.any_cons]
    by_cases hak : order a k = .eq
    · have hrest : ks.any (order.same · k) = false := by
        refine List.any_eq_false.mpr fun b hb hbk => ?_
        have hkb : order k b = .eq := Std.OrientedCmp.eq_symm (Comparator.same_iff.mp hbk)
        exact List.rel_of_pairwise_cons h hb (Std.TransCmp.eq_trans hak hkb)
      rw [ofClass_content_same hak, hrest, Comparator.same_iff.mpr hak]
      simp
    · rw [ofClass_content_other hak, Comparator.same_eq_false.mpr hak]
      simp

/-- If the class of `k` is among distinct classes unless nothing is held of it, they hold what the
map holds of it. -/
theorem ofClass_flatMap_of_covered {ks : List K} (h : ks.Pairwise fun a b => order a b ≠ .eq)
    {k : K} (hk : r.content k ≠ [] → ∃ a ∈ ks, order a k = .eq) :
    ofClass order k (ks.flatMap r.content) = r.content k := by
  rw [ofClass_flatMap h]
  split
  · rfl
  · rename_i hany
    by_cases hnil : r.content k = []
    · exact hnil.symm
    · obtain ⟨a, ha, hak⟩ := hk hnil
      refine absurd ?_ hany
      exact List.any_eq_true.mpr ⟨a, ha, Comparator.same_iff.mpr hak⟩

theorem sorted_flatMap {ks : List K} (h : ks.Pairwise fun a b => order a b ≠ .gt)
    (r : ClassMap m order V) : Sorted order (ks.flatMap r.content) := by
  refine List.pairwise_flatMap.mpr ⟨fun a _ => sorted_of_class (r.ofOneClass a), ?_⟩
  refine h.imp fun {a b} hab e he f hf => ?_
  have hea : order e.key a = .eq := r.ofOneClass a e he
  have hbf : order b f.key = .eq := Std.OrientedCmp.eq_symm (r.ofOneClass b f hf)
  refine Comparator.ne_gt_trans ?_ (Comparator.ne_gt_trans hab ?_)
  · rw [hea]
    exact Ordering.noConfusion
  · rw [hbf]
    exact Ordering.noConfusion

theorem ofClass_listing (r : ClassMap m order V) (k : K) :
    ofClass order k r.listing = r.content k := by
  apply ofClass_flatMap_of_covered r.distinct_ranked
  intro hk
  obtain ⟨a, ha, hak⟩ := r.covered k hk
  exact ⟨a, mem_ranked.mpr ha, hak⟩

theorem sorted_listing (r : ClassMap m order V) : Sorted order r.listing :=
  sorted_flatMap r.sorted_ranked r

/-- Whatever keys stand for the classes, the listing goes through the classes in their order. -/
theorem listing_eq_flatMap {ks : List K} (h : ks.Pairwise fun a b => order a b = .lt)
    (hks : ∀ k, r.content k ≠ [] → ∃ a ∈ ks, order a k = .eq) :
    r.listing = ks.flatMap r.content := by
  have hsorted : ks.Pairwise fun a b => order a b ≠ .gt := h.imp fun hab => by simp [hab]
  have hdistinct : ks.Pairwise fun a b => order a b ≠ .eq := h.imp fun hab => by simp [hab]
  apply r.sorted_listing.ext (sorted_flatMap hsorted r)
  intro k
  rw [r.ofClass_listing, ofClass_flatMap_of_covered hdistinct (hks k)]

/-! ## Operations on one class -/

/-- The classes and that of `k`. -/
def classesWith (r : ClassMap m order V) (k : K) : List K :=
  if r.classes.any (order.same · k) then r.classes else k :: r.classes

omit [Std.TransCmp order] in
theorem mem_classesWith {a : K} (ha : a ∈ r.classes) (k : K) : a ∈ r.classesWith k := by
  unfold classesWith
  split
  · exact ha
  · exact List.mem_cons_of_mem _ ha

theorem exists_classesWith (r : ClassMap m order V) (k : K) :
    ∃ a ∈ r.classesWith k, order a k = .eq := by
  unfold classesWith
  split
  · rename_i hany
    obtain ⟨a, ha, hak⟩ := List.any_eq_true.mp hany
    exact ⟨a, ha, Comparator.same_iff.mp hak⟩
  · exact ⟨k, List.mem_cons_self, Comparator.eq_self k⟩

theorem distinct_classesWith (r : ClassMap m order V) (k : K) :
    (r.classesWith k).Pairwise fun a b => order a b ≠ .eq := by
  unfold classesWith
  split
  · exact r.distinct
  · rename_i hnew
    refine .cons (fun a ha hka => hnew ?_) r.distinct
    exact List.any_eq_true.mpr ⟨a, ha, Comparator.same_iff.mpr (Std.OrientedCmp.eq_symm hka)⟩

/-- Replaces what is held of the class of `k`. -/
def put (r : ClassMap m order V) (k : K) (es : List (Entry K V))
    (hclass : ∀ e ∈ es, order e.key k = .eq) (hkeep : m.keep es = es) : ClassMap m order V where
  classes := r.classesWith k
  content a := if order.same k a then es else r.content a
  distinct := r.distinct_classesWith k
  covered a ha := by
    split at ha
    · rename_i hka
      obtain ⟨b, hb, hbk⟩ := r.exists_classesWith k
      exact ⟨b, hb, Std.TransCmp.eq_trans hbk (Comparator.same_iff.mp hka)⟩
    · obtain ⟨b, hb, hba⟩ := r.covered a ha
      exact ⟨b, mem_classesWith hb k, hba⟩
  respects a b hab := by
    rw [Comparator.same_congr_right hab, r.respects a b hab]
  ofOneClass a e he := by
    split at he
    · rename_i hka
      exact Std.TransCmp.eq_trans (hclass e he) (Comparator.same_iff.mp hka)
    · exact r.ofOneClass a e he
  kept a := by
    split
    · exact hkeep
    · exact r.kept a

/-- Adds an entry to its class, unless the class is full. -/
def add (r : ClassMap m order V) (e : Entry K V) : ClassMap m order V :=
  r.put e.key (m.keep (r.content e.key ++ [e]))
    (by
      intro f hf
      rcases List.mem_append.mp ((m.keep_sublist _).subset hf) with hf | hf
      · exact r.ofOneClass e.key f hf
      · rw [List.mem_singleton.mp hf]
        exact Comparator.eq_self _)
    (m.keep_keep _)

/-- Adds entries one after the other. -/
def addAll (r : ClassMap m order V) (es : List (Entry K V)) : ClassMap m order V :=
  es.foldl add r

/-- Changes the value of the oldest entry of a class. -/
def change (r : ClassMap m order V) (k : K) (f : V → V) : ClassMap m order V :=
  r.put k ((r.content k).modify 0 (·.update f))
    (by
      intro e he
      cases hes : r.content k with
      | nil =>
        rw [hes] at he
        cases he
      | cons e' es =>
        have hin := r.ofOneClass k
        rw [hes] at he hin
        rcases List.mem_cons.mp he with rfl | he
        · exact hin e' List.mem_cons_self
        · exact hin e (List.mem_cons_of_mem _ he))
    (Multiplicity.keep_eq_self_of_length_le (r.kept k) (by simp))

/-- Takes the `i`-th entry out of a class. -/
def erase (r : ClassMap m order V) (k : K) (i : Nat) : ClassMap m order V :=
  r.put k ((r.content k).eraseIdx i)
    (fun e he => r.ofOneClass k e ((List.eraseIdx_sublist _ _).subset he))
    (Multiplicity.keep_eq_self_of_length_le (r.kept k) (List.eraseIdx_sublist _ _).length_le)

/-- Takes all entries out of a class. -/
def drop (r : ClassMap m order V) (k : K) : ClassMap m order V :=
  r.put k [] (fun _ h => nomatch h) (m.keep_nil)

/-- What is made of a class is made of it under each of its keys. -/
theorem content_put (r : ClassMap m order V) (k : K) (g : List (Entry K V) → List (Entry K V))
    (hclass : ∀ e ∈ g (r.content k), order e.key k = .eq)
    (hkeep : m.keep (g (r.content k)) = g (r.content k)) (a : K) :
    (r.put k (g (r.content k)) hclass hkeep).content a =
      if order.same k a then g (r.content a) else r.content a := by
  show (if order.same k a then g (r.content k) else r.content a) = _
  split
  · rename_i hka
    rw [r.respects k a (Comparator.same_iff.mp hka)]
  · rfl

theorem content_change (r : ClassMap m order V) (k : K) (f : V → V) (a : K) :
    (r.change k f).content a =
      if order.same k a then (r.content a).modify 0 (·.update f) else r.content a :=
  r.content_put k (fun es => es.modify 0 (·.update f)) _ _ a

theorem content_erase (r : ClassMap m order V) (k : K) (i : Nat) (a : K) :
    (r.erase k i).content a =
      if order.same k a then (r.content a).eraseIdx i else r.content a :=
  r.content_put k (fun es => es.eraseIdx i) _ _ a

theorem content_drop (r : ClassMap m order V) (k a : K) :
    (r.drop k).content a = if order.same k a then [] else r.content a :=
  r.content_put k (fun _ => []) _ _ a

omit [Std.TransCmp order] in
/-- An operation that makes nothing of nothing leaves the map as it is where there is nothing. -/
theorem content_of_nil {k : K} (hk : r.content k = [])
    (g : List (Entry K V) → List (Entry K V)) (hg : g [] = []) (a : K) :
    (if order.same k a then g (r.content a) else r.content a) = r.content a := by
  split
  · rename_i hka
    rw [← r.respects k a (Comparator.same_iff.mp hka), hk, hg]
  · rfl

theorem content_add (r : ClassMap m order V) (e : Entry K V) (k : K) :
    (r.add e).content k = m.keep (r.content k ++ ofClass order k [e]) := by
  refine (r.content_put e.key (fun es => m.keep (es ++ [e])) _ _ k).trans ?_
  split
  · rename_i hek
    rw [ofClass_cons_same (Comparator.same_iff.mp hek)]
    rfl
  · rename_i hek
    rw [ofClass_cons_other (mt Comparator.same_iff.mpr hek), ofClass_nil, List.append_nil, r.kept]

theorem content_addAll (r : ClassMap m order V) (es : List (Entry K V)) (k : K) :
    (r.addAll es).content k = m.keep (r.content k ++ ofClass order k es) := by
  induction es generalizing r with
  | nil =>
    rw [ofClass_nil, List.append_nil, r.kept]
    rfl
  | cons e es ih =>
    show ((r.add e).addAll es).content k = _
    rw [ih, content_add, Multiplicity.keep_keep_append, List.append_assoc, ← ofClass_append]
    rfl

end ClassMap

/-! ## Runs -/

/-- A step whose answer depends on classes and positions alone. -/
inductive KeyedStep (K V : Type) : Multiplicity → Type where
  | look {m : Multiplicity} (f : Facet) (k : K) : KeyedStep K V m
  | insert {m : Multiplicity} (k : K) (v : V) : KeyedStep K V m
  | emplace {m : Multiplicity} (k : K) (make : Maker V) : KeyedStep K V m
  | insertOrAssign (k : K) (v : V) : KeyedStep K V .unique
  | emplaceOrAssign (k : K) (make : Maker V) : KeyedStep K V .unique
  | getOrInsertWith (k : K) (make : Maker V) (f : V → V) : KeyedStep K V .unique
  | getOrDefault (k : K) (f : V → V) : KeyedStep K V .unique
  | update {m : Multiplicity} (k : K) (f : V → V) : KeyedStep K V m
  | extend {m : Multiplicity} (upper : Option Nat) (items : List (Entry K V)) : KeyedStep K V m
  | gather {m : Multiplicity} (items : List (Entry K V)) : KeyedStep K V m
  | take {m : Multiplicity} (f : Facet) (k : K) : KeyedStep K V m
  | removeAll (k : K) : KeyedStep K V .repeated
  | popFirst {m : Multiplicity} : KeyedStep K V m
  | popLast {m : Multiplicity} : KeyedStep K V m
  | removeAt {m : Multiplicity} (i : Nat) : KeyedStep K V m
  | clear {m : Multiplicity} : KeyedStep K V m

namespace KeyedStep

variable {m : Multiplicity} {K V : Type}

/-- The step of a session. -/
def toStep : KeyedStep K V m → Step K V
  | .look f k => .look (.first f) (.key k)
  | .insert k v => .insert k v
  | .emplace k make => .emplace k make
  | .insertOrAssign k v => .insertOrAssign k v
  | .emplaceOrAssign k make => .emplaceOrAssign k make
  | .getOrInsertWith k make f => .getOrInsertWith k make f
  | .getOrDefault k f => .getOrDefault k f
  | .update k f => .update (.key k) f
  | .extend upper items => .extend upper items
  | .gather items => .gather items
  | .take f k => .take f (.key k)
  | .removeAll k => .removeAll (.key k)
  | .popFirst => .popFirst
  | .popLast => .popLast
  | .removeAt i => .removeAt i
  | .clear => .clear

end KeyedStep

namespace ClassMap

variable {m : Multiplicity} {K V : Type} {order : Comparator K} [Std.TransCmp order]

/-- The oldest entry of the class of `k`. -/
def oldest (r : ClassMap m order V) (k : K) : Option (Entry K V) := (r.content k).head?

/-- The newest entry of the class of `k`. -/
def newest (r : ClassMap m order V) (k : K) : Option (Entry K V) := (r.content k).getLast?

/-- Whether the class of `k` has no room for another entry. -/
def full (r : ClassMap m order V) (k : K) : Bool := m.full (r.content k)

/-- Adds an entry, or replaces the value of its class and keeps the stored key. -/
def assign (r : ClassMap m order V) (k : K) (v : V) : ClassMap m order V :=
  if r.full k then r.change k fun _ => v else r.add ⟨k, v⟩

/-- Where an addition to the class of `k` is listed, and whether there is room for it. -/
def placed (r : ClassMap m order V) (k : K) : Placed :=
  ⟨rank m order k r.listing, !r.full k⟩

/-- Goes on with the value that is made, unless none is. -/
def afterMaking (r : ClassMap m order V) (make : Maker V)
    (next : V → Answer K V × ClassMap m order V) :
    Except Failure (Answer K V) × ClassMap m order V :=
  match make with
  | .gives v => (.ok (next v).1, (next v).2)
  | .fails => (.error .makerFailed, r)

/-- What a step answers and the map that it leaves. -/
def step [Inhabited V] (r : ClassMap m order V) :
    KeyedStep K V m → Except Failure (Answer K V) × ClassMap m order V
  | .look f k => (.ok (.optional f (r.oldest k)), r)
  | .insert k v => (.ok (Flat.placedAnswer m (r.placed k)), r.add ⟨k, v⟩)
  | .emplace k make =>
    if r.full k then (.ok (Flat.madeAnswer m (r.placed k) 0), r)
    else r.afterMaking make fun v => (Flat.madeAnswer m (r.placed k) 1, r.add ⟨k, v⟩)
  | .insertOrAssign k v => (.ok (Flat.placedAnswer .unique (r.placed k)), r.assign k v)
  | .emplaceOrAssign k make =>
    r.afterMaking make fun v => (Flat.madeAnswer .unique (r.placed k) 1, r.assign k v)
  | .getOrInsertWith k make f =>
    match r.oldest k with
    | some e => (.ok (.list [.value (f e.value), .flag false]), r.change k f)
    | none =>
      r.afterMaking make fun v => (.list [.value (f v), .flag true], r.add ⟨k, f v⟩)
  | .getOrDefault k f =>
    match r.oldest k with
    | some e => (.ok (.value (f e.value)), r.change k f)
    | none => (.ok (.value (f default)), r.add ⟨k, f default⟩)
  | .update k f => (.ok (.optional .value (r.oldest k)), r.change k f)
  | .extend upper items => (.ok .nothing, r.addAll (Flat.taken upper items))
  | .gather items => (.ok .nothing, r.addAll items)
  | .take f k => (.ok (.optional f (r.oldest k)), r.erase k 0)
  | .removeAll k => (.ok (.number (r.content k).length), r.drop k)
  | .popFirst =>
    match r.ranked.findSome? r.oldest with
    | some e => (.ok (.entry e), r.erase e.key 0)
    | none => (.ok .nothing, r)
  | .popLast =>
    match r.ranked.reverse.findSome? r.newest with
    | some e => (.ok (.entry e), r.erase e.key ((r.content e.key).length - 1))
    | none => (.ok .nothing, r)
  | .removeAt i =>
    match r.listing[i]? with
    | some e => (.ok (.entry e), r.erase e.key (ofClass order e.key (r.listing.take i)).length)
    | none => (.ok .nothing, r)
  | .clear => (.ok .nothing, empty)

/-- The oldest entry of the least class is the first one of the listing. -/
theorem step_popFirst [Inhabited V] (r : ClassMap m order V) :
    r.step .popFirst = r.step (.removeAt 0) := by
  have hhead : r.listing[0]? = r.ranked.findSome? r.oldest := by
    rw [← List.head?_eq_getElem?]
    exact List.head?_flatMap
  simp only [step, hhead]
  rfl

/-- Of its class, the last entry of a list has all others before it. -/
theorem length_ofClass_take_last {es : List (Entry K V)} {e : Entry K V}
    (he : es.getLast? = some e) :
    (ofClass order e.key (es.take (es.length - 1))).length =
      (ofClass order e.key es).length - 1 := by
  obtain ⟨front, rfl⟩ := List.getLast?_eq_some_iff.mp he
  rw [List.length_append, List.length_singleton, Nat.add_sub_cancel, List.take_left,
    ofClass_append, ofClass_cons_same (Comparator.eq_self _)]
  simp

/-- The newest entry of the greatest class is the last one of the listing. -/
theorem step_popLast [Inhabited V] (r : ClassMap m order V) :
    r.step .popLast = r.step (.removeAt (r.listing.length - 1)) := by
  have hlast : r.listing.getLast? = r.ranked.reverse.findSome? r.newest := List.getLast?_flatMap
  simp only [step, ← List.getLast?_eq_getElem?, ← hlast]
  cases he : r.listing.getLast? with
  | none => rfl
  | some e => simp only [length_ofClass_take_last he, r.ofClass_listing]

/-- What each step of a sequence answers and what is listed after it. -/
def run [Inhabited V] (r : ClassMap m order V) :
    List (KeyedStep K V m) → List (Except Failure (Answer K V) × List (Entry K V))
  | [] => []
  | x :: xs => ((r.step x).1, (r.step x).2.listing) :: run (r.step x).2 xs

end ClassMap

end FlatAssoc
