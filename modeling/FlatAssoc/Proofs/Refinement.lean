import FlatAssoc.Proofs.Agreement

/-!
# Refinement of maps from classes

A step takes a container and a map from classes that agree to ones that agree, and both give the
same answer (`Flat.meets_step`). By induction over the steps a run of the container is a run of
the map (`Session.run_toStep`), whether its classes hold one entry or a queue.
-/

namespace FlatAssoc

variable {m : Multiplicity} {K V : Type} {order : Comparator K}

namespace Flat

/-- The effect of a step and what a map from classes comes to: the same answer or failure, and
agreement of what they leave. -/
structure Meets (x : Effect K V) (y : Except Failure (Answer K V) × ClassMap m order V) : Prop where
  answer_eq : x.answer = y.1
  agrees : ∃ d : Flat m K V, x.left = d.pack ∧ d.Agrees y.2

variable {c d : Flat m K V} {r : ClassMap m order V}

/-! ## Answers -/

theorem Agrees.oldest_eq (h : c.Agrees r) (k : K) :
    r.oldest k = (ofClass order k c.toList).head? := by
  rw [h.ofClass_eq]
  rfl

theorem Agrees.full_eq (h : c.Agrees r) (k : K) :
    r.full k = m.full (ofClass order k c.toList) := by
  rw [h.ofClass_eq]
  rfl

variable [Std.TransCmp order]

theorem Agrees.placed_eq (h : c.Agrees r) (k : K) :
    r.placed k = ⟨rank m order k c.toList, !m.full (ofClass order k c.toList)⟩ := by
  rw [h.toList_eq, r.ofClass_listing]
  rfl

theorem value_firstMatch? (h : c.ValidFor order) (k : K) :
    (c.firstMatch? (order.probe k)).value = (ofClass order k c.toList).head? := by
  rw [firstMatch?, Noted.value_map]
  cases he : ofClass order k c.toList with
  | nil =>
    rw [value_find?_free h he]
    rfl
  | cons e es =>
    rw [value_find?_held h he]
    show c.get? _ = _
    rw [get?_eq, getElem?_rank h he]
    rfl

theorem value_contains (h : c.ValidFor order) (k : K) :
    (c.contains (order.probe k)).value = (ofClass order k c.toList).head?.isSome := by
  rw [contains, Noted.value_map]
  cases he : ofClass order k c.toList with
  | nil =>
    rw [value_find?_free h he]
    rfl
  | cons e es =>
    rw [value_find?_held h he]
    rfl

theorem meets_look (h : c.Agrees r) (f : Facet) (k : K) :
    Meets (c.look (.first f) (order.probe k)) (.ok (.optional f (r.oldest k)), r) := by
  rw [h.oldest_eq]
  cases f with
  | presence =>
    refine ⟨?_, c, rfl, h⟩
    show Except.ok (Answer.flag (c.contains (order.probe k)).value) = _
    rw [value_contains h.validFor]
    cases (ofClass order k c.toList).head? <;> rfl
  | entry | key | value =>
    refine ⟨?_, c, rfl, h⟩
    show Except.ok (Answer.optional _ (c.firstMatch? (order.probe k)).value) = _
    rw [value_firstMatch? h.validFor]

/-! ## Insertions -/

/-- What an insertion answers, whether or not there is room. -/
theorem value_insert_fst (h : c.ValidFor order) (k : K) (v : V) :
    (c.insert k v).value.1 =
      ⟨rank m order k c.toList, !m.full (ofClass order k c.toList)⟩ := by
  rw [value_insert h]
  cases m.full (ofClass order k c.toList) <;> rfl

/-- An insertion may answer anything about where the entry is and whether it is new. -/
theorem meets_insert (h : c.Agrees r) (k : K) (v : V) (f : Placed → Answer K V) :
    Meets (changing (c.insert k v) f) (.ok (f (r.placed k)), r.add ⟨k, v⟩) := by
  refine ⟨?_, (c.insert k v).value.2, rfl, h.add (takesIn_insert h.validFor k v)⟩
  rw [h.placed_eq, ← value_insert_fst h.validFor k v]
  rfl

/-- A load from a borrowed source happens only if it is offered, and says whether it did. -/
theorem meets_borrowed (h : c.Agrees r) {es : List (Entry K V)} {load : Reported (Flat m K V)}
    (hload : c.TakesIn order es load.value) (offered : Bool) :
    Meets (if offered then loading load (.flag true) else c.answering (.flag false))
      (.ok (.flag offered), r.addAll (if offered then es else [])) := by
  cases offered with
  | true => exact ⟨rfl, _, rfl, h.addAll hload⟩
  | false => exact ⟨rfl, c, rfl, h⟩

section

variable {α : Type} {x : Asked K (Making m K V α)} {f : α → Nat → Answer K V}

omit [Std.TransCmp order] in
theorem meets_making_of_gives {p : α × Flat m K V} (hx : x.value.Gives c p) (hp : p.2.Agrees r) :
    Meets (c.making x f) (.ok (f p.1 0), r) := by
  rw [making_of_gives hx]
  exact ⟨rfl, p.2, rfl, hp⟩

omit [Std.TransCmp order] in
/-- A maker that fails leaves both as they were, and one that gives a value lets both go on. -/
theorem meets_making_of_makes (h : c.Agrees r) {make : Maker V} {g : V → α × Flat m K V}
    {next : V → Answer K V × ClassMap m order V} (hx : x.value.Makes c make g)
    (hanswer : ∀ v, (next v).1 = f (g v).1 1) (hnext : ∀ v, (g v).2.Agrees (next v).2) :
    Meets (c.making x f) (r.afterMaking make next) := by
  cases make with
  | gives v =>
    rw [making_of_makes hx, ← hanswer]
    exact ⟨rfl, (g v).2, rfl, hnext v⟩
  | fails =>
    rw [making_of_fails hx]
    exact ⟨rfl, c, rfl, h⟩

end

theorem meets_emplace (h : c.Agrees r) (k : K) (make : Maker V) :
    Meets (c.making (c.emplace k make.run) (madeAnswer m))
      (if r.full k then (.ok (madeAnswer m (r.placed k) 0), r)
      else r.afterMaking make fun v => (madeAnswer m (r.placed k) 1, r.add ⟨k, v⟩)) := by
  rw [h.full_eq, h.placed_eq]
  cases hfull : m.full (ofClass order k c.toList) with
  | true => exact meets_making_of_gives (gives_emplace h.validFor hfull make.run) h
  | false =>
    refine meets_making_of_makes h (makes_emplace h.validFor hfull make) (fun _ => rfl) fun v => ?_
    exact h.add (takesIn_place (e := ⟨k, v⟩) h.validFor hfull)

/-! ## Values of a map -/

section

variable {c : Map K V} {r : ClassMap .unique order V} {k : K}

omit [Std.TransCmp order] in
theorem full_nil {es : List (Entry K V)} (he : ofClass order k es = []) :
    Multiplicity.full .unique (ofClass order k es) = false := by
  rw [he]
  rfl

theorem agrees_place (h : c.Agrees r) (he : ofClass order k c.toList = []) (v : V) :
    (c.place (rank .unique order k c.toList) ⟨k, v⟩).Agrees (r.add ⟨k, v⟩) :=
  h.add (takesIn_place (e := ⟨k, v⟩) h.validFor (full_nil he))

theorem agrees_modify (h : c.Agrees r) {e : Entry K V} (he : ofClass order k c.toList = [e])
    (f : V → V) : (c.modify (rank .unique order k c.toList) f).Agrees (r.change k f) := by
  have hek : order e.key k = .eq := (mem_ofClass.mp (he ▸ List.mem_cons_self)).2
  exact h.change (getElem?_rank h.validFor he) hek (ofClass_take_rank h.validFor k) f

omit [Std.TransCmp order] in
/-- A value that is changed where it was placed might as well have been placed changed. -/
theorem toList_place_modify {i : Nat} (hi : i ≤ c.size) (k : K) (v : V) (f : V → V) :
    ((c.place i ⟨k, v⟩).modify i f).toList = (c.place i ⟨k, f v⟩).toList := by
  obtain ⟨front, back, -, rfl, hplace⟩ := exists_place_eq hi
  rw [toList_modify, hplace, hplace]
  exact modify_split front back _ _

theorem agrees_place_modify (h : c.Agrees r) (he : ofClass order k c.toList = []) (v : V)
    (f : V → V) :
    ((c.place (rank .unique order k c.toList) ⟨k, v⟩).modify
      (rank .unique order k c.toList) f).Agrees (r.add ⟨k, f v⟩) :=
  (agrees_place h he (f v)).of_toList_eq rfl (toList_place_modify (rank_le_size k) k v f)

theorem meets_emplaceOrAssign (h : c.Agrees r) (k : K) (make : Maker V) :
    Meets (c.making (c.emplaceOrAssign k make.run) (madeAnswer .unique))
      (r.afterMaking make fun v => (madeAnswer .unique (r.placed k) 1, r.assign k v)) := by
  rcases ofClass_cases h.validFor k with he | ⟨e, he⟩
  · refine meets_making_of_makes h (makes_emplaceOrAssign_free h.validFor he make) (fun v => ?_)
      fun v => ?_
    · rw [h.placed_eq, he]
      rfl
    · rw [ClassMap.assign, h.full_eq, he]
      exact agrees_place h he v
  · refine meets_making_of_makes h (makes_emplaceOrAssign_held h.validFor he make) (fun v => ?_)
      fun v => ?_
    · rw [h.placed_eq, he]
      rfl
    · rw [ClassMap.assign, h.full_eq, he]
      exact agrees_modify h he fun _ => v

theorem meets_insertOrAssign (h : c.Agrees r) (k : K) (v : V) :
    Meets (attempting (c.insertOrAssign k v) (placedAnswer .unique))
      (.ok (placedAnswer .unique (r.placed k)), r.assign k v) := by
  rcases ofClass_cases h.validFor k with he | ⟨e, he⟩
  · rw [h.placed_eq, ClassMap.assign, h.full_eq, he, attempting,
      value_insertOrAssign_free h.validFor he]
    exact ⟨rfl, _, rfl, agrees_place h he v⟩
  · rw [h.placed_eq, ClassMap.assign, h.full_eq, he, attempting,
      value_insertOrAssign_held h.validFor he]
    exact ⟨rfl, _, rfl, agrees_modify h he fun _ => v⟩

theorem meets_getOrInsertWith [Inhabited V] (h : c.Agrees r) (k : K) (make : Maker V) (f : V → V) :
    Meets
      (c.making (c.getOrInsertWith k make.run f) fun v runs => .list [.value v, .flag (0 < runs)])
      (r.step (.getOrInsertWith k make f)) := by
  rcases ofClass_cases h.validFor k with he | ⟨e, he⟩
  · have hold : r.oldest k = none := by rw [h.oldest_eq, he]; rfl
    simp only [ClassMap.step, hold]
    refine meets_making_of_makes h (makes_getOrInsertWith_free h.validFor he make f)
      (fun _ => rfl) ?_
    exact fun v => agrees_place_modify h he v f
  · have hold : r.oldest k = some e := by rw [h.oldest_eq, he]; rfl
    simp only [ClassMap.step, hold]
    exact meets_making_of_gives (gives_getOrInsertWith_held h.validFor he make.run f)
      (agrees_modify h he f)

theorem meets_getOrDefault [Inhabited V] (h : c.Agrees r) (k : K) (f : V → V) :
    Meets (attempting (c.getOrDefault k f) .value) (r.step (.getOrDefault k f)) := by
  rcases ofClass_cases h.validFor k with he | ⟨e, he⟩
  · have hold : r.oldest k = none := by rw [h.oldest_eq, he]; rfl
    simp only [ClassMap.step, hold]
    rw [attempting, value_getOrDefault_free h.validFor he]
    exact ⟨rfl, _, rfl, agrees_place_modify h he default f⟩
  · have hold : r.oldest k = some e := by rw [h.oldest_eq, he]; rfl
    simp only [ClassMap.step, hold]
    rw [attempting, value_getOrDefault_held h.validFor he]
    exact ⟨rfl, _, rfl, agrees_modify h he f⟩

end

/-! ## Changes and removals -/

/-- The entry of a class that lookups find, or that there is none. -/
theorem find?_cases (h : c.ValidFor order) (k : K) :
    (ofClass order k c.toList = [] ∧ (c.find? (order.probe k)).value = none) ∨
      ∃ e i, (ofClass order k c.toList).head? = some e ∧ order e.key k = .eq ∧
        (c.find? (order.probe k)).value = some i ∧ c.toList[i]? = some e ∧
        ofClass order k (c.toList.take i) = [] := by
  cases he : ofClass order k c.toList with
  | nil => exact .inl ⟨rfl, value_find?_free h he⟩
  | cons e es =>
    have hek : order e.key k = .eq := (mem_ofClass.mp (he ▸ List.mem_cons_self)).2
    exact .inr ⟨e, _, rfl, hek, value_find?_held h he, getElem?_rank h he, ofClass_take_rank h k⟩

theorem meets_update (h : c.Agrees r) (k : K) (f : V → V) {g : Option V → Answer K V}
    (hnone : g none = .nothing) (hsome : ∀ v, g (some v) = .value v) :
    Meets (changing (c.update (order.probe k) f) g)
      (.ok (.optional .value (r.oldest k)), r.change k f) := by
  rw [h.oldest_eq]
  rcases find?_cases h.validFor k with ⟨he, hfind⟩ | ⟨e, i, hhead, hek, hfind, hi, hfirst⟩
  · have hupdate : (c.update (order.probe k) f).value = (none, c) := by
      rw [update, Noted.value_map, hfind]
    rw [changing, hupdate, he]
    exact ⟨congrArg Except.ok hnone, c, rfl, h.change_free he f⟩
  · have hupdate : (c.update (order.probe k) f).value = (some e.value, c.modify i f) := by
      rw [update, Noted.value_map, hfind]
      show ((c.get? i).map _, _) = _
      rw [get?_eq, hi]
      rfl
    rw [changing, hupdate, hhead]
    exact ⟨congrArg Except.ok (hsome e.value), c.modify i f, rfl, h.change hi hek hfirst f⟩

theorem meets_take (h : c.Agrees r) (f : Facet) (k : K) :
    Meets (changing (c.parting f <$> c.take? (order.probe k)) id)
      (.ok (.optional f (r.oldest k)), r.erase k 0) := by
  rw [h.oldest_eq]
  rcases find?_cases h.validFor k with ⟨he, hfind⟩ | ⟨e, i, hhead, hek, hfind, hi, hfirst⟩
  · have htake : (c.take? (order.probe k)).value = none := by
      rw [take?, Noted.value_map, hfind]
      rfl
    rw [changing, Noted.value_map, htake, he]
    exact ⟨rfl, c, rfl, h.erase_free he 0⟩
  · have htake : (c.take? (order.probe k)).value = some (e, c.eraseIdx i) := by
      rw [take?, Noted.value_map, hfind]
      show c.removeAt? i = _
      rw [removeAt?, get?_eq, hi]
      rfl
    have hagrees := h.erase hi hek
    rw [hfirst] at hagrees
    rw [changing, Noted.value_map, htake, hhead]
    exact ⟨rfl, _, rfl, hagrees⟩

theorem meets_removeAt (h : c.Agrees r) (i : Nat) :
    Meets (changing (pure (c.parting .entry (c.removeAt? i))) id)
      (match r.listing[i]? with
      | some e =>
        (.ok (.entry e), r.erase e.key (ofClass order e.key (r.listing.take i)).length)
      | none => (.ok .nothing, r)) := by
  rw [← h.toList_eq]
  cases hi : c.toList[i]? with
  | none =>
    have hremove : c.removeAt? i = none := by
      rw [removeAt?, get?_eq, hi]
      rfl
    rw [hremove]
    exact ⟨rfl, c, rfl, h⟩
  | some e =>
    have hremove : c.removeAt? i = some (e, c.eraseIdx i) := by
      rw [removeAt?, get?_eq, hi]
      rfl
    rw [hremove]
    exact ⟨rfl, _, rfl, h.erase hi (Comparator.eq_self e.key)⟩

theorem meets_popFirst [Inhabited V] (h : c.Agrees r) :
    Meets (changing (pure (c.parting .entry c.popFirst?)) id) (r.step .popFirst) := by
  rw [r.step_popFirst]
  exact meets_removeAt h 0

theorem meets_popLast [Inhabited V] (h : c.Agrees r) :
    Meets (changing (pure (c.parting .entry c.popLast?)) id) (r.step .popLast) := by
  have hsize : c.size = r.listing.length := by rw [size_eq_length, h.toList_eq]
  rw [r.step_popLast, ← hsize]
  exact meets_removeAt h (c.size - 1)

theorem meets_removeAll [Inhabited V] {c : Multimap K V} {r : ClassMap .repeated order V}
    (h : c.Agrees r) (k : K) :
    Meets (attempting (c.removeAll (order.probe k)) .number) (r.step (.removeAll k)) := by
  obtain ⟨d, hd, ho, hl⟩ := value_removeAll (h.validFor.consistentWith k)
  have hcount : (c.toList.countP fun e => order.probe k e.key == .eq) = (r.content k).length := by
    rw [← h.ofClass_eq, List.countP_eq_length_filter]
    rfl
  rw [attempting, hd, hcount]
  exact ⟨rfl, d, rfl, h.drop ho hl⟩

/-! ## Runs -/

variable [DecidableEq K] [DecidableEq V] [Inhabited V] [Key K] [Document K V]

/-- A step keeps the two in agreement, and both answer alike. -/
theorem meets_step (h : c.Agrees r) (x : KeyedStep K V m) :
    Meets (c.step x.toStep) (r.step x) := by
  obtain rfl : c.order = order := h.validFor.order_eq
  cases x with
  | look f k => exact meets_look h f k
  | insert k v => exact meets_insert h k v (placedAnswer m)
  | emplace k make => exact meets_emplace h k make
  | insertOrAssign k v => exact meets_insertOrAssign h k v
  | emplaceOrAssign k make => exact meets_emplaceOrAssign h k make
  | getOrInsertWith k make f => exact meets_getOrInsertWith h k make f
  | getOrDefault k f => exact meets_getOrDefault h k f
  | update k f =>
    show Meets (c.step (.update (.key k) f)) _
    unfold step
    exact meets_update h k f rfl fun _ => rfl
  | extend upper items =>
    exact ⟨rfl, _, rfl, h.addAll (takesIn_extend h.validFor upper items)⟩
  | gather items => exact ⟨rfl, _, rfl, h.addAll (takesIn_gatherInto h.validFor items)⟩
  | take f k => exact meets_take h f k
  | removeAll k => exact meets_removeAll h k
  | popFirst => exact meets_popFirst h
  | popLast => exact meets_popLast h
  | removeAt i => exact meets_removeAt h i
  | clear => exact ⟨rfl, c.clear, rfl, validFor_clear h.validFor, fun _ => rfl⟩

end Flat

namespace Session

/-- The container at hand agrees with `r`. -/
def Holds (s : Session K V) (r : ClassMap m order V) : Prop :=
  ∃ c : Flat m K V, s.current = c.pack ∧ c.Agrees r

variable [Std.TransCmp order] {s : Session K V} {c : Flat m K V} {r : ClassMap m order V}

theorem Holds.toList_eq (h : s.Holds r) : s.current.toList = r.listing := by
  obtain ⟨c, hc, hagrees⟩ := h
  rw [hc, Flat.toList_pack, hagrees.toList_eq]

omit [Std.TransCmp order] in
theorem settle_of_meets {x : Effect K V} {y : Except Failure (Answer K V) × ClassMap m order V}
    (h : Flat.Meets x y) : (s.settle x).answer = y.1 ∧ (s.settle x).session.Holds y.2 :=
  ⟨h.answer_eq, h.agrees⟩

variable [DecidableEq K] [DecidableEq V] [Inhabited V] [Key K] [Document K V]

omit [Std.TransCmp order] in
theorem step_toStep (s : Session K V) (x : KeyedStep K V m) :
    s.step x.toStep = s.settle (s.current.step x.toStep) := by
  cases x <;> rfl

/-- A step of a session answers what the map answers, and leaves a container that agrees with what
the map becomes. -/
theorem Holds.step (h : s.Holds r) (x : KeyedStep K V m) :
    (s.step x.toStep).answer = (r.step x).1 ∧ (s.step x.toStep).session.Holds (r.step x).2 := by
  obtain ⟨c, hs, hagrees⟩ := h
  rw [step_toStep, hs, Flat.pack_step]
  exact settle_of_meets (Flat.meets_step hagrees x)

end Session

end FlatAssoc
