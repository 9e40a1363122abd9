import FlatAssoc.Proofs.Depletion

/-!
# Comparisons

An operation that is given a key or a probe compares the first entry, then the last one, and then
searches, and it goes no further than it has to (`Climbs`). What settles the matter at an end is not
the same for all of them: a lookup is over where nothing can match (`Flat.climbs_seek`), an
insertion where its place is known (`Flat.climbs_settle`). A search of a container with entries
makes at least one comparison, and no more than that is used of it.
-/

namespace FlatAssoc

variable {m : Multiplicity} {K V : Type} {order : Comparator K}

/-! ## The two ends -/

/-- The stored keys that are compared, in this order, when the first entry settles what `front`
accepts, the last entry settles what `back` accepts, and a search settles the rest. -/
inductive Climbs (front back : K → Bool) : List (Entry K V) → List K → Prop
  | empty : Climbs front back [] []
  | first {es : List (Entry K V)} {a : Entry K V} (ha : es.head? = some a)
    (hfront : front a.key = true) : Climbs front back es [a.key]
  | last {es : List (Entry K V)} {a b : Entry K V} (ha : es.head? = some a)
    (hb : es.getLast? = some b) (hfront : front a.key = false) (hback : back b.key = true) :
    Climbs front back es [a.key, b.key]
  | search {es : List (Entry K V)} {a b : Entry K V} {rest : List K} (ha : es.head? = some a)
    (hb : es.getLast? = some b) (hfront : front a.key = false) (hback : back b.key = false)
    (hrest : rest ≠ []) : Climbs front back es (a.key :: b.key :: rest)

/-- The number of these keys, where three stands for three or more. -/
def rungs (front back : K → Bool) (es : List (Entry K V)) : Nat :=
  match es.head?, es.getLast? with
  | some a, some b => if front a.key then 1 else if back b.key then 2 else 3
  | _, _ => 0

theorem getLast?_isSome_of_head? {α : Type} {xs : List α} {x : α} (h : xs.head? = some x) :
    ∃ y, xs.getLast? = some y := by
  cases xs with
  | nil => cases h
  | cons a as => exact ⟨_, List.getLast?_eq_some_getLast (List.cons_ne_nil a as)⟩

variable {front back : K → Bool} {es : List (Entry K V)} {asked : List K}

theorem Climbs.min_length (h : Climbs front back es asked) :
    min 3 asked.length = rungs front back es := by
  cases h with
  | empty => rfl
  | first ha hfront =>
    obtain ⟨b, hb⟩ := getLast?_isSome_of_head? ha
    simp [rungs, ha, hb, hfront]
  | last ha hb hfront hback => simp [rungs, ha, hb, hfront, hback]
  | @search es a b rest ha hb hfront hback hrest =>
    have hpos : 0 < rest.length := List.length_pos_iff.mpr hrest
    have hlen : (a.key :: b.key :: rest).length = rest.length + 2 := rfl
    simp only [rungs, ha, hb, hfront, hback, Bool.false_eq_true, if_false]
    omega

namespace Flat

variable {c : Flat m K V}

/-! ## Lookups and removals -/

section

variable {p : Probe K}

theorem outside_of_ne_nil (p : Probe K) {a b : Entry K V} (ha : c.first? = some a)
    (hb : c.last? = some b) :
    c.outside p = if p a.key = .gt then ⟨true, [a.key]⟩
      else ⟨p b.key == .lt, [a.key, b.key]⟩ := by
  simp only [outside, ha, hb]
  cases hp : p a.key <;> exact Noted.ext (by simp [hp]) (by simp [hp])

/-- An operation that searches unless what it seeks lies outside the two ends. -/
theorem climbs_of_outside {rest : List K} (hrest : c.toList ≠ [] → rest ≠ [])
    (hasked : asked = (c.outside p).notes ++ if (c.outside p).value then [] else rest) :
    Climbs (p · == .gt) (p · == .lt) c.toList asked := by
  subst hasked
  by_cases hnil : c.toList = []
  · have hnone : c.outside p = pure true := by simp [outside, first?_eq, hnil]
    rw [hnone, hnil]
    exact .empty
  · obtain ⟨a, b, hfirst, hlast, ha, hb⟩ := ends_of_ne_nil hnil
    rw [outside_of_ne_nil p hfirst hlast]
    by_cases hfront : p a.key = .gt
    · rw [if_pos hfront]
      exact .first ha (by simp [hfront])
    · rw [if_neg hfront]
      cases hback : p b.key == .lt with
      | true => exact .last ha hb (by simpa using hfront) hback
      | false => exact .search ha hb (by simpa using hfront) hback (hrest hnil)

theorem notes_bounds_ne_nil (h : c.toList ≠ []) (p : Probe K) : (c.bounds p).notes ≠ [] :=
  List.append_ne_nil_of_left_ne_nil (notes_lowerBound_ne_nil h p) _

theorem notes_find? (c : Flat m K V) (p : Probe K) :
    ∃ hit, (c.find? p).notes =
      (c.outside p).notes ++ if (c.outside p).value then [] else (c.lowerBound p).notes ++ hit := by
  rw [find?, Noted.notes_bind]
  cases (c.outside p).value with
  | true => exact ⟨[], rfl⟩
  | false => exact ⟨_, rfl⟩

theorem climbs_find? (c : Flat m K V) (p : Probe K) :
    Climbs (p · == .gt) (p · == .lt) c.toList (c.find? p).notes := by
  obtain ⟨hit, hnotes⟩ := notes_find? c p
  refine climbs_of_outside (fun hne => ?_) hnotes
  exact List.append_ne_nil_of_left_ne_nil (notes_lowerBound_ne_nil hne p) hit

theorem climbs_matchRange (c : Multimap K V) (p : Probe K) :
    Climbs (p · == .gt) (p · == .lt) c.toList (c.matchRange p).notes := by
  refine climbs_of_outside (fun hne => notes_bounds_ne_nil hne p) ?_
  rw [matchRange, Noted.notes_bind]
  cases (c.outside p).value <;> rfl

theorem climbs_removeAll (c : Multimap K V) (p : Probe K) :
    Climbs (p · == .gt) (p · == .lt) c.toList (c.removeAll p).notes := by
  refine climbs_of_outside (fun hne => notes_bounds_ne_nil hne p) ?_
  rw [removeAll, Noted.notes_bind]
  cases (c.outside p).value
  · rw [Noted.notes_map]
    rfl
  · rfl

theorem climbs_count (c : Flat m K V) (p : Probe K) :
    Climbs (p · == .gt) (p · == .lt) c.toList (c.count p).notes := by
  cases m with
  | unique =>
    show Climbs _ _ _ (Bool.toNat <$> c.contains p).notes
    rw [Noted.notes_map, contains, Noted.notes_map]
    exact climbs_find? c p
  | repeated =>
    refine climbs_of_outside (fun hne => notes_bounds_ne_nil hne p) ?_
    rw [count, Noted.notes_bind]
    cases (c.outside p).value
    · rw [Noted.notes_map]
      rfl
    · rfl

end

/-! ## Insertions -/

/-- Whether the first entry settles where a key goes: before it, or in a map at it. -/
def settledByFirst (m : Multiplicity) (order : Comparator K) (k first : K) : Bool :=
  match m with
  | .unique => order first k != .lt
  | .repeated => order first k == .gt

/-- Whether the last entry settles where a key goes: at it or after it. -/
def settledByLast (order : Comparator K) (k last : K) : Bool := order last k != .gt

theorem climbs_insertPosition (c : Multimap K V) (k : K) :
    Climbs (settledByFirst .repeated c.order k) (settledByLast c.order k) c.toList
      (c.insertPosition k).notes := by
  by_cases hnil : c.toList = []
  · have hnone : c.insertPosition k = pure 0 := by simp [insertPosition, first?_eq, hnil]
    rw [hnone, hnil]
    exact .empty
  · obtain ⟨a, b, hfirst, hlast, ha, hb⟩ := ends_of_ne_nil hnil
    simp only [insertPosition, hfirst, hlast, Noted.notes_bind, Entry.notes_ask, Entry.value_ask,
      Comparator.probe_apply]
    cases hfront : c.order a.key k with
    | gt => exact .first ha (beq_iff_eq.mpr hfront)
    | lt | eq =>
      have hfront : settledByFirst .repeated c.order k a.key = false := by
        simp [settledByFirst, hfront]
      simp only [Noted.notes_bind, Entry.notes_ask, Entry.value_ask, Comparator.probe_apply]
      cases hback : c.order b.key k with
      | gt =>
        have hback : settledByLast c.order k b.key = false := by simp [settledByLast, hback]
        exact .search ha hb hfront hback (notes_upperBound_ne_nil hnil _)
      | lt | eq => exact .last ha hb hfront (by simp [settledByLast, hback])

theorem climbs_locate (c : Map K V) (k : K) :
    Climbs (settledByFirst .unique c.order k) (settledByLast c.order k) c.toList
      (c.locate k).notes := by
  by_cases hnil : c.toList = []
  · have hnone : c.locate k = pure (.free 0) := by simp [locate, first?_eq, hnil]
    rw [hnone, hnil]
    exact .empty
  · obtain ⟨a, b, hfirst, hlast, ha, hb⟩ := ends_of_ne_nil hnil
    simp only [locate, hfirst, hlast, Noted.notes_bind, Entry.notes_ask, Entry.value_ask,
      Comparator.probe_apply]
    cases hfront : c.order a.key k with
    | gt | eq => exact .first ha (by simp [settledByFirst, hfront])
    | lt =>
      have hfront : settledByFirst .unique c.order k a.key = false := by
        simp [settledByFirst, hfront]
      simp only [Noted.notes_bind, Entry.notes_ask, Entry.value_ask, Comparator.probe_apply]
      cases hback : c.order b.key k with
      | gt =>
        have hback : settledByLast c.order k b.key = false := by simp [settledByLast, hback]
        simp only [Noted.notes_bind]
        -- what is compared with the entry where the search ends only adds to its comparisons
        exact .search ha hb hfront hback
          (List.append_ne_nil_of_left_ne_nil (notes_lowerBound_ne_nil hnil _) _)
      | lt | eq => exact .last ha hb hfront (by simp [settledByLast, hback])

theorem climbs_spot (c : Flat m K V) (k : K) :
    Climbs (settledByFirst m c.order k) (settledByLast c.order k) c.toList (c.spot k).notes := by
  cases m with
  | unique => exact climbs_locate c k
  | repeated =>
    show Climbs _ _ _ (Spot.free <$> c.insertPosition k).notes
    rw [Noted.notes_map]
    exact climbs_insertPosition c k

end Flat

/-! ## Steps -/

/-- The steps that look for `t` and compare the ends first. -/
inductive Step.Seeks (t : Target K) : Multiplicity → Step K V → Prop
  | first {m : Multiplicity} (f : Facet) : Seeks t m (.look (.first f) t)
  | position {m : Multiplicity} : Seeks t m (.look .position t)
  | count {m : Multiplicity} : Seeks t m (.look .count t)
  | index {m : Multiplicity} : Seeks t m (.look .index t)
  | update {m : Multiplicity} (f : V → V) : Seeks t m (.update t f)
  | take {m : Multiplicity} (f : Facet) : Seeks t m (.take f t)
  | removeAll : Seeks t .repeated (.removeAll t)
  | matching (script : List Request) (f : V → V) :
    Seeks t .repeated (.tour (.matching t) script f)
  | lentMatching (script : List Request) (f : V → V) :
    Seeks t .repeated (.tour (.lentMatching t) script f)

/-- The steps that look for the place of `k`, to add an entry or to change its value. -/
inductive Step.Settles (k : K) : Multiplicity → Step K V → Prop
  | insert {m : Multiplicity} (v : V) : Settles k m (.insert k v)
  | add {m : Multiplicity} (v : V) : Settles k m (.add k v)
  | emplace {m : Multiplicity} (make : Maker V) : Settles k m (.emplace k make)
  | insertOrAssign (v : V) : Settles k .unique (.insertOrAssign k v)
  | emplaceOrAssign (make : Maker V) : Settles k .unique (.emplaceOrAssign k make)
  | getOrInsertWith (make : Maker V) (f : V → V) :
    Settles k .unique (.getOrInsertWith k make f)
  | getOrDefault (f : V → V) : Settles k .unique (.getOrDefault k f)

namespace Flat

variable [DecidableEq K] [DecidableEq V] [Inhabited V] [Key K] [Document K V] {c : Flat m K V}
  {x : Step K V}

theorem climbs_seek {t : Target K} (h : x.Seeks t m) :
    Climbs (t.under c.order · == .gt) (t.under c.order · == .lt) c.toList (c.step x).asked := by
  have hfind := climbs_find? c (t.under c.order)
  cases h with
  | first f =>
    cases f with
    | presence =>
      show Climbs _ _ _ (c.contains (t.under c.order)).notes
      rwa [contains, Noted.notes_map]
    | entry | key | value =>
      show Climbs _ _ _ (c.firstMatch? (t.under c.order)).notes
      rwa [firstMatch?, Noted.notes_map]
  | position => exact hfind
  | count => exact climbs_count c _
  | index =>
    show Climbs _ _ _ ((·, c) <$> c.index (t.under c.order)).notes
    rwa [Noted.notes_map, index, Noted.notes_map, firstMatch?, Noted.notes_map]
  | update f =>
    show Climbs _ _ _ (c.update (t.under c.order) f).notes
    rwa [update, Noted.notes_map]
  | take f =>
    show Climbs _ _ _ (c.parting f <$> c.take? (t.under c.order)).notes
    rwa [Noted.notes_map, take?, Noted.notes_map]
  | removeAll => exact climbs_removeAll c _
  | matching script f =>
    show Climbs _ _ _ (_ <$> _ <$> c.matchRange (t.under c.order)).notes
    rw [Noted.notes_map, Noted.notes_map]
    exact climbs_matchRange c _
  | lentMatching script f =>
    show Climbs _ _ _ (_ <$> _ <$> c.matchRange (t.under c.order)).notes
    rw [Noted.notes_map, Noted.notes_map]
    exact climbs_matchRange c _

theorem climbs_settle {k : K} (h : x.Settles k m) :
    Climbs (settledByFirst m c.order k) (settledByLast c.order k) c.toList (c.step x).asked := by
  have hspot := climbs_spot c k
  cases h with
  | insert v | add v =>
    show Climbs _ _ _ (c.insert k v).notes
    rwa [Flat.insert, Noted.notes_map, Flat.emplace, Noted.notes_map]
  | emplace make =>
    show Climbs _ _ _ (c.emplace k make.run).notes
    rwa [Flat.emplace, Noted.notes_map]
  | insertOrAssign v =>
    show Climbs _ _ _ (c.insertOrAssign k v).notes
    rwa [Flat.insertOrAssign, Noted.notes_map, Flat.emplaceOrAssign, Noted.notes_map]
  | emplaceOrAssign make =>
    show Climbs _ _ _ (c.emplaceOrAssign k make.run).notes
    rwa [Flat.emplaceOrAssign, Noted.notes_map]
  | getOrInsertWith make f =>
    show Climbs _ _ _ (c.getOrInsertWith k make.run f).notes
    rwa [Flat.getOrInsertWith, Noted.notes_map, Flat.emplace, Noted.notes_map]
  | getOrDefault f =>
    show Climbs _ _ _ (c.getOrDefault k f).notes
    rwa [Flat.getOrDefault, Noted.notes_map, Flat.getOrInsertWith, Noted.notes_map, Flat.emplace,
      Noted.notes_map]

omit [DecidableEq K] [DecidableEq V] [Inhabited V] [Key K] [Document K V] in
theorem rungs_of_match {p : Probe K} (h : c.ConsistentWith p) {e : Entry K V}
    (he : e ∈ c.toList) (hit : p.hits e) : rungs (p · == .gt) (p · == .lt) c.toList = 3 := by
  have hinside : (c.outside p).value = false := by
    refine Bool.eq_false_iff.mpr fun ho => ?_
    exact no_match_of_outside h ho e he (beq_iff_eq.mp hit)
  obtain ⟨a, b, hfirst, hlast, ha, hb⟩ := ends_of_ne_nil (List.ne_nil_of_mem he)
  rw [outside_of_ne_nil p hfirst hlast] at hinside
  by_cases hfront : p a.key = .gt
  · rw [if_pos hfront] at hinside
    cases hinside
  · rw [if_neg hfront] at hinside
    have hback : (p b.key == .lt) = false := hinside
    have hfront : (p a.key == .gt) = false := beq_eq_false_iff_ne.mpr hfront
    simp only [rungs, ha, hb, hfront, hback, Bool.false_eq_true, if_false]

end Flat

namespace Session

variable [DecidableEq K] [DecidableEq V] [Inhabited V] [Key K] [Document K V]
  {s : Session K V} {c : Flat m K V}

/-- How many keys a step compares, up to three, is told by the two ends. A lookup or a removal that
seeks what is before the first entry compares one key, one that seeks what is after the last entry
compares two, and any other goes on to search, as it does whenever there is a match. An insertion
stops where its place is known: at a first key that is greater, in a map also at one of its class,
and at a last key that is not greater. Nothing is compared in an empty container. -/
theorem comparisons_stop_at_ends [Std.TransCmp order] (hr : s.Reached order)
    (hs : s.current = c.pack) :
    (∀ (t : Target K) (x : Step K V), x.Seeks t m →
      let p := t.under order
      min 3 (s.step x).asked.length = rungs (p · == .gt) (p · == .lt) c.toList ∧
        (t.ConsistentAlong c.keys → c.toList.any p.hits → 3 ≤ (s.step x).asked.length)) ∧
      ∀ (k : K) (x : Step K V), x.Settles k m →
        min 3 (s.step x).asked.length =
          rungs (Flat.settledByFirst m order k) (Flat.settledByLast order k) c.toList := by
  have hvalid := hr.validFor_current hs
  obtain rfl : c.order = order := hvalid.order_eq
  refine ⟨fun t x hx => ?_, fun k x hx => ?_⟩
  · intro p
    have hlength : min 3 (s.step x).asked.length = rungs (p · == .gt) (p · == .lt) c.toList := by
      rw [(notes_step hs x).1]
      exact (Flat.climbs_seek hx).min_length
    refine ⟨hlength, fun ht hany => ?_⟩
    obtain ⟨e, he, hit⟩ := List.any_eq_true.mp hany
    rw [Flat.rungs_of_match (hvalid.consistentWith_under ht) he hit] at hlength
    omega
  · rw [(notes_step hs x).1]
    exact (Flat.climbs_settle hx).min_length

/-- Keys of one last digit are one class. A probe for the last digits from zero to four matches the
first entry and a lookup searches for it; a key of the class of the last entry is placed without a
search. -/
theorem comparisons_stop_at_ends_digits :
    let s : Session Int64 Int64 :=
      Session.after ⟨.multimap (.empty KeyOrder.intMod.order), []⟩
        [.insert 13 0, .insert 7 1, .insert 1 2, .insert 3 3]
    let t : Target Int64 := .probe (KeyOrder.intMod.probe 0)
    s.current.toList = [⟨1, 2⟩, ⟨13, 0⟩, ⟨3, 3⟩, ⟨7, 1⟩] ∧
      3 ≤ (s.step (.take .value t)).asked.length ∧
      min 3 (s.step (.removeAll (.key 0))).asked.length = 1 ∧
      min 3 (s.step (.look .count (.key 8))).asked.length = 2 ∧
      min 3 (s.step (.insert 17 4)).asked.length = 2 ∧
      min 3 (s.step (.emplace 11 .fails)).asked.length = 3 := by
  intro s t
  have hreached : s.Reached KeyOrder.intMod.order := ⟨.repeated, .empty, _, _, rfl, rfl⟩
  obtain ⟨c, hs, hlist⟩ : ∃ c : Multimap Int64 Int64, s.current = c.pack ∧
      c.toList = [⟨1, 2⟩, ⟨13, 0⟩, ⟨3, 3⟩, ⟨7, 1⟩] := ⟨_, rfl, by decide +kernel⟩
  have hcons : t.ConsistentAlong c.keys := by
    intro p hp
    rw [Flat.keys, hlist, ← Target.probe.inj hp]
    decide
  obtain ⟨hseek, hsettle⟩ := comparisons_stop_at_ends hreached hs
  rw [hlist] at hseek hsettle
  refine ⟨?_, (hseek t _ (.take .value)).2 hcons (by decide), ?_, ?_, ?_, ?_⟩
  · rw [hs, Flat.toList_pack, hlist]
  · exact (hseek (.key 0) _ .removeAll).1.trans (by decide)
  · exact (hseek (.key 8) _ .count).1.trans (by decide)
  · exact (hsettle 17 _ (.insert 4)).trans (by decide)
  · exact (hsettle 11 _ (.emplace .fails)).trans (by decide)

end Session

end FlatAssoc
