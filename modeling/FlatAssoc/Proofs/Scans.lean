import FlatAssoc.Cursor.Lemmas
import FlatAssoc.Key.WeakOrder
import FlatAssoc.Proofs.Panics

/-!
# Lookups as scans

A lookup compares the two ends and then searches; a scan goes through all entries one after the
other and needs no order. For a consistent probe, coarse or not, both answer the same
(`Flat.answer_look`): the bounds count entries, the first match is the first one that a scan meets,
and a traversal of all matches is one of the entries that a filter leaves.
-/

namespace FlatAssoc

variable {m : Multiplicity} {K V : Type} {order : Comparator K}

/-! ## Scans -/

/-- Whether an entry is what is sought. -/
def Probe.hits (p : Probe K) (e : Entry K V) : Bool := p e.key == .eq

/-- What a keyed read answers that goes through all entries. -/
def scan (m : Multiplicity) (p : Probe K) (es : List (Entry K V)) :
    Look → Except Failure (Answer K V)
  | .first f => .ok (.optional f (es.find? p.hits))
  | .position => .ok (.ofNat? (es.findIdx? p.hits))
  | .count =>
    match m with
    | .repeated => .ok (.number (es.countP p.hits))
    | .unique => .ok (.number (if es.any p.hits then 1 else 0))
  | .lower => .ok (.number (es.countP fun e => p e.key == .lt))
  | .upper => .ok (.number (es.countP fun e => p e.key != .gt))
  | .range =>
    match m, es.findIdx? p.hits with
    | .repeated, _ => .ok (.numbers
      [es.countP fun e => p e.key == .lt, es.countP fun e => p e.key != .gt])
    | .unique, some i => .ok (.numbers [i, i + 1])
    | .unique, none => .ok (.numbers
      [es.countP fun e => p e.key == .lt, es.countP fun e => p e.key == .lt])
  | .index =>
    match es.find? p.hits with
    | some e => .ok (.value e.value)
    | none => .error .noEntry

/-- The entries with the value of the first match changed. -/
def changeFirst (p : Probe K) (f : V → V) : List (Entry K V) → List (Entry K V)
  | [] => []
  | e :: es => if p.hits e then e.update f :: es else e :: changeFirst p f es

theorem changeFirst_eq_modify {p : Probe K} {es : List (Entry K V)} {i : Nat}
    (h : es.findIdx? p.hits = some i) (f : V → V) :
    changeFirst p f es = es.modify i (·.update f) := by
  induction es generalizing i with
  | nil => cases h
  | cons e es ih =>
    rw [List.findIdx?_cons] at h
    unfold changeFirst
    by_cases he : p.hits e
    · rw [if_pos he] at h ⊢
      cases h
      rfl
    · rw [if_neg he] at h ⊢
      obtain ⟨j, hj, rfl⟩ := Option.map_eq_some_iff.mp h
      rw [ih hj, List.modify_succ_cons]

theorem changeFirst_eq_self {p : Probe K} {es : List (Entry K V)}
    (h : es.findIdx? p.hits = none) (f : V → V) : changeFirst p f es = es := by
  induction es with
  | nil => rfl
  | cons e es ih =>
    rw [List.findIdx?_cons] at h
    unfold changeFirst
    by_cases he : p.hits e
    · rw [if_pos he] at h
      cases h
    · rw [if_neg he] at h ⊢
      rw [ih (Option.map_eq_none_iff.mp h)]

namespace Flat

variable {c : Flat m K V} {p : Probe K}

/-! ## Lookups -/

/-- Nothing stands before the first match but what is before the probe. -/
theorem findIdx?_hits (h : c.ConsistentWith p) :
    c.toList.findIdx? p.hits =
      ((c.toList.filter p.hits).findIdx? p.hits).map
        (· + c.toList.countP fun e => p e.key == .lt) := by
  have hnone (o : Ordering) (ho : o ≠ .eq) :
      (c.toList.filter fun e => p e.key == o).findIdx? p.hits = none := by
    refine List.findIdx?_eq_none_iff.mpr fun e he => ?_
    have heo : p e.key = o := by simpa using (List.mem_filter.mp he).2
    simpa [Probe.hits, heo] using ho
  conv => lhs; rw [h.toList_eq]
  rw [List.findIdx?_append, List.findIdx?_append, hnone .lt (by decide), hnone .gt (by decide),
    List.countP_eq_length_filter, Option.none_or, Option.map_none, Option.or_none]
  rfl

theorem value_find?_eq_findIdx? (h : c.ConsistentWith p) :
    (c.find? p).value = c.toList.findIdx? p.hits := by
  rw [value_find? h]
  by_cases hany : c.toList.any p.hits
  · obtain ⟨e, he, hit⟩ := List.any_eq_true.mp hany
    obtain ⟨f, fs, hfs⟩ := List.exists_cons_of_ne_nil
      (List.ne_nil_of_mem (List.mem_filter.mpr ⟨he, hit⟩))
    have hf : p.hits f := (List.mem_filter.mp (hfs ▸ List.mem_cons_self)).2
    rw [findIdx?_hits h, hfs, List.findIdx?_cons, if_pos hf]
    exact (if_pos hany).trans (by simp)
  · have hmiss : c.toList.findIdx? p.hits = none := by
      refine List.findIdx?_eq_none_iff.mpr fun e he => ?_
      exact Bool.eq_false_iff.mpr fun hit => hany (List.any_eq_true.mpr ⟨e, he, hit⟩)
    rw [hmiss]
    exact if_neg hany

theorem value_firstMatch?_eq_find? (h : c.ConsistentWith p) :
    (c.firstMatch? p).value = c.toList.find? p.hits := by
  rw [firstMatch?, Noted.value_map, value_find?_eq_findIdx? h,
    List.find?_eq_bind_findIdx?_getElem?]
  have hget : c.get? = fun i => c.toList[i]? := funext c.get?_eq
  rw [hget]

theorem value_contains_eq_any (h : c.ConsistentWith p) :
    (c.contains p).value = c.toList.any p.hits := by
  rw [contains, Noted.value_map, value_find?_eq_findIdx? h, List.findIdx?_isSome]

theorem value_count {c : Multimap K V} (h : c.ConsistentWith p) :
    (c.count p).value = c.toList.countP p.hits := by
  simp only [count, Noted.value_bind]
  cases ho : (c.outside p).value with
  | true =>
    refine (List.countP_eq_zero.mpr fun e he => ?_).symm
    simpa [Probe.hits] using no_match_of_outside h ho e he
  | false =>
    show (c.upperBound p).value - (c.lowerBound p).value = _
    rw [value_lowerBound_toList h, value_upperBound_toList h, countP_ne_gt,
      Nat.add_sub_cancel_left]
    rfl

/-- A keyed read answers what a scan answers. -/
theorem answer_look (h : c.ConsistentWith p) (l : Look) :
    (c.look l p).answer = scan m p c.toList l := by
  cases l with
  | first f =>
    cases f with
    | presence =>
      show Except.ok (Answer.flag (c.contains p).value) = _
      rw [value_contains_eq_any h, ← List.isSome_find?]
      unfold scan
      cases c.toList.find? p.hits <;> rfl
    | entry | key | value =>
      show Except.ok (Answer.optional _ (c.firstMatch? p).value) = _
      rw [value_firstMatch?_eq_find? h]
      rfl
  | position =>
    show Except.ok (Answer.ofNat? (c.find? p).value) = _
    rw [value_find?_eq_findIdx? h]
    rfl
  | count =>
    show Except.ok (Answer.number (c.count p).value) = _
    cases m with
    | repeated =>
      rw [value_count h]
      rfl
    | unique =>
      show Except.ok (Answer.number (c.contains p).value.toNat) = _
      rw [value_contains_eq_any h]
      unfold scan
      cases c.toList.any p.hits <;> rfl
  | lower =>
    show Except.ok (Answer.number (c.lowerBound p).value) = _
    rw [value_lowerBound_toList h]
    rfl
  | upper =>
    show Except.ok (Answer.number (c.upperBound p).value) = _
    rw [value_upperBound_toList h]
    rfl
  | range =>
    show Except.ok (Answer.numbers [(c.equalRange p).value.1, (c.equalRange p).value.2]) = _
    cases m with
    | repeated =>
      show Except.ok (Answer.numbers [(c.lowerBound p).value, (c.upperBound p).value]) = _
      rw [value_lowerBound_toList h, value_upperBound_toList h]
      rfl
    | unique =>
      simp only [equalRange, Noted.value_bind, value_find?_eq_findIdx? h, scan]
      cases c.toList.findIdx? p.hits with
      | some i => rfl
      | none => simp only [Noted.value_map, value_lowerBound_toList h]
  | index =>
    show Answer.value <$> (c.index p).value = _
    rw [index, Noted.value_map, value_firstMatch?_eq_find? h, scan]
    cases c.toList.find? p.hits <;> rfl

/-! ## Changes of the first match -/

theorem fst_update (h : c.ConsistentWith p) (f : V → V) :
    (c.update p f).value.1 = (c.toList.find? p.hits).map (·.value) := by
  rw [update, Noted.value_map, value_find?_eq_findIdx? h,
    List.find?_eq_bind_findIdx?_getElem?]
  cases c.toList.findIdx? p.hits with
  | none => rfl
  | some i => exact congrArg (Option.map _) (c.get?_eq i)

theorem toList_update (h : c.ConsistentWith p) (f : V → V) :
    (c.update p f).value.2.toList = changeFirst p f c.toList := by
  rw [update, Noted.value_map, value_find?_eq_findIdx? h]
  cases hidx : c.toList.findIdx? p.hits with
  | none => exact (changeFirst_eq_self hidx f).symm
  | some i => rw [changeFirst_eq_modify hidx, toList_modify]

theorem outcome_changing_update (h : c.ConsistentWith p) (f : V → V)
    {g : Option V → Answer K V} (hnone : g none = .nothing) (hsome : ∀ v, g (some v) = .value v) :
    (changing (c.update p f) g).outcome =
      .ok (.optional .value (c.toList.find? p.hits), (c.update p f).value.2.pack) := by
  show Except.ok (g (c.update p f).value.1, _) = _
  rw [fst_update h]
  cases c.toList.find? p.hits with
  | none => rw [Option.map_none, hnone]; rfl
  | some e => rw [Option.map_some, hsome]; rfl

/-! ## All matches -/

theorem take_drop_bounds (h : c.ConsistentWith p) :
    (c.toList.take (c.bounds p).value.2).drop (c.bounds p).value.1 = c.toList.filter p.hits := by
  have hlead : Buffer.Leading (fun e : Entry K V => p e.key == .lt)
      (c.toList.filter fun e => p e.key != .gt) := h.leading_lt.sublist List.filter_sublist
  have hcount : (c.toList.countP fun e => p e.key == .lt) =
      (c.toList.filter fun e => p e.key != .gt).countP fun e => p e.key == .lt := by
    rw [List.countP_filter]
    refine List.countP_congr fun e _ => ?_
    cases p e.key <;> simp
  show (c.toList.take (c.upperBound p).value).drop (c.lowerBound p).value = _
  rw [value_lowerBound_toList h, value_upperBound_toList h, h.leading_ne_gt.take_countP, hcount,
    hlead.drop_countP, List.filter_filter]
  refine List.filter_congr fun e _ => ?_
  unfold Probe.hits
  cases p e.key <;> rfl

/-- The positions that a traversal of all matches runs over are those of the matches. -/
theorem take_drop_matchRange {c : Multimap K V} (h : c.ConsistentWith p) :
    (c.toList.take (c.matchRange p).value.2).drop (c.matchRange p).value.1 =
      c.toList.filter p.hits := by
  simp only [matchRange, Noted.value_bind]
  cases ho : (c.outside p).value with
  | true =>
    refine (List.filter_eq_nil_iff.mpr fun e he => ?_).symm
    simpa [Probe.hits] using no_match_of_outside h ho e he
  | false => exact take_drop_bounds h

theorem value_matches? {c : Multimap K V} (h : c.ConsistentWith p) :
    ∃ halves, (c.matches? p).value = .ok halves ∧ halves.toList = c.toList.filter p.hits := by
  refine ⟨_, Buffer.part_eq_ok (isPart_matchRange h), ?_⟩
  rw [Buffer.toList_window]
  exact take_drop_matchRange h

theorem value_lentMatches? {c : Multimap K V} (h : c.ConsistentWith p) :
    ∃ halves, (c.lentMatches? p).value = .ok halves ∧
      halves.toList.map Prod.fst = c.toList.filter p.hits := by
  refine ⟨_, Buffer.part_eq_ok (isPart_zipIdx (isPart_matchRange h)), ?_⟩
  rw [Buffer.toList_window, List.map_drop, List.map_take, Buffer.toList_zipIdx,
    List.zipIdx_map_fst]
  exact take_drop_matchRange h

section

variable {c : Multimap K V} {t : Target K} (h : c.ConsistentWith (t.under c.order))

include h

theorem value_tour_matching (script : List Request) (f : V → V) :
    ∃ d, (c.tour (.matching t) script f).value = Toured.done d ∧
      d.readings = Cursor.play (c.toList.filter (t.under c.order).hits) script := by
  obtain ⟨halves, hvalue, hlist⟩ := value_matches? h
  refine ⟨c.borrow halves script, ?_, ?_⟩
  · simp only [tour, Noted.value_map, hvalue]
    rfl
  · rw [← hlist]
    exact Cursor.play_eq_play_rest halves script

/-- Matches that are lent for change are shown as they were. -/
theorem value_tour_lentMatching (script : List Request) (f : V → V) :
    ∃ d, (c.tour (.lentMatching t) script f).value = Toured.done d ∧
      d.readings = Cursor.play (c.toList.filter (t.under c.order).hits) script := by
  obtain ⟨halves, hvalue, hlist⟩ := value_lentMatches? h
  refine ⟨c.lend halves script f, ?_, ?_⟩
  · simp only [tour, Noted.value_map, hvalue]
    rfl
  · rw [← hlist, Cursor.play_map]
    exact congrArg (List.map (Reading.map Prod.fst)) (Cursor.play_eq_play_rest halves script)

end

end Flat

/-! ## Sessions -/

/-- A probe of the caller's own is consistent along the stored keys. -/
def Target.ConsistentAlong (t : Target K) (keys : List K) : Prop :=
  ∀ p, t = .probe p → p.Consistent keys

theorem Flat.ValidFor.consistentWith_under [Std.TransCmp order] {c : Flat m K V}
    (h : c.ValidFor order) {t : Target K} (ht : t.ConsistentAlong c.keys) :
    c.ConsistentWith (t.under order) := by
  cases t with
  | key k => exact h.consistentWith k
  | probe p => exact ht p rfl

namespace Session

variable [Std.TransCmp order] [DecidableEq K] [DecidableEq V] [Inhabited V] [Key K] [Document K V]
  {s : Session K V} {c : Flat m K V} {t : Target K}

omit [Std.TransCmp order] in
theorem answer_look (hs : s.current = c.pack) (l : Look) (t : Target K) :
    (s.step (.look l t)).answer = (c.look l (t.under c.order)).answer := by
  show (s.current.step (.look l t)).answer = _
  rw [hs, Flat.pack_step]
  rfl

/-- Every lookup of a consistent probe answers what a scan of the entries answers. A change of a
match changes the first one that a scan meets, and a traversal of all matches reads, whatever its
script, as one of the entries that a scan picks. -/
theorem lookups_eq_scans (hr : s.Reached order) (hs : s.current = c.pack)
    (ht : t.ConsistentAlong c.keys) :
    let p := t.under order
    (∀ l, (s.step (.look l t)).answer = scan m p c.toList l) ∧
      (∀ f, (s.step (.update t f)).answer = .ok (.optional .value (c.toList.find? p.hits)) ∧
        (s.step (.update t f)).session.current.toList = changeFirst p f c.toList) ∧
      (m = .repeated → ∀ script f,
        (s.step (.tour (.matching t) script f)).answer =
            .ok (.list ((Cursor.play (c.toList.filter p.hits) script).map
              (Tour.answer (.matching t)))) ∧
          (s.step (.tour (.lentMatching t) script f)).answer =
            .ok (.list ((Cursor.play (c.toList.filter p.hits) script).map
              (Tour.answer (.lentMatching t))))) := by
  have hvalid := hr.validFor_current hs
  obtain rfl : c.order = order := hvalid.order_eq
  have hcons : c.ConsistentWith (t.under c.order) := hvalid.consistentWith_under ht
  refine ⟨fun l => ?_, fun f => ?_, ?_⟩
  · rw [answer_look hs]
    exact Flat.answer_look hcons l
  · have hout : (c.step (.update t f)).outcome =
        .ok (.optional .value (c.toList.find? (t.under c.order).hits),
          (c.update (t.under c.order) f).value.2.pack) := by
      unfold Flat.step
      exact Flat.outcome_changing_update hcons f rfl fun _ => rfl
    refine ⟨answer_step_of_ok hs hout, ?_⟩
    rw [current_step hs hout, Flat.toList_pack, Flat.toList_update hcons]
  · rintro rfl script f
    constructor
    · obtain ⟨d, hd, hreadings⟩ := Flat.value_tour_matching hcons script f
      rw [← hreadings]
      exact answer_step_of_ok hs (Flat.outcome_tour hd)
    · obtain ⟨d, hd, hreadings⟩ := Flat.value_tour_lentMatching hcons script f
      rw [← hreadings]
      exact answer_step_of_ok hs (Flat.outcome_tour hd)

/-- A probe for the last digits from zero to four matches two classes of keys and not the third. -/
theorem lookups_eq_scans_digits :
    let s : Session Int64 Int64 :=
      Session.after ⟨.multimap (.empty KeyOrder.intMod.order), []⟩
        [.insert 13 0, .insert 7 1, .insert 1 2, .insert 3 3]
    let t : Target Int64 := .probe (KeyOrder.intMod.probe 0)
    s.current.toList = [⟨1, 2⟩, ⟨13, 0⟩, ⟨3, 3⟩, ⟨7, 1⟩] ∧
      (s.step (.look .range t)).answer = .ok (.numbers [0, 3]) ∧
      (s.step (.update t (· + 5))).session.current.toList =
        [⟨1, 7⟩, ⟨13, 0⟩, ⟨3, 3⟩, ⟨7, 1⟩] ∧
      (s.step (.tour (.lentMatching t) [.collect] id)).answer =
        .ok (.list [.list [.entry ⟨1, 2⟩, .entry ⟨13, 0⟩, .entry ⟨3, 3⟩]]) := by
  intro s t
  have hreached : s.Reached KeyOrder.intMod.order := ⟨.repeated, .empty, _, _, rfl, rfl⟩
  obtain ⟨c, hs, hlist⟩ : ∃ c : Multimap Int64 Int64, s.current = c.pack ∧
      c.toList = [⟨1, 2⟩, ⟨13, 0⟩, ⟨3, 3⟩, ⟨7, 1⟩] := ⟨_, rfl, by decide +kernel⟩
  have hcons : t.ConsistentAlong c.keys := by
    intro p hp
    rw [Flat.keys, hlist, ← Target.probe.inj hp]
    decide
  obtain ⟨hlook, hupdate, htour⟩ := lookups_eq_scans hreached hs hcons
  rw [hlist] at hlook hupdate htour
  refine ⟨?_, hlook .range, (hupdate (· + 5)).2, (htour rfl [.collect] id).2⟩
  rw [hs, Flat.toList_pack, hlist]

end Session

end FlatAssoc
