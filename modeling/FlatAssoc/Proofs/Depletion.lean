import Mathlib.Logic.Function.Iterate
import FlatAssoc.Proofs.Ranges

/-!
# Depletion

Each removal of a match takes the first one out and nothing else (`Session.step_take`). Repeated
calls therefore hand out the matches one after the other and in order, and the first call after
them comes back with nothing (`Session.run_takes`). By then the container holds what it holds when
all matches are removed at once, and no lookup finds one (`Session.Misses`).
-/

namespace FlatAssoc

/-! ## Lists without their first matches -/

section

variable {α : Type} {p : α → Bool}

theorem filter_eraseP (xs : List α) : (xs.eraseP p).filter p = (xs.filter p).tail := by
  induction xs with
  | nil => rfl
  | cons x xs ih =>
    by_cases hx : p x
    · rw [List.eraseP_cons_of_pos hx, List.filter_cons_of_pos hx, List.tail_cons]
    · rw [List.eraseP_cons_of_neg hx, List.filter_cons_of_neg hx, List.filter_cons_of_neg hx, ih]

theorem filter_not_eraseP (xs : List α) :
    (xs.eraseP p).filter (fun x => !p x) = xs.filter fun x => !p x := by
  induction xs with
  | nil => rfl
  | cons x xs ih =>
    by_cases hx : p x
    · rw [List.eraseP_cons_of_pos hx, List.filter_cons_of_neg (by simp [hx])]
    · rw [List.eraseP_cons_of_neg hx, List.filter_cons_of_pos (by simp [hx]),
        List.filter_cons_of_pos (by simp [hx]), ih]

theorem filter_iterate_eraseP (n : Nat) (xs : List α) :
    ((List.eraseP p)^[n] xs).filter p = (xs.filter p).drop n := by
  induction n generalizing xs with
  | zero => rfl
  | succ n ih => rw [Function.iterate_succ_apply, ih, filter_eraseP, List.drop_tail]

theorem filter_not_iterate_eraseP (n : Nat) (xs : List α) :
    ((List.eraseP p)^[n] xs).filter (fun x => !p x) = xs.filter fun x => !p x := by
  induction n generalizing xs with
  | zero => rfl
  | succ n ih => rw [Function.iterate_succ_apply, ih, filter_not_eraseP]

/-- Once as many first matches are gone as there were matches, only the other items are left. -/
theorem iterate_eraseP_of_length_le {n : Nat} {xs : List α} (h : (xs.filter p).length ≤ n) :
    (List.eraseP p)^[n] xs = xs.filter fun x => !p x := by
  have hnone := filter_iterate_eraseP (p := p) n xs
  rw [List.drop_eq_nil_of_le h] at hnone
  rw [← filter_not_iterate_eraseP n, eq_comm, List.filter_eq_self]
  intro x hx
  simpa using List.filter_eq_nil_iff.mp hnone x hx

theorem map_range_getElem? {β : Type} (g : Option α → β) (xs : List α) :
    ((List.range xs.length).map fun i => g xs[i]?) = xs.map fun x => g (some x) := by
  refine List.ext_getElem (by simp) fun i hi _ => ?_
  have hlt : i < xs.length := by simpa using hi
  rw [List.getElem_map, List.getElem_map, List.getElem_range, List.getElem?_eq_getElem hlt]

end

namespace Flat

variable {m : Multiplicity} {K V : Type} {c d : Flat m K V} {p : Probe K}

theorem ConsistentWith.of_sublist (h : c.ConsistentWith p) (hsub : d.toList.Sublist c.toList) :
    d.ConsistentWith p :=
  List.Pairwise.sublist (hsub.map _) h

theorem parting_take? (h : c.ConsistentWith p) (f : Facet) :
    ∃ d : Flat m K V, d.order = c.order ∧ d.toList = c.toList.eraseP p.hits ∧
      c.parting f (c.take? p).value = (.optional f (c.toList.find? p.hits), d) := by
  rw [take?, Noted.value_map, value_find?_eq_findIdx? h, List.find?_eq_bind_findIdx?_getElem?,
    List.eraseP_eq_eraseIdx]
  cases hidx : c.toList.findIdx? p.hits with
  | none => exact ⟨c, rfl, rfl, rfl⟩
  | some i =>
    obtain ⟨hi, -⟩ := List.findIdx?_eq_some_iff_getElem.mp hidx
    refine ⟨c.eraseIdx i, rfl, toList_eraseIdx c i, ?_⟩
    rw [Option.bind_some, Option.bind_some, removeAt?, get?_eq, List.getElem?_eq_getElem hi]
    rfl

end Flat

/-! ## Lookups that find nothing -/

section

variable {m : Multiplicity} {K V : Type} {p : Probe K} {es : List (Entry K V)}
  (hnone : ∀ e ∈ es, ¬ p.hits e)

include hnone

theorem scan_first_of_no_match (f : Facet) :
    scan m p es (.first f) = .ok (.optional f none) := by
  rw [scan, List.find?_eq_none.mpr hnone]

theorem findIdx?_of_no_match : es.findIdx? p.hits = none :=
  List.findIdx?_eq_none_iff.mpr fun e he => Bool.eq_false_iff.mpr (hnone e he)

theorem scan_position_of_no_match : scan m p es .position = .ok .nothing := by
  rw [scan, findIdx?_of_no_match hnone]
  rfl

theorem scan_count_of_no_match : scan m p es .count = .ok (.number 0) := by
  cases m with
  | repeated => rw [scan, List.countP_eq_zero.mpr hnone]
  | unique =>
    rw [scan, List.any_eq_false.mpr hnone]
    rfl

theorem scan_index_of_no_match : scan m p es .index = .error .noEntry := by
  rw [scan, List.find?_eq_none.mpr hnone]

theorem countP_ne_gt_of_no_match :
    (es.countP fun e => p e.key != .gt) = es.countP fun e => p e.key == .lt := by
  have hcount : es.countP p.hits = 0 := List.countP_eq_zero.mpr hnone
  rw [Flat.countP_ne_gt]
  exact congrArg (_ + ·) hcount

theorem scan_upper_of_no_match :
    scan m p es .upper = .ok (.number (es.countP fun e => p e.key == .lt)) := by
  rw [scan, countP_ne_gt_of_no_match hnone]

theorem scan_range_of_no_match : scan m p es .range = .ok (.numbers
    [es.countP fun e => p e.key == .lt, es.countP fun e => p e.key == .lt]) := by
  cases m with
  | repeated => rw [scan, countP_ne_gt_of_no_match hnone]
  | unique => simp only [scan, findIdx?_of_no_match hnone]

end

/-- Drained entries are shown as matches lent for change are. -/
theorem Tour.answer_lentMatching {K V : Type} [Key K] [Document K V] (t : Target K) :
    (Tour.lentMatching t).answer = (Tour.drained.answer : Reading (Entry K V) → Answer K V) := by
  funext x
  cases x <;> rfl

namespace Session

variable {m : Multiplicity} {K V : Type} {order : Comparator K} [DecidableEq K] [DecidableEq V]
  [Inhabited V] [Key K] [Document K V] {s : Session K V} {c : Flat m K V} {t : Target K}

/-- No lookup of the session finds what is sought. -/
structure Misses (m : Multiplicity) (s : Session K V) (t : Target K) : Prop where
  first (f : Facet) : (s.step (.look (.first f) t)).answer = .ok (.optional f none)
  position : (s.step (.look .position t)).answer = .ok .nothing
  count : (s.step (.look .count t)).answer = .ok (.number 0)
  index : (s.step (.look .index t)).answer = .error .noEntry
  update (f : V → V) : (s.step (.update t f)).answer = .ok .nothing
  /-- The bounds are the same, and the range is empty. -/
  range : ∃ i, (s.step (.look .lower t)).answer = .ok (.number i) ∧
    (s.step (.look .upper t)).answer = .ok (.number i) ∧
    (s.step (.look .range t)).answer = .ok (.numbers [i, i])
  matching (hm : m = .repeated) (script : List Request) (f : V → V) :
    (s.step (.tour (.matching t) script f)).answer = .ok (.drained [] script)
  lentMatching (hm : m = .repeated) (script : List Request) (f : V → V) :
    (s.step (.tour (.lentMatching t) script f)).answer = .ok (.drained [] script)

theorem answer_tour_lentMatching {c : Multimap K V} (hs : s.current = c.pack)
    (h : c.ConsistentWith (t.under c.order)) (script : List Request) (f : V → V) :
    (s.step (.tour (.lentMatching t) script f)).answer =
      .ok (.drained (c.toList.filter (t.under c.order).hits) script) := by
  obtain ⟨d, hd, hreadings⟩ := Flat.value_tour_lentMatching h script f
  rw [Answer.drained, ← hreadings, ← Tour.answer_lentMatching t]
  exact answer_step_of_ok hs (Flat.outcome_tour hd)

theorem misses_of_no_match (hs : s.current = c.pack) (h : c.ConsistentWith (t.under c.order))
    (hnone : ∀ e ∈ c.toList, ¬ (t.under c.order).hits e) : s.Misses m t := by
  have hlook (l : Look) :
      (s.step (.look l t)).answer = scan m (t.under c.order) c.toList l := by
    rw [answer_look hs, Flat.answer_look h]
  have hfilter : c.toList.filter (t.under c.order).hits = [] :=
    List.filter_eq_nil_iff.mpr hnone
  refine ⟨fun f => ?_, ?_, ?_, ?_, fun f => ?_, ⟨_, hlook .lower, ?_, ?_⟩, ?_, ?_⟩
  · exact (hlook _).trans (scan_first_of_no_match hnone f)
  · exact (hlook _).trans (scan_position_of_no_match hnone)
  · exact (hlook _).trans (scan_count_of_no_match hnone)
  · exact (hlook _).trans (scan_index_of_no_match hnone)
  · have hout : (c.step (.update t f)).outcome =
        .ok (.optional .value (c.toList.find? (t.under c.order).hits),
          (c.update (t.under c.order) f).value.2.pack) := by
      unfold Flat.step
      exact Flat.outcome_changing_update h f rfl fun _ => rfl
    rw [answer_step_of_ok hs hout, List.find?_eq_none.mpr hnone]
    rfl
  · exact (hlook _).trans (scan_upper_of_no_match hnone)
  · exact (hlook _).trans (scan_range_of_no_match hnone)
  · rintro rfl script f
    rw [answer_tour_matching hs h, hfilter]
  · rintro rfl script f
    rw [answer_tour_lentMatching hs h, hfilter]

/-! ## One call after the other -/

/-- A removal of a match takes the first one out of the container at hand, and changes nothing
else. -/
theorem exists_step_take (hs : s.current = c.pack) (h : c.ConsistentWith (t.under c.order))
    (f : Facet) :
    ∃ d : Flat m K V, d.order = c.order ∧
      d.toList = c.toList.eraseP (t.under c.order).hits ∧
      (s.step (.take f t)).answer = .ok (.optional f (c.toList.find? (t.under c.order).hits)) ∧
      (s.step (.take f t)).session = { s with current := d.pack } := by
  obtain ⟨d, ho, hl, hparting⟩ := Flat.parting_take? h f
  have hout : (c.step (.take f t)).outcome =
      .ok (.optional f (c.toList.find? (t.under c.order).hits), d.pack) := by
    show (Flat.changing _ _).outcome = _
    rw [Flat.changing, Noted.value_map, hparting]
    rfl
  exact ⟨d, ho, hl, answer_step_of_ok hs hout, session_step_of_ok hs hout⟩

/-- The first calls answer the matches one after the other, and all later ones answer that there is
none. -/
theorem run_takes (hs : s.current = c.pack) (h : c.ConsistentWith (t.under c.order)) (f : Facet)
    (n : Nat) :
    ∃ d : Flat m K V, d.order = c.order ∧
      d.toList = (List.eraseP (t.under c.order).hits)^[n] c.toList ∧
      s.after (List.replicate n (.take f t)) = { s with current := d.pack } ∧
      (s.run (List.replicate n (.take f t))).map (·.answer) =
        (List.range n).map fun i =>
          .ok (.optional f (c.toList.filter (t.under c.order).hits)[i]?) := by
  induction n generalizing s c with
  | zero => exact ⟨c, rfl, rfl, by rw [← hs]; rfl, rfl⟩
  | succ n ih =>
    obtain ⟨d, ho, hl, hanswer, hsession⟩ := exists_step_take hs h f
    have hd : d.ConsistentWith (t.under d.order) := by
      rw [ho]
      exact h.of_sublist (hl ▸ List.eraseP_sublist)
    obtain ⟨e, heo, hel, hafter, hrun⟩ := ih (s := { s with current := d.pack }) rfl hd
    rw [ho, hl] at hel
    rw [ho, hl, filter_eraseP] at hrun
    refine ⟨e, heo.trans ho, hel, ?_, ?_⟩
    · rw [List.replicate_succ, after, List.foldl_cons, hsession]
      exact hafter
    · rw [List.replicate_succ, run, List.map_cons, hanswer, hsession, hrun,
        List.range_succ_eq_map, List.map_cons, List.map_map, ← List.head?_filter,
        List.head?_eq_getElem?]
      refine congrArg _ (List.map_congr_left fun i _ => ?_)
      rw [Function.comp_apply, List.getElem?_tail]

/-! ## All matches gone -/

/-- `y` is `s` without the matches in the container `c` that it works on: the entries that do not
match are left in their old order, nothing else has changed, and no lookup finds a match. -/
structure Depletes (s : Session K V) (c : Flat m K V) (t : Target K) (y : Session K V) : Prop where
  rest : ∃ d : Flat m K V, y = { s with current := d.pack } ∧ d.order = c.order ∧
    d.toList = c.toList.filter fun e => !(t.under c.order).hits e
  misses : y.Misses m t

theorem depletes_of_toList {d : Flat m K V} (h : c.ConsistentWith (t.under c.order))
    (ho : d.order = c.order)
    (hl : d.toList = c.toList.filter fun e => !(t.under c.order).hits e) :
    s.Depletes c t { s with current := d.pack } := by
  refine ⟨⟨d, rfl, ho, hl⟩, ?_⟩
  refine misses_of_no_match (c := d) rfl ?_ fun e he => ?_
  · rw [ho]
    exact h.of_sublist (hl ▸ List.filter_sublist)
  · rw [hl] at he
    rw [ho]
    simpa using (List.mem_filter.mp he).2

theorem depletes_of_takes (hs : s.current = c.pack) (h : c.ConsistentWith (t.under c.order))
    (f : Facet) {n : Nat} (hn : (c.toList.filter (t.under c.order).hits).length ≤ n) :
    s.Depletes c t (s.after (List.replicate n (.take f t))) := by
  obtain ⟨d, ho, hl, hafter, -⟩ := run_takes hs h f n
  rw [hafter]
  exact depletes_of_toList h ho (hl.trans (iterate_eraseP_of_length_le hn))

theorem depletes_of_removeAll {c : Multimap K V} (hs : s.current = c.pack)
    (h : c.ConsistentWith (t.under c.order)) :
    (s.step (.removeAll t)).answer =
        .ok (.number (c.toList.filter (t.under c.order).hits).length) ∧
      s.Depletes c t (s.step (.removeAll t)).session := by
  obtain ⟨d, hvalue, ho, hl⟩ := Flat.value_removeAll h
  rw [List.countP_eq_length_filter] at hvalue
  have hout : (c.step (.removeAll t)).outcome =
      .ok (.number (c.toList.filter (t.under c.order).hits).length, d.pack) := by
    show (Flat.attempting _ _).outcome = _
    rw [Flat.attempting, hvalue]
    rfl
  refine ⟨answer_step_of_ok hs hout, ?_⟩
  rw [session_step_of_ok hs hout]
  exact depletes_of_toList h ho hl

/-- Until no call finds a match any more, the calls answer the matches, all of them and in order. -/
theorem run_takes_until_none (hs : s.current = c.pack)
    (h : c.ConsistentWith (t.under c.order)) (f : Facet) :
    let hits := c.toList.filter (t.under c.order).hits
    (s.run (List.replicate (hits.length + 1) (.take f t))).map (·.answer) =
      (hits.map fun e => .ok (.ofEntry f e)) ++ [.ok (.optional f none)] := by
  intro hits
  obtain ⟨-, -, -, -, hrun⟩ := run_takes hs h f (hits.length + 1)
  rw [hrun, List.range_succ, List.map_append, List.map_singleton,
    List.getElem?_eq_none (Nat.le_refl _)]
  exact congrArg (· ++ _) (map_range_getElem? (fun x => Except.ok (Answer.optional f x)) hits)

/-- Calls that take out one match after the other answer the matches in order and then that there
is none. Each takes out the first match that is there and nothing else, and after as many calls as
there were matches none is left. A multimap shows the same matches in a traversal, counts as many,
and comes to hold the same entries if all matches are taken out at once. -/
theorem takes_deplete_matches [Std.TransCmp order] (hr : s.Reached order)
    (hs : s.current = c.pack) (ht : t.ConsistentAlong c.keys) (f : Facet) :
    let p := t.under order
    let hits := c.toList.filter p.hits
    let calls (n : Nat) := List.replicate n (Step.take f t : Step K V)
    (∀ n, (s.run (calls n)).map (·.answer) =
        ((List.range n).map fun i => .ok (.optional f hits[i]?)) ∧
      (s.after (calls n)).current.toList = (List.eraseP p.hits)^[n] c.toList ∧
      (hits.length ≤ n → s.Depletes c t (s.after (calls n)))) ∧
    (s.run (calls (hits.length + 1))).map (·.answer) =
      (hits.map fun e => .ok (.ofEntry f e)) ++ [.ok (.optional f none)] ∧
    (m = .repeated →
      (s.step (.look .count t)).answer = .ok (.number hits.length) ∧
      (∀ g, (s.step (.tour (.matching t) [.collect] g)).answer =
        .ok (.list [.list (hits.map .entry)])) ∧
      (s.step (.removeAll t)).answer = .ok (.number hits.length) ∧
      s.Depletes c t (s.step (.removeAll t)).session) := by
  have hvalid := hr.validFor_current hs
  obtain rfl : c.order = order := hvalid.order_eq
  have hcons : c.ConsistentWith (t.under c.order) := hvalid.consistentWith_under ht
  refine ⟨fun n => ?_, run_takes_until_none hs hcons f, ?_⟩
  · obtain ⟨d, -, hl, hafter, hrun⟩ := run_takes hs hcons f n
    refine ⟨hrun, ?_, depletes_of_takes hs hcons f⟩
    rw [hafter, Flat.toList_pack, hl]
  · rintro rfl
    refine ⟨?_, fun g => ?_, depletes_of_removeAll hs hcons⟩
    · rw [answer_look hs, Flat.answer_look hcons, scan, List.countP_eq_length_filter]
    · rw [answer_tour_matching hs hcons]
      rfl

/-- A probe for the last digits from zero to four matches the entries of two classes. They leave one
after the other, and the fourth call finds none. -/
theorem takes_deplete_matches_digits :
    let s : Session Int64 Int64 :=
      Session.after ⟨.multimap (.empty KeyOrder.intMod.order), []⟩
        [.insert 13 0, .insert 7 1, .insert 1 2, .insert 3 3]
    let t : Target Int64 := .probe (KeyOrder.intMod.probe 0)
    let calls (n : Nat) := List.replicate n (Step.take .value t : Step Int64 Int64)
    s.current.toList = [⟨1, 2⟩, ⟨13, 0⟩, ⟨3, 3⟩, ⟨7, 1⟩] ∧
      (s.run (calls 4)).map (·.answer) =
        [.ok (.value 2), .ok (.value 0), .ok (.value 3), .ok .nothing] ∧
      (s.after (calls 1)).current.toList = [⟨13, 0⟩, ⟨3, 3⟩, ⟨7, 1⟩] ∧
      (s.after (calls 4)).Misses .repeated t ∧
      (s.step (.removeAll t)).answer = .ok (.number 3) := by
  intro s t calls
  have hreached : s.Reached KeyOrder.intMod.order := ⟨.repeated, .empty, _, _, rfl, rfl⟩
  obtain ⟨c, hs, hlist⟩ : ∃ c : Multimap Int64 Int64, s.current = c.pack ∧
      c.toList = [⟨1, 2⟩, ⟨13, 0⟩, ⟨3, 3⟩, ⟨7, 1⟩] := ⟨_, rfl, by decide +kernel⟩
  have hcons : t.ConsistentAlong c.keys := by
    intro p hp
    rw [Flat.keys, hlist, ← Target.probe.inj hp]
    decide
  obtain ⟨hcalls, huntil, hall⟩ := takes_deplete_matches hreached hs hcons .value
  obtain ⟨-, -, hremove, -⟩ := hall rfl
  rw [hlist] at hcalls huntil hremove
  refine ⟨?_, huntil, (hcalls 1).2.1, ((hcalls 4).2.2 (by decide)).misses, hremove⟩
  rw [hs, Flat.toList_pack, hlist]

end Session

end FlatAssoc
