import FlatAssoc.Proofs.Scans

/-!
# Ranges of positions

A range of positions is taken out as a whole, however little of it is read
(`Flat.outcome_removeRange`), unless its bounds delimit no part of the container: read as half-open,
an end needs a position that does not exist, or the ends are the wrong way round, or the upper one
lies past the last entry (`Bound.delimit_iff`). Then nothing changes.
-/

namespace FlatAssoc

/-! ## Half-open ranges -/

namespace Bound

/-- The first position inside a range with this lower end. -/
def start : Bound → Nat
  | .included n => n
  | .excluded n => n + 1
  | .unbounded => 0

/-- The first position past a range with this upper end, among `size` positions. -/
def stop (size : Nat) : Bound → Nat
  | .included n => n + 1
  | .excluded n => n
  | .unbounded => size

/-- As a lower end, the bound asks for the position after the last one that exists. -/
def StartOverflows : Bound → Prop
  | .excluded n => positionLimit ≤ n + 1
  | .included _ | .unbounded => False

/-- As an upper end, the bound asks for the position after the last one that exists. -/
def StopOverflows : Bound → Prop
  | .included n => positionLimit ≤ n + 1
  | .excluded _ | .unbounded => False

/-- Read as a half-open range, the bounds are no part of `size` positions. -/
def Invalid (lo hi : Bound) (size : Nat) : Prop :=
  lo.StartOverflows ∨ hi.StopOverflows ∨ hi.stop size < lo.start ∨ size < hi.stop size

instance : DecidablePred StartOverflows
  | .excluded n => inferInstanceAs (Decidable (positionLimit ≤ n + 1))
  | .included _ | .unbounded => inferInstanceAs (Decidable False)

instance : DecidablePred StopOverflows
  | .included n => inferInstanceAs (Decidable (positionLimit ≤ n + 1))
  | .excluded _ | .unbounded => inferInstanceAs (Decidable False)

instance (lo hi : Bound) (size : Nat) : Decidable (lo.Invalid hi size) :=
  inferInstanceAs (Decidable (_ ∨ _ ∨ _ ∨ _))

theorem succ?_eq (n : Nat) : succ? n = if positionLimit ≤ n + 1 then none else some (n + 1) := by
  unfold succ?
  by_cases h : n + 1 < positionLimit
  · rw [if_pos h, if_neg (by omega)]
  · rw [if_neg h, if_pos (by omega)]

theorem start?_eq (b : Bound) : b.start? = if b.StartOverflows then none else some b.start := by
  cases b with
  | included n => rfl
  | excluded n => exact succ?_eq n
  | unbounded => rfl

theorem stop?_eq (size : Nat) (b : Bound) :
    b.stop? size = if b.StopOverflows then none else some (b.stop size) := by
  cases b with
  | included n => exact succ?_eq n
  | excluded n => rfl
  | unbounded => rfl

theorem delimit_iff {lo hi : Bound} {size : Nat} :
    lo.Delimit hi size ↔ ¬ lo.Invalid hi size := by
  unfold Delimit Invalid
  rw [start?_eq, stop?_eq]
  by_cases hlo : lo.StartOverflows
  · simp [hlo]
  by_cases hhi : hi.StopOverflows
  · simp [hhi]
  simp only [hlo, hhi, if_false, false_or, not_or, Nat.not_lt]
  constructor
  · rintro ⟨start, stop, hstart, hstop, hle, hsize⟩
    rw [Option.some.inj hstart, Option.some.inj hstop]
    exact ⟨hle, hsize⟩
  · rintro ⟨hle, hsize⟩
    exact ⟨lo.start, hi.stop size, rfl, rfl, hle, hsize⟩

end Bound

namespace Flat

variable {m : Multiplicity} {K V : Type} {c : Flat m K V}

theorem removePart_isPart {start stop : Nat} (h : c.entries.IsPart start stop) :
    ∃ d, c.removePart start stop = (.ok ((c.toList.take stop).drop start), d) ∧
      d.order = c.order ∧ d.toList = c.toList.take start ++ c.toList.drop stop :=
  ⟨_, removePart_eq_ok c h, rfl, Buffer.toList_eraseRange _ h.1⟩

theorem removeRange_valid {lo hi : Bound} (h : ¬ lo.Invalid hi c.size) :
    ∃ d, c.removeRange lo hi =
        (.ok ((c.toList.take (hi.stop c.size)).drop lo.start), d) ∧ d.order = c.order ∧
      d.toList = c.toList.take lo.start ++ c.toList.drop (hi.stop c.size) := by
  unfold Bound.Invalid at h
  rw [not_or, not_or, not_or, Nat.not_lt, Nat.not_lt] at h
  obtain ⟨hlo, hhi, hle, hsize⟩ := h
  rw [removeRange, Bound.start?_eq, Bound.stop?_eq, if_neg hlo, if_neg hhi]
  exact removePart_isPart ⟨hle, hsize⟩

/-- The bounds of the matches are valid, and between them are the matches and nothing else. -/
theorem bounds_matches {c : Multimap K V} {p : Probe K} (h : c.ConsistentWith p) :
    ∃ lo hi, (c.equalRange p).value = (lo, hi) ∧
      ¬ (Bound.included lo).Invalid (.excluded hi) c.size ∧
      (c.toList.take hi).drop lo = c.toList.filter p.hits ∧
      c.toList.take lo ++ c.toList.drop hi = c.toList.filter fun e => !p.hits e := by
  refine ⟨_, _, rfl, ?_, take_drop_bounds h, toList_outside_bounds h⟩
  have hpart := isPart_bounds h
  rintro (hlo | hhi | hle | hsize)
  · exact hlo
  · exact hhi
  · exact absurd hpart.1 (Nat.not_le.mpr hle)
  · exact absurd hpart.2 (Nat.not_le.mpr hsize)

end Flat

/-- What a script answers that reads entries on their way out. -/
def Answer.drained {K V : Type} [Key K] [Document K V] (es : List (Entry K V))
    (script : List Request) : Answer K V :=
  .list ((Cursor.play es script).map (Tour.answer .drained))

/-- Drained entries are shown as matches are. -/
theorem Tour.answer_matching {K V : Type} [Key K] [Document K V] (t : Target K) :
    (Tour.matching t).answer = (Tour.drained.answer : Reading (Entry K V) → Answer K V) := by
  funext x
  cases x <;> rfl

/-! ## Steps -/

namespace Flat

variable {m : Multiplicity} {K V : Type} [DecidableEq K] [DecidableEq V] [Inhabited V] [Key K]
  [Document K V] {c : Flat m K V}

/-- However little is read of a range, all of it leaves. -/
theorem outcome_removeRange {lo hi : Bound} {es : List (Entry K V)} {d : Flat m K V}
    (hd : c.removeRange lo hi = (.ok es, d)) (script : List Request) :
    (c.step (.removeRange lo hi script)).outcome = .ok (.drained es script, d.pack) := by
  show (attempting (pure (readTaken (c.removeRange lo hi) script)) fun readings =>
    .list (readings.map (Tour.answer .drained))).outcome = _
  rw [hd, Answer.drained]
  exact congrArg (fun readings =>
    Except.ok (Answer.list (readings.map (Tour.answer .drained)), d.pack))
    (Cursor.play_eq_play_rest (Taken.mk es) script)

theorem answer_removeRange_invalid {lo hi : Bound} (h : lo.Invalid hi c.size)
    (script : List Request) :
    (c.step (.removeRange lo hi script)).answer = .error .badRange := by
  show _ <$> (readTaken (c.removeRange lo hi) script).1 = _
  rw [removeRange_eq_error fun hd => Bound.delimit_iff.mp hd h]
  rfl

end Flat

namespace Session

variable {m : Multiplicity} {K V : Type} {order : Comparator K} {s : Session K V}

variable [DecidableEq K] [DecidableEq V] [Inhabited V] [Key K] [Document K V] {c : Flat m K V}

theorem step_removeRange (hs : s.current = c.pack) {lo hi : Bound}
    (h : ¬ lo.Invalid hi c.size) :
    ∃ d, c.removeRange lo hi = (.ok ((c.toList.take (hi.stop c.size)).drop lo.start), d) ∧
      d.toList = c.toList.take lo.start ++ c.toList.drop (hi.stop c.size) ∧
      ∀ script : List Request,
        (s.step (.removeRange lo hi script)).answer =
          .ok (.drained ((c.toList.take (hi.stop c.size)).drop lo.start) script) ∧
        (s.step (.removeRange lo hi script)).session.current = d.pack := by
  obtain ⟨d, hd, -, hlist⟩ := Flat.removeRange_valid h
  refine ⟨d, hd, hlist, fun script => ?_⟩
  have hout := Flat.outcome_removeRange hd script
  exact ⟨answer_step_of_ok hs hout, current_step hs hout⟩

theorem answer_removeRange_invalid (hs : s.current = c.pack) {lo hi : Bound}
    (h : lo.Invalid hi c.size) (script : List Request) :
    (s.step (.removeRange lo hi script)).answer = .error .badRange := by
  show (s.current.step (.removeRange lo hi script)).answer = _
  rw [hs, Flat.pack_step]
  exact Flat.answer_removeRange_invalid h script

theorem answer_tour_matching {c : Multimap K V} (hs : s.current = c.pack) {t : Target K}
    (h : c.ConsistentWith (t.under c.order)) (script : List Request) (f : V → V) :
    (s.step (.tour (.matching t) script f)).answer =
      .ok (.drained (c.toList.filter (t.under c.order).hits) script) := by
  obtain ⟨d, hd, hreadings⟩ := Flat.value_tour_matching h script f
  rw [Answer.drained, ← hreadings, ← Tour.answer_matching t]
  exact answer_step_of_ok hs (Flat.outcome_tour hd)

/-- All entries leave through a drain as they do through the range without bounds. -/
theorem step_drain (hs : s.current = c.pack) (script : List Request) (f : V → V) :
    let y := s.step (.tour .drained script f)
    let z := s.step (.removeRange .unbounded .unbounded script)
    y.answer = z.answer ∧ y.session.current.toList = [] ∧ z.session.current.toList = [] := by
  obtain ⟨d, hd, -, hnone⟩ := c.exists_drain_eq
  have hrange := Flat.outcome_removeRange hd script
  have hdrain : (c.step (.tour .drained script f)).outcome =
      .ok (.drained c.toList script, d.pack) := hrange
  refine ⟨?_, ?_, ?_⟩
  · rw [answer_step_of_ok hs hdrain, answer_step_of_ok hs hrange]
  · rw [current_step hs hdrain, Flat.toList_pack, hnone]
  · rw [current_step hs hrange, Flat.toList_pack, hnone]

theorem step_removeRange_matches {c : Multimap K V} {t : Target K} (hs : s.current = c.pack)
    (h : c.ConsistentWith (t.under c.order)) :
    ∃ lo hi, (s.step (.look .range t)).answer = .ok (.numbers [lo, hi]) ∧
      ∀ script : List Request,
        let y := s.step (.removeRange (.included lo) (.excluded hi) script)
        y.answer = .ok (.drained (c.toList.filter (t.under c.order).hits) script) ∧
          y.session.current.toList = c.toList.filter fun e => !(t.under c.order).hits e := by
  obtain ⟨lo, hi, hrange, hvalid, hpart, hrest⟩ := Flat.bounds_matches h
  obtain ⟨d, -, hlist, hstep⟩ := step_removeRange hs hvalid
  refine ⟨lo, hi, ?_, fun script => ?_⟩
  · rw [answer_look hs]
    exact congrArg (fun r : Nat × Nat => Except.ok (Answer.numbers [r.1, r.2])) hrange
  · obtain ⟨hanswer, hcurrent⟩ := hstep script
    refine ⟨hanswer.trans ?_, ?_⟩
    · exact congrArg (fun es => Except.ok (Answer.drained es script)) hpart
    · rw [hcurrent, Flat.toList_pack, hlist]
      exact hrest

/-- A range of positions is refused exactly if its bounds are invalid, and then nothing changes. Any
other range leaves as a whole, however little of it is read, and what is before and after it stays
in order. All entries leave through a drain, and all matches through the range of the matches. -/
theorem removeRange_takes_part [Std.TransCmp order] (hr : s.Reached order)
    (hs : s.current = c.pack) :
    (∀ (lo hi : Bound) (script : List Request),
      let y := s.step (.removeRange lo hi script)
      (lo.Invalid hi c.size → y.answer = .error .badRange ∧ y.session = s) ∧
        (¬ lo.Invalid hi c.size →
          y.answer = .ok (.drained ((c.toList.take (hi.stop c.size)).drop lo.start) script) ∧
          ∃ d : Flat m K V, y.session.current = d.pack ∧ d.order = order ∧ d.Valid ∧
            d.toList = c.toList.take lo.start ++ c.toList.drop (hi.stop c.size))) ∧
      (∀ (script : List Request) (f : V → V),
        let y := s.step (.tour .drained script f)
        let z := s.step (.removeRange .unbounded .unbounded script)
        y.answer = z.answer ∧ y.session.current.toList = [] ∧ z.session.current.toList = []) ∧
      (m = .repeated → ∀ t : Target K, t.ConsistentAlong c.keys →
        ∃ lo hi, (s.step (.look .range t)).answer = .ok (.numbers [lo, hi]) ∧
          ∀ (script : List Request) (f : V → V),
            let y := s.step (.removeRange (.included lo) (.excluded hi) script)
            y.answer = .ok (.drained (c.toList.filter (t.under order).hits) script) ∧
              y.answer = (s.step (.tour (.matching t) script f)).answer ∧
              y.session.current.toList =
                c.toList.filter fun e => !(t.under order).hits e) := by
  have hvalid := hr.validFor_current hs
  obtain rfl : c.order = order := hvalid.order_eq
  refine ⟨fun lo hi script => ⟨fun h => ?_, fun h => ?_⟩,
    fun script f => step_drain hs script f, ?_⟩
  · have hanswer := answer_removeRange_invalid hs h script
    exact ⟨hanswer, session_of_error hr.validFor hanswer⟩
  · obtain ⟨d, hd, hlist, hstep⟩ := step_removeRange hs h
    obtain ⟨hanswer, hcurrent⟩ := hstep script
    have hdvalid : d.ValidFor c.order := by
      have hleft := Flat.validFor_removeRange hvalid lo hi
      rwa [hd] at hleft
    exact ⟨hanswer, d, hcurrent, hdvalid.order_eq, hdvalid.valid, hlist⟩
  · rintro rfl t ht
    have hcons := hvalid.consistentWith_under ht
    obtain ⟨lo, hi, hrange, hstep⟩ := step_removeRange_matches hs hcons
    refine ⟨lo, hi, hrange, fun script f => ?_⟩
    obtain ⟨hanswer, hrest⟩ := hstep script
    exact ⟨hanswer, hanswer.trans (answer_tour_matching hs hcons script f).symm, hrest⟩

/-- Keys of one last digit are one class. The range of the three matches of a probe for the last
digits from zero to four leaves as a whole after its last entry was read; the position after the
last one that exists is no end of a range, and neither is one past the last entry. -/
theorem removeRange_takes_part_digits :
    let s : Session Int64 Int64 :=
      Session.after ⟨.multimap (.empty KeyOrder.intMod.order), []⟩
        [.insert 13 0, .insert 7 1, .insert 1 2, .insert 3 3]
    let t : Target Int64 := .probe (KeyOrder.intMod.probe 0)
    let y := s.step (.removeRange (.included 0) (.excluded 3) [.nextBack])
    s.current.toList = [⟨1, 2⟩, ⟨13, 0⟩, ⟨3, 3⟩, ⟨7, 1⟩] ∧
      (s.step (.look .range t)).answer = .ok (.numbers [0, 3]) ∧
      y.answer = .ok (.list [.entry ⟨3, 3⟩]) ∧ y.session.current.toList = [⟨7, 1⟩] ∧
      (s.step (.removeRange .unbounded (.included 18446744073709551615) [])).answer =
        .error .badRange ∧
      (s.step (.removeRange .unbounded (.included 4) [])).session = s := by
  intro s t y
  have hreached : s.Reached KeyOrder.intMod.order := ⟨.repeated, .empty, _, _, rfl, rfl⟩
  obtain ⟨c, hs, hlist⟩ : ∃ c : Multimap Int64 Int64, s.current = c.pack ∧
      c.toList = [⟨1, 2⟩, ⟨13, 0⟩, ⟨3, 3⟩, ⟨7, 1⟩] := ⟨_, rfl, by decide +kernel⟩
  have hcons : t.ConsistentAlong c.keys := by
    intro p hp
    rw [Flat.keys, hlist, ← Target.probe.inj hp]
    decide
  have hsize : c.size = 4 := by rw [Flat.size_eq_length, hlist]; rfl
  have hmatch : c.ConsistentWith (t.under c.order) := hcons _ rfl
  have hlook : (s.step (.look .range t)).answer = .ok (.numbers [0, 3]) := by
    rw [answer_look hs, Flat.answer_look hmatch, hlist]
    rfl
  obtain ⟨hparts, -, hmatches⟩ := removeRange_takes_part hreached hs
  obtain ⟨lo, hi, hrange, hy⟩ := hmatches rfl t hcons
  obtain ⟨rfl, rfl⟩ : lo = 0 ∧ hi = 3 := by
    simpa [Answer.numbers] using hrange.symm.trans hlook
  obtain ⟨hanswer, -, hrest⟩ := hy [.nextBack] id
  rw [hlist] at hanswer hrest
  refine ⟨?_, hlook, hanswer, hrest, ?_, ?_⟩
  · rw [hs, Flat.toList_pack, hlist]
  · exact ((hparts .unbounded (.included 18446744073709551615) []).1 (by rw [hsize]; decide)).1
  · exact ((hparts .unbounded (.included 4) []).1 (by rw [hsize]; decide)).2

end Session

end FlatAssoc
