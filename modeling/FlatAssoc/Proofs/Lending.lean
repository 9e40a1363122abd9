import FlatAssoc.Proofs.Scans
import FlatAssoc.Proofs.Traversals

/-!
# Lending

A traversal that lends its entries for change changes the values of exactly those that it hands
out (`Flat.lends_lendEach`). What it skips, what it does not reach and what lies outside its range
keeps its value, and no key moves. A traversal that stops lending and is shared from then on shows
the entries that it has neither handed out nor skipped.
-/

namespace FlatAssoc

/-! ## Lists without repetition -/

theorem filter_mem_of_sublist {α : Type} [DecidableEq α] {xs ys : List α} (h : xs.Sublist ys)
    (hys : ys.Nodup) : (ys.filter fun y => y ∈ xs) = xs := by
  induction h with
  | slnil => rfl
  | @cons xs ys y hsub ih =>
    obtain ⟨hy, hys⟩ := List.nodup_cons.mp hys
    have hnot : y ∉ xs := fun hmem => hy (hsub.subset hmem)
    rw [List.filter_cons_of_neg (by simpa using hnot), ih hys]
  | @cons_cons xs ys y hsub ih =>
    obtain ⟨hy, hys⟩ := List.nodup_cons.mp hys
    rw [List.filter_cons_of_pos (by simp)]
    refine congrArg (y :: ·) (Eq.trans (List.filter_congr fun z hz => ?_) (ih hys))
    have hne : z ≠ y := by
      rintro rfl
      exact hy hz
    simp [hne]

/-- Some of the items are known from their images if these are the images that pass a test. -/
theorem eq_filter_of_map_eq_filter {α β : Type} {f : α → β} {test : β → Bool} {xs ys : List α}
    (h : xs.Sublist ys) (hmap : xs.map f = (ys.map f).filter test) :
    xs = ys.filter (test ∘ f) := by
  have hpass : xs.filter (test ∘ f) = xs := by
    refine List.filter_eq_self.mpr fun x hx => ?_
    have hmem : f x ∈ (ys.map f).filter test := hmap ▸ List.mem_map_of_mem hx
    exact (List.mem_filter.mp hmem).2
  have hsub : xs.Sublist (ys.filter (test ∘ f)) := by
    rw [← hpass]
    exact h.filter _
  refine hsub.eq_of_length ?_
  have hlen := congrArg List.length hmap
  rwa [List.filter_map, List.length_map, List.length_map] at hlen

namespace Cursor

/-- If no item is there twice, what a script leaves is what it has neither handed out nor
skipped. -/
theorem left_eq_filter {α : Type} [DecidableEq α] {xs : List α} (h : xs.Nodup)
    (script : List Request) :
    left xs script = xs.filter fun x => x ∉ handedOut xs script ∧ x ∉ skipped xs script := by
  have hperm := perm_accounts xs script
  obtain ⟨-, -, hapart⟩ := List.nodup_append.mp (hperm.nodup_iff.mpr h)
  rw [← filter_mem_of_sublist (infix_left xs script).sublist h]
  refine List.filter_congr fun x hx => ?_
  have hx : x ∈ handedOut xs script ++ skipped xs script ++ left xs script :=
    hperm.mem_iff.mpr hx
  rw [decide_eq_decide, ← not_or, ← List.mem_append]
  constructor
  · intro hleft hgone
    exact hapart x hgone x hleft rfl
  · intro hgone
    exact (List.mem_append.mp hx).resolve_left hgone

theorem mem_of_mem_handedOut {α : Type} {xs : List α} {script : List Request} {x : α}
    (h : x ∈ handedOut xs script) : x ∈ xs :=
  (perm_accounts xs script).subset (List.mem_append_left _ (List.mem_append_left _ h))

/-- What is shared is not handed out. -/
theorem handedOut_append_share {α : Type} (xs : List α) {script : List Request}
    (h : ∀ r ∈ script, r.usesUp = false) :
    handedOut xs (script ++ [.share]) = handedOut xs script := by
  unfold handedOut
  rw [play_append xs h, List.flatMap_append]
  exact List.append_nil _

theorem nodup_handedOut {α : Type} {xs : List α} (h : xs.Nodup) (script : List Request) :
    (handedOut xs script).Nodup := by
  have hall := (perm_accounts xs script).nodup_iff.mpr h
  exact (List.nodup_append.mp (List.nodup_append.mp hall).1).1

end Cursor

namespace Flat

variable {m : Multiplicity} {K V ρ : Type} {c d : Flat m K V}

/-! ## Changes of values -/

/-- Changes the values at the given positions one after the other, each in its own way. -/
def modifyEach (c : Flat m K V) (changes : List (Nat × (V → V))) : Flat m K V :=
  changes.foldl (fun c x => c.modify x.1 x.2) c

theorem order_modifyEach (c : Flat m K V) (changes : List (Nat × (V → V))) :
    (c.modifyEach changes).order = c.order := by
  induction changes generalizing c with
  | nil => rfl
  | cons x xs ih => exact ih (c.modify x.1 x.2)

theorem keys_modifyEach (c : Flat m K V) (changes : List (Nat × (V → V))) :
    (c.modifyEach changes).keys = c.keys := by
  induction changes generalizing c with
  | nil => rfl
  | cons x xs ih => exact (ih (c.modify x.1 x.2)).trans (keys_modify c x.1 x.2)

theorem getElem?_modify_self (c : Flat m K V) (i : Nat) (f : V → V) :
    (c.modify i f).toList[i]? = c.toList[i]?.map (·.update f) := by
  rw [toList_modify, List.getElem?_modify]
  cases c.toList[i]? with
  | none => rfl
  | some e => simp

theorem getElem?_modify_of_ne (c : Flat m K V) {i j : Nat} (h : i ≠ j) (f : V → V) :
    (c.modify i f).toList[j]? = c.toList[j]? := by
  rw [toList_modify, List.getElem?_modify]
  cases c.toList[j]? with
  | none => rfl
  | some e => simp [h]

theorem getElem?_modifyEach_of_not_mem {changes : List (Nat × (V → V))} {i : Nat}
    (h : i ∉ changes.map Prod.fst) : (c.modifyEach changes).toList[i]? = c.toList[i]? := by
  induction changes generalizing c with
  | nil => rfl
  | cons x xs ih =>
    rw [List.map_cons, List.mem_cons, not_or] at h
    exact (ih h.2).trans (getElem?_modify_of_ne c (Ne.symm h.1) x.2)

/-- Changes at different positions do not meet. -/
theorem getElem?_modifyEach_of_mem {changes : List (Nat × (V → V))} {i : Nat} {f : V → V}
    (hnodup : (changes.map Prod.fst).Nodup) (h : (i, f) ∈ changes) :
    (c.modifyEach changes).toList[i]? = c.toList[i]?.map (·.update f) := by
  induction changes generalizing c with
  | nil => cases h
  | cons x xs ih =>
    obtain ⟨hx, hxs⟩ := List.nodup_cons.mp hnodup
    rcases List.mem_cons.mp h with rfl | h
    · exact (getElem?_modifyEach_of_not_mem hx).trans (getElem?_modify_self c i f)
    · have hmem : i ∈ xs.map Prod.fst := List.mem_map.mpr ⟨(i, f), h, rfl⟩
      have hne : x.1 ≠ i := fun heq => hx (heq ▸ hmem)
      exact (ih hxs h).trans (congrArg _ (getElem?_modify_of_ne c hne x.2))

/-- `d` is `c` with the value of the entry at the `n`-th of the positions `shown` changed by `g n`,
and with nothing else changed. -/
structure ChangedAt (c d : Flat m K V) (shown : List Nat) (g : Nat → V → V) : Prop where
  order_eq : d.order = c.order
  /-- The keys are the same, at the same positions. -/
  keys_eq : d.keys = c.keys
  /-- No position is there twice, so none is changed twice. -/
  nodup : shown.Nodup
  changed (n i : Nat) (h : shown[n]? = some i) :
    ∃ e, c.toList[i]? = some e ∧ d.toList[i]? = some (e.update (g n))
  kept (i : Nat) (h : i ∉ shown) : d.toList[i]? = c.toList[i]?

theorem changedAt_modifyEach {shown : List Nat} (hnodup : shown.Nodup)
    (hin : ∀ i ∈ shown, i < c.toList.length) (g : Nat → V → V) :
    c.ChangedAt (c.modifyEach (shown.zipIdx.map fun x => (x.1, g x.2))) shown g := by
  have hfst : (shown.zipIdx.map fun x => (x.1, g x.2)).map Prod.fst = shown := by
    rw [List.map_map]
    exact List.zipIdx_map_fst 0 shown
  refine ⟨order_modifyEach c _, keys_modifyEach c _, hnodup, fun n i hn => ?_, fun i hi => ?_⟩
  · have hlt : i < c.toList.length := hin i (List.mem_of_getElem? hn)
    have hmem : (i, g n) ∈ shown.zipIdx.map fun x => (x.1, g x.2) :=
      List.mem_map.mpr ⟨(i, n), List.mem_zipIdx_iff_getElem?.mpr hn, rfl⟩
    refine ⟨c.toList[i], List.getElem?_eq_getElem hlt, ?_⟩
    rw [getElem?_modifyEach_of_mem (by rwa [hfst]) hmem, List.getElem?_eq_getElem hlt]
    rfl
  · exact getElem?_modifyEach_of_not_mem (by rwa [hfst])

/-! ## What is lent -/

/-- Plays a script on a cursor over entries with their positions, and changes the value of the
`n`-th entry handed out by `g n`. -/
def lendEach [Cursor ρ (Entry K V × Nat)] (c : Flat m K V) (cursor : ρ) (script : List Request)
    (g : Nat → V → V) : Toured m K V :=
  ⟨(Cursor.play cursor script).map (Reading.map Prod.fst),
    c.modifyEach (((Cursor.handedOut cursor script).map Prod.snd).zipIdx.map fun x =>
      (x.1, g x.2))⟩

theorem modifyAll_eq_modifyEach (c : Flat m K V) (positions : List Nat) (f : V → V) :
    c.modifyAll positions f = c.modifyEach (positions.zipIdx.map fun x => (x.1, f)) := by
  have h : (positions.zipIdx.map Prod.fst).foldl (fun c i => c.modify i f) c =
      positions.zipIdx.foldl (fun c x => c.modify x.1 f) c := List.foldl_map
  rw [List.zipIdx_map_fst] at h
  rw [modifyAll, h, modifyEach, List.foldl_map]

theorem lend_eq_lendEach [Cursor ρ (Entry K V × Nat)] (c : Flat m K V) (cursor : ρ)
    (script : List Request) (f : V → V) :
    c.lend cursor script f = c.lendEach cursor script fun _ => f := by
  rw [lend, modifyAll_eq_modifyEach]
  rfl

/-- A traversal that lends the entries at `positions` of `c` for change by `g`. -/
structure Lends (c : Flat m K V) (positions : List Nat) (script : List Request)
    (g : Nat → V → V) (r : Toured m K V) : Prop where
  /-- It reads as the list of the positions does, with the entries that `c` has there. -/
  readings_eq : r.readings.map (Reading.map some) =
    (Cursor.play positions script).map (Reading.map (c.toList[·]?))
  /-- What it hands out is changed, and nothing else. -/
  changedAt : c.ChangedAt r.container (Cursor.handedOut positions script) g
  /-- If it is shared after some requests, what it then shows are the entries at the positions that
  these have neither handed out nor skipped. -/
  shared (before : List Request) (h : ∀ x ∈ before, x.usesUp = false)
    (hs : script = before ++ [.share]) :
    ∃ es, r.readings.getLast? = some (.view es) ∧
      es.map some = (positions.filter fun i => i ∉ Cursor.handedOut positions before ∧
        i ∉ Cursor.skipped positions before).map (r.container.toList[·]?)

section

variable {qs : List (Entry K V × Nat)} (h : qs.Sublist c.toList.zipIdx)

include h

theorem nodup_positions : (qs.map Prod.snd).Nodup := by
  refine List.Nodup.sublist (h.map Prod.snd) ?_
  rw [List.zipIdx_map_snd]
  exact List.nodup_range'

theorem lt_length_of_mem_positions {i : Nat} (hi : i ∈ qs.map Prod.snd) :
    i < c.toList.length := by
  obtain ⟨q, hq, rfl⟩ := List.mem_map.mp hi
  exact (List.getElem?_eq_some_iff.mp (List.mem_zipIdx_iff_getElem?.mp (h.subset hq))).1

theorem map_some_entries :
    (qs.map Prod.fst).map some = (qs.map Prod.snd).map (c.toList[·]?) := by
  rw [List.map_map, List.map_map]
  refine List.map_congr_left fun q hq => ?_
  exact (List.mem_zipIdx_iff_getElem?.mp (h.subset hq)).symm

/-- What is left to be shown is as it was, since only what was handed out has changed. -/
theorem map_some_left {script : List Request} {g : Nat → V → V}
    (hchanged : c.ChangedAt d (Cursor.handedOut (qs.map Prod.snd) script) g) :
    (Cursor.left (qs.map Prod.fst) script).map some =
      ((qs.map Prod.snd).filter fun i => i ∉ Cursor.handedOut (qs.map Prod.snd) script ∧
        i ∉ Cursor.skipped (qs.map Prod.snd) script).map (d.toList[·]?) := by
  rw [← Cursor.left_map, map_some_entries h, Cursor.left_map,
    Cursor.left_eq_filter (nodup_positions h)]
  refine List.map_congr_left fun i hi => ?_
  have hapart := of_decide_eq_true (List.mem_filter.mp hi).2
  exact (hchanged.kept i hapart.1).symm

end

section

variable [Cursor ρ (Entry K V × Nat)] [LawfulCursor ρ (Entry K V × Nat)]

theorem readings_lendEach (c : Flat m K V) (cursor : ρ) (script : List Request)
    (g : Nat → V → V) : (c.lendEach cursor script g).readings =
      Cursor.play ((Cursor.rest cursor).map Prod.fst) script := by
  rw [lendEach, Cursor.play_eq_play_rest, Cursor.play_map]

/-- A traversal that lends entries changes those that it hands out. -/
theorem lends_lendEach (cursor : ρ) (h : (Cursor.rest cursor).Sublist c.toList.zipIdx)
    (script : List Request) (g : Nat → V → V) :
    c.Lends ((Cursor.rest cursor).map Prod.snd) script g (c.lendEach cursor script g) := by
  have hchanged : c.ChangedAt (c.lendEach cursor script g).container
      (Cursor.handedOut ((Cursor.rest cursor).map Prod.snd) script) g := by
    rw [lendEach, Cursor.handedOut_eq_handedOut_rest, ← Cursor.handedOut_map]
    refine changedAt_modifyEach ?_ (fun i hi => ?_) g
    · exact Cursor.nodup_handedOut (nodup_positions h) script
    · exact lt_length_of_mem_positions h (Cursor.mem_of_mem_handedOut hi)
  refine ⟨?_, hchanged, fun before hbefore hs => ?_⟩
  · rw [readings_lendEach, ← Cursor.play_map, ← Cursor.play_map, map_some_entries h]
  · subst hs
    refine ⟨Cursor.left ((Cursor.rest cursor).map Prod.fst) before, ?_, ?_⟩
    · rw [readings_lendEach, Cursor.play_append _ hbefore, List.getLast?_append]
      rfl
    · rw [Cursor.handedOut_append_share _ hbefore] at hchanged
      exact map_some_left h hchanged

end

/-! ## What a container lends -/

theorem toList_window_sublist (c : Flat m K V) (start stop : Nat) :
    (c.entries.zipIdx.window start stop).toList.Sublist c.toList.zipIdx := by
  rw [Buffer.toList_window, Buffer.toList_zipIdx]
  exact (List.drop_sublist _ _).trans (List.take_sublist _ _)

/-- The positions of a part of a container, as a cursor over it meets them. -/
theorem map_snd_window (c : Flat m K V) (start : Nat) {stop : Nat} (h : stop ≤ c.size) :
    (c.entries.zipIdx.window start stop).toList.map Prod.snd =
      List.range' start (stop - start) := by
  have hmin : min stop c.entries.size = stop := Nat.min_eq_left h
  rw [Buffer.toList_window, Buffer.toList_zipIdx, List.map_drop, List.map_take,
    List.zipIdx_map_snd, ← Buffer.size_eq_length, ← List.range_eq_range', List.take_range, hmin,
    List.range_eq_range', List.drop_range', Nat.zero_add, Nat.mul_one]

theorem exists_lends_part (c : Flat m K V) {start stop : Nat} (hle : start ≤ stop)
    (hsize : stop ≤ c.size) :
    ∃ halves, c.entries.zipIdx.part start stop = .ok halves ∧
      ∀ (script : List Request) (g : Nat → V → V),
        c.Lends (List.range' start (stop - start)) script g (c.lendEach halves script g) ∧
          c.Lends (List.range' start (stop - start)) script g
            (c.lendEach (SteppedHalves.mk halves) script g) := by
  refine ⟨_, Buffer.part_eq_ok (isPart_zipIdx ⟨hle, hsize⟩), fun script g => ?_⟩
  have hsub := c.toList_window_sublist start stop
  rw [← c.map_snd_window start hsize]
  exact ⟨lends_lendEach (c.entries.zipIdx.window start stop) hsub script g,
    lends_lendEach (SteppedHalves.mk (c.entries.zipIdx.window start stop)) hsub script g⟩

/-- The cursor over the matches lends the entries that a scan picks. -/
theorem toList_lentMatches? {c : Multimap K V} {p : Probe K} (h : c.ConsistentWith p) :
    ∃ halves, (c.lentMatches? p).value = .ok halves ∧
      halves.toList = c.toList.zipIdx.filter (p.hits ∘ Prod.fst) := by
  refine ⟨_, Buffer.part_eq_ok (isPart_zipIdx (isPart_matchRange h)), ?_⟩
  refine eq_filter_of_map_eq_filter (c.toList_window_sublist _ _) ?_
  have hfst : c.entries.toList.zipIdx.map Prod.fst = c.toList := List.zipIdx_map_fst 0 _
  rw [Buffer.toList_window, Buffer.toList_zipIdx, List.map_drop, List.map_take, hfst]
  exact (take_drop_matchRange h).trans (congrArg _ hfst.symm)

/-- The traversals that lend entries for change, with the positions of these entries. -/
inductive LendsAt : {m : Multiplicity} → Flat m K V → Tour K → List Nat → Prop
  | entries {m : Multiplicity} {c : Flat m K V} : LendsAt c .lentEntries (List.range c.size)
  | values {m : Multiplicity} {c : Flat m K V} : LendsAt c .lentValues (List.range c.size)
  | matching {c : Multimap K V} {t : Target K} (h : t.ConsistentAlong c.keys) :
    LendsAt c (.lentMatching t)
      ((c.toList.zipIdx.filter ((t.under c.order).hits ∘ Prod.fst)).map Prod.snd)

theorem LendsAt.exists_lends {order : Comparator K} [Std.TransCmp order]
    (h : c.ValidFor order) {t : Tour K} {positions : List Nat} (ht : c.LendsAt t positions)
    (script : List Request) (f : V → V) :
    ∃ r, (c.tour t script f).value = Toured.done r ∧
      c.Lends positions script (fun _ => f) r := by
  obtain rfl : c.order = order := h.order_eq
  have hall : c.entries.zipIdx.toList = c.toList.zipIdx := c.entries.toList_zipIdx
  have hrange : List.range c.size = c.entries.zipIdx.toList.map Prod.snd := by
    rw [hall, List.zipIdx_map_snd, size_eq_length, List.range_eq_range']
  cases ht with
  | entries =>
    refine ⟨_, rfl, ?_⟩
    rw [lend_eq_lendEach, hrange]
    exact lends_lendEach c.entries.zipIdx.halves (hall ▸ .refl _) script _
  | values =>
    refine ⟨_, rfl, ?_⟩
    rw [lend_eq_lendEach, hrange]
    exact lends_lendEach (SteppedHalves.mk c.entries.zipIdx.halves) (hall ▸ .refl _) script _
  | @matching c t hcons =>
    obtain ⟨halves, hvalue, hlist⟩ := toList_lentMatches? (h.consistentWith_under hcons)
    refine ⟨c.lend halves script f, ?_, ?_⟩
    · simp only [tour, Noted.value_map, hvalue]
      rfl
    · have hsub : halves.toList.Sublist c.toList.zipIdx := by
        rw [hlist]
        exact List.filter_sublist
      rw [lend_eq_lendEach, ← hlist]
      exact lends_lendEach halves hsub script _

end Flat

namespace Session

variable {m : Multiplicity} {K V : Type} {order : Comparator K} [DecidableEq K] [DecidableEq V]
  [Inhabited V] [Key K] [Document K V]

/-- A traversal that lends entries changes the value of each that it hands out, once, and nothing
else, wherever the seam of the buffer lies and whatever part it runs over. If it is shared, what it
shows from then on is what it has neither handed out nor skipped. -/
theorem lending_changes_handed_out [Std.TransCmp order] {s : Session K V} {c d : Flat m K V}
    (hr : s.Reached order) (hs : s.current = c.pack) (ho : d.order = c.order)
    (hl : d.toList = c.toList) :
    (∀ start stop, start ≤ stop → stop ≤ d.size →
      ∃ halves, d.entries.zipIdx.part start stop = .ok halves ∧
        ∀ (script : List Request) (g : Nat → V → V),
          let positions := List.range' start (stop - start)
          d.Lends positions script g (d.lendEach halves script g) ∧
            d.Lends positions script g (d.lendEach (SteppedHalves.mk halves) script g)) ∧
      ∀ (t : Tour K) (positions : List Nat), d.LendsAt t positions →
        ∀ (script : List Request) (f : V → V),
          let s' : Session K V := ⟨d.pack, s.saved⟩
          ∃ r, (s'.step (.tour t script f)).answer = .ok (.list (r.readings.map t.answer)) ∧
            (s'.step (.tour t script f)).session.current = r.container.pack ∧
            d.Lends positions script (fun _ => f) r := by
  refine ⟨fun start stop hle hsize => d.exists_lends_part hle hsize,
    fun t positions ht script f => ?_⟩
  have hkeys : d.keys = c.keys := by rw [Flat.keys, Flat.keys, hl]
  have hvalid : d.ValidFor order := (hr.validFor_current hs).of_sublist ho (hkeys ▸ .refl _)
  obtain ⟨r, hvalue, hlends⟩ := ht.exists_lends hvalid script f
  have hout := Flat.outcome_tour hvalue
  exact ⟨r, answer_step_of_ok rfl hout, current_step rfl hout, hlends⟩

/-- The matches of a probe for the last digits from zero to four lie on both sides of a seam. The
second one is changed, the first one is skipped, and the third one is shared. -/
theorem lending_changes_handed_out_digits :
    let s : Session Int64 Int64 :=
      Session.after ⟨.multimap (.empty KeyOrder.intMod.order), []⟩
        [.insert 13 0, .insert 7 1, .insert 1 2, .insert 3 3]
    let d : Multimap Int64 Int64 :=
      ⟨KeyOrder.intMod.order, ⟨#[⟨1, 2⟩, ⟨13, 0⟩], #[⟨3, 3⟩, ⟨7, 1⟩]⟩⟩
    let t : Tour Int64 := .lentMatching (.probe (KeyOrder.intMod.probe 0))
    let s' : Session Int64 Int64 := Session.mk d.pack []
    let y := s'.step (.tour t [.nth 1, .share] (· + 5))
    s.current.toList = d.toList ∧ y.session.current.toList = [⟨1, 2⟩, ⟨13, 5⟩, ⟨3, 3⟩, ⟨7, 1⟩] ∧
      ∃ r, y.answer = .ok (.list (r.readings.map t.answer)) ∧
        r.readings.map (Reading.map some) = [.item (some (some ⟨13, 0⟩)), .view [some ⟨3, 3⟩]] ∧
        d.Lends [0, 1, 2] [.nth 1, .share] (fun _ => (· + 5)) r := by
  intro s d t s' y
  have hreached : s.Reached KeyOrder.intMod.order := ⟨.repeated, .empty, _, _, rfl, rfl⟩
  obtain ⟨c, hs, ho, hl⟩ : ∃ c : Multimap Int64 Int64, s.current = c.pack ∧
      d.order = c.order ∧ d.toList = c.toList := ⟨_, rfl, rfl, by decide +kernel⟩
  have hlends : d.LendsAt t [0, 1, 2] := by
    refine .matching ?_
    rintro _ ⟨⟩
    decide
  obtain ⟨-, htours⟩ := lending_changes_handed_out hreached hs ho hl
  obtain ⟨r, hanswer, -, hr⟩ := htours t _ hlends [.nth 1, .share] (· + 5)
  refine ⟨?_, by decide +kernel, r, hanswer, hr.readings_eq, hr⟩
  rw [hs, Flat.toList_pack, hl]

end Session

end FlatAssoc
