import FlatAssoc.Proofs.Constructions

/-!
# Reports

What is reported tells how many entries a bulk load sorted and how many the uniqueness pass dropped
and kept (`Event.ofLoad`), and it follows from the number of entries before and after
(`Session.events_step`). A step reports nothing unless it loads in bulk, rebuilds or drops
repetitions (`Flat.events_of_not_bulk`), and what a load keeps is counted by what is admitted
(`Session.length_bulk`).
-/

namespace FlatAssoc

variable {m : Multiplicity} {K V : Type} {order : Comparator K}

namespace Event

/-- What the uniqueness pass of a container reports if it leaves `kept` of `total` entries. -/
def ofPass (m : Multiplicity) (total kept : Nat) : List Event :=
  match m with
  | .unique => if kept < total then [.collapsed (total - kept) kept] else []
  | .repeated => []

/-- What a load reports that sorts `total` entries and leaves `kept` of them. -/
def ofLoad (m : Multiplicity) (total kept : Nat) : List Event :=
  .sorted total :: ofPass m total kept

/-- What the load of `items` into a container of `size` entries reports if it leaves `kept`; without
items nothing happens. -/
def ofItems (m : Multiplicity) (size : Nat) (items : List (Entry K V)) (kept : Nat) : List Event :=
  if items.isEmpty then [] else ofLoad m (size + items.length) kept

theorem ofPass_self (m : Multiplicity) (n : Nat) : ofPass m n n = [] := by
  cases m with
  | unique => exact if_neg (Nat.lt_irrefl n)
  | repeated => rfl

end Event

/-- The items that a source which promises at most `upper` of them has loaded in bulk. -/
def bulkOf (upper : Option Nat) (items : List (Entry K V)) : Option (List (Entry K V)) :=
  match upper with
  | some 0 | some 1 => none
  | _ => some items

/-- The items that a step loads in bulk into a container of multiplicity `m`. -/
def Step.bulk? [Key K] [Document K V] (m : Multiplicity) : Step K V → Option (List (Entry K V))
  | .extend upper items => bulkOf upper items
  | .extendCopied upper items => if Key.copied K then bulkOf upper items else none
  | .gather items => some items
  | .gatherCopied items => if Flat.gathersCopied m K V then some items else none
  | _ => none

/-- What a step reports on a container of `size` entries if it leaves `kept`, unless it loads
another container on the way. -/
def Step.reports [Key K] [Document K V] (m : Multiplicity) (size kept : Nat) :
    Step K V → List Event
  | .rebuild => Event.ofLoad m size kept
  | .toMap => Event.ofPass .unique size kept
  | x =>
    match x.bulk? m with
    | some items => Event.ofItems m size items kept
    | none => []

/-- What a build reports if it leaves `kept` entries. -/
def Build.reports [Document K V] (m : Multiplicity) (kept : Nat) : Build K V → List Event
  | .collected items => Event.ofLoad m items.length kept
  | .gathered items => Event.ofPass m items.length kept
  | .document text =>
    match (Document.read text.toList : Except Json.Error (List (Entry K V))) with
    | .ok items => Event.ofLoad m items.length kept
    | .error _ => []
  | .empty | .withRoom _ | .inserted _ => []

/-! ## Loads -/

namespace Flat

theorem notes_settle (m : Multiplicity) (order : Comparator K) (es : List (Entry K V)) :
    (settle m order es).notes = Event.ofPass m es.length (settle m order es).value.length := by
  cases m with
  | repeated => rfl
  | unique => exact ite_congr (propext Nat.sub_pos_iff_lt) (fun _ => rfl) fun _ => rfl

theorem length_arrange (order : Comparator K) (es : List (Entry K V)) :
    (arrange order es).length = es.length := List.length_mergeSort es

theorem notes_ofList (order : Comparator K) (es : List (Entry K V)) :
    (ofList order es : Reported (Flat m K V)).notes =
      Event.ofLoad m es.length (ofList order es : Reported (Flat m K V)).value.size := by
  have hsettle := notes_settle m order (arrange order es)
  rw [length_arrange] at hsettle
  rw [size_eq_length, toList_ofList, Event.ofLoad, ← hsettle]
  exact congrArg (_ :: ·) (List.append_nil _)

theorem notes_gather (order : Comparator K) (es : List (Entry K V)) :
    (gather order es : Reported (Flat m K V)).notes =
      Event.ofPass m es.length (gather order es : Reported (Flat m K V)).value.size := by
  have hsettle := notes_settle m order (arrange order es)
  rw [length_arrange] at hsettle
  rw [size_eq_length, toList_gather, ← hsettle]
  exact List.append_nil _

theorem notes_toMap (c : Multimap K V) :
    c.toMap.notes = Event.ofPass .unique c.size c.toMap.value.size := by
  have hsettle := notes_settle .unique c.order c.toList
  rw [size_eq_length, size_eq_length, toList_toMap, ← value_settle_unique, ← hsettle]
  exact List.append_nil _

theorem notes_append (c : Flat m K V) (es : List (Entry K V)) :
    (c.append es).notes = Event.ofItems m c.size es (c.append es).value.size := by
  by_cases hnil : es = []
  · rw [hnil, append_nil]
    rfl
  · have hempty : es.isEmpty = false := by simpa using hnil
    have hsettle := notes_settle m c.order (arrange c.order (c.toList ++ es))
    rw [length_arrange, List.length_append, ← toList_append c hnil, ← size_eq_length,
      ← size_eq_length] at hsettle
    rw [Event.ofItems, hempty, if_neg Bool.false_ne_true, Event.ofLoad, ← hsettle]
    simp only [append, hempty, Bool.false_eq_true, if_false, Noted.notes_bind, sort,
      Noted.notes_pure, List.append_nil, List.length_append, size_eq_length, List.singleton_append]

theorem notes_gatherInto (c : Flat m K V) (es : List (Entry K V)) :
    (c.gatherInto es).notes = Event.ofItems m c.size es (c.gatherInto es).value.size := by
  -- sorted items are as many as the items were
  have happend := notes_append c (arrange c.order es)
  have hempty : (arrange c.order es).isEmpty = es.isEmpty :=
    (List.mergeSort_perm es _).isEmpty_eq
  rw [Event.ofItems, length_arrange, hempty] at happend
  exact happend

theorem extend_of_bulkOf {c : Flat m K V} {upper : Option Nat} {es items : List (Entry K V)}
    (h : bulkOf upper es = some items) : c.extend upper es = c.append items := by
  rw [extend_eq]
  match upper with
  | some 0 | some 1 => cases h
  | none | some (n + 2) =>
    cases h
    rfl

theorem notes_extend_of_bulkOf {c : Flat m K V} {upper : Option Nat} {es : List (Entry K V)}
    (h : bulkOf upper es = none) : (c.extend upper es).notes = [] := by
  match upper, es with
  | some 0, _ | some 1, [] | some 1, _ :: _ => rfl
  | none, _ | some (n + 2), _ => cases h

section

variable [DecidableEq K] [DecidableEq V] [Inhabited V] [Key K] [Document K V] {c : Flat m K V}
  {x : Step K V} {items : List (Entry K V)}

theorem exists_load (hx : x.bulk? m = some items) :
    ∃ (load : Reported (Flat m K V)) (a : Answer K V), c.step x = loading load a ∧
      (load = c.append items ∨ load = c.gatherInto items) := by
  cases x with
  | extend upper es => exact ⟨_, _, rfl, .inl (extend_of_bulkOf hx)⟩
  | gather es =>
    cases hx
    exact ⟨_, _, rfl, .inr rfl⟩
  | extendCopied upper es =>
    rw [Step.bulk?] at hx
    split at hx
    · rename_i hcopied
      exact ⟨_, _, if_pos hcopied, .inl (extend_of_bulkOf hx)⟩
    · cases hx
  | gatherCopied es =>
    rw [Step.bulk?] at hx
    split at hx
    · rename_i hcopied
      cases hx
      exact ⟨_, _, if_pos hcopied, .inr rfl⟩
    · cases hx
  | _ => cases hx

/-- The other steps report nothing. -/
theorem events_of_not_bulk (hx : x.bulk? m = none) (hrebuild : x ≠ .rebuild) (htoMap : x ≠ .toMap)
    (hequals : ∀ es, x ≠ .equals es) : (c.step x).events = [] := by
  cases x with
  | rebuild => exact absurd rfl hrebuild
  | toMap => exact absurd rfl htoMap
  | equals es => exact absurd rfl (hequals es)
  | gather es => cases hx
  | extend upper es => exact notes_extend_of_bulkOf hx
  | extendCopied upper es =>
    rw [step]
    split
    · rename_i hcopied
      exact notes_extend_of_bulkOf ((if_pos hcopied).symm.trans hx)
    · rfl
  | gatherCopied es =>
    rw [step]
    split
    · rename_i hcopied
      cases (if_pos hcopied).symm.trans hx
    · rfl
  | debug pretty => cases pretty <;> rfl
  | look l t =>
    cases l with
    | first f => cases f <;> rfl
    | _ => rfl
  | reserve n | tryReserve n | updateAt i f =>
    simp only [step]
    split <;> rfl
  | insertOrAssign | emplaceOrAssign | getOrInsertWith | getOrDefault | removeAll | toMultimap =>
    cases m <;> rfl
  | _ => rfl

end

end Flat

namespace Build

variable [Document K V]

theorem notes_run {b : Build K V} {x : Reported (Flat m K V)} (hx : b.run m order = .ok x) :
    x.notes = b.reports m x.value.size := by
  cases b with
  | empty | inserted items =>
    cases hx
    rfl
  | withRoom n =>
    simp only [run] at hx
    split at hx
    · cases hx
      rfl
    · cases hx
  | collected items =>
    cases hx
    exact Flat.notes_ofList order items
  | gathered items =>
    cases hx
    exact Flat.notes_gather order items
  | document text =>
    simp only [run] at hx
    split at hx
    · rename_i items hread
      cases hx
      rw [reports, hread]
      exact Flat.notes_ofList order items
    · cases hx

theorem notes_start [Key K] {b : Build K V} {x : Reported (Session K V)}
    (hx : b.start m order = .ok x) : x.notes = b.reports m x.value.current.toList.length := by
  obtain ⟨y, hy, rfl⟩ := exists_of_map_eq_ok hx
  rw [Noted.notes_map, notes_run hy, Noted.value_map, Flat.toList_pack, Flat.size_eq_length]

theorem Loads.length_start [Key K] [Std.TransCmp order] {items : List (Entry K V)}
    {b : Build K V} (h : b.Loads items) {x : Reported (Session K V)}
    (hx : b.start m order = .ok x) :
    x.value.current.toList.length = (m.admitted order items).length := by
  obtain ⟨y, hy, rfl⟩ := exists_of_map_eq_ok hx
  obtain ⟨z, hz, htaken⟩ := h.takesIn m order
  obtain rfl : z = y := Except.ok.inj (hz.symm.trans hy)
  rw [Noted.value_map, Flat.toList_pack, htaken.toList_eq_arrange, Flat.length_arrange]

end Build

/-! ## Steps -/

namespace Session

variable [DecidableEq K] [DecidableEq V] [Inhabited V] [Key K] [Document K V] {s : Session K V}
  {c : Flat m K V}

theorem step_loading (hs : s.current = c.pack) {n : Multiplicity} {load : Reported (Flat n K V)}
    {x : Step K V} {a : Answer K V} (hx : c.step x = Flat.loading load a) :
    (s.step x).events = load.notes ∧
      (s.step x).session.current.toList.length = load.value.size := by
  have hout : (c.step x).outcome = .ok (a, load.value.pack) := by
    rw [hx]
    rfl
  rw [(notes_step hs x).2, current_step hs hout, Flat.toList_pack, hx, Flat.size_eq_length]
  exact ⟨rfl, rfl⟩

theorem step_bulk (hs : s.current = c.pack) {x : Step K V} {items : List (Entry K V)}
    (hx : x.bulk? m = some items) : (s.step x).events =
      Event.ofItems m c.size items (s.step x).session.current.toList.length := by
  obtain ⟨load, a, hload, hcases⟩ := Flat.exists_load (c := c) hx
  obtain ⟨hevents, hlength⟩ := step_loading hs hload
  rw [hevents, hlength]
  rcases hcases with rfl | rfl
  · exact Flat.notes_append c items
  · exact Flat.notes_gatherInto c items

/-- What a step reports is told by how many entries there are before and after it. -/
theorem events_step (hs : s.current = c.pack) {x : Step K V} (hx : ∀ es, x ≠ .equals es) :
    (s.step x).events = x.reports m c.size (s.step x).session.current.toList.length := by
  unfold Step.reports
  split
  · obtain ⟨hevents, hlength⟩ := step_loading hs (x := .rebuild) rfl
    rw [hevents, hlength, Flat.size_eq_length]
    exact Flat.notes_ofList c.order c.toList
  · cases m with
    | unique =>
      -- the step is refused, so there is nothing to drop
      have hcurrent : (s.step .toMap).session.current = c.pack := by
        show (s.current.step .toMap).left = _
        rw [hs]
        rfl
      rw [(notes_step hs _).2, hcurrent, Flat.toList_pack, ← Flat.size_eq_length,
        Event.ofPass_self]
      rfl
    | repeated =>
      obtain ⟨hevents, hlength⟩ := step_loading hs (x := .toMap) rfl
      rw [hevents, hlength]
      exact Flat.notes_toMap c
  · rename_i hrebuild htoMap
    split
    · rename_i items hbulk
      exact step_bulk hs hbulk
    · rename_i hbulk
      rw [(notes_step hs x).2]
      exact Flat.events_of_not_bulk hbulk hrebuild htoMap hx

section

variable [Std.TransCmp order] (hs : s.current = c.pack) (h : c.ValidFor order)

include hs h

/-- The entries of a valid container are all admitted when they are loaded again. -/
theorem events_rebuild : (s.step .rebuild).events = [.sorted c.size] := by
  have hnotes : c.rebuild.notes = Event.ofLoad m c.toList.length c.rebuild.value.size :=
    Flat.notes_ofList c.order c.toList
  obtain ⟨hevents, -⟩ := step_loading hs (x := .rebuild) rfl
  rw [hevents, hnotes, Flat.size_eq_length c.rebuild.value, Flat.toList_rebuild h, Event.ofLoad,
    Event.ofPass_self, ← Flat.size_eq_length]

theorem length_bulk {x : Step K V} {items : List (Entry K V)} (hx : x.bulk? m = some items) :
    (s.step x).session.current.toList.length = (m.admitted order (c.toList ++ items)).length := by
  obtain ⟨load, a, hload, hcases⟩ := Flat.exists_load (c := c) hx
  have htaken : c.TakesIn order items load.value := by
    rcases hcases with rfl | rfl
    · exact Flat.takesIn_append h items
    · exact Flat.takesIn_gatherInto h items
  rw [(step_loading hs hload).2, Flat.size_eq_length,
    ((Flat.takesIn_toList h).trans htaken).toList_eq_arrange, Flat.length_arrange]

end

/-- The events of a build or a step tell what was sorted and what was dropped, and there are no
others. A build from items keeps what is admitted of them, and a load into a container that was
reached what is admitted of the old entries and the new ones, so that nothing is dropped when it is
rebuilt. A comparison with other items loads these as an extension of an empty container does. -/
theorem events_account_for_loads (m : Multiplicity) (order : Comparator K) [Std.TransCmp order] :
    (∀ (b : Build K V) (x : Reported (Session K V)), b.start m order = .ok x →
      x.notes = b.reports m x.value.current.toList.length ∧
        ∀ items, b.Loads items →
          x.value.current.toList.length = (m.admitted order items).length) ∧
    ∀ (s : Session K V) (c : Flat m K V), s.current = c.pack →
      (∀ x : Step K V, (∀ es, x ≠ .equals es) →
        (s.step x).events = x.reports m c.size (s.step x).session.current.toList.length) ∧
      (∀ (es : List (Entry K V)) (t : Session K V),
        t.current = (Flat.empty c.order : Flat m K V).pack →
          (s.step (.equals es)).events = (t.step (.extend (some es.length) es)).events) ∧
      (s.Reached order → (s.step .rebuild).events = [.sorted c.size] ∧
        ∀ (x : Step K V) (items : List (Entry K V)), x.bulk? m = some items →
          (s.step x).session.current.toList.length =
            (m.admitted order (c.toList ++ items)).length) := by
  refine ⟨fun b x hx => ⟨Build.notes_start hx, fun items hb => hb.length_start hx⟩,
    fun s c hs => ⟨fun x hx => events_step hs hx, ?_, ?_⟩⟩
  · intro es t ht
    rw [(notes_step hs _).2, (notes_step ht _).2]
    rfl
  · intro hr
    have hvalid : c.ValidFor order := hr.validFor_current hs
    exact ⟨events_rebuild hs hvalid, fun x items hx => length_bulk hs hvalid hx⟩

/-- Keys of one last digit are one class. A load into a map of 1 and 13 drops the 3 and keeps the
4; a source that promises one item is not loaded in bulk. -/
theorem events_account_for_loads_digits :
    let order := KeyOrder.intMod.order
    let s : Session Int64 Int64 :=
      Session.after ⟨.map (.empty order), []⟩ [.insert 13 0, .insert 1 1]
    (∀ x : Reported (Session Int64 Int64),
      (Build.collected [⟨13, 0⟩, ⟨3, 1⟩]).start .unique order = .ok x →
        x.notes = [.sorted 2, .collapsed 1 1]) ∧
      (s.step (.extend none [⟨3, 2⟩, ⟨4, 3⟩])).events = [.sorted 4, .collapsed 1 3] ∧
      (s.step (.extend (some 1) [⟨3, 2⟩, ⟨4, 3⟩])).events = [] ∧
      (s.step .rebuild).events = [.sorted 2] := by
  intro order s
  have hreached : s.Reached order := ⟨.unique, .empty, _, _, rfl, rfl⟩
  obtain ⟨hbuild, hstep⟩ := events_account_for_loads (K := Int64) (V := Int64) .unique order
  obtain ⟨c, hs, hlist⟩ : ∃ c : Map Int64 Int64, s.current = c.pack ∧
      c.toList = [⟨1, 1⟩, ⟨13, 0⟩] := ⟨_, rfl, by decide +kernel⟩
  have hsize : c.size = 2 := by
    rw [Flat.size_eq_length, hlist]
    rfl
  obtain ⟨hevents, -, hloads⟩ := hstep s c hs
  obtain ⟨hrebuild, hlength⟩ := hloads hreached
  refine ⟨fun x hx => ?_, ?_, ?_, ?_⟩
  · obtain ⟨hnotes, hkept⟩ := hbuild _ x hx
    rw [hnotes, hkept _ .collected]
    decide
  · rw [hevents (.extend _ _) nofun, hlength _ _ rfl, hlist, hsize]
    decide
  · rw [hevents (.extend _ _) nofun]
    rfl
  · rw [hrebuild, hsize]

end Session

end FlatAssoc
