import FlatAssoc.Proofs.Makers

/-!
# Validity of steps

A step of a valid container leaves a valid one under the same comparator, whether it removes
entries, changes values, takes in entries, passes between the two multiplicities or fails
(`Flat.validFor_step`). One that fails has not changed the container at all (`Flat.left_of_error`).
-/

namespace FlatAssoc

theorem exists_of_map_eq_ok {ε α β : Type} {f : α → β} {x : Except ε α} {b : β}
    (h : f <$> x = .ok b) : ∃ a, x = .ok a ∧ f a = b := by
  cases x with
  | error e => cases h
  | ok a =>
    cases h
    exact ⟨a, rfl, rfl⟩

theorem eq_error_of_map {ε α β : Type} {f : α → β} {x : Except ε α} {e : ε}
    (h : f <$> x = .error e) : x = .error e := by
  cases x with
  | error _ => exact congrArg Except.error (Except.error.inj h)
  | ok a => cases h

variable {m : Multiplicity} {K V : Type} {order : Comparator K}

namespace Container

/-- The comparator of a container. -/
def comparator : Container K V → Comparator K
  | .map c => c.order
  | .multimap c => c.order

/-- A container of either multiplicity that is valid and has the comparator `order`. -/
def ValidFor (order : Comparator K) : Container K V → Prop
  | .map c => c.ValidFor order
  | .multimap c => c.ValidFor order

end Container

theorem Flat.ValidFor.pack {c : Flat m K V} (h : c.ValidFor order) : c.pack.ValidFor order := by
  cases m with
  | unique => exact h
  | repeated => exact h

namespace Flat

variable {c d : Flat m K V}

/-! ## Steps that add no keys -/

/-- Keys that stay in their order stay valid. -/
theorem ValidFor.of_sublist (h : c.ValidFor order) (ho : d.order = c.order)
    (hs : d.keys.Sublist c.keys) : d.ValidFor order := by
  obtain ⟨rfl, hvalid⟩ := h
  refine ⟨ho, ?_⟩
  cases m with
  | unique =>
    show d.keys.Pairwise fun a b => d.order a b = .lt
    rw [ho]
    exact List.Pairwise.sublist hs hvalid
  | repeated =>
    show d.keys.Pairwise fun a b => d.order a b ≠ .gt
    rw [ho]
    exact List.Pairwise.sublist hs hvalid

theorem keys_modify (c : Flat m K V) (i : Nat) (f : V → V) : (c.modify i f).keys = c.keys := by
  rw [keys, toList_modify, keys]
  generalize c.toList = es
  induction es generalizing i with
  | nil => simp
  | cons e es ih =>
    cases i with
    | zero => rfl
    | succ i => simpa using ih i

theorem validFor_modify (h : c.ValidFor order) (i : Nat) (f : V → V) :
    (c.modify i f).ValidFor order :=
  h.of_sublist rfl (keys_modify c i f ▸ List.Sublist.refl _)

theorem validFor_modifyAll (h : c.ValidFor order) (positions : List Nat) (f : V → V) :
    (c.modifyAll positions f).ValidFor order := by
  induction positions generalizing c with
  | nil => exact h
  | cons i positions ih => exact ih (validFor_modify h i f)

theorem validFor_clear (h : c.ValidFor order) : c.clear.ValidFor order :=
  h.of_sublist rfl (List.nil_sublist _)

theorem validFor_eraseIdx (h : c.ValidFor order) (i : Nat) : (c.eraseIdx i).ValidFor order := by
  refine h.of_sublist rfl ?_
  rw [keys, toList_eraseIdx]
  exact (List.eraseIdx_sublist _ _).map _

theorem validFor_removeAt? (h : c.ValidFor order) {i : Nat} {r : Entry K V × Flat m K V}
    (hr : c.removeAt? i = some r) : r.2.ValidFor order := by
  obtain ⟨e, -, rfl⟩ := Option.map_eq_some_iff.mp hr
  exact validFor_eraseIdx h i

theorem validFor_removePart (h : c.ValidFor order) (start stop : Nat) :
    (c.removePart start stop).2.ValidFor order := by
  by_cases hpart : c.entries.IsPart start stop
  · rw [removePart_eq_ok c hpart]
    refine h.of_sublist rfl ?_
    have hsub : (c.toList.take start ++ c.toList.drop stop).Sublist c.toList := by
      conv => rhs; rw [← List.take_append_drop start c.toList]
      exact (List.Sublist.refl _).append (List.drop_sublist_drop_left _ hpart.1)
    rw [keys, toList, Buffer.toList_eraseRange _ hpart.1]
    exact hsub.map _
  · rw [removePart_eq_error c hpart]
    exact h

theorem validFor_removeRange (h : c.ValidFor order) (lo hi : Bound) :
    (c.removeRange lo hi).2.ValidFor order := by
  unfold removeRange
  split
  · exact validFor_removePart h _ _
  · exact h

theorem validFor_removeAll {c : Multimap K V} (h : c.ValidFor order) (p : Probe K) :
    (c.removeAll p).value.2.ValidFor order := by
  simp only [removeAll, Noted.value_bind]
  cases (c.outside p).value with
  | true => exact h
  | false => exact validFor_removePart h _ _

theorem keys_retain_sublist (visit : Nat → Entry K V → V × Bool) (ps : List (Entry K V × Nat)) :
    ((ps.filterMap fun p =>
      if (visit p.2 p.1).2 then some { p.1 with value := (visit p.2 p.1).1 } else none).map
        Entry.key).Sublist ((ps.map Prod.fst).map Entry.key) := by
  induction ps with
  | nil => exact List.Sublist.slnil
  | cons p ps ih =>
    cases hstay : (visit p.2 p.1).2 with
    | true => simpa [hstay] using ih
    | false => simpa [hstay] using ih.cons p.1.key

theorem validFor_retain (h : c.ValidFor order) (visit : Nat → Entry K V → V × Bool) :
    (c.retain visit).ValidFor order := by
  have hzip := keys_retain_sublist visit c.toList.zipIdx
  rw [List.zipIdx_map_fst] at hzip
  refine h.of_sublist rfl ?_
  rw [keys, toList_retain]
  exact hzip

theorem validFor_throughPart {ρ : Type} (h : c.ValidFor order) {part : Except Failure ρ}
    {go : ρ → Toured m K V} (hgo : ∀ cursor, (go cursor).container.ValidFor order) :
    (c.throughPart part go).2.ValidFor order := by
  cases part with
  | error e => exact h
  | ok cursor => exact hgo cursor

theorem validFor_tour (h : c.ValidFor order) (t : Tour K) (script : List Request) (f : V → V) :
    (c.tour t script f).value.2.ValidFor order := by
  cases t with
  | entries | keys | values => exact h
  | lentEntries | lentValues => exact validFor_modifyAll h _ _
  | ownedEntries | ownedKeys | ownedValues => exact validFor_clear h
  | drained => exact validFor_removeRange h _ _
  | matching t =>
    cases m with
    | unique => exact h
    | repeated => exact validFor_throughPart h fun _ => h
  | lentMatching t =>
    cases m with
    | unique => exact h
    | repeated => exact validFor_throughPart h fun _ => validFor_modifyAll h _ _

/-! ## Steps that add keys -/

section

variable [Std.TransCmp order]

/-- Settled entries of a sorted list make a valid container. -/
theorem validFor_settled {es : List (Entry K V)} (h : Sorted order es)
    (hd : d.toList = (settle m order es).value) (ho : d.order = order) : d.ValidFor order := by
  refine validFor_iff.mpr ⟨ho, ?_, fun k => ?_⟩
  · rw [hd]
    exact sorted_settle h
  · rw [hd, ofClass_settle h, Multiplicity.keep_keep]

theorem validFor_ofList (es : List (Entry K V)) :
    (ofList order es : Reported (Flat m K V)).value.ValidFor order :=
  validFor_settled (sorted_arrange es) (toList_ofList order es) rfl

theorem validFor_gather (es : List (Entry K V)) :
    (gather order es : Reported (Flat m K V)).value.ValidFor order :=
  validFor_settled (sorted_arrange es) (toList_gather order es) rfl

omit [Std.TransCmp order] in
theorem rebuild_eq (h : c.ValidFor order) : c.rebuild = ofList order c.toList := by
  rw [rebuild, h.order_eq]

theorem validFor_rebuild (h : c.ValidFor order) : c.rebuild.value.ValidFor order := by
  rw [rebuild_eq h]
  exact validFor_ofList c.toList

theorem validFor_toMultimap {c : Map K V} (h : c.ValidFor order) :
    c.toMultimap.ValidFor order :=
  validFor_iff.mpr ⟨h.order_eq, h.sorted, fun _ => rfl⟩

theorem validFor_toMap {c : Multimap K V} (h : c.ValidFor order) :
    c.toMap.value.ValidFor order := by
  obtain ⟨rfl, hvalid⟩ := h
  have hsorted : Sorted c.order c.toList := ValidFor.sorted ⟨rfl, hvalid⟩
  exact validFor_settled hsorted (toList_toMap c) rfl

section

variable {α : Type} {x : Asked K (Making m K V α)} (f : α → Nat → Answer K V)

omit [Std.TransCmp order] in
theorem validFor_making_of_gives {r : α × Flat m K V} (hx : x.value.Gives c r)
    (hr : r.2.ValidFor order) : (c.making x f).left.ValidFor order := by
  rw [making_of_gives hx]
  exact hr.pack

omit [Std.TransCmp order] in
/-- Whether or not the maker fails, a valid container is left. -/
theorem validFor_making_of_makes (h : c.ValidFor order) {make : Maker V} {g : V → α × Flat m K V}
    (hx : x.value.Makes c make g) (hg : ∀ v, (g v).2.ValidFor order) :
    (c.making x f).left.ValidFor order := by
  cases make with
  | fails =>
    rw [making_of_fails hx]
    exact h.pack
  | gives v =>
    rw [making_of_makes hx]
    exact (hg v).pack

end

theorem validFor_emplace (h : c.ValidFor order) (k : K) (make : Maker V) :
    (c.making (c.emplace k make.run) (madeAnswer m)).left.ValidFor order := by
  cases hfull : m.full (ofClass order k c.toList) with
  | true => exact validFor_making_of_gives _ (gives_emplace h hfull make.run) h
  | false =>
    refine validFor_making_of_makes _ h (makes_emplace h hfull make) fun v => ?_
    exact (takesIn_place (e := ⟨k, v⟩) h hfull).validFor

variable {c : Map K V}

theorem validFor_place (h : c.ValidFor order) {k : K} (he : ofClass order k c.toList = [])
    (v : V) : (c.place (rank .unique order k c.toList) ⟨k, v⟩).ValidFor order := by
  have hroom : Multiplicity.full .unique (ofClass order k c.toList) = false := by rw [he]; rfl
  exact (takesIn_place (e := ⟨k, v⟩) h hroom).validFor

theorem validFor_emplaceOrAssign (h : c.ValidFor order) (k : K) (make : Maker V) :
    (c.making (c.emplaceOrAssign k make.run) (madeAnswer .unique)).left.ValidFor order := by
  rcases ofClass_cases h k with he | ⟨e, he⟩
  · exact validFor_making_of_makes _ h (makes_emplaceOrAssign_free h he make)
      (validFor_place h he)
  · exact validFor_making_of_makes _ h (makes_emplaceOrAssign_held h he make)
      fun v => validFor_modify h _ _

theorem validFor_getOrInsertWith (h : c.ValidFor order) (k : K) (make : Maker V) (f : V → V)
    (g : V → Nat → Answer K V) :
    (c.making (c.getOrInsertWith k make.run f) g).left.ValidFor order := by
  rcases ofClass_cases h k with he | ⟨e, he⟩
  · exact validFor_making_of_makes _ h (makes_getOrInsertWith_free h he make f)
      fun v => validFor_modify (validFor_place h he v) _ _
  · exact validFor_making_of_gives _ (gives_getOrInsertWith_held h he make.run f)
      (validFor_modify h _ _)

theorem validFor_insertOrAssign (h : c.ValidFor order) (k : K) (v : V) :
    (c.insertOrAssign k v).value.2.ValidFor order := by
  rcases ofClass_cases h k with he | ⟨e, he⟩
  · rw [value_insertOrAssign_free h he]
    exact validFor_place h he v
  · rw [value_insertOrAssign_held h he]
    exact validFor_modify h _ _

theorem validFor_getOrDefault [Inhabited V] (h : c.ValidFor order) (k : K) (f : V → V) :
    (c.getOrDefault k f).value.2.ValidFor order := by
  rcases ofClass_cases h k with he | ⟨e, he⟩
  · rw [value_getOrDefault_free h he]
    exact validFor_modify (validFor_place h he default) _ _
  · rw [value_getOrDefault_held h he]
    exact validFor_modify h _ _

end

end Flat

/-! ## Effects -/

/-- The container that a step leaves is valid, whether or not the step fails. -/
def Effect.ValidFor (order : Comparator K) (x : Effect K V) : Prop := x.left.ValidFor order

namespace Flat

variable {c : Flat m K V}

theorem validFor_look (h : c.ValidFor order) (l : Look) (p : Probe K) :
    (c.look l p).ValidFor order := by
  cases l with
  | first f => cases f <;> exact h.pack
  | position | count | lower | upper | range | index => exact h.pack

theorem validFor_parting (h : c.ValidFor order) (f : Facet) {x : Option (Entry K V × Flat m K V)}
    (hx : ∀ r, x = some r → r.2.ValidFor order) : (c.parting f x).2.ValidFor order := by
  cases x with
  | none => exact h
  | some taken => exact hx taken rfl

/-! ## Failures -/

section

variable {e : Failure}

theorem removePart_of_error {start stop : Nat} (he : (c.removePart start stop).1 = .error e) :
    (c.removePart start stop).2 = c := by
  unfold removePart at *
  split at he
  · cases he
  · rfl

theorem removeRange_of_error {lo hi : Bound} (he : (c.removeRange lo hi).1 = .error e) :
    (c.removeRange lo hi).2 = c := by
  unfold removeRange at *
  split at he
  · exact removePart_of_error he
  · rfl

theorem removeAll_of_error {c : Multimap K V} {p : Probe K}
    (he : (c.removeAll p).value.1 = .error e) : (c.removeAll p).value.2 = c := by
  simp only [removeAll, Noted.value_bind] at *
  cases ho : (c.outside p).value with
  | true => rfl
  | false =>
    rw [ho] at he
    exact removePart_of_error (eq_error_of_map he)

theorem throughPart_of_error {ρ : Type} {part : Except Failure ρ} {go : ρ → Toured m K V}
    (he : (c.throughPart part go).1 = .error e) : (c.throughPart part go).2 = c := by
  cases part with
  | error e => rfl
  | ok cursor => cases he

theorem tour_of_error {t : Tour K} {script : List Request} {f : V → V}
    (he : (c.tour t script f).value.1 = .error e) : (c.tour t script f).value.2 = c := by
  cases t with
  | entries | keys | values | lentEntries | lentValues => cases he
  | ownedEntries | ownedKeys | ownedValues => cases he
  | drained => exact removeRange_of_error (eq_error_of_map he)
  | matching t | lentMatching t =>
    cases m with
    | unique => rfl
    | repeated => exact throughPart_of_error he

theorem attempting_of_error {α : Type} {x : Asked K (Attempt m K V α)} {f : α → Answer K V}
    (hx : ∀ e, x.value.1 = .error e → x.value.2 = c) (he : (attempting x f).answer = .error e) :
    (attempting x f).left = c.pack :=
  congrArg pack (hx e (eq_error_of_map he))

end

section

variable {α : Type} {x : Asked K (Making m K V α)} {f : α → Nat → Answer K V} {e : Failure}

theorem making_of_gives_of_error {r : α × Flat m K V} (hx : x.value.Gives c r)
    (he : (c.making x f).answer = .error e) : (c.making x f).left = c.pack := by
  rw [making_of_gives hx] at he
  cases he

theorem making_of_makes_of_error {make : Maker V} {g : V → α × Flat m K V}
    (hx : x.value.Makes c make g) (he : (c.making x f).answer = .error e) :
    (c.making x f).left = c.pack := by
  cases make with
  | fails => rw [making_of_fails hx]
  | gives v =>
    rw [making_of_makes hx] at he
    cases he

variable [Std.TransCmp order] {k : K} {make : Maker V}

theorem emplace_of_error (h : c.ValidFor order)
    (he : (c.making (c.emplace k make.run) (madeAnswer m)).answer = .error e) :
    (c.making (c.emplace k make.run) (madeAnswer m)).left = c.pack := by
  cases hfull : m.full (ofClass order k c.toList) with
  | true => exact making_of_gives_of_error (gives_emplace h hfull make.run) he
  | false => exact making_of_makes_of_error (makes_emplace h hfull make) he

variable {c : Map K V}

theorem emplaceOrAssign_of_error (h : c.ValidFor order)
    (he : (c.making (c.emplaceOrAssign k make.run) (madeAnswer .unique)).answer = .error e) :
    (c.making (c.emplaceOrAssign k make.run) (madeAnswer .unique)).left = c.pack := by
  rcases ofClass_cases h k with hclass | ⟨_, hclass⟩
  · exact making_of_makes_of_error (makes_emplaceOrAssign_free h hclass make) he
  · exact making_of_makes_of_error (makes_emplaceOrAssign_held h hclass make) he

theorem getOrInsertWith_of_error (h : c.ValidFor order) {f : V → V} {g : V → Nat → Answer K V}
    (he : (c.making (c.getOrInsertWith k make.run f) g).answer = .error e) :
    (c.making (c.getOrInsertWith k make.run f) g).left = c.pack := by
  rcases ofClass_cases h k with hclass | ⟨_, hclass⟩
  · exact making_of_makes_of_error (makes_getOrInsertWith_free h hclass make f) he
  · exact making_of_gives_of_error (gives_getOrInsertWith_held h hclass make.run f) he

/-- A value that is given cannot fail to be assigned. -/
theorem insertOrAssign_ne_error (h : c.ValidFor order) (k : K) (v : V) (e : Failure) :
    (c.insertOrAssign k v).value.1 ≠ .error e := by
  rcases ofClass_cases h k with hclass | ⟨_, hclass⟩
  · rw [value_insertOrAssign_free h hclass]
    nofun
  · rw [value_insertOrAssign_held h hclass]
    nofun

theorem getOrDefault_ne_error [Inhabited V] (h : c.ValidFor order) (k : K) (f : V → V)
    (e : Failure) : (c.getOrDefault k f).value.1 ≠ .error e := by
  rcases ofClass_cases h k with hclass | ⟨_, hclass⟩
  · rw [value_getOrDefault_free h hclass]
    nofun
  · rw [value_getOrDefault_held h hclass]
    nofun

end

/-! ## Steps -/

variable [DecidableEq K] [DecidableEq V] [Inhabited V] [Key K] [Document K V]

/-- A step of a valid container leaves a valid one. -/
theorem validFor_step [Std.TransCmp order] (h : c.ValidFor order) (s : Step K V) :
    (c.step s).ValidFor order := by
  cases s with
  | size | isEmpty | first | last | getAt | slices | capacity | shrink => exact h.pack
  | debug pretty => cases pretty <;> exact h.pack
  | look l t => exact validFor_look h l _
  | compare | document | equals => exact h.pack
  | reserve n | tryReserve n =>
    simp only [step]
    split <;> exact h.pack
  | update t f =>
    refine Flat.ValidFor.pack ?_
    simp only [update, Noted.value_map]
    split
    · exact h
    · exact validFor_modify h _ f
  | updateAt i f =>
    simp only [step]
    split
    · exact (validFor_modify h i f).pack
    · exact h.pack
  | clear | takeOver => exact (validFor_clear h).pack
  | popFirst | popLast | removeAt i =>
    exact (validFor_parting h _ fun _ => validFor_removeAt? h).pack
  | removeRange lo hi script => exact (validFor_removeRange h lo hi).pack
  | take f t =>
    refine (validFor_parting h f fun taken htaken => ?_).pack
    obtain ⟨i, -, hi⟩ := Option.bind_eq_some_iff.mp htaken
    exact validFor_removeAt? h hi
  | removeAll t =>
    cases m with
    | unique => exact h.pack
    | repeated => exact (validFor_removeAll h _).pack
  | retain visit => exact (validFor_retain h visit).pack
  | tour t script f => exact (validFor_tour h t script f).pack
  | tourAll t f => exact (validFor_tour h t _ f).pack
  | insert k v | add k v => exact (takesIn_insert h k v).validFor.pack
  | emplace k make => exact validFor_emplace h k make
  | insertOrAssign k v =>
    cases m with
    | unique => exact (validFor_insertOrAssign h k v).pack
    | repeated => exact h.pack
  | emplaceOrAssign k make =>
    cases m with
    | unique => exact validFor_emplaceOrAssign h k make
    | repeated => exact h.pack
  | getOrInsertWith k make f =>
    cases m with
    | unique => exact validFor_getOrInsertWith h k make f _
    | repeated => exact h.pack
  | getOrDefault k f =>
    cases m with
    | unique => exact (validFor_getOrDefault h k f).pack
    | repeated => exact h.pack
  | extend upper items => exact (takesIn_extend h upper items).validFor.pack
  | gather items => exact (takesIn_gatherInto h items).validFor.pack
  | extendCopied upper items =>
    simp only [step]
    split
    · exact (takesIn_extend h upper items).validFor.pack
    · exact h.pack
  | gatherCopied items =>
    simp only [step]
    split
    · exact (takesIn_gatherInto h items).validFor.pack
    · exact h.pack
  | rebuild => exact (validFor_rebuild h).pack
  | toMultimap =>
    cases m with
    | unique => exact (validFor_toMultimap h).pack
    | repeated => exact h.pack
  | toMap =>
    cases m with
    | unique => exact h.pack
    | repeated => exact (validFor_toMap h).pack
  | fork | swap | same => exact h.pack

theorem left_of_error [Std.TransCmp order] (h : c.ValidFor order) {s : Step K V} {e : Failure}
    (he : (c.step s).answer = .error e) : (c.step s).left = c.pack := by
  cases s with
  | size | isEmpty | first | last | getAt | slices | capacity | shrink => rfl
  | debug pretty => cases pretty <;> rfl
  | look l t =>
    cases l with
    | first f => cases f <;> rfl
    | position | count | lower | upper | range | index => rfl
  | compare | document | equals => rfl
  | reserve n | tryReserve n =>
    simp only [step]
    split <;> rfl
  | updateAt i f =>
    simp only [step] at he
    split at he <;> cases he
  | update | clear | takeOver | popFirst | popLast | removeAt | take | retain => cases he
  | insert | add | extend | gather | rebuild => cases he
  | removeRange lo hi script =>
    exact attempting_of_error (fun _ he => removeRange_of_error (eq_error_of_map he)) he
  | removeAll t =>
    cases m with
    | unique => rfl
    | repeated => exact attempting_of_error (fun _ => removeAll_of_error) he
  | tour | tourAll => exact attempting_of_error (fun _ => tour_of_error) he
  | emplace k make => exact emplace_of_error h he
  | insertOrAssign k v =>
    cases m with
    | unique => exact attempting_of_error (fun e => (absurd · (insertOrAssign_ne_error h k v e))) he
    | repeated => rfl
  | emplaceOrAssign k make =>
    cases m with
    | unique => exact emplaceOrAssign_of_error h he
    | repeated => rfl
  | getOrInsertWith k make f =>
    cases m with
    | unique => exact getOrInsertWith_of_error h he
    | repeated => rfl
  | getOrDefault k f =>
    cases m with
    | unique => exact attempting_of_error (fun e => (absurd · (getOrDefault_ne_error h k f e))) he
    | repeated => rfl
  | extendCopied upper items | gatherCopied items =>
    simp only [step] at he
    split at he <;> cases he
  | toMultimap =>
    cases m with
    | unique => cases he
    | repeated => rfl
  | toMap =>
    cases m with
    | unique => rfl
    | repeated => cases he
  | fork | swap | same => rfl

end Flat

namespace Container

variable [DecidableEq K] [DecidableEq V] [Inhabited V] [Key K] [Document K V] [Std.TransCmp order]
  {c : Container K V}

theorem validFor_step (h : c.ValidFor order) (x : Step K V) : (c.step x).ValidFor order := by
  cases c with
  | map c => exact Flat.validFor_step h x
  | multimap c => exact Flat.validFor_step h x

theorem left_of_error (h : c.ValidFor order) {x : Step K V} {e : Failure}
    (he : (c.step x).answer = .error e) : (c.step x).left = c := by
  cases c with
  | map c => exact Flat.left_of_error h he
  | multimap c => exact Flat.left_of_error h he

end Container

end FlatAssoc
