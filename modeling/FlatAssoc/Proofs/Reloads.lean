import FlatAssoc.Proofs.Uniqueness

/-!
# Reloads

What a container holds it can load again. A valid container is rebuilt from its entries as it was
(`Flat.toList_rebuild`), and the uniqueness pass over the entries of a map drops none
(`Flat.toList_toMap_toMultimap`). After a load each class of the items is held, and a map takes in
more of a class that it holds by leaving all as it is (`Flat.takesIn_of_full`); so the same items,
in any order and with entries of the map among them, change nothing when they are loaded again
(`Flat.TakesIn.again`).
-/

namespace FlatAssoc

variable {m : Multiplicity} {K V : Type} {order : Comparator K}

/-- A step that loads all of the items into a container of multiplicity `m`: from a source that
promises no fewer of them, if it promises anything, or by several workers. Items are borrowed only
where this is offered. -/
inductive Step.LoadsAll [Key K] [Document K V] (m : Multiplicity) (items : List (Entry K V)) :
    Step K V → Prop
  | extend {upper : Option Nat} (h : ∀ n, upper = some n → items.length ≤ n) :
    LoadsAll m items (.extend upper items)
  | extendCopied {upper : Option Nat} (h : ∀ n, upper = some n → items.length ≤ n)
    (hcopied : Key.copied K = true) : LoadsAll m items (.extendCopied upper items)
  | gather : LoadsAll m items (.gather items)
  | gatherCopied (hoffered : Flat.gathersCopied m K V = true) :
    LoadsAll m items (.gatherCopied items)

/-! ## Classes that are held -/

namespace Multiplicity

variable {α : Type} {xs : List α}

/-- Where a map holds an entry it has no room for another one. -/
theorem full_of_mem {x : α} (h : x ∈ xs) : unique.full xs = true := by
  cases xs with
  | nil => cases h
  | cons y ys => rfl

theorem full_keep : unique.full (unique.keep xs) = unique.full xs := by
  cases xs <;> rfl

end Multiplicity

namespace Flat

theorem taken_of_promise {upper : Option Nat} {es : List (Entry K V)}
    (h : ∀ n, upper = some n → es.length ≤ n) : taken upper es = es := by
  cases upper with
  | none => rfl
  | some n => exact taken_of_le (h n rfl)

variable [Std.TransCmp order]

theorem takesIn_extend_of_promise {c : Flat m K V} (h : c.ValidFor order) {upper : Option Nat}
    {es : List (Entry K V)} (hpromise : ∀ n, upper = some n → es.length ≤ n) :
    TakesIn order c es (c.extend upper es).value := by
  have htaken := takesIn_extend h upper es
  rwa [taken_of_promise hpromise] at htaken

theorem TakesIn.full {c d : Map K V} {es : List (Entry K V)} (h : TakesIn order c es d)
    {e : Entry K V} (he : e ∈ es) :
    Multiplicity.unique.full (ofClass order e.key d.toList) = true := by
  have hmem : e ∈ ofClass order e.key es := mem_ofClass.mpr ⟨he, Comparator.eq_self e.key⟩
  rw [h.ofClass_eq, Multiplicity.full_keep]
  exact Multiplicity.full_of_mem (List.mem_append_right _ hmem)

/-- What was loaded and what is held may be loaded again, and nothing changes. -/
theorem TakesIn.again {c d : Map K V} {xs ys : List (Entry K V)} (h : TakesIn order c xs d)
    (hys : ∀ e ∈ ys, e ∈ xs ∨ e ∈ d.toList) : TakesIn order d ys d := by
  apply takesIn_of_full h.validFor
  intro e he
  rcases hys e he with hxs | hd
  · exact h.full hxs
  · exact Multiplicity.full_of_mem (mem_ofClass.mpr ⟨hd, Comparator.eq_self e.key⟩)

/-- A map holds what the uniqueness pass leaves of its entries. -/
theorem toList_toMap_toMultimap {c : Map K V} (h : c.ValidFor order) :
    c.toMultimap.toMap.value.toList = c.toList := by
  have hmirrors : Mirrors order c c.toMultimap :=
    ⟨h, validFor_toMultimap h, fun k => (h.keep_ofClass k).symm⟩
  exact hmirrors.toList_eq.symm

variable [DecidableEq K] [DecidableEq V] [Inhabited V] [Key K] [Document K V] {c : Flat m K V}

/-- A load of all items succeeds, and all of them are taken in. -/
theorem exists_loading (h : c.ValidFor order) {items : List (Entry K V)} {x : Step K V}
    (hx : x.LoadsAll m items) : ∃ (d : Flat m K V) (a : Answer K V),
      (c.step x).outcome = .ok (a, d.pack) ∧ c.TakesIn order items d := by
  have hload {load : Reported (Flat m K V)} {a : Answer K V} {y : Effect K V} {offered : Bool}
      (hoffered : offered = true) :
      (if offered then loading load a else y).outcome = .ok (a, load.value.pack) :=
    congrArg Effect.outcome (if_pos hoffered)
  cases hx with
  | extend hpromise => exact ⟨_, _, rfl, takesIn_extend_of_promise h hpromise⟩
  | extendCopied hpromise hcopied =>
    exact ⟨_, _, hload hcopied, takesIn_extend_of_promise h hpromise⟩
  | gather => exact ⟨_, _, rfl, takesIn_gatherInto h items⟩
  | gatherCopied hoffered => exact ⟨_, _, hload hoffered, takesIn_gatherInto h items⟩

end Flat

/-! ## Sessions -/

namespace Session

variable [DecidableEq K] [DecidableEq V] [Inhabited V] [Key K] [Document K V] {s : Session K V}
  {c : Flat m K V}

/-- The steps succeed, and the container that they leave has the entries of `c` and is equal to the
one that was there. -/
structure Keeps (s : Session K V) (c : Flat m K V) (xs : List (Step K V)) : Prop where
  succeeds : ∀ y ∈ s.run xs, ∃ a, y.answer = .ok a
  restores : s.Restores c (s.after xs)
  equal : s.current.same? (s.after xs).current = some true

omit [Inhabited V] [Key K] [Document K V] in
theorem Restores.same? {y : Session K V} (h : s.Restores c y) (hs : s.current = c.pack) :
    s.current.same? y.current = some true := by
  obtain ⟨d, rfl, -, hlist⟩ := h
  have hsame : c.same d = true := by
    rw [Flat.same, hlist]
    exact beq_self_eq_true _
  rw [hs]
  cases m with
  | unique => exact congrArg some hsame
  | repeated => exact congrArg some hsame

theorem keeps_of_outcome (hs : s.current = c.pack) {x : Step K V} {a : Answer K V}
    {d : Flat m K V} (hx : (c.step x).outcome = .ok (a, d.pack)) (ho : d.order = c.order)
    (hd : d.toList = c.toList) : s.Keeps c [x] := by
  have hrestores : s.Restores c (s.step x).session := ⟨d, session_step_of_ok hs hx, ho, hd⟩
  refine ⟨?_, hrestores, hrestores.same? hs⟩
  intro y hy
  obtain rfl : y = s.step x := List.mem_singleton.mp hy
  exact ⟨a, answer_step_of_ok hs hx⟩

section

variable [Std.TransCmp order] (hs : s.current = c.pack) (h : c.ValidFor order)

include hs h

theorem keeps_rebuild : s.Keeps c [.rebuild] :=
  keeps_of_outcome (d := c.rebuild.value) hs rfl rfl (Flat.toList_rebuild h)

/-- A load of what would be taken in without a change makes none. -/
theorem keeps_load {ys : List (Entry K V)} (hys : c.TakesIn order ys c) {y : Step K V}
    (hy : y.LoadsAll m ys) : s.Keeps c [y] := by
  obtain ⟨d, a, hout, htaken⟩ := Flat.exists_loading h hy
  apply keeps_of_outcome hs hout
  · rw [htaken.validFor.order_eq, h.order_eq]
  · exact htaken.toList_eq hys

theorem exists_step_load {xs : List (Entry K V)} {x : Step K V} (hx : x.LoadsAll m xs) :
    ∃ d : Flat m K V, (∃ a, (s.step x).answer = .ok a) ∧
      (s.step x).session = { s with current := d.pack } ∧ c.TakesIn order xs d := by
  obtain ⟨d, a, hout, htaken⟩ := Flat.exists_loading h hx
  exact ⟨d, ⟨a, answer_step_of_ok hs hout⟩, session_step_of_ok hs hout, htaken⟩

end

/-- A map that becomes a multimap becomes the same map again. -/
theorem keeps_toMultimap_toMap [Std.TransCmp order] {c : Map K V} (hs : s.current = c.pack)
    (h : c.ValidFor order) : s.Keeps c [.toMultimap, .toMap] := by
  have hmulti : (c.step .toMultimap).outcome = .ok (.nothing, c.toMultimap.pack) := rfl
  have hmap : (c.toMultimap.step .toMap).outcome = .ok (.nothing, c.toMultimap.toMap.value.pack) :=
    rfl
  have hcurrent := current_step hs hmulti
  have hrestores : s.Restores c (s.after [.toMultimap, .toMap]) := by
    refine ⟨c.toMultimap.toMap.value, ?_, rfl, Flat.toList_toMap_toMultimap h⟩
    show ((s.step .toMultimap).session.step .toMap).session = _
    rw [session_step_of_ok hcurrent hmap, session_step_of_ok hs hmulti]
  refine ⟨?_, hrestores, hrestores.same? hs⟩
  intro y hy
  rcases List.mem_cons.mp hy with rfl | hy
  · exact ⟨_, answer_step_of_ok hs hmulti⟩
  · obtain rfl := List.mem_singleton.mp hy
    exact ⟨_, answer_step_of_ok hcurrent hmap⟩

/-- A container that is rebuilt from its entries is as it was, and so is a map that becomes a
multimap and a map again. A map that has loaded some items may load them again, all or some of
them, in any order and with its own entries among them: each of its entries stays. -/
theorem reloads_keep_entries [Std.TransCmp order] (hr : s.Reached order)
    (hs : s.current = c.pack) :
    s.Keeps c [.rebuild] ∧
      (m = .unique → s.Keeps c [.toMultimap, .toMap] ∧
        ∀ (xs : List (Entry K V)) (x : Step K V), x.LoadsAll .unique xs →
          ∃ d : Flat m K V, (∃ a, (s.step x).answer = .ok a) ∧
            (s.step x).session = { s with current := d.pack } ∧
            ∀ (ys : List (Entry K V)) (y : Step K V), y.LoadsAll .unique ys →
              (∀ e ∈ ys, e ∈ xs ∨ e ∈ d.toList) → (s.step x).session.Keeps d [y]) := by
  have hvalid : c.ValidFor order := hr.validFor_current hs
  refine ⟨keeps_rebuild hs hvalid, ?_⟩
  rintro rfl
  refine ⟨keeps_toMultimap_toMap hs hvalid, fun xs x hx => ?_⟩
  obtain ⟨d, hanswer, hsession, htaken⟩ := exists_step_load hs hvalid hx
  refine ⟨d, hanswer, hsession, fun ys y hy hys => ?_⟩
  apply keeps_load _ htaken.validFor (htaken.again hys) hy
  rw [hsession]

/-- Keys of one last digit are one class. The 4 is new when it is loaded for the first time and not
when it is loaded again, twice and with the 13 that the map holds. -/
theorem reloads_keep_entries_digits :
    let s : Session Int64 Int64 :=
      Session.after ⟨.map (.empty KeyOrder.intMod.order), []⟩ [.insert 13 0, .insert 1 1]
    let x : Step Int64 Int64 := .extend (some 1) [⟨4, 2⟩]
    let y : Step Int64 Int64 := .gather [⟨4, 2⟩, ⟨13, 0⟩, ⟨4, 2⟩]
    (s.step x).session.current.toList = [⟨1, 1⟩, ⟨13, 0⟩, ⟨4, 2⟩] ∧
      (s.after [x, y]).current.toList = [⟨1, 1⟩, ⟨13, 0⟩, ⟨4, 2⟩] ∧
      (s.after [.rebuild]).current.toList = [⟨1, 1⟩, ⟨13, 0⟩] ∧
      (s.after [.toMultimap, .toMap]).current.toList = [⟨1, 1⟩, ⟨13, 0⟩] := by
  intro s x y
  have hreached : s.Reached KeyOrder.intMod.order := ⟨.unique, .empty, _, _, rfl, rfl⟩
  obtain ⟨c, hs, hlist⟩ : ∃ c : Map Int64 Int64, s.current = c.pack ∧
      c.toList = [⟨1, 1⟩, ⟨13, 0⟩] := ⟨_, rfl, by decide +kernel⟩
  have hx : x.LoadsAll .unique [⟨4, 2⟩] := .extend fun n hn => by
    cases hn
    decide
  have hloaded : (s.step x).session.current.toList = [⟨1, 1⟩, ⟨13, 0⟩, ⟨4, 2⟩] := by
    decide +kernel
  obtain ⟨hrebuild, hmap⟩ := reloads_keep_entries hreached hs
  obtain ⟨hagain, hloads⟩ := hmap rfl
  obtain ⟨d, -, hsession, hreload⟩ := hloads _ x hx
  have hd : d.toList = [⟨1, 1⟩, ⟨13, 0⟩, ⟨4, 2⟩] := by
    rw [← hloaded, hsession, Flat.toList_pack]
  have hkeeps := hreload _ y .gather (by rw [hd]; decide)
  refine ⟨hloaded, ?_, ?_, ?_⟩
  · exact hkeeps.restores.toList_eq.trans hd
  · exact hrebuild.restores.toList_eq.trans hlist
  · exact hagain.restores.toList_eq.trans hlist

end Session

end FlatAssoc
