import FlatAssoc.Key.WeakOrder
import FlatAssoc.Proofs.Validity
import FlatAssoc.Session

/-!
# Runs of sessions

Every container that a session holds, after any steps from any start, is valid for the comparator
that it was started with (`Session.validFor_after`). A step that fails leaves the session as it was
(`Session.session_of_error`).
-/

namespace FlatAssoc

variable {m : Multiplicity} {K V : Type} {order : Comparator K}

namespace Flat

theorem toList_pack (c : Flat m K V) : c.pack.toList = c.toList := by
  cases m with
  | unique => rfl
  | repeated => rfl

section

variable [DecidableEq K] [DecidableEq V] [Inhabited V] [Key K] [Document K V]

theorem pack_step (c : Flat m K V) (x : Step K V) : c.pack.step x = c.step x := by
  cases m with
  | unique => rfl
  | repeated => rfl

theorem outcome_tour {c : Flat m K V} {t : Tour K} {script : List Request} {f : V → V}
    {d : Toured m K V} (hd : (c.tour t script f).value = d.done) :
    (c.step (.tour t script f)).outcome =
      .ok (.list (d.readings.map t.answer), d.container.pack) := by
  show (attempting _ _).outcome = _
  rw [attempting, hd]
  rfl

end

end Flat

/-! ## Starts -/

namespace Session

/-- The container at hand and the copies. -/
def containers (s : Session K V) : List (Container K V) := s.current :: s.saved

/-- All containers of a session are valid for `order`. -/
def ValidFor (order : Comparator K) (s : Session K V) : Prop :=
  ∀ c ∈ s.containers, c.ValidFor order

theorem exists_pack {s : Session K V} (h : s.ValidFor order) :
    ∃ (m : Multiplicity) (c : Flat m K V), s.current = c.pack ∧ c.ValidFor order := by
  have hcurrent := h s.current List.mem_cons_self
  cases hc : s.current with
  | map c => exact ⟨.unique, c, rfl, by rwa [hc] at hcurrent⟩
  | multimap c => exact ⟨.repeated, c, rfl, by rwa [hc] at hcurrent⟩

end Session

namespace Build

variable [Document K V] [Std.TransCmp order]

theorem validFor_run {b : Build K V} {x : Reported (Flat m K V)} (hx : b.run m order = .ok x) :
    x.value.ValidFor order := by
  cases b with
  | empty =>
    cases hx
    exact Flat.validFor_empty
  | withRoom n =>
    simp only [run] at hx
    split at hx
    · cases hx
      exact Flat.validFor_empty
    · cases hx
  | inserted items =>
    cases hx
    exact (Flat.takesIn_foldl_insert Flat.validFor_empty items).validFor
  | collected items =>
    cases hx
    exact Flat.validFor_ofList items
  | gathered items =>
    cases hx
    exact Flat.validFor_gather items
  | document text =>
    simp only [run] at hx
    split at hx
    · cases hx
      exact Flat.validFor_ofList _
    · cases hx

theorem validFor_start {b : Build K V} {x : Reported (Session K V)}
    (hx : b.start m order = .ok x) : x.value.ValidFor order := by
  obtain ⟨y, hy, rfl⟩ := exists_of_map_eq_ok hx
  rintro c (_ | ⟨_, hc⟩)
  · exact (validFor_run hy).pack
  · cases hc

end Build

/-! ## Runs -/

namespace Session

variable {s : Session K V}

theorem settle_of_ok {x : Effect K V} {a : Answer K V} {c : Container K V}
    (hx : x.outcome = .ok (a, c)) :
    (s.settle x).answer = .ok a ∧ (s.settle x).session.current = c := by
  obtain ⟨b, hb, heq⟩ := exists_of_map_eq_ok hx
  cases heq
  exact ⟨hb, rfl⟩

theorem validFor_settle (h : s.ValidFor order) {x : Effect K V} (hx : x.ValidFor order) :
    (s.settle x).session.ValidFor order := by
  rintro d (_ | ⟨_, hd⟩)
  · exact hx
  · exact h d (List.mem_cons_of_mem _ hd)

/-- `y` is `s` with the entries of `c` at hand, whatever buffer they are in. -/
def Restores (s : Session K V) (c : Flat m K V) (y : Session K V) : Prop :=
  ∃ d : Flat m K V, y = { s with current := d.pack } ∧ d.order = c.order ∧ d.toList = c.toList

theorem Restores.toList_eq {c : Flat m K V} {y : Session K V} (h : s.Restores c y) :
    y.current.toList = c.toList := by
  obtain ⟨d, rfl, -, hlist⟩ := h
  rw [Flat.toList_pack, hlist]

variable [DecidableEq K] [DecidableEq V] [Inhabited V] [Key K] [Document K V]

theorem after_append (s : Session K V) (xs ys : List (Step K V)) :
    s.after (xs ++ ys) = (s.after xs).after ys := List.foldl_append

/-- A step on the copies compares no keys and reports nothing; any other step does what it does on
the container at hand, whether or not it fails. -/
theorem notes_step {c : Flat m K V} (hs : s.current = c.pack) (x : Step K V) :
    (s.step x).asked = (c.step x).asked ∧ (s.step x).events = (c.step x).events := by
  have hsettle : (s.settle (s.current.step x)).asked = (c.step x).asked ∧
      (s.settle (s.current.step x)).events = (c.step x).events := by
    rw [hs, Flat.pack_step]
    exact ⟨rfl, rfl⟩
  unfold step
  split
  · exact ⟨rfl, rfl⟩
  · split <;> exact ⟨rfl, rfl⟩
  · split
    · exact ⟨rfl, rfl⟩
    · split <;> exact ⟨rfl, rfl⟩
  · exact hsettle

/-- A step that does not fail is one on the container at hand: those on the copies fail there. -/
theorem step_eq_settle {c : Flat m K V} (hs : s.current = c.pack) {x : Step K V}
    {y : Answer K V × Container K V} (hx : (c.step x).outcome = .ok y) :
    s.step x = s.settle (c.step x) := by
  have hsettle : s.settle (s.current.step x) = s.settle (c.step x) := by rw [hs, Flat.pack_step]
  unfold step
  split
  · cases hx
  · cases hx
  · cases hx
  · exact hsettle

section

variable {c : Flat m K V} {x : Step K V} {a : Answer K V} {d : Container K V}
  (hs : s.current = c.pack) (hx : (c.step x).outcome = .ok (a, d))

include hs hx

theorem answer_step_of_ok : (s.step x).answer = .ok a := by
  rw [step_eq_settle hs hx]
  exact (settle_of_ok hx).1

theorem current_step : (s.step x).session.current = d := by
  rw [step_eq_settle hs hx]
  exact (settle_of_ok hx).2

theorem session_step_of_ok : (s.step x).session = { s with current := d } := by
  rw [← current_step hs hx, step_eq_settle hs hx]
  rfl

end

/-- Some steps lead to the session from some start with the comparator `order`. -/
def Reached (order : Comparator K) (s : Session K V) : Prop :=
  ∃ (m : Multiplicity) (b : Build K V) (x : Reported (Session K V)) (xs : List (Step K V)),
    b.start m order = .ok x ∧ s = x.value.after xs

variable [Std.TransCmp order]

theorem session_of_error (h : s.ValidFor order) {x : Step K V} {e : Failure}
    (he : (s.step x).answer = .error e) : (s.step x).session = s := by
  have hcurrent : s.current.ValidFor order := h _ List.mem_cons_self
  revert he
  unfold step
  split
  · nofun
  · split
    · exact fun _ => rfl
    · nofun
  · split
    · exact fun _ => rfl
    · split <;> exact fun _ => rfl
  · intro he
    exact congrArg (fun c => { s with current := c }) (Container.left_of_error hcurrent he)

theorem validFor_step (h : s.ValidFor order) (x : Step K V) :
    (s.step x).session.ValidFor order := by
  have hcurrent : s.current.ValidFor order := h _ List.mem_cons_self
  unfold step
  split
  · rintro c (_ | ⟨_, hc⟩)
    · exact hcurrent
    · exact h c hc
  · split
    · exact h
    · rename_i c saved hsaved
      -- the two containers trade places
      intro d hd
      refine h d ?_
      rw [containers, hsaved]
      simp only [reply, containers, List.mem_cons] at hd ⊢
      rcases hd with rfl | rfl | hd
      · exact .inr (.inl rfl)
      · exact .inl rfl
      · exact .inr (.inr hd)
  · split
    · exact h
    · split
      · exact h
      · exact h
  · exact validFor_settle h (Container.validFor_step hcurrent _)

theorem validFor_after (h : s.ValidFor order) (xs : List (Step K V)) :
    (s.after xs).ValidFor order := by
  induction xs generalizing s with
  | nil => exact h
  | cons x xs ih => exact ih (validFor_step h x)

theorem Reached.validFor (h : s.Reached order) : s.ValidFor order := by
  obtain ⟨m, b, x, xs, hx, rfl⟩ := h
  exact validFor_after (Build.validFor_start hx) xs

theorem Reached.validFor_current (h : s.Reached order) {c : Flat m K V}
    (hs : s.current = c.pack) : c.ValidFor order := by
  have hcurrent := h.validFor s.current List.mem_cons_self
  rw [hs] at hcurrent
  cases m with
  | unique => exact hcurrent
  | repeated => exact hcurrent

end Session

end FlatAssoc
