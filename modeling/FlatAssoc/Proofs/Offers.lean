import FlatAssoc.Proofs.Ranges

/-!
# Offers

An insertion with a maker offers a value for a class. The maker runs once if the offer needs a value
(`Flat.value_offered_made`) and not at all if it does not (`Flat.value_offered_kept`). It runs when
the place of its value is known and before anything is changed (`Making.Makes`), so that one that
fails leaves the container as it was, and what it gives is put there with the other entries as they
were (`Flat.PutsAt`).
-/

namespace FlatAssoc

/-- What becomes of a value that is made if it is needed. -/
inductive Offer (V : Type) where
  /-- It is added, unless its class is held. -/
  | add
  /-- It is added, or takes the place of the value that its class holds. -/
  | assign
  /-- It is added, unless its class is held. The value that is there then is changed. -/
  | change (f : V → V)

namespace Offer

variable {m : Multiplicity} {K V : Type}

/-- The step that makes the offer for the class of `k`. -/
def step (o : Offer V) (k : K) (make : Maker V) : Step K V :=
  match o with
  | .add => .emplace k make
  | .assign => .emplaceOrAssign k make
  | .change f => .getOrInsertWith k make f

/-- Offers to replace or to change what a class holds are for containers that hold one entry of
each. -/
inductive TakenBy : Multiplicity → Offer V → Prop
  | add {m : Multiplicity} : TakenBy m .add
  | assign : TakenBy .unique .assign
  | change (f : V → V) : TakenBy .unique (.change f)

/-- Whether a value is made, given the entry that stands in its way. -/
def needsValue (o : Offer V) (old : Option (Entry K V)) : Bool :=
  match o with
  | .assign => true
  | .add | .change _ => old.isNone

/-- The entry that is there afterwards if the value `v` was offered. A stored key stays. -/
def entry (o : Offer V) (k : K) (old : Option (Entry K V)) (v : V) : Entry K V :=
  match o, old with
  | .add, none | .assign, none => ⟨k, v⟩
  | .change f, none => ⟨k, f v⟩
  | .add, some e => e
  | .assign, some e => ⟨e.key, v⟩
  | .change f, some e => e.update f

/-- The answer, given the entry that is there afterwards and how often the maker ran. -/
def answer (o : Offer V) (m : Multiplicity) (p : Placed) (e : Entry K V) (runs : Nat) :
    Answer K V :=
  match o with
  | .add | .assign => Flat.madeAnswer m p runs
  | .change _ => .list [.value e.value, .flag (0 < runs)]

end Offer

namespace Flat

variable {m : Multiplicity} {K V : Type} {order : Comparator K}

/-- The entry that leaves no room for another one of the class of `k`. -/
def holder? (order : Comparator K) (c : Flat m K V) (k : K) : Option (Entry K V) :=
  match m with
  | .unique => c.toList.find? fun e => order e.key k == .eq
  | .repeated => none

/-- The run of an offer, which answers once it is known how often the maker ran. -/
def offered (c : Flat m K V) (o : Offer V) (k : K) (make : Maker V) :
    Asked K (Making m K V (Nat → Answer K V)) :=
  match o, m, c with
  | .add, m, c => (fun x => madeAnswer m <$> x) <$> c.emplace k make.run
  | .assign, .unique, c => (fun x => madeAnswer .unique <$> x) <$> c.emplaceOrAssign k make.run
  | .change f, .unique, c =>
    (fun x => (fun v runs => .list [.value v, .flag (0 < runs)]) <$> x) <$>
      c.getOrInsertWith k make.run f
  | .assign, .repeated, _ | .change _, .repeated, _ => pure (throw .notOffered)

/-- How often the maker of an offer runs. -/
def makerRuns (c : Flat m K V) (o : Offer V) (k : K) (make : Maker V) : Nat :=
  (c.offered o k make).value.runs c

/-- `d` holds `e` at the position of `p`, where `old` stood if there was one, and the other entries
of `c` in the order that they had. -/
structure PutsAt (c : Flat m K V) (old : Option (Entry K V)) (p : Placed) (e : Entry K V)
    (d : Flat m K V) : Prop where
  order_eq : d.order = c.order
  inserted_eq : p.inserted = old.isNone
  old_eq : ∀ f, old = some f → c.toList[p.position]? = some f
  getElem?_eq : d.toList[p.position]? = some e
  eraseIdx_eq : d.toList.eraseIdx p.position =
    if p.inserted then c.toList else c.toList.eraseIdx p.position

/-! ## Entries put in their places -/

variable {c d : Flat m K V}

theorem putsAt_place {i : Nat} {e : Entry K V} (hi : i ≤ c.size) (ho : d.order = c.order)
    (hd : d.toList = (c.place i e).toList) : c.PutsAt none ⟨i, true⟩ e d := by
  refine ⟨ho, rfl, fun f hf => (nomatch hf), ?_, ?_⟩
  · rw [hd]
    exact getElem?_place hi e
  · obtain ⟨front, back, hlist, rfl, hplace⟩ := exists_place_eq hi
    rw [hd, hplace, hlist]
    exact eraseIdx_split front back e

section

variable {i : Nat} {e : Entry K V} (he : c.toList[i]? = some e)

include he

theorem putsAt_modify (f : V → V) : c.PutsAt (some e) ⟨i, false⟩ (e.update f) (c.modify i f) := by
  refine ⟨rfl, rfl, ?_, ?_, ?_⟩
  · rintro _ ⟨⟩
    exact he
  · rw [toList_modify, List.getElem?_modify_eq, he]
    rfl
  · obtain ⟨front, back, hsplit, rfl⟩ := exists_split he
    rw [toList_modify, hsplit, modify_split, eraseIdx_split]
    exact (eraseIdx_split front back e).symm

theorem putsAt_self : c.PutsAt (some e) ⟨i, false⟩ e c := by
  refine ⟨rfl, rfl, ?_, he, rfl⟩
  rintro _ ⟨⟩
  exact he

end

/-! ## Classes with and without room -/

theorem holder?_eq_head? (order : Comparator K) (c : Map K V) (k : K) :
    c.holder? order k = (ofClass order k c.toList).head? := List.head?_filter.symm

theorem full_eq_isSome (order : Comparator K) (c : Flat m K V) (k : K) :
    m.full (ofClass order k c.toList) = (c.holder? order k).isSome := by
  cases m with
  | repeated => rfl
  | unique =>
    rw [holder?_eq_head?]
    cases ofClass order k c.toList <;> rfl

theorem holder?_of_ofClass {c : Map K V} {k : K} {e : Entry K V}
    (he : ofClass order k c.toList = [e]) : c.holder? order k = some e := by
  rw [holder?_eq_head?, he]
  rfl

theorem holder?_of_nil {c : Map K V} {k : K} (he : ofClass order k c.toList = []) :
    c.holder? order k = none := by
  rw [holder?_eq_head?, he]
  rfl

/-- What is there after an offer is of the class that it was made for. -/
theorem eq_key_entry [Std.TransCmp order] (c : Flat m K V) (o : Offer V) (k : K) (v : V) :
    order (o.entry k (c.holder? order k) v).key k = .eq := by
  cases hold : c.holder? order k with
  | none => cases o <;> exact Comparator.eq_self k
  | some e =>
    have hek : order e.key k = .eq := by
      cases m with
      | repeated => cases hold
      | unique =>
        have hmatch := List.find?_some (p := fun x : Entry K V => order x.key k == .eq) hold
        exact beq_iff_eq.mp hmatch
    cases o <;> exact hek

section

variable [Std.TransCmp order] (h : c.ValidFor order) {o : Offer V} (ho : o.TakenBy m) (k : K)

include h ho

/-- An offer that needs a value makes it once its place is known. -/
theorem value_offered_made (hneeds : o.needsValue (c.holder? order k) = true) :
    ∃ (p : Placed) (d : V → Flat m K V),
      (∀ v, c.PutsAt (c.holder? order k) p (o.entry k (c.holder? order k) v) (d v)) ∧
        ∀ make : Maker V, (c.offered o k make).value.Makes c make fun v =>
          (o.answer m p (o.entry k (c.holder? order k) v), d v) := by
  cases ho with
  | add =>
    have hnone : c.holder? order k = none := Option.isNone_iff_eq_none.mp hneeds
    have hroom : m.full (ofClass order k c.toList) = false := by rw [full_eq_isSome, hnone]; rfl
    refine ⟨⟨rank m order k c.toList, true⟩,
      fun v => c.place (rank m order k c.toList) ⟨k, v⟩, fun v => ?_, fun make => ?_⟩
    · rw [hnone]
      exact putsAt_place (rank_le_size k) rfl rfl
    · exact (makes_emplace h hroom make).map (madeAnswer m)
  | assign =>
    -- the value is needed whether or not the class is held
    rcases ofClass_cases h k with he | ⟨e, he⟩
    · rw [holder?_of_nil he]
      refine ⟨⟨rank .unique order k c.toList, true⟩,
        fun v => c.place (rank .unique order k c.toList) ⟨k, v⟩, fun v => ?_, fun make => ?_⟩
      · exact putsAt_place (rank_le_size k) rfl rfl
      · exact (makes_emplaceOrAssign_free h he make).map (madeAnswer .unique)
    · rw [holder?_of_ofClass he]
      refine ⟨⟨rank .unique order k c.toList, false⟩,
        fun v => c.modify (rank .unique order k c.toList) fun _ => v, fun v => ?_, fun make => ?_⟩
      · exact putsAt_modify (getElem?_rank h he) fun _ => v
      · exact (makes_emplaceOrAssign_held h he make).map (madeAnswer .unique)
  | change f =>
    have hnone : c.holder? order k = none := Option.isNone_iff_eq_none.mp hneeds
    rcases ofClass_cases h k with he | ⟨e, he⟩
    · rw [hnone]
      refine ⟨⟨rank .unique order k c.toList, true⟩,
        fun v => (c.place (rank .unique order k c.toList) ⟨k, v⟩).modify
          (rank .unique order k c.toList) f, fun v => ?_, fun make => ?_⟩
      · exact putsAt_place (rank_le_size k) rfl (toList_place_modify (rank_le_size k) k v f)
      · exact (makes_getOrInsertWith_free h he make f).map _
    · rw [holder?_of_ofClass he] at hnone
      cases hnone

theorem value_offered_kept (hneeds : o.needsValue (c.holder? order k) = false) :
    ∃ (p : Placed) (e : Entry K V) (d : Flat m K V),
      (∀ v, o.entry k (c.holder? order k) v = e) ∧ c.PutsAt (c.holder? order k) p e d ∧
        ∀ make : Maker V, (c.offered o k make).value.Gives c (o.answer m p e, d) := by
  cases ho with
  | add =>
    cases m with
    | repeated => cases hneeds
    | unique =>
      rcases ofClass_cases h k with he | ⟨e, he⟩
      · rw [holder?_of_nil he] at hneeds
        cases hneeds
      · rw [holder?_of_ofClass he]
        refine ⟨⟨rank .unique order k c.toList, false⟩, e, c, fun _ => rfl,
          putsAt_self (getElem?_rank h he), fun make => ?_⟩
        have hfull : Multiplicity.unique.full (ofClass order k c.toList) = true := by
          rw [he]
          rfl
        exact (gives_emplace h hfull make.run).map (madeAnswer .unique)
  | assign => cases hneeds
  | change f =>
    rcases ofClass_cases h k with he | ⟨e, he⟩
    · rw [holder?_of_nil he] at hneeds
      cases hneeds
    · rw [holder?_of_ofClass he]
      refine ⟨⟨rank .unique order k c.toList, false⟩, e.update f,
        c.modify (rank .unique order k c.toList) f, fun _ => rfl, ?_, fun make => ?_⟩
      · exact putsAt_modify (getElem?_rank h he) f
      · exact (gives_getOrInsertWith_held h he make.run f).map _

end

/-! ## Steps -/

section

variable {o : Offer V} {k : K}

theorem makerRuns_of_makes {make : Maker V} {g : V → (Nat → Answer K V) × Flat m K V}
    (hx : (c.offered o k make).value.Makes c make g) : c.makerRuns o k make = 1 := by
  rw [makerRuns, Making.runs, hx]
  cases make <;> rfl

theorem makerRuns_of_gives {make : Maker V} {r : (Nat → Answer K V) × Flat m K V}
    (hx : (c.offered o k make).value.Gives c r) : c.makerRuns o k make = 0 := by
  rw [makerRuns, Making.runs, hx]

/-- What a run answers may be put off until it is over. -/
theorem making_map {α β : Type} (g : α → β) (x : Asked K (Making m K V α))
    (f : β → Nat → Answer K V) :
    c.making ((fun y => g <$> y) <$> x) f = c.making x fun a => f (g a) := by
  simp only [making, Making.attempt, Making.runs, Noted.value_map, Noted.notes_map,
    Making.run_map]
  generalize (x.value.run.run c).run 0 = y
  obtain ⟨⟨a | a, d⟩, runs⟩ := y <;> rfl

theorem notes_offered (ho : o.TakenBy m) (make : Maker V) :
    (c.offered o k make).notes = (c.spot k).notes := by
  cases ho with
  | add => rw [offered, Noted.notes_map, emplace, Noted.notes_map]
  | assign => rw [offered, Noted.notes_map, emplaceOrAssign, Noted.notes_map]
  | change f =>
    rw [offered, Noted.notes_map, getOrInsertWith, Noted.notes_map, emplace, Noted.notes_map]

variable [DecidableEq K] [DecidableEq V] [Inhabited V] [Key K] [Document K V]

theorem step_offer (ho : o.TakenBy m) (make : Maker V) :
    c.step (o.step k make) = c.making (c.offered o k make) id := by
  cases ho with
  | add => exact (making_map (madeAnswer m) (c.emplace k make.run) id).symm
  | assign => exact (making_map (madeAnswer .unique) (c.emplaceOrAssign k make.run) id).symm
  | change f =>
    exact (making_map (fun v runs => .list [.value v, .flag (0 < runs)])
      (c.getOrInsertWith k make.run f) id).symm

end

end Flat

namespace Session

variable {m : Multiplicity} {K V : Type} {order : Comparator K} [DecidableEq K] [DecidableEq V]
  [Inhabited V] [Key K] [Document K V] {s : Session K V} {c : Flat m K V}

theorem settle_step_offer (s : Session K V) (o : Offer V) (k : K) (make : Maker V) :
    s.step (o.step k make) = s.settle (s.current.step (o.step k make)) := by
  cases o <;> rfl

section

variable (hs : s.current = c.pack) {o : Offer V} (ho : o.TakenBy m) {k : K}

include hs ho

section

variable {a : V → Nat → Answer K V} {d : V → Flat m K V}
  (hvalue : ∀ make : Maker V, (c.offered o k make).value.Makes c make fun v => (a v, d v))

include hvalue

theorem step_fails : (s.step (o.step k .fails)).answer = .error .makerFailed ∧
    (s.step (o.step k .fails)).session = s := by
  have hsettle : s.step (o.step k .fails) =
      s.settle ⟨.error .makerFailed, c.pack, (c.offered o k .fails).notes, []⟩ := by
    rw [settle_step_offer, hs, Flat.pack_step, Flat.step_offer ho,
      Flat.making_of_fails (hvalue .fails)]
  rw [hsettle, ← hs]
  exact ⟨rfl, rfl⟩

theorem step_gives (v : V) : (s.step (o.step k (.gives v))).answer = .ok (a v 1) ∧
    (s.step (o.step k (.gives v))).session = { s with current := (d v).pack } := by
  have hout : (c.step (o.step k (.gives v))).outcome = .ok (a v 1, (d v).pack) := by
    rw [Flat.step_offer ho, Flat.making_of_makes (hvalue (.gives v))]
    rfl
  exact ⟨answer_step_of_ok hs hout, session_step_of_ok hs hout⟩

end

section

variable {a : Nat → Answer K V} {d : Flat m K V}
  (hvalue : ∀ make : Maker V, (c.offered o k make).value.Gives c (a, d))

include hvalue

theorem step_kept (make : Maker V) : (s.step (o.step k make)).answer = .ok (a 0) ∧
    (s.step (o.step k make)).session = { s with current := d.pack } := by
  have hout : (c.step (o.step k make)).outcome = .ok (a 0, d.pack) := by
    rw [Flat.step_offer ho, Flat.making_of_gives (hvalue make)]
    rfl
  exact ⟨answer_step_of_ok hs hout, session_step_of_ok hs hout⟩

theorem step_kept_eq (make make' : Maker V) :
    s.step (o.step k make) = s.step (o.step k make') := by
  -- the effect is the same for all makers, what was compared included
  have heffect (mk : Maker V) :
      c.step (o.step k mk) = ⟨.ok (a 0), d.pack, (c.spot k).notes, []⟩ := by
    rw [Flat.step_offer ho, Flat.making_of_gives (hvalue mk), Flat.notes_offered ho]
    rfl
  have hsettle (mk : Maker V) := step_eq_settle hs (congrArg Effect.outcome (heffect mk))
  rw [hsettle, hsettle, heffect, heffect]

end

end

/-- A maker runs once if its value is needed and not at all otherwise. One that runs and fails
leaves the session as it was, and one that does not run makes no difference. What is given is then
at the position that is told, under the stored key of its class if there is one, and the other
entries are as they were. -/
theorem makers_run_if_needed [Std.TransCmp order] (hr : s.Reached order) (hs : s.current = c.pack)
    {o : Offer V} (ho : o.TakenBy m) (k : K) :
    let old := c.holder? order k
    (∀ make : Maker V, c.step (o.step k make) = c.making (c.offered o k make) id ∧
      c.makerRuns o k make = if o.needsValue old then 1 else 0) ∧
    (o.needsValue old = true → (s.step (o.step k .fails)).answer = .error .makerFailed ∧
      (s.step (o.step k .fails)).session = s) ∧
    (o.needsValue old = false → ∀ make make' : Maker V,
      s.step (o.step k make) = s.step (o.step k make')) ∧
    ∀ v, ∃ (p : Placed) (d : Flat m K V),
      let e := o.entry k old v
      let y := s.step (o.step k (.gives v))
      y.answer = .ok (o.answer m p e (c.makerRuns o k (.gives v))) ∧
        y.session = { s with current := d.pack } ∧ order e.key k = .eq ∧ c.PutsAt old p e d := by
  intro old
  have hvalid : c.ValidFor order := hr.validFor_current hs
  cases hneeds : o.needsValue old with
  | true =>
    obtain ⟨p, d, hputs, hvalue⟩ := Flat.value_offered_made hvalid ho k hneeds
    have hruns (make : Maker V) : c.makerRuns o k make = 1 := Flat.makerRuns_of_makes (hvalue make)
    refine ⟨fun make => ⟨Flat.step_offer ho make, hruns make⟩,
      fun _ => step_fails hs ho hvalue, nofun, fun v => ⟨p, d v, ?_⟩⟩
    obtain ⟨hanswer, hsession⟩ := step_gives hs ho hvalue v
    rw [hruns]
    exact ⟨hanswer, hsession, Flat.eq_key_entry c o k v, hputs v⟩
  | false =>
    obtain ⟨p, e, d, hentry, hputs, hvalue⟩ := Flat.value_offered_kept hvalid ho k hneeds
    have hruns (make : Maker V) : c.makerRuns o k make = 0 := Flat.makerRuns_of_gives (hvalue make)
    refine ⟨fun make => ⟨Flat.step_offer ho make, hruns make⟩, nofun,
      fun _ => step_kept_eq hs ho hvalue, fun v => ⟨p, d, ?_⟩⟩
    have hkey : order (o.entry k old v).key k = .eq := Flat.eq_key_entry c o k v
    obtain ⟨hanswer, hsession⟩ := step_kept hs ho hvalue (.gives v)
    rw [hentry v] at hkey
    rw [hruns, hentry v]
    exact ⟨hanswer, hsession, hkey, hputs⟩

/-- Keys of one last digit are one class. A maker that fails is not run for the class of 13, whose
entry stays, and one that is run for the class of 4 leaves nothing behind when it fails. What a
maker gives goes to the entry of 13 or to the place of 4. -/
theorem makers_run_if_needed_digits :
    let s : Session Int64 Int64 :=
      Session.after ⟨.map (.empty KeyOrder.intMod.order), []⟩ [.insert 13 0, .insert 1 1]
    s.current.toList = [⟨1, 1⟩, ⟨13, 0⟩] ∧
      s.step (.emplace 3 .fails) = s.step (.emplace 3 (.gives 5)) ∧
      (s.step (.emplaceOrAssign 3 .fails)).session = s ∧
      (s.step (.getOrInsertWith 4 .fails (· + 1))).session = s ∧
      (s.step (.emplaceOrAssign 3 (.gives 5))).answer =
        .ok (.list [.number 1, .flag false, .flag true]) ∧
      (s.step (.emplaceOrAssign 3 (.gives 5))).session.current.toList = [⟨1, 1⟩, ⟨13, 5⟩] ∧
      (s.step (.getOrInsertWith 4 (.gives 5) (· + 1))).answer =
        .ok (.list [.value 6, .flag true]) ∧
      (s.step (.getOrInsertWith 4 (.gives 5) (· + 1))).session.current.toList =
        [⟨1, 1⟩, ⟨13, 0⟩, ⟨4, 6⟩] := by
  intro s
  have hreached : s.Reached KeyOrder.intMod.order := ⟨.unique, .empty, _, _, rfl, rfl⟩
  obtain ⟨c, hs, hlist⟩ : ∃ c : Map Int64 Int64, s.current = c.pack ∧
      c.toList = [⟨1, 1⟩, ⟨13, 0⟩] := ⟨_, rfl, by decide +kernel⟩
  have hthree : c.holder? KeyOrder.intMod.order 3 = some ⟨13, 0⟩ := by
    rw [Flat.holder?, hlist]
    decide
  have hfour : c.holder? KeyOrder.intMod.order 4 = none := by
    rw [Flat.holder?, hlist]
    decide
  refine ⟨?_, ?_, ?_, ?_, by with_unfolding_all rfl, by decide +kernel,
    by with_unfolding_all rfl, by decide +kernel⟩
  · rw [hs, Flat.toList_pack, hlist]
  · exact (makers_run_if_needed hreached hs .add 3).2.2.1 (by rw [hthree]; rfl) _ _
  · exact ((makers_run_if_needed hreached hs .assign 3).2.1 rfl).2
  · exact ((makers_run_if_needed hreached hs (.change (· + 1)) 4).2.1 (by rw [hfour]; rfl)).2

end Session

end FlatAssoc
