import FlatAssoc.Proofs.Growth
import FlatAssoc.Session.Step

/-!
# Makers

What an insertion with a maker comes to in a valid container. The maker is run, if it is run, before
anything is done to the container (`Making.Makes`), so that one that fails leaves the container that
there was. The position found before is still right for the value that is given, and the slot whose
value is changed next is always there.
-/

namespace FlatAssoc

namespace Making

variable {m : Multiplicity} {K V α β : Type} {x : Making m K V α} {c : Flat m K V}

/-- Work on `c` that runs no maker and comes to the answer and the container of `r`. -/
def Gives (x : Making m K V α) (c : Flat m K V) (r : α × Flat m K V) : Prop :=
  (x.run.run c).run 0 = ((.ok r.1, r.2), 0)

/-- Work on `c` that runs the maker `make`. The value that is given leads to the answer and the
container of `g`; a failure is one of the work, which has not touched `c` by then. -/
def Makes (x : Making m K V α) (c : Flat m K V) (make : Maker V) (g : V → α × Flat m K V) : Prop :=
  (x.run.run c).run 0 =
    match make with
    | .gives v => ((.ok (g v).1, (g v).2), 1)
    | .fails => ((.error .makerFailed, c), 1)

theorem run_map (f : α → β) (x : Making m K V α) (c : Flat m K V) (n : Nat) :
    ((f <$> x).run.run c).run n =
      ((f <$> ((x.run.run c).run n).1.1, ((x.run.run c).run n).1.2), ((x.run.run c).run n).2) := by
  rw [ExceptT.run_map, StateT.run_map]
  rfl

theorem Gives.map {r : α × Flat m K V} (h : x.Gives c r) (f : α → β) :
    (f <$> x).Gives c (f r.1, r.2) := by
  rw [Gives, run_map, h]
  rfl

theorem Makes.map {make : Maker V} {g : V → α × Flat m K V} (h : x.Makes c make g) (f : α → β) :
    (f <$> x).Makes c make fun v => (f (g v).1, (g v).2) := by
  unfold Makes at *
  rw [run_map, h]
  cases make <;> rfl

/-- Work that succeeds lets what follows go on from the container that it leaves. -/
theorem run_bind_of_ok {a : α} {d : Flat m K V} {n k : Nat}
    (h : (x.run.run c).run n = ((.ok a, d), k)) (g : α → Making m K V β) :
    ((x >>= g).run.run c).run n = ((g a).run.run d).run k := by
  rw [ExceptT.run_bind, StateT.run_bind, StateT.run_bind, h]
  rfl

/-- What follows the work with a maker goes on once the maker has given a value. -/
theorem Makes.bind {make : Maker V} {g : V → α × Flat m K V} (h : x.Makes c make g)
    {next : α → Making m K V β} {g' : V → β × Flat m K V}
    (hnext : ∀ v, ((next (g v).1).run.run (g v).2).run 1 = ((.ok (g' v).1, (g' v).2), 1)) :
    (x >>= next).Makes c make g' := by
  cases make with
  | gives v => exact (run_bind_of_ok h next).trans (hnext v)
  | fails =>
    unfold Makes at *
    rw [ExceptT.run_bind, StateT.run_bind, StateT.run_bind, h]
    rfl

end Making

namespace Flat

variable {m : Multiplicity} {K V : Type} {order : Comparator K} [Std.TransCmp order]

omit [Std.TransCmp order] in
/-- An entry that is placed parts the others in two. -/
theorem exists_place_eq {c : Flat m K V} {i : Nat} (hi : i ≤ c.size) :
    ∃ front back, c.toList = front ++ back ∧ front.length = i ∧
      ∀ e, (c.place i e).toList = front ++ e :: back :=
  ⟨c.toList.take i, c.toList.drop i, (List.take_append_drop i c.toList).symm,
    List.length_take_of_le (by rwa [← size_eq_length]), toList_place c hi⟩

omit [Std.TransCmp order] in
theorem getElem?_place {c : Flat m K V} {i : Nat} (hi : i ≤ c.size) (e : Entry K V) :
    (c.place i e).toList[i]? = some e := by
  obtain ⟨front, back, -, rfl, hplace⟩ := exists_place_eq hi
  rw [hplace, List.getElem?_append_right (Nat.le_refl _), Nat.sub_self]
  rfl

theorem get?_rank {c : Flat m K V} (h : c.ValidFor order) {k : K} {e : Entry K V}
    {es : List (Entry K V)} (he : ofClass order k c.toList = e :: es) :
    c.get? (rank .unique order k c.toList) = some e := by
  have hmatch : (c.toList.filter fun x => order.probe k x.key == .eq) = e :: es := he
  have hget := get?_lowerBound (h.consistentWith k)
  rw [hmatch] at hget
  exact hget

/-! ## Slots of a map -/

variable {c : Map K V}

section

variable (h : c.ValidFor order)

include h

theorem ofClass_cases (k : K) :
    ofClass order k c.toList = [] ∨ ∃ e, ofClass order k c.toList = [e] := by
  have hone := h.keep_ofClass k
  cases hclass : ofClass order k c.toList with
  | nil => exact .inl rfl
  | cons e es =>
    rw [hclass] at hone
    exact .inr ⟨e, hone.symm⟩

theorem value_spot_held {k : K} {e : Entry K V} (he : ofClass order k c.toList = [e]) :
    (c.spot k).value = .held (rank .unique order k c.toList) := by
  rw [value_spot h, he]
  rfl

theorem value_spot_free {k : K} (he : ofClass order k c.toList = []) :
    (c.spot k).value = .free (rank .unique order k c.toList) := by
  rw [value_spot h, he]
  rfl

omit [Std.TransCmp order] h in
theorem get?_place (k : K) (e : Entry K V) :
    (c.place (rank .unique order k c.toList) e).get? (rank .unique order k c.toList) = some e := by
  rw [get?_eq, getElem?_place (rank_le_size k)]

end

/-! ## Work with makers -/

/-- A value that is there is found. -/
theorem run_valueAt {d : Flat m K V} {i : Nat} {e : Entry K V} (he : d.get? i = some e) (n : Nat) :
    ((valueAt i : Making m K V V).run.run d).run n = ((.ok e.value, d), n) := by
  have hget : ((getThe (Flat m K V) : Making m K V (Flat m K V)).run.run d).run n =
      ((.ok d, d), n) := rfl
  rw [valueAt, Making.run_bind_of_ok hget, he]
  rfl

omit [Std.TransCmp order] in
theorem makes_run (c : Flat m K V) (make : Maker V) :
    (make.run : Making m K V V).Makes c make fun v => (v, c) := by
  cases make <;> rfl

theorem gives_emplace {c : Flat m K V} (h : c.ValidFor order) {k : K}
    (hfull : m.full (ofClass order k c.toList) = true) (make : Making m K V V) :
    (c.emplace k make).value.Gives c (⟨rank m order k c.toList, false⟩, c) := by
  rw [value_emplace h, if_pos hfull]
  rfl

theorem makes_emplace {c : Flat m K V} (h : c.ValidFor order) {k : K}
    (hroom : m.full (ofClass order k c.toList) = false) (make : Maker V) :
    (c.emplace k (make.run : Making m K V V)).value.Makes c make fun v =>
      (⟨rank m order k c.toList, true⟩, c.place (rank m order k c.toList) ⟨k, v⟩) := by
  rw [value_emplace h, if_neg (Bool.not_eq_true _ ▸ hroom)]
  cases make <;> rfl

section

variable (h : c.ValidFor order) {k : K}

include h

section

variable (he : ofClass order k c.toList = [])

include he

theorem makes_emplaceOrAssign_free (make : Maker V) :
    (c.emplaceOrAssign k make.run).value.Makes c make fun v =>
      (⟨rank .unique order k c.toList, true⟩,
        c.place (rank .unique order k c.toList) ⟨k, v⟩) := by
  rw [emplaceOrAssign, Noted.value_map, value_spot_free h he]
  cases make <;> rfl

theorem value_insertOrAssign_free (v : V) :
    (c.insertOrAssign k v).value = (.ok ⟨rank .unique order k c.toList, true⟩,
      c.place (rank .unique order k c.toList) ⟨k, v⟩) :=
  congrArg Prod.fst (makes_emplaceOrAssign_free h he (.gives v))

theorem makes_getOrInsertWith_free (make : Maker V) (f : V → V) :
    (c.getOrInsertWith k make.run f).value.Makes c make fun v =>
      (f v, (c.place (rank .unique order k c.toList) ⟨k, v⟩).modify
        (rank .unique order k c.toList) f) := by
  have hroom : Multiplicity.full .unique (ofClass order k c.toList) = false := by rw [he]; rfl
  rw [getOrInsertWith, Noted.value_map]
  refine (makes_emplace h hroom make).bind fun v => ?_
  rw [Making.run_bind_of_ok (run_valueAt (get?_place k ⟨k, v⟩) 1)]
  rfl

theorem value_getOrDefault_free [Inhabited V] (f : V → V) :
    (c.getOrDefault k f).value = (.ok (f default),
      (c.place (rank .unique order k c.toList) ⟨k, default⟩).modify
        (rank .unique order k c.toList) f) :=
  congrArg Prod.fst (makes_getOrInsertWith_free h he (.gives default) f)

end

section

variable {e : Entry K V} (he : ofClass order k c.toList = [e])

include he

theorem makes_emplaceOrAssign_held (make : Maker V) :
    (c.emplaceOrAssign k make.run).value.Makes c make fun v =>
      (⟨rank .unique order k c.toList, false⟩,
        c.modify (rank .unique order k c.toList) fun _ => v) := by
  rw [emplaceOrAssign, Noted.value_map, value_spot_held h he]
  refine (makes_run c make).bind fun v => ?_
  rw [Making.run_bind_of_ok (run_valueAt (get?_rank h he) 1)]
  rfl

theorem value_insertOrAssign_held (v : V) :
    (c.insertOrAssign k v).value = (.ok ⟨rank .unique order k c.toList, false⟩,
      c.modify (rank .unique order k c.toList) fun _ => v) :=
  congrArg Prod.fst (makes_emplaceOrAssign_held h he (.gives v))

theorem gives_getOrInsertWith_held (make : Making .unique K V V) (f : V → V) :
    (c.getOrInsertWith k make f).value.Gives c
      (f e.value, c.modify (rank .unique order k c.toList) f) := by
  have hfull : Multiplicity.full .unique (ofClass order k c.toList) = true := by rw [he]; rfl
  rw [getOrInsertWith, Noted.value_map, Making.Gives,
    Making.run_bind_of_ok (gives_emplace h hfull make),
    Making.run_bind_of_ok (run_valueAt (get?_rank h he) 0)]
  rfl

theorem value_getOrDefault_held [Inhabited V] (f : V → V) :
    (c.getOrDefault k f).value =
      (.ok (f e.value), c.modify (rank .unique order k c.toList) f) :=
  congrArg Prod.fst (gives_getOrInsertWith_held h he (Maker.gives default).run f)

end

end

/-! ## Effects of makers -/

section

variable {α : Type} {c : Flat m K V} {x : Asked K (Making m K V α)} {g : V → α × Flat m K V}
  {f : α → Nat → Answer K V}

omit [Std.TransCmp order] in
theorem making_of_gives {r : α × Flat m K V} (hx : x.value.Gives c r) :
    c.making x f = ⟨.ok (f r.1 0), r.2.pack, x.notes, []⟩ := by
  simp only [making, Making.attempt, Making.runs]
  rw [hx]
  rfl

omit [Std.TransCmp order] in
theorem making_of_makes {v : V} (hx : x.value.Makes c (.gives v) g) :
    c.making x f = ⟨.ok (f (g v).1 1), (g v).2.pack, x.notes, []⟩ := by
  simp only [making, Making.attempt, Making.runs]
  rw [hx]
  rfl

omit [Std.TransCmp order] in
theorem making_of_fails (hx : x.value.Makes c .fails g) :
    c.making x f = ⟨.error .makerFailed, c.pack, x.notes, []⟩ := by
  simp only [making, Making.attempt, Making.runs]
  rw [hx]
  rfl

end

end Flat

end FlatAssoc
