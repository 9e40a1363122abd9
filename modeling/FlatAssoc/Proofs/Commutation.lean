import FlatAssoc.Key.WeakOrder
import FlatAssoc.Proofs.Constructions
import FlatAssoc.Proofs.Refinement

/-!
# Steps on different classes

A keyed step acts within the class of its key: what it answers, apart from a position, and what it
leaves of the class follow from what was held of the class, and no other class changes
(`ClassMap.comesTo_step`). Two steps on different classes therefore do not see each other, and may
be taken in either order (`ClassMap.answer_step_step`, `ClassMap.content_step_comm`).
-/

namespace FlatAssoc

open Flat (placedAnswer madeAnswer)

variable {m : Multiplicity} {K V : Type} {order : Comparator K}

/-! ## Answers without positions -/

/-- The answer without the position that it gives. -/
def Answer.withoutPosition : Answer K V → Answer K V
  | .number _ => .nothing
  | .list (.number _ :: rest) => .list rest
  | a => a

theorem withoutPosition_placedAnswer (p : Placed) :
    (placedAnswer m p : Answer K V).withoutPosition =
      (placedAnswer m ⟨0, p.inserted⟩).withoutPosition := by
  cases m <;> rfl

theorem withoutPosition_madeAnswer (p : Placed) (runs : Nat) :
    (madeAnswer m p runs : Answer K V).withoutPosition =
      (madeAnswer m ⟨0, p.inserted⟩ runs).withoutPosition := by
  cases m <;> rfl

namespace KeyedStep

/-- The key whose class a step acts on, for a step that acts on one class only. -/
def key? : KeyedStep K V m → Option K
  | .look _ k | .insert k _ | .emplace k _ | .insertOrAssign k _ | .emplaceOrAssign k _
  | .getOrInsertWith k _ _ | .getOrDefault k _ | .update k _ | .take _ k | .removeAll k => some k
  | .extend _ _ | .gather _ | .popFirst | .popLast | .removeAt _ | .clear => none

/-- What a step answers apart from the position of its entry, which entries of other classes
shift. -/
def apart : KeyedStep K V m → Answer K V → Answer K V
  | .insert _ _ | .emplace _ _ | .insertOrAssign _ _ | .emplaceOrAssign _ _ =>
    Answer.withoutPosition
  | _ => id

end KeyedStep

/-! ## Steps within a class -/

/-- What an assignment leaves of a class that held `es`. -/
def assigned (es : List (Entry K V)) (k : K) (v : V) : List (Entry K V) :=
  if Multiplicity.unique.full es then es.modify 0 (·.update fun _ => v)
  else Multiplicity.unique.keep (es ++ [⟨k, v⟩])

/-- Goes on with the value that is made, unless none is and the class stays as it was. -/
def madeWithin (es : List (Entry K V)) (make : Maker V)
    (next : V → Answer K V × List (Entry K V)) :
    Except Failure (Answer K V) × List (Entry K V) :=
  match make with
  | .gives v => (.ok (next v).1, (next v).2)
  | .fails => (.error .makerFailed, es)

/-- What a step on one class answers, apart from a position, if the class holds `es`, and what it
leaves of the class. -/
def KeyedStep.onClass [Inhabited V] :
    KeyedStep K V m → List (Entry K V) → Except Failure (Answer K V) × List (Entry K V)
  | .look f _, es => (.ok (.optional f es.head?), es)
  | .insert k v, es =>
    (.ok (placedAnswer m ⟨0, !m.full es⟩).withoutPosition, m.keep (es ++ [⟨k, v⟩]))
  | .emplace k make, es =>
    if m.full es then (.ok (madeAnswer m ⟨0, false⟩ 0).withoutPosition, es)
    else madeWithin es make fun v =>
      ((madeAnswer m ⟨0, true⟩ 1).withoutPosition, m.keep (es ++ [⟨k, v⟩]))
  | .insertOrAssign k v, es =>
    (.ok (placedAnswer .unique ⟨0, !Multiplicity.unique.full es⟩).withoutPosition,
      assigned es k v)
  | .emplaceOrAssign k make, es =>
    madeWithin es make fun v =>
      ((madeAnswer .unique ⟨0, !Multiplicity.unique.full es⟩ 1).withoutPosition, assigned es k v)
  | .getOrInsertWith k make f, es =>
    match es.head? with
    | some e => (.ok (.list [.value (f e.value), .flag false]), es.modify 0 (·.update f))
    | none => madeWithin es make fun v =>
      (.list [.value (f v), .flag true], Multiplicity.unique.keep (es ++ [⟨k, f v⟩]))
  | .getOrDefault k f, es =>
    match es.head? with
    | some e => (.ok (.value (f e.value)), es.modify 0 (·.update f))
    | none => (.ok (.value (f default)), Multiplicity.unique.keep (es ++ [⟨k, f default⟩]))
  | .update _ f, es => (.ok (.optional .value es.head?), es.modify 0 (·.update f))
  | .take f _, es => (.ok (.optional f es.head?), es.eraseIdx 0)
  | .removeAll _, es => (.ok (.number es.length), [])
  | .extend _ _, es | .gather _, es | .popFirst, es | .popLast, es | .removeAt _, es | .clear, es =>
    (.ok .nothing, es)

namespace ClassMap

/-- `y` is what `r` comes to by a change of the class of `k` alone: `z` says what the class
becomes, and what is answered but for what `apart` takes off. -/
structure ComesTo (r : ClassMap m order V) (k : K) (apart : Answer K V → Answer K V)
    (y : Except Failure (Answer K V) × ClassMap m order V)
    (z : Except Failure (Answer K V) × List (Entry K V)) : Prop where
  answer_eq : apart <$> y.1 = z.1
  content_eq : ∀ a, y.2.content a = if order.same k a then z.2 else r.content a

/-- A map holds the same of a class under each of its keys. -/
theorem content_eq_ite (r : ClassMap m order V) (k a : K) :
    r.content a = if order.same k a then r.content k else r.content a := by
  split
  · rename_i hka
    exact (r.respects k a (Comparator.same_iff.mp hka)).symm
  · rfl

variable [Std.TransCmp order]

theorem content_assign (r : ClassMap .unique order V) (k : K) (v : V) (a : K) :
    (r.assign k v).content a =
      if order.same k a then assigned (r.content k) k v else r.content a := by
  unfold assign assigned full
  by_cases hfull : Multiplicity.unique.full (r.content k)
  · rw [if_pos hfull, if_pos hfull]
    rfl
  · rw [if_neg hfull, if_neg hfull]
    rfl

omit [Std.TransCmp order] in
theorem comesTo_afterMaking {r : ClassMap m order V} {k : K} {apart : Answer K V → Answer K V}
    (make : Maker V) {next : V → Answer K V × ClassMap m order V}
    {next' : V → Answer K V × List (Entry K V)}
    (hnext : ∀ v, r.ComesTo k apart (.ok (next v).1, (next v).2) (.ok (next' v).1, (next' v).2)) :
    r.ComesTo k apart (r.afterMaking make next) (madeWithin (r.content k) make next') := by
  cases make with
  | gives v => exact hnext v
  | fails => exact ⟨rfl, r.content_eq_ite k⟩

variable [Inhabited V]

/-- A step on one class comes to what it makes of what is held of the class. -/
theorem comesTo_step {x : KeyedStep K V m} {k : K} (hx : x.key? = some k)
    (r : ClassMap m order V) : r.ComesTo k x.apart (r.step x) (x.onClass (r.content k)) := by
  cases x with
  | look f k =>
    cases hx
    exact ⟨rfl, r.content_eq_ite k⟩
  | insert k v =>
    cases hx
    exact ⟨congrArg Except.ok (withoutPosition_placedAnswer _), fun a => rfl⟩
  | emplace k make =>
    cases hx
    show r.ComesTo k Answer.withoutPosition (if r.full k then _ else _) (if r.full k then _ else _)
    by_cases hfull : r.full k = true
    · have hheld : (r.placed k).inserted = false := congrArg Bool.not hfull
      rw [if_pos hfull, if_pos hfull, ← hheld]
      exact ⟨congrArg Except.ok (withoutPosition_madeAnswer _ 0), r.content_eq_ite k⟩
    · have hfree : (r.placed k).inserted = true :=
        congrArg Bool.not (Bool.eq_false_iff.mpr hfull)
      rw [if_neg hfull, if_neg hfull, ← hfree]
      refine comesTo_afterMaking make fun v => ⟨?_, fun a => rfl⟩
      exact congrArg Except.ok (withoutPosition_madeAnswer _ 1)
  | insertOrAssign k v =>
    cases hx
    exact ⟨rfl, r.content_assign k v⟩
  | emplaceOrAssign k make =>
    cases hx
    exact comesTo_afterMaking make fun v => ⟨rfl, r.content_assign k v⟩
  | getOrInsertWith k make f =>
    cases hx
    simp only [step, KeyedStep.onClass, oldest]
    cases (r.content k).head? with
    | some e => exact ⟨rfl, fun a => rfl⟩
    | none => exact comesTo_afterMaking make fun v => ⟨rfl, fun a => rfl⟩
  | getOrDefault k f =>
    cases hx
    simp only [step, KeyedStep.onClass, oldest]
    cases (r.content k).head? with
    | some e => exact ⟨rfl, fun a => rfl⟩
    | none => exact ⟨rfl, fun a => rfl⟩
  | update k f | take f k | removeAll k =>
    cases hx
    exact ⟨rfl, fun a => rfl⟩
  | extend | gather | popFirst | popLast | removeAt | clear => cases hx

/-! ## Either order -/

omit [Inhabited V] in
/-- What is held of the classes determines the listing. -/
theorem listing_eq_of_content_eq {r r' : ClassMap m order V}
    (h : ∀ a, r.content a = r'.content a) : r.listing = r'.listing := by
  apply r.sorted_listing.ext r'.sorted_listing
  intro a
  rw [r.ofClass_listing, r'.ofClass_listing, h]

variable {x y : KeyedStep K V m} {j k : K}

theorem content_step_other (hx : x.key? = some j) (hjk : order j k ≠ .eq)
    (r : ClassMap m order V) : (r.step x).2.content k = r.content k := by
  rw [(comesTo_step hx r).content_eq, if_neg (mt Comparator.same_iff.mp hjk)]

theorem answer_step_step (hx : x.key? = some j) (hy : y.key? = some k)
    (hjk : order j k ≠ .eq) (r : ClassMap m order V) :
    y.apart <$> ((r.step x).2.step y).1 = y.apart <$> (r.step y).1 := by
  rw [(comesTo_step hy _).answer_eq, (comesTo_step hy r).answer_eq, content_step_other hx hjk r]

theorem content_step_comm (hx : x.key? = some j) (hy : y.key? = some k)
    (hjk : order j k ≠ .eq) (r : ClassMap m order V) (a : K) :
    ((r.step x).2.step y).2.content a = ((r.step y).2.step x).2.content a := by
  have hkj : order k j ≠ .eq := fun h => hjk (Std.OrientedCmp.eq_symm h)
  rw [(comesTo_step hy _).content_eq, content_step_other hx hjk r,
    (comesTo_step hx r).content_eq, (comesTo_step hx _).content_eq,
    content_step_other hy hkj r, (comesTo_step hy r).content_eq]
  by_cases hja : order.same j a
  · have hka : ¬ order.same k a := by
      intro hka
      apply hjk
      exact Std.TransCmp.eq_trans (Comparator.same_iff.mp hja)
        (Std.OrientedCmp.eq_symm (Comparator.same_iff.mp hka))
    rw [if_pos hja, if_neg hka, if_neg hka, if_pos hja]
  · rw [if_neg hja, if_neg hja]

end ClassMap

variable [Std.TransCmp order]

theorem Flat.exists_agrees {c : Flat m K V} (h : c.ValidFor order) :
    ∃ r : ClassMap m order V, c.Agrees r :=
  ⟨_, Flat.agrees_empty.addAll (Flat.takesIn_toList h)⟩

namespace Session

variable [DecidableEq K] [DecidableEq V] [Inhabited V] [Key K] [Document K V]
  {s : Session K V} {c : Flat m K V}

/-- Two steps on different classes lead to the same entries in either order, and each of them
answers the same, apart from a position, whether it comes first or second. -/
theorem toList_step_comm (hr : s.Reached order) (hs : s.current = c.pack) {x y : KeyedStep K V m}
    {j k : K} (hx : x.key? = some j) (hy : y.key? = some k) (hjk : order j k ≠ .eq) :
    let afterX := (s.step x.toStep).session
    let afterY := (s.step y.toStep).session
    (afterX.step y.toStep).session.current.toList =
        (afterY.step x.toStep).session.current.toList ∧
      x.apart <$> (s.step x.toStep).answer = x.apart <$> (afterY.step x.toStep).answer ∧
      y.apart <$> (s.step y.toStep).answer = y.apart <$> (afterX.step y.toStep).answer := by
  intro afterX afterY
  have hkj : order k j ≠ .eq := fun h => hjk (Std.OrientedCmp.eq_symm h)
  obtain ⟨r, hagrees⟩ := Flat.exists_agrees (hr.validFor_current hs)
  have hholds : s.Holds r := ⟨c, hs, hagrees⟩
  obtain ⟨hansX, hX⟩ := hholds.step x
  obtain ⟨hansY, hY⟩ := hholds.step y
  obtain ⟨hansXY, hXY⟩ := hX.step y
  obtain ⟨hansYX, hYX⟩ := hY.step x
  refine ⟨?_, ?_, ?_⟩
  · rw [hXY.toList_eq, hYX.toList_eq]
    apply ClassMap.listing_eq_of_content_eq
    exact ClassMap.content_step_comm hx hy hjk r
  · rw [hansX, hansYX]
    exact (ClassMap.answer_step_step hy hx hkj r).symm
  · rw [hansY, hansXY]
    exact (ClassMap.answer_step_step hx hy hjk r).symm

/-- Keys of one last digit are one class. Taking 3 out leaves a map without its last entry, and
25 is then put where that was, or else after it. -/
theorem toList_step_comm_digits :
    let s : Session Int64 Int64 :=
      Session.after ⟨.map (.empty KeyOrder.intMod.order), []⟩ [.insert 13 0, .insert 1 1]
    let x : KeyedStep Int64 Int64 .unique := .take .value 3
    let y : KeyedStep Int64 Int64 .unique := .insertOrAssign 25 2
    x.key? = some 3 ∧ y.key? = some 25 ∧ KeyOrder.intMod.order 3 25 ≠ .eq ∧
      ((s.step x.toStep).session.step y.toStep).session.current.toList = [⟨1, 1⟩, ⟨25, 2⟩] ∧
      ((s.step y.toStep).session.step x.toStep).session.current.toList = [⟨1, 1⟩, ⟨25, 2⟩] ∧
      y.apart <$> (s.step y.toStep).answer =
        y.apart <$> ((s.step x.toStep).session.step y.toStep).answer := by
  intro s x y
  have hreached : s.Reached KeyOrder.intMod.order := ⟨.unique, .empty, _, _, rfl, rfl⟩
  have hother : KeyOrder.intMod.order 3 25 ≠ .eq := by decide
  obtain ⟨hlist, -, hanswer⟩ :=
    toList_step_comm (m := .unique) (x := x) (y := y) hreached rfl rfl rfl hother
  have hfirst : ((s.step x.toStep).session.step y.toStep).session.current.toList =
      [⟨1, 1⟩, ⟨25, 2⟩] := by decide +kernel
  exact ⟨rfl, rfl, hother, hfirst, hlist ▸ hfirst, hanswer⟩

end Session

end FlatAssoc
