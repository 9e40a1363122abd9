import FlatAssoc.Proofs.Runs

/-!
# Batches

Items may reach a container in batches, and each batch by a route of its own: one by one, or by a
bulk load from a source whose promise may be wrong. Whatever the batches and their routes, the
container takes in their effective items in turn (`Session.takesIn_batches`), so it holds what one
insertion after the other of these items would have left.
-/

namespace FlatAssoc

/-- How a batch of items is loaded. -/
inductive Route where
  /-- One by one. -/
  | singly
  /-- One by one, with the answer of a set. -/
  | added
  /-- From a source that promises at most `upper` items. -/
  | extended (upper : Option Nat)
  /-- From a borrowed source that promises at most `upper` items. -/
  | copied (upper : Option Nat)
  /-- By several workers. -/
  | gathered
  /-- By several workers from a borrowed source. -/
  | gatheredCopied
  deriving DecidableEq, Repr

/-- Items and the route by which they are loaded. -/
structure Batch (K V : Type) where
  route : Route
  items : List (Entry K V)

variable {m : Multiplicity} {K V : Type} {order : Comparator K}

namespace Batch

/-- The steps that load the batch. -/
def steps (b : Batch K V) : List (Step K V) :=
  match b.route with
  | .singly => b.items.map fun e => .insert e.key e.value
  | .added => b.items.map fun e => .add e.key e.value
  | .extended upper => [.extend upper b.items]
  | .copied upper => [.extendCopied upper b.items]
  | .gathered => [.gather b.items]
  | .gatheredCopied => [.gatherCopied b.items]

/-- The items that are taken from the source by a container of multiplicity `m`; a borrowed source
is one of keys that can be copied. -/
def effective [Key K] [Document K V] (m : Multiplicity) (b : Batch K V) : List (Entry K V) :=
  match b.route with
  | .singly | .added | .gathered => b.items
  | .extended upper => Flat.taken upper b.items
  | .copied upper => if Key.copied K then Flat.taken upper b.items else []
  | .gatheredCopied => if Flat.gathersCopied m K V then b.items else []

end Batch

/-- The multiplicity of a container. -/
def Container.multiplicity : Container K V → Multiplicity
  | .map _ => .unique
  | .multimap _ => .repeated

theorem Flat.multiplicity_pack (c : Flat m K V) : c.pack.multiplicity = m := by
  cases m with
  | unique => rfl
  | repeated => rfl

/-- A source that keeps its promise is taken as a whole. -/
theorem Flat.taken_of_le {upper : Nat} {es : List (Entry K V)} (h : es.length ≤ upper) :
    Flat.taken (some upper) es = es := by
  match upper with
  | 0 => exact (List.eq_nil_of_length_eq_zero (Nat.le_zero.mp h)).symm
  | 1 => exact List.take_of_length_le h
  | n + 2 => rfl

variable [DecidableEq K] [DecidableEq V] [Inhabited V] [Key K] [Document K V]

namespace Session

variable {s : Session K V} {c : Flat m K V} [Std.TransCmp order]

/-- One insertion after the other takes in all items, whatever the steps answer. -/
theorem takesIn_each (h : c.ValidFor order) (hs : s.current = c.pack) {f : Entry K V → Step K V}
    (hf : ∀ (c : Flat m K V) e, ∃ a,
      (c.step (f e)).outcome = .ok (a, (c.insert e.key e.value).value.2.pack))
    (es : List (Entry K V)) :
    ∃ d : Flat m K V, (s.after (es.map f)).current = d.pack ∧ c.TakesIn order es d := by
  induction es generalizing s c with
  | nil => exact ⟨c, hs, .refl h⟩
  | cons e es ih =>
    obtain ⟨a, ha⟩ := hf c e
    have hone := Flat.takesIn_insert h e.key e.value
    obtain ⟨d, hd, hrest⟩ := ih hone.validFor (current_step hs ha)
    exact ⟨d, hd, hone.trans hrest⟩

/-- A load from a borrowed source happens only if it is offered. -/
theorem takesIn_borrowed (h : c.ValidFor order) (hs : s.current = c.pack) {x : Step K V}
    {es : List (Entry K V)} {load : Reported (Flat m K V)} {offered : Bool}
    (hx : c.step x =
      if offered then Flat.loading load (.flag true) else c.answering (.flag false))
    (hload : c.TakesIn order es load.value) :
    ∃ d : Flat m K V, (s.step x).session.current = d.pack ∧
      c.TakesIn order (if offered then es else []) d := by
  cases offered with
  | true => exact ⟨load.value, current_step hs (by rw [hx]; rfl), hload⟩
  | false => exact ⟨c, current_step hs (by rw [hx]; rfl), .refl h⟩

theorem takesIn_batch (h : c.ValidFor order) (hs : s.current = c.pack) (b : Batch K V) :
    ∃ d : Flat m K V, (s.after b.steps).current = d.pack ∧
      c.TakesIn order (b.effective m) d := by
  obtain ⟨route, items⟩ := b
  cases route with
  | singly => exact takesIn_each h hs (fun c e => ⟨_, rfl⟩) items
  | added => exact takesIn_each h hs (fun c e => ⟨_, rfl⟩) items
  | extended upper => exact ⟨_, current_step hs rfl, Flat.takesIn_extend h upper items⟩
  | gathered => exact ⟨_, current_step hs rfl, Flat.takesIn_gatherInto h items⟩
  | copied upper => exact takesIn_borrowed h hs rfl (Flat.takesIn_extend h upper items)
  | gatheredCopied => exact takesIn_borrowed h hs rfl (Flat.takesIn_gatherInto h items)

theorem takesIn_batches (h : c.ValidFor order) (hs : s.current = c.pack)
    (bs : List (Batch K V)) :
    ∃ d : Flat m K V, (s.after (bs.flatMap Batch.steps)).current = d.pack ∧
      c.TakesIn order (bs.flatMap (Batch.effective m)) d := by
  induction bs generalizing s c with
  | nil => exact ⟨c, hs, .refl h⟩
  | cons b bs ih =>
    obtain ⟨d, hd, hone⟩ := takesIn_batch h hs b
    obtain ⟨e, he, hrest⟩ := ih hone.validFor hd
    refine ⟨e, ?_, hone.trans hrest⟩
    rw [List.flatMap_cons, after_append]
    exact he

/-- Loading batches, each by a route of its own, leaves the entries that one insertion after the
other of the effective items leaves. -/
theorem toList_after_batches (hs : s.Reached order) (bs : List (Batch K V)) :
    let items := bs.flatMap (Batch.effective s.current.multiplicity)
    (s.after (bs.flatMap Batch.steps)).current.toList =
      (s.after (items.map fun e => .insert e.key e.value)).current.toList := by
  obtain ⟨m, c, hc, h⟩ := exists_pack hs.validFor
  rw [hc, Flat.multiplicity_pack]
  intro items
  obtain ⟨d, hd, hbatches⟩ := takesIn_batches h hc bs
  obtain ⟨e, he, hsingly⟩ := takesIn_each h hc (f := fun e => .insert e.key e.value)
    (fun c e => ⟨_, rfl⟩) items
  rw [hd, he, Flat.toList_pack, Flat.toList_pack]
  exact hbatches.toList_eq hsingly

/-- Keys of one last digit are one class: a promise of one hides the rest of a batch, and of a
class only the first item is new. -/
theorem toList_after_batches_digits :
    let s : Session Int64 Int64 := ⟨.map (.empty KeyOrder.intMod.order), []⟩
    let bs : List (Batch Int64 Int64) :=
      [⟨.extended (some 1), [⟨13, 0⟩, ⟨1, 1⟩]⟩, ⟨.singly, [⟨3, 2⟩, ⟨5, 3⟩]⟩]
    bs.flatMap (Batch.effective .unique) = [⟨13, 0⟩, ⟨3, 2⟩, ⟨5, 3⟩] ∧
      (s.after (bs.flatMap Batch.steps)).current.toList = [⟨13, 0⟩, ⟨5, 3⟩] :=
  ⟨rfl, (toList_after_batches ⟨.unique, .empty, _, [], rfl, rfl⟩ _).trans (by decide +kernel)⟩

end Session

end FlatAssoc
