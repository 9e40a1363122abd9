import FlatAssoc.Key.WeakOrder
import FlatAssoc.Proofs.Batches
import FlatAssoc.Proofs.Constructions
import FlatAssoc.Proofs.Opposition
import FlatAssoc.Proofs.Scans
import Mathlib.Data.List.Forall2

/-!
# Runs under opposite orders

Two maps of opposite orders go through the same steps, except that what one does at an end or at a
position the other does at the opposite one. The comparisons that the two make on the way are not
each other's mirror image: the ends are looked at in turn, the first one before the last one. What
they hold of each class is the same all the same, so the entries of one are at any time the reverse
of those of the other (`Session.forall₂_mirrorImage_run`). Multimaps list the classes in opposite
orders, and each of them as it arrived (`Flat.TakesIn.exists_classes`).
-/

namespace FlatAssoc

variable {m : Multiplicity} {K V : Type} {order : Comparator K}

/-! ## Mirrored steps -/

/-- A step of a map or of a set of which there is a mirror image. -/
inductive MapStep (K V : Type) where
  | keyed (x : KeyedStep K V .unique)
  /-- An insertion with the answer of a set. -/
  | add (k : K) (v : V)
  /-- A load from a borrowed source. -/
  | extendCopied (upper : Option Nat) (items : List (Entry K V))
  /-- A load from a borrowed source by several workers. -/
  | gatherCopied (items : List (Entry K V))

namespace MapStep

/-- The step of a session. -/
def toStep : MapStep K V → Step K V
  | .keyed x => x.toStep
  | .add k v => .add k v
  | .extendCopied upper items => .extendCopied upper items
  | .gatherCopied items => .gatherCopied items

/-- The step at the opposite end or position of `size` entries. -/
def mirrored (size : Nat) : MapStep K V → MapStep K V
  | .keyed x => .keyed (x.mirrored size)
  | x => x

variable [Std.TransCmp order] [Inhabited V] [Key K] [Document K V]

/-- What a step answers and the map from classes that it leaves. -/
def onClasses (r : ClassMap .unique order V) :
    MapStep K V → Except Failure (Answer K V) × ClassMap .unique order V
  | .keyed x => r.step x
  | .add k v => (.ok (.flag (r.placed k).inserted), r.add ⟨k, v⟩)
  | .extendCopied upper items =>
    (.ok (.flag (Key.copied K)), r.addAll (if Key.copied K then Flat.taken upper items else []))
  | .gatherCopied items =>
    (.ok (.flag (Flat.gathersCopied .unique K V)),
      r.addAll (if Flat.gathersCopied .unique K V then items else []))

theorem mirrorImage_onClasses {r : ClassMap .unique order V} {r' : ClassMap .unique order.reverse V}
    (h : r.Opposes r') (x : MapStep K V) :
    ClassMap.MirrorImage (x.onClasses r) ((x.mirrored r.listing.length).onClasses r') := by
  cases x with
  | keyed x => exact ClassMap.mirrorImage_step h x
  | add k v =>
    refine ⟨?_, h.add ⟨k, v⟩⟩
    show Except.ok (Answer.flag (r'.placed k).inserted) = .ok (.flag (r.placed k).inserted)
    rw [h.placed_eq (r.fills_add k v)]
  | extendCopied upper items => exact ⟨rfl, h.addAll _⟩
  | gatherCopied items => exact ⟨rfl, h.addAll _⟩

end MapStep

/-! ## Steps of a session -/

namespace Session

variable [Std.TransCmp order] [DecidableEq K] [DecidableEq V] [Inhabited V] [Key K] [Document K V]
  {s : Session K V} {r : ClassMap m order V}

/-- A keyed read answers what a scan of the listing answers. -/
theorem Holds.answer_look (h : s.Holds r) (l : Look) (k : K) :
    (s.step (.look l (.key k))).answer = scan m (order.probe k) r.listing l := by
  obtain ⟨c, hc, hagrees⟩ := h
  obtain rfl : c.order = order := hagrees.validFor.order_eq
  rw [Session.answer_look hc, Target.under_key,
    Flat.answer_look (hagrees.validFor.consistentWith k), hagrees.toList_eq]

theorem Holds.mapStep {r : ClassMap .unique order V} (h : s.Holds r) (x : MapStep K V) :
    (s.step x.toStep).answer = (x.onClasses r).1 ∧
      (s.step x.toStep).session.Holds (x.onClasses r).2 := by
  obtain ⟨c, hc, hagrees⟩ := h
  cases x with
  | keyed x => exact Holds.step ⟨c, hc, hagrees⟩ x
  | add k v =>
    refine settle_of_meets (x := s.current.step (.add k v)) ?_
    rw [hc]
    exact Flat.meets_insert hagrees k v fun p => .flag p.inserted
  | extendCopied upper items =>
    refine settle_of_meets (x := s.current.step (.extendCopied upper items)) ?_
    rw [hc]
    exact Flat.meets_borrowed hagrees (Flat.takesIn_extend hagrees.validFor upper items) _
  | gatherCopied items =>
    refine settle_of_meets (x := s.current.step (.gatherCopied items)) ?_
    rw [hc]
    exact Flat.meets_borrowed hagrees (Flat.takesIn_gatherInto hagrees.validFor items) _

end Session

/-! ## Mirrored runs -/

namespace Session

variable [DecidableEq K] [DecidableEq V] [Inhabited V] [Key K] [Document K V] {s s' : Session K V}

/-- The mirror images of the steps of a run from `s`, each for as many entries as there are when
its turn comes. -/
def mirrored (s : Session K V) : List (MapStep K V) → List (MapStep K V)
  | [] => []
  | x :: xs => x.mirrored s.current.toList.length :: mirrored (s.step x.toStep).session xs

/-- In two sessions of opposite orders, the bounds of a key add up to the number of entries. -/
structure BoundsMirror (s s' : Session K V) (k : K) : Prop where
  lower_upper : ∃ n n', (s.step (.look .lower (.key k))).answer = .ok (.number n) ∧
    (s'.step (.look .upper (.key k))).answer = .ok (.number n') ∧
      n + n' = s.current.toList.length
  upper_lower : ∃ n n', (s.step (.look .upper (.key k))).answer = .ok (.number n) ∧
    (s'.step (.look .lower (.key k))).answer = .ok (.number n') ∧
      n + n' = s.current.toList.length

end Session

/-- What a step comes to under the opposite order is the mirror image of what it comes to. -/
structure Reply.MirrorImage [DecidableEq K] [DecidableEq V] [Inhabited V] [Key K] [Document K V]
    (y y' : Reply K V) : Prop where
  /-- The entries are reversed. -/
  toList_eq : y'.session.current.toList = y.session.current.toList.reverse
  /-- The answers are the same, except that a position is counted from the back. -/
  answer_eq : y'.answer = Answer.fromBack y.session.current.toList.length <$> y.answer
  bounds : ∀ k, Session.BoundsMirror y.session y'.session k

namespace Session

variable [DecidableEq K] [DecidableEq V] [Inhabited V] [Key K] [Document K V] {s s' : Session K V}
  [Std.TransCmp order] {r : ClassMap .unique order V}
  {r' : ClassMap .unique order.reverse V}

theorem boundsMirror_of_opposes (h : s.Holds r) (h' : s'.Holds r') (ho : r.Opposes r') (k : K) :
    BoundsMirror s s' k := by
  have hlist : r'.listing = r.listing.reverse := ho.listing_eq_reverse
  have hsum (o : Ordering) : (r.listing.countP fun e => order e.key k == o) +
      (r.listing.countP fun e => order e.key k != o) = s.current.toList.length := by
    rw [h.toList_eq]
    refine Eq.trans ?_ (List.length_eq_countP_add_countP fun e => order e.key k == o).symm
    congr 1
    refine List.countP_congr fun e _ => ?_
    simp
  constructor
  · refine ⟨_, _, h.answer_look .lower k, h'.answer_look .upper k, ?_⟩
    show _ + (r'.listing.countP fun e => order.reverse e.key k != .gt) = _
    rw [hlist, countP_ne_gt_reverse]
    exact hsum .lt
  · refine ⟨_, _, h.answer_look .upper k, h'.answer_look .lower k, ?_⟩
    show _ + (r'.listing.countP fun e => order.reverse e.key k == .lt) = _
    rw [hlist, countP_lt_reverse, Nat.add_comm]
    exact hsum .gt

/-- A run and its mirror image, from sessions that hold opposing maps, come to mirror images at
every step. -/
theorem forall₂_mirrorImage_run (h : s.Holds r) (h' : s'.Holds r') (ho : r.Opposes r')
    (xs : List (MapStep K V)) :
    List.Forall₂ Reply.MirrorImage (s.run (xs.map MapStep.toStep))
      (s'.run ((s.mirrored xs).map MapStep.toStep)) := by
  induction xs generalizing s s' r r' with
  | nil => exact .nil
  | cons x xs ih =>
    have himage := x.mirrorImage_onClasses ho
    -- positions of steps count the entries before the step, those of answers the entries after it
    rw [← h.toList_eq] at himage
    obtain ⟨hanswer, hstep⟩ := h.mapStep x
    obtain ⟨hanswer', hstep'⟩ := h'.mapStep (x.mirrored s.current.toList.length)
    have hopposes := himage.opposes
    refine .cons ⟨?_, ?_, boundsMirror_of_opposes hstep hstep' hopposes⟩
      (ih hstep hstep' hopposes)
    · rw [hstep.toList_eq, hstep'.toList_eq, hopposes.listing_eq_reverse]
    · rw [hanswer', himage.answer_eq, hanswer, hstep.toList_eq]

end Session

/-! ## Classes of multimaps -/

/-- `ks` has one key of each class of `es`, in the order of the classes. -/
structure IsRanking (order : Comparator K) (es : List (Entry K V)) (ks : List K) : Prop where
  ascending : ks.Pairwise fun a b => order a b = .lt
  covers : ∀ e ∈ es, ∃ k ∈ ks, order k e.key = .eq

/-- Multimaps of opposite orders that take in the same entries list the classes in opposite orders
and each class as it arrived. -/
theorem Flat.TakesIn.exists_classes [Std.TransCmp order] {es : List (Entry K V)}
    {c d : Multimap K V} (hc : TakesIn order (empty order) es c)
    (hd : TakesIn order.reverse (empty order.reverse) es d) :
    ∃ ks, IsRanking order es ks ∧ c.toList = ks.flatMap (ofClass order · es) ∧
      d.toList = ks.reverse.flatMap (ofClass order · es) := by
  let r : ClassMap .repeated order V := ClassMap.empty.addAll es
  have hcontent : r.content = (ofClass order · es) :=
    funext fun k => ClassMap.empty.content_addAll es k
  have hagrees : c.Agrees r := agrees_empty.addAll hc
  have hagrees' : d.Agrees (ClassMap.empty.addAll es) := agrees_empty.addAll hd
  have hopposes : r.Opposes (ClassMap.empty.addAll es) := ClassMap.opposes_empty.addAll es
  refine ⟨r.ranked, ⟨r.ranked_lt, fun e he => ?_⟩, ?_, ?_⟩
  · have hheld : r.content e.key ≠ [] := by
      rw [hcontent]
      exact List.ne_nil_of_mem (mem_ofClass.mpr ⟨he, Comparator.eq_self _⟩)
    obtain ⟨k, hk, hke⟩ := r.covered e.key hheld
    exact ⟨k, ClassMap.mem_ranked.mpr hk, hke⟩
  · rw [hagrees.toList_eq, ClassMap.listing, hcontent]
  · rw [hagrees'.toList_eq, hopposes.listing_eq, hcontent]

namespace Session

variable [DecidableEq K] [DecidableEq V] [Inhabited V] [Key K] [Document K V]

/-- A build and the batches after it take in all of their items from nothing. -/
theorem takesIn_start (m : Multiplicity) (order : Comparator K) [Std.TransCmp order]
    {items : List (Entry K V)} {b : Build K V} (hb : b.Loads items) (bs : List (Batch K V)) :
    ∃ x : Reported (Session K V), b.start m order = .ok x ∧ ∃ c : Flat m K V,
      (x.value.after (bs.flatMap Batch.steps)).current = c.pack ∧
        Flat.TakesIn order (.empty order) (items ++ bs.flatMap (Batch.effective m)) c := by
  obtain ⟨y, hy, hstart⟩ := hb.takesIn m order
  have hrun : b.start m order = .ok ((fun c => ⟨c.pack, []⟩) <$> y) := by
    rw [Build.start, hy]
    rfl
  refine ⟨_, hrun, ?_⟩
  obtain ⟨c, hc, hbatches⟩ := takesIn_batches (s := ⟨y.value.pack, []⟩) hstart.validFor rfl bs
  exact ⟨c, hc, hstart.trans hbatches⟩

/-- Under the opposite order a map is the mirror image of what it is under the order, at every step
of any run: its entries are reversed and its answers are the same, except that a position is
counted from the back, and the bounds of a key trade places. A multimap that is loaded with the
same items has its classes in the opposite order and each of them as it arrived. -/
theorem reverse_mirrors (order : Comparator K) [Std.TransCmp order] :
    (∀ xs : List (MapStep K V),
      let s : Session K V := ⟨.map (.empty order), []⟩
      let s' : Session K V := ⟨.map (.empty order.reverse), []⟩
      List.Forall₂ Reply.MirrorImage (s.run (xs.map MapStep.toStep))
        (s'.run ((s.mirrored xs).map MapStep.toStep))) ∧
      ∀ (es items items' : List (Entry K V)) (b b' : Build K V) (bs bs' : List (Batch K V)),
        b.Loads items → items ++ bs.flatMap (Batch.effective .repeated) = es →
        b'.Loads items' → items' ++ bs'.flatMap (Batch.effective .repeated) = es →
        ∃ x x' : Reported (Session K V), b.start .repeated order = .ok x ∧
          b'.start .repeated order.reverse = .ok x' ∧ ∃ ks, IsRanking order es ks ∧
            (x.value.after (bs.flatMap Batch.steps)).current.toList =
              ks.flatMap (ofClass order · es) ∧
            (x'.value.after (bs'.flatMap Batch.steps)).current.toList =
              ks.reverse.flatMap (ofClass order · es) := by
  constructor
  · intro xs s s'
    have hs : s.Holds (ClassMap.empty : ClassMap .unique order V) :=
      ⟨.empty order, rfl, Flat.agrees_empty⟩
    have hs' : s'.Holds (ClassMap.empty : ClassMap .unique order.reverse V) :=
      ⟨.empty order.reverse, rfl, Flat.agrees_empty⟩
    exact forall₂_mirrorImage_run hs hs' ClassMap.opposes_empty xs
  · rintro es items items' b b' bs bs' hb rfl hb' hes
    obtain ⟨x, hx, c, hc, htaken⟩ := takesIn_start .repeated order hb bs
    obtain ⟨x', hx', d, hd, htaken'⟩ := takesIn_start .repeated order.reverse hb' bs'
    rw [hes] at htaken'
    obtain ⟨ks, hks, hlist, hlist'⟩ := htaken.exists_classes htaken'
    refine ⟨x, x', hx, hx', ks, hks, ?_, ?_⟩
    · rw [hc, Flat.toList_pack, hlist]
    · rw [hd, Flat.toList_pack, hlist']

/-- Keys of one last digit are one class. The maps keep 13 under the order and under its reverse,
and the multimaps list it before 3 in both. -/
theorem reverse_mirrors_digits :
    let order : Comparator Int64 := KeyOrder.intMod.order
    let s : Session Int64 Int64 := ⟨.map (.empty order), []⟩
    let s' : Session Int64 Int64 := ⟨.map (.empty order.reverse), []⟩
    let xs : List (MapStep Int64 Int64) :=
      [.keyed (.insert 13 0), .keyed (.insert 1 1), .keyed (.extend (some 1) [⟨3, 2⟩, ⟨9, 2⟩]),
        .keyed (.insertOrAssign 23 4), .keyed (.removeAt 0), .add 5 5, .keyed (.insert 7 3),
        .keyed .popLast]
    let items : List (Entry Int64 Int64) := [⟨13, 0⟩, ⟨1, 1⟩, ⟨3, 2⟩]
    let bs : List (Batch Int64 Int64) := [⟨.gathered, [⟨1, 1⟩, ⟨3, 2⟩]⟩]
    (s.after (xs.map MapStep.toStep)).current.toList = [⟨13, 4⟩, ⟨5, 5⟩] ∧
      (s'.after ((s.mirrored xs).map MapStep.toStep)).current.toList = [⟨5, 5⟩, ⟨13, 4⟩] ∧
      List.Forall₂ Reply.MirrorImage (s.run (xs.map MapStep.toStep))
        (s'.run ((s.mirrored xs).map MapStep.toStep)) ∧
      ∃ x x' : Reported (Session Int64 Int64),
        (Build.collected [⟨13, 0⟩]).start .repeated order = .ok x ∧
          (Build.inserted items).start .repeated order.reverse = .ok x' ∧
          ∃ ks, IsRanking order items ks ∧
            (x.value.after (bs.flatMap Batch.steps)).current.toList =
              ks.flatMap (ofClass order · items) ∧
            x'.value.current.toList = ks.reverse.flatMap (ofClass order · items) := by
  intro order s s' xs items bs
  obtain ⟨hruns, hloads⟩ := reverse_mirrors (V := Int64) KeyOrder.intMod.order
  refine ⟨by decide +kernel, by decide +kernel, hruns xs, ?_⟩
  exact hloads items [⟨13, 0⟩] items _ _ bs [] .collected rfl .inserted (List.append_nil items)

end Session

end FlatAssoc
