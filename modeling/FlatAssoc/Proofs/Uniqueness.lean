import FlatAssoc.Proofs.Batches
import FlatAssoc.Proofs.Constructions
import FlatAssoc.Proofs.Refinement

/-!
# The uniqueness pass and steps

A map mirrors a multimap if it holds of each class the oldest entry that the multimap holds of it
(`Flat.Mirrors`); its entries are then those that the uniqueness pass leaves of the multimap's.
Loads, removals of whole classes and clearing keep a map and a multimap in this relation
(`Session.mirrors_step`), so it makes no difference whether the pass comes before or after a run
of such steps (`Session.mirrors_after`).
-/

namespace FlatAssoc

variable {m : Multiplicity} {K V : Type} {order : Comparator K}

/-! ## The relation -/

namespace Flat

/-- `d` holds the oldest entry of each class of which `c` holds any. -/
structure Mirrors (order : Comparator K) (d : Map K V) (c : Multimap K V) : Prop where
  map : d.ValidFor order
  multimap : c.ValidFor order
  ofClass_eq : ∀ k, ofClass order k d.toList = (ofClass order k c.toList).take 1

variable {c c' : Multimap K V} {d d' : Map K V} [Std.TransCmp order]

theorem mirrors_toMap (h : c.ValidFor order) : Mirrors order c.toMap.value c := by
  refine ⟨validFor_toMap h, h, fun k => ?_⟩
  rw [toList_toMap, h.order_eq]
  exact ofClass_collapse h.sorted k

namespace Mirrors

theorem toList_eq (h : Mirrors order d c) : d.toList = c.toMap.value.toList := by
  have hpass := mirrors_toMap h.multimap
  apply h.map.sorted.ext hpass.map.sorted
  intro k
  rw [h.ofClass_eq, hpass.ofClass_eq]

theorem toList_eq_firsts (h : Mirrors order d c) : d.toList = firsts order c.toList := by
  have hsorted : Sorted order (firsts order c.toList) :=
    h.multimap.sorted.sublist (firsts_sublist _)
  apply h.map.sorted.ext hsorted
  intro k
  rw [h.ofClass_eq, ofClass_firsts]

omit [Std.TransCmp order] in
theorem head?_eq (h : Mirrors order d c) (k : K) :
    (ofClass order k d.toList).head? = (ofClass order k c.toList).head? := by
  rw [h.ofClass_eq]
  cases ofClass order k c.toList <;> rfl

omit [Std.TransCmp order] in
/-- What both take in, the map keeps the oldest of. -/
theorem takesIn (h : Mirrors order d c) {es : List (Entry K V)} (hd : TakesIn order d es d')
    (hc : TakesIn order c es c') : Mirrors order d' c' := by
  refine ⟨hd.validFor, hc.validFor, fun k => ?_⟩
  rw [hd.ofClass_eq, hc.ofClass_eq, h.ofClass_eq]
  exact Multiplicity.keep_keep_append .unique _ _

end Mirrors

/-! ## Removal of a class -/

/-- A map gives up all that it holds of a class at once. -/
theorem take?_cases (h : d.ValidFor order) (k : K) :
    (ofClass order k d.toList = [] ∧ (d.take? (order.probe k)).value = none) ∨
      ∃ e d', (ofClass order k d.toList).head? = some e ∧
        (d.take? (order.probe k)).value = some (e, d') ∧ d'.ValidFor order ∧
        ∀ a, ofClass order a d'.toList =
          if order.same k a then [] else ofClass order a d.toList := by
  rcases find?_cases h k with ⟨he, hfind⟩ | ⟨e, i, hhead, hek, hfind, hi, hfirst⟩
  · left
    refine ⟨he, ?_⟩
    rw [take?, Noted.value_map, hfind]
    rfl
  · right
    refine ⟨e, d.eraseIdx i, hhead, ?_, validFor_eraseIdx h i, fun a => ?_⟩
    · rw [take?, Noted.value_map, hfind]
      show d.removeAt? i = _
      rw [removeAt?, get?_eq, hi]
      rfl
    · rw [toList_eraseIdx, ofClass_eraseIdx hi, Comparator.same_congr_left hek]
      split
      · rename_i hka
        rw [← ofClass_congr (Comparator.same_iff.mp hka) (d.toList.take i), hfirst]
        rcases ofClass_cases h a with ha | ⟨f, ha⟩ <;> rw [ha] <;> rfl
      · rfl

end Flat

/-! ## Steps side by side -/

/-- A step that a multimap and a map take side by side. -/
inductive SharedStep (K V : Type) [Document K V] where
  | insert (k : K) (v : V)
  /-- An insertion to which a set answers only whether the key is new. -/
  | add (k : K) (v : V)
  | emplace (k : K) (make : Maker V)
  | extend (upper : Option Nat) (items : List (Entry K V))
  | extendCopied (upper : Option Nat) (items : List (Entry K V))
  | gather (items : List (Entry K V))
  /-- A load that a set does not offer. -/
  | gatherCopied (items : List (Entry K V)) (hvalues : Document.keysAlone K V = false)
  /-- All entries of a class leave the multimap, and what the map holds of it leaves the map. -/
  | remove (k : K)
  | clear

namespace SharedStep

variable [Document K V]

/-- The step of the multimap. -/
def onMultimap : SharedStep K V → Step K V
  | .insert k v | .add k v => .insert k v
  | .emplace k make => .emplace k make
  | .extend upper items => .extend upper items
  | .extendCopied upper items => .extendCopied upper items
  | .gather items => .gather items
  | .gatherCopied items _ => .gatherCopied items
  | .remove k => .removeAll (.key k)
  | .clear => .clear

/-- The step of the map. -/
def onMap : SharedStep K V → Step K V
  | .insert k v => .insert k v
  | .add k v => .add k v
  | .emplace k make => .emplace k make
  | .extend upper items => .extend upper items
  | .extendCopied upper items => .extendCopied upper items
  | .gather items => .gather items
  | .gatherCopied items _ => .gatherCopied items
  | .remove k => .take .presence (.key k)
  | .clear => .clear

end SharedStep

theorem Flat.gathersCopied_of_values [Key K] [Document K V]
    (h : Document.keysAlone K V = false) : gathersCopied m K V = Key.copied K := by
  rw [gathersCopied, h, Bool.and_false, Bool.not_false, Bool.and_true]

/-- The entry that a maker leads to, unless it gives up. -/
def Maker.entries (make : Maker V) (k : K) : List (Entry K V) :=
  match make with
  | .gives v => [⟨k, v⟩]
  | .fails => []

namespace Session

variable [Std.TransCmp order] [DecidableEq K] [DecidableEq V] [Inhabited V] [Key K] [Document K V]
  {s t : Session K V}

omit [Std.TransCmp order] in
theorem step_emplace (s : Session K V) (k : K) (make : Maker V) :
    s.step (.emplace k make) = s.settle (s.current.step (.emplace k make)) := rfl

/-- Whether or not the maker runs and gives a value, what it leads to is taken in. -/
theorem takesIn_emplace {c : Flat m K V} (h : c.ValidFor order) (hs : s.current = c.pack) (k : K)
    (make : Maker V) :
    ∃ d : Flat m K V, (s.step (.emplace k make)).session.current = d.pack ∧
      c.TakesIn order (make.entries k) d := by
  have hstep : (s.step (.emplace k make)).session.current =
      (c.making (c.emplace k make.run) (Flat.madeAnswer m)).left := by
    rw [step_emplace, hs, Flat.pack_step]
    rfl
  rw [hstep]
  cases hfull : m.full (ofClass order k c.toList) with
  | true =>
    rw [Flat.making_of_gives (Flat.gives_emplace h hfull make.run)]
    refine ⟨c, rfl, ?_⟩
    cases make with
    | gives v => exact Flat.takesIn_self (e := ⟨k, v⟩) h hfull
    | fails => exact .refl h
  | false =>
    have hmakes := Flat.makes_emplace h hfull make
    cases make with
    | gives v =>
      rw [Flat.making_of_makes hmakes]
      exact ⟨_, rfl, Flat.takesIn_place (e := ⟨k, v⟩) h hfull⟩
    | fails =>
      rw [Flat.making_of_fails hmakes]
      exact ⟨c, rfl, .refl h⟩

theorem answer_contains {c : Flat m K V} (h : c.ValidFor order) (hs : s.current = c.pack) (k : K) :
    (s.step (.look (.first .presence) (.key k))).answer =
      .ok (.flag (ofClass order k c.toList).head?.isSome) := by
  have hout : (s.current.step (.look (.first .presence) (.key k))).outcome =
      .ok (.flag (ofClass order k c.toList).head?.isSome, c.pack) := by
    obtain rfl : c.order = order := h.order_eq
    rw [hs, Flat.pack_step, ← Flat.value_contains h k]
    rfl
  exact (settle_of_ok hout).1

/-- A multimap counts the entries of a class as they leave. -/
theorem step_removeAll {c : Multimap K V} (h : c.ValidFor order) (hs : s.current = .multimap c)
    (k : K) :
    (s.step (.removeAll (.key k))).answer = .ok (.number (ofClass order k c.toList).length) ∧
      ∃ c' : Multimap K V, (s.step (.removeAll (.key k))).session.current = .multimap c' ∧
        c'.ValidFor order ∧ ∀ a, ofClass order a c'.toList =
          if order.same k a then [] else ofClass order a c.toList := by
  obtain ⟨c', hvalue, -, hlist⟩ := Flat.value_removeAll (h.consistentWith k)
  have hout : (s.current.step (.removeAll (.key k))).outcome =
      .ok (.number (ofClass order k c.toList).length, .multimap c') := by
    obtain rfl : c.order = order := h.order_eq
    rw [hs]
    show (Flat.attempting (c.removeAll (c.order.probe k)) Answer.number).outcome = _
    rw [Flat.attempting, hvalue, List.countP_eq_length_filter]
    rfl
  refine ⟨(settle_of_ok hout).1, c', (settle_of_ok hout).2, ?_, fun a => ?_⟩
  · have hc' := Flat.validFor_removeAll h (order.probe k)
    rwa [hvalue] at hc'
  · rw [hlist]
    exact ofClass_filter_ne k a c.toList

theorem step_take {d : Map K V} (h : d.ValidFor order) (hs : s.current = .map d) (k : K) :
    (s.step (.take .presence (.key k))).answer =
        .ok (.flag (ofClass order k d.toList).head?.isSome) ∧
      ∃ d' : Map K V, (s.step (.take .presence (.key k))).session.current = .map d' ∧
        d'.ValidFor order ∧ ∀ a, ofClass order a d'.toList =
          if order.same k a then [] else ofClass order a d.toList := by
  obtain rfl : d.order = order := h.order_eq
  have hstep : s.current.step (.take .presence (.key k)) =
      Flat.changing (d.parting .presence <$> d.take? (d.order.probe k)) id := by
    rw [hs]
    rfl
  rcases Flat.take?_cases h k with ⟨hnil, hvalue⟩ | ⟨e, d', hhead, hvalue, hd', hclass⟩
  · have hout : (s.current.step (.take .presence (.key k))).outcome =
        .ok (.flag false, .map d) := by
      rw [hstep, Flat.changing, Noted.value_map, hvalue]
      rfl
    rw [hnil]
    refine ⟨(settle_of_ok hout).1, d, (settle_of_ok hout).2, h, fun a => ?_⟩
    split
    · rename_i hka
      rw [← ofClass_congr (Comparator.same_iff.mp hka), hnil]
    · rfl
  · have hout : (s.current.step (.take .presence (.key k))).outcome =
        .ok (.flag true, .map d') := by
      rw [hstep, Flat.changing, Noted.value_map, hvalue]
      rfl
    rw [hhead]
    exact ⟨(settle_of_ok hout).1, d', (settle_of_ok hout).2, hd', hclass⟩

/-! ## Runs side by side -/

/-- A step that both take leaves a map that mirrors the multimap. -/
theorem mirrors_step {c : Multimap K V} {d : Map K V} (h : Flat.Mirrors order d c)
    (hs : s.current = .multimap c) (ht : t.current = .map d) (x : SharedStep K V) :
    ∃ (c' : Multimap K V) (d' : Map K V), (s.step x.onMultimap).session.current = .multimap c' ∧
      (t.step x.onMap).session.current = .map d' ∧ Flat.Mirrors order d' c' := by
  cases x with
  | insert k v | add k v =>
    exact ⟨_, _, current_step (c := c) hs rfl, current_step (c := d) ht rfl,
      h.takesIn (Flat.takesIn_insert h.map k v) (Flat.takesIn_insert h.multimap k v)⟩
  | emplace k make =>
    obtain ⟨c', hc', hc⟩ := takesIn_emplace h.multimap hs k make
    obtain ⟨d', hd', hd⟩ := takesIn_emplace h.map ht k make
    exact ⟨c', d', hc', hd', h.takesIn hd hc⟩
  | extend upper items =>
    exact ⟨_, _, current_step (c := c) hs rfl, current_step (c := d) ht rfl,
      h.takesIn (Flat.takesIn_extend h.map upper items)
        (Flat.takesIn_extend h.multimap upper items)⟩
  | gather items =>
    exact ⟨_, _, current_step (c := c) hs rfl, current_step (c := d) ht rfl,
      h.takesIn (Flat.takesIn_gatherInto h.map items) (Flat.takesIn_gatherInto h.multimap items)⟩
  | extendCopied upper items =>
    obtain ⟨c', hc', hc⟩ := takesIn_borrowed h.multimap hs (x := .extendCopied upper items) rfl
      (Flat.takesIn_extend h.multimap upper items)
    obtain ⟨d', hd', hd⟩ := takesIn_borrowed h.map ht (x := .extendCopied upper items) rfl
      (Flat.takesIn_extend h.map upper items)
    exact ⟨c', d', hc', hd', h.takesIn hd hc⟩
  | gatherCopied items hvalues =>
    obtain ⟨c', hc', hc⟩ := takesIn_borrowed h.multimap hs (x := .gatherCopied items) rfl
      (Flat.takesIn_gatherInto h.multimap items)
    obtain ⟨d', hd', hd⟩ := takesIn_borrowed h.map ht (x := .gatherCopied items) rfl
      (Flat.takesIn_gatherInto h.map items)
    rw [Flat.gathersCopied_of_values hvalues] at hc hd
    exact ⟨c', d', hc', hd', h.takesIn hd hc⟩
  | remove k =>
    obtain ⟨-, c', hc', hvc, hc⟩ := step_removeAll h.multimap hs k
    obtain ⟨-, d', hd', hvd, hd⟩ := step_take h.map ht k
    refine ⟨c', d', hc', hd', hvd, hvc, fun a => ?_⟩
    rw [hc, hd, h.ofClass_eq]
    split <;> rfl
  | clear =>
    exact ⟨_, _, current_step (c := c) hs rfl, current_step (c := d) ht rfl,
      Flat.validFor_clear h.map, Flat.validFor_clear h.multimap, fun _ => rfl⟩

theorem mirrors_after {c : Multimap K V} {d : Map K V} (h : Flat.Mirrors order d c)
    (hs : s.current = .multimap c) (ht : t.current = .map d) (xs : List (SharedStep K V)) :
    ∃ (c' : Multimap K V) (d' : Map K V),
      (s.after (xs.map SharedStep.onMultimap)).current = .multimap c' ∧
      (t.after (xs.map SharedStep.onMap)).current = .map d' ∧ Flat.Mirrors order d' c' := by
  induction xs generalizing s t c d with
  | nil => exact ⟨c, d, hs, ht, h⟩
  | cons x xs ih =>
    obtain ⟨c', d', hc', hd', h'⟩ := mirrors_step h hs ht x
    exact ih h' hc' hd'

/-- A map answers about a class as the multimap that it mirrors does. -/
theorem answers_of_mirrors {c : Multimap K V} {d : Map K V} (h : Flat.Mirrors order d c)
    (hs : s.current = .multimap c) (ht : t.current = .map d) (k : K) :
    (∃ n, (s.step (.removeAll (.key k))).answer = .ok (.number n) ∧
        (t.step (.take .presence (.key k))).answer = .ok (.flag (0 < n))) ∧
      ∃ b, (s.step (.look (.first .presence) (.key k))).answer = .ok (.flag b) ∧
        (t.step (.look (.first .presence) (.key k))).answer = .ok (.flag b) := by
  have hhead : (ofClass order k d.toList).head? = (ofClass order k c.toList).head? :=
    h.head?_eq k
  constructor
  · refine ⟨_, (step_removeAll h.multimap hs k).1, ?_⟩
    rw [(step_take h.map ht k).1, hhead]
    cases ofClass order k c.toList <;> simp
  · refine ⟨_, answer_contains h.multimap hs k, ?_⟩
    rw [answer_contains h.map ht k, hhead]

/-- Whether the uniqueness pass is made before or after a run of steps makes no difference to what
is held, and at any time a map and a multimap that take the same steps answer alike about each
class. -/
theorem toList_after_toMap (hr : s.Reached order) {c : Multimap K V} (hs : s.current = .multimap c)
    (xs : List (SharedStep K V)) :
    let multi := s.after (xs.map SharedStep.onMultimap)
    let single := (s.step .toMap).session.after (xs.map SharedStep.onMap)
    ∃ (c' : Multimap K V) (d' : Map K V),
      multi.current = .multimap c' ∧ single.current = .map d' ∧
      d'.toList = c'.toMap.value.toList ∧ d'.toList = firsts order c'.toList ∧
      ∀ k,
        (∃ n, (multi.step (.removeAll (.key k))).answer = .ok (.number n) ∧
          (single.step (.take .presence (.key k))).answer = .ok (.flag (0 < n))) ∧
        ∃ b, (multi.step (.look (.first .presence) (.key k))).answer = .ok (.flag b) ∧
          (single.step (.look (.first .presence) (.key k))).answer = .ok (.flag b) := by
  have hvalid : c.ValidFor order := hr.validFor_current (c := c) hs
  have hstart : (s.step .toMap).session.current = .map c.toMap.value :=
    current_step (c := c) hs rfl
  obtain ⟨c', d', hc', hd', h⟩ := mirrors_after (Flat.mirrors_toMap hvalid) hs hstart xs
  exact ⟨c', d', hc', hd', h.toList_eq, h.toList_eq_firsts, answers_of_mirrors h hc' hd'⟩

/-- Keys of one last digit are one class: the map keeps 13, the oldest of three keys, and loses
what it held of the class of 1 at once. -/
theorem toList_after_toMap_digits :
    let s : Session Int64 Int64 :=
      Session.after ⟨.multimap (.empty KeyOrder.intMod.order), []⟩
        [.insert 13 0, .insert 1 1, .insert 3 2, .insert 11 3]
    let xs : List (SharedStep Int64 Int64) :=
      [.insert 23 4, .emplace 5 .fails, .extend (some 1) [⟨5, 5⟩, ⟨7, 6⟩], .remove 21]
    s.current.toList = [⟨1, 1⟩, ⟨11, 3⟩, ⟨13, 0⟩, ⟨3, 2⟩] ∧
      ((s.step .toMap).session.after (xs.map SharedStep.onMap)).current.toList =
        [⟨13, 0⟩, ⟨5, 5⟩] ∧
      ∃ (c : Multimap Int64 Int64) (d : Map Int64 Int64),
        (s.after (xs.map SharedStep.onMultimap)).current = .multimap c ∧
        ((s.step .toMap).session.after (xs.map SharedStep.onMap)).current = .map d ∧
        d.toList = c.toMap.value.toList := by
  intro s xs
  have hreached : s.Reached KeyOrder.intMod.order := ⟨.repeated, .empty, _, _, rfl, rfl⟩
  obtain ⟨c, d, hc, hd, hlist, -, -⟩ := toList_after_toMap hreached rfl xs
  exact ⟨by decide +kernel, by decide +kernel, c, d, hc, hd, hlist⟩

end Session

end FlatAssoc
