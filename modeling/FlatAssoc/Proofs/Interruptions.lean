import FlatAssoc.Proofs.Runs

/-!
# Interruptions

A visitor or a source that gives up leaves the container as it is by then. What that does to the
order is stated exactly. A retention only moves entries about, and leaves them out of order if and
only if one that stays was taken past a smaller one that goes (`Flat.validFor_retainWhile_iff`). A
load that is broken off leaves the new entries where they were put, after all others
(`Flat.extendFrom_of_broken`), unless the source belongs to several workers. A session keeps all
its containers in order as long as neither happens (`Session.sorted_after_calls`), and only so
long (`Session.interruptions_disorder`).
-/

namespace FlatAssoc

variable {m : Multiplicity} {K V : Type} {order : Comparator K}

/-! ## Retentions -/

namespace Visitor

/-- The entries that the visitor is shown until it gives up, as it changes them and with what it
says of them; `n` others were shown before. -/
def shown (visit : Visitor K V) (n : Nat) : List (Entry K V) → List (Entry K V × Bool)
  | [] => []
  | e :: es =>
    match (visit n e).2 with
    | none => []
    | some b => ({ e with value := (visit n e).1 }, b) :: shown visit (n + 1) es

/-- The entries that stay. -/
def stays (visit : Visitor K V) (n : Nat) (es : List (Entry K V)) : List (Entry K V) :=
  ((visit.shown n es).filter (·.2)).map (·.1)

/-- The entries that go. -/
def goes (visit : Visitor K V) (n : Nat) (es : List (Entry K V)) : List (Entry K V) :=
  ((visit.shown n es).filter (!·.2)).map (·.1)

/-- Whether the visitor does not see all of the entries. -/
def givesUp (visit : Visitor K V) (n : Nat) (es : List (Entry K V)) : Bool :=
  (visit.shown n es).length < es.length

/-- An entry that stays is not shown after a smaller one that goes. -/
def Patient (order : Comparator K) (js : List (Entry K V × Bool)) : Prop :=
  js.Pairwise fun x y => !x.2 → y.2 → order x.1.key y.1.key ≠ .lt

instance (order : Comparator K) (js : List (Entry K V × Bool)) : Decidable (Patient order js) :=
  inferInstanceAs (Decidable (js.Pairwise fun x y => !x.2 → y.2 → order x.1.key y.1.key ≠ .lt))

/-- Whether the visitor gives up when an entry was taken past a smaller one. -/
def disorders (order : Comparator K) (visit : Visitor K V) (es : List (Entry K V)) : Bool :=
  visit.givesUp 0 es && !decide (Patient order (visit.shown 0 es))

variable {visit : Visitor K V} {n : Nat} {e : Entry K V} {es : List (Entry K V)}

theorem shown_cons {b : Bool} (h : (visit n e).2 = some b) (es : List (Entry K V)) :
    visit.shown n (e :: es) = ({ e with value := (visit n e).1 }, b) :: visit.shown (n + 1) es := by
  rw [shown, h]

theorem shown_cons_of_none (h : (visit n e).2 = none) (es : List (Entry K V)) :
    visit.shown n (e :: es) = [] := by
  rw [shown, h]

theorem givesUp_cons {b : Bool} (h : (visit n e).2 = some b) (es : List (Entry K V)) :
    visit.givesUp n (e :: es) = visit.givesUp (n + 1) es := by
  simp [givesUp, shown_cons h]

theorem stays_append_goes_perm (visit : Visitor K V) (n : Nat) (es : List (Entry K V)) :
    (visit.stays n es ++ visit.goes n es).Perm ((visit.shown n es).map (·.1)) := by
  rw [stays, goes, ← List.map_append]
  exact (List.filter_append_perm _ _).map _

end Visitor

namespace Flat

open Visitor

variable {c : Flat m K V} {visit : Visitor K V} {n : Nat} {e : Entry K V}
  {kept gone es : List (Entry K V)}

theorem sweep_of_none (h : (visit n e).2 = none) :
    sweep visit n kept gone (e :: es) =
      (.error .visitorFailed, kept ++ gone ++ { e with value := (visit n e).1 } :: es) := by
  simp only [sweep, h]

theorem sweep_of_goes (h : (visit n e).2 = some false) :
    sweep visit n kept gone (e :: es) =
      sweep visit (n + 1) kept (gone ++ [{ e with value := (visit n e).1 }]) es := by
  simp only [sweep, h]

/-- An entry that stays is taken past those that go, of which the first comes to stand last. -/
theorem sweep_of_stays (h : (visit n e).2 = some true) (kept gone es : List (Entry K V)) :
    ∃ gone', gone'.Perm gone ∧ sweep visit n kept gone (e :: es) =
      sweep visit (n + 1) (kept ++ [{ e with value := (visit n e).1 }]) gone' es := by
  cases gone with
  | nil => exact ⟨[], .refl _, by simp only [sweep, h]⟩
  | cons g gone => exact ⟨gone ++ [g], List.perm_append_singleton g gone, by simp only [sweep, h]⟩

/-- A visitor that sees all entries leaves those that stay, in their order. -/
theorem sweep_of_finished (h : visit.givesUp n es = false) (kept gone : List (Entry K V)) :
    sweep visit n kept gone es = (.ok (), kept ++ visit.stays n es) := by
  induction es generalizing n kept gone with
  | nil => simp [sweep, stays, shown]
  | cons e es ih =>
    cases hv : (visit n e).2 with
    | none => simp [givesUp, shown_cons_of_none hv] at h
    | some b =>
      rw [givesUp_cons hv] at h
      cases b with
      | false => simp [sweep_of_goes hv, ih h, stays, shown_cons hv]
      | true =>
        obtain ⟨gone', -, hstep⟩ := sweep_of_stays hv kept gone es
        simp [hstep, ih h, stays, shown_cons hv]

/-- A visitor that gives up leaves the entries that stay, then in some order those that go, and
then the entry at which it gave up and the ones that it has not seen. -/
theorem sweep_of_broken (h : visit.givesUp n es = true) (kept gone : List (Entry K V)) :
    ∃ front x back gone', es = front ++ x :: back ∧
      (visit.shown n es).map (·.1.key) = front.map (·.key) ∧
      gone'.Perm (gone ++ visit.goes n es) ∧
      sweep visit n kept gone es = (.error .visitorFailed, kept ++ visit.stays n es ++ gone' ++
        { x with value := (visit (n + front.length) x).1 } :: back) := by
  induction es generalizing n kept gone with
  | nil => simp [givesUp] at h
  | cons e es ih =>
    cases hv : (visit n e).2 with
    | none =>
      refine ⟨[], e, es, gone, rfl, ?_, ?_, ?_⟩
      · simp [shown_cons_of_none hv]
      · simp [goes, shown_cons_of_none hv]
      · simp [sweep_of_none hv, stays, shown_cons_of_none hv]
    | some b =>
      rw [givesUp_cons hv] at h
      have hlength (front : List (Entry K V)) :
          n + (e :: front).length = n + 1 + front.length := by
        rw [List.length_cons, Nat.add_comm front.length, ← Nat.add_assoc]
      cases b with
      | false =>
        obtain ⟨front, x, back, gone', hes, hkeys, hgone, hsweep⟩ :=
          ih h kept (gone ++ [{ e with value := (visit n e).1 }])
        refine ⟨e :: front, x, back, gone', by rw [hes]; rfl, ?_, ?_, ?_⟩
        · simpa [shown_cons hv] using hkeys
        · simpa [goes, shown_cons hv] using hgone
        · rw [hlength, sweep_of_goes hv]
          simpa [stays, shown_cons hv] using hsweep
      | true =>
        obtain ⟨gone₁, hperm, hstep⟩ := sweep_of_stays hv kept gone es
        obtain ⟨front, x, back, gone', hes, hkeys, hgone, hsweep⟩ :=
          ih h (kept ++ [{ e with value := (visit n e).1 }]) gone₁
        refine ⟨e :: front, x, back, gone', by rw [hes]; rfl, ?_, ?_, ?_⟩
        · simpa [shown_cons hv] using hkeys
        · simpa [goes, shown_cons hv] using hgone.trans (hperm.append_right _)
        · rw [hlength, hstep]
          simpa [stays, shown_cons hv] using hsweep

theorem keys_sweep_perm (h : visit.givesUp 0 es = true) :
    ((sweep visit 0 [] [] es).2.map (·.key)).Perm (es.map (·.key)) := by
  obtain ⟨front, x, back, gone', hes, hkeys, hgone, hsweep⟩ := sweep_of_broken h [] []
  have hshown : (visit.stays 0 es ++ gone').Perm ((visit.shown 0 es).map (·.1)) :=
    (hgone.append_left _).trans (stays_append_goes_perm visit 0 es)
  have hfront : ((visit.stays 0 es ++ gone').map (·.key)).Perm (front.map (·.key)) := by
    have hmapped := hshown.map (·.key)
    rwa [List.map_map, Function.comp_def, hkeys] at hmapped
  have hall := hfront.append_right ((x :: back).map (·.key))
  rw [← List.map_append, ← List.map_append, ← hes] at hall
  rw [hsweep]
  simpa using hall

theorem sorted_iff_keys {es : List (Entry K V)} :
    Sorted order es ↔ (es.map (·.key)).Pairwise fun a b => order a b ≠ .gt :=
  Iff.symm List.pairwise_map

/-- Entries of one class may change places. -/
theorem sorted_replace [Std.TransCmp order] {xs ys zs ws : List (Entry K V)} {k : K}
    (h : Sorted order (xs ++ ys ++ zs)) (hp : ws.Perm ys) (hk : ∀ y ∈ ys, order y.key k = .eq) :
    Sorted order (xs ++ ws ++ zs) := by
  obtain ⟨hfront, hzs, hacross⟩ := List.pairwise_append.mp h
  obtain ⟨hxs, -, hxy⟩ := List.pairwise_append.mp hfront
  have hws : Sorted order ws := sorted_of_class fun w hw => hk w (hp.mem_iff.mp hw)
  refine List.pairwise_append.mpr ⟨List.pairwise_append.mpr ⟨hxs, hws, ?_⟩, hzs, ?_⟩
  · exact fun a ha b hb => hxy a ha b (hp.mem_iff.mp hb)
  · exact fun a ha => hacross a ((hp.append_left xs).mem_iff.mp ha)

/-- An entry may be taken past others unless one of them is smaller. -/
theorem sorted_overtake [Std.TransCmp order] {gone' : List (Entry K V)}
    (hs : Sorted order (kept ++ (gone ++ [e]) ++ es)) (hp : gone'.Perm gone)
    (hgone : ∀ g ∈ gone, order g.key e.key ≠ .lt) :
    Sorted order (kept ++ [e] ++ gone' ++ es) := by
  obtain ⟨hfront, -, -⟩ := List.pairwise_append.mp hs
  obtain ⟨-, hmiddle, -⟩ := List.pairwise_append.mp hfront
  have hclass : ∀ g ∈ gone ++ [e], order g.key e.key = .eq := by
    intro g hg
    rcases List.mem_append.mp hg with hg | hg
    · have hle : order g.key e.key ≠ .gt :=
        (List.pairwise_append.mp hmiddle).2.2 g hg e List.mem_cons_self
      cases hge : order g.key e.key with
      | eq => rfl
      | lt => exact absurd hge (hgone g hg)
      | gt => exact absurd hge hle
    · cases List.mem_singleton.mp hg
      exact Comparator.eq_self _
  have hmove : ([e] ++ gone').Perm (gone ++ [e]) :=
    List.perm_append_comm.trans (hp.append_right _)
  simpa using sorted_replace hs hmove hclass

theorem sorted_sweep [Std.TransCmp order] (hs : Sorted order (kept ++ gone ++ es))
    (hjs : Patient order (visit.shown n es))
    (hgone : ∀ g ∈ gone, ∀ y ∈ visit.shown n es, y.2 → order g.key y.1.key ≠ .lt) :
    Sorted order (sweep visit n kept gone es).2 := by
  induction es generalizing n kept gone with
  | nil => exact hs.sublist (by simp [sweep])
  | cons e es ih =>
    have hs' : Sorted order
        (kept ++ (gone ++ [{ e with value := (visit n e).1 }]) ++ es) := by
      simpa [sorted_iff_keys] using hs
    cases hv : (visit n e).2 with
    | none => simpa [sweep_of_none hv] using hs'
    | some b =>
      rw [shown_cons hv] at hjs hgone
      obtain ⟨hfirst, hrest⟩ := List.pairwise_cons.mp hjs
      cases b with
      | false =>
        rw [sweep_of_goes hv]
        refine ih (by simpa using hs') hrest fun g hg y hy hstays => ?_
        rcases List.mem_append.mp hg with hg | hg
        · exact hgone g hg y (List.mem_cons_of_mem _ hy) hstays
        · cases List.mem_singleton.mp hg
          exact hfirst y hy rfl hstays
      | true =>
        obtain ⟨gone', hperm, hstep⟩ := sweep_of_stays hv kept gone es
        have hmoved := sorted_overtake hs' hperm fun g hg => hgone g hg _ List.mem_cons_self rfl
        rw [hstep]
        refine ih hmoved hrest fun g hg y hy hstays => ?_
        exact hgone g (hperm.mem_iff.mp hg) y (List.mem_cons_of_mem _ hy) hstays

/-- An entry that stays and was taken past a smaller one stands before it at the end. -/
theorem patient_of_sorted [Std.TransCmp order] (h : visit.givesUp n es = true)
    (hs : Sorted order (sweep visit n [] [] es).2) : Patient order (visit.shown n es) := by
  obtain ⟨front, x, back, gone', -, -, hgone, hsweep⟩ := sweep_of_broken h [] []
  rw [hsweep] at hs
  obtain ⟨hfront, -, -⟩ := List.pairwise_append.mp hs
  refine List.pairwise_iff_getElem.mpr fun i j hi hj hij hgoes hstays hlt => ?_
  have hj' : (visit.shown n es)[j].1 ∈ [] ++ visit.stays n es :=
    List.mem_map_of_mem (List.mem_filter.mpr ⟨List.getElem_mem hj, hstays⟩)
  have hi' : (visit.shown n es)[i].1 ∈ gone' :=
    hgone.mem_iff.mpr (List.mem_map_of_mem (List.mem_filter.mpr ⟨List.getElem_mem hi, hgoes⟩))
  exact (List.pairwise_append.mp hfront).2.2 _ hj' _ hi' (Std.OrientedCmp.gt_of_lt hlt)

/-! ### What is left of the container -/

theorem retainWhile_of_finished (h : visit.givesUp 0 c.toList = false) :
    (c.retainWhile visit).1 = .ok () ∧ (c.retainWhile visit).2.toList = visit.stays 0 c.toList := by
  rw [retainWhile, sweep_of_finished h]
  exact ⟨rfl, Buffer.toList_ofList _⟩

theorem retainWhile_of_broken (h : visit.givesUp 0 c.toList = true) :
    (c.retainWhile visit).1 = .error .visitorFailed ∧ (c.retainWhile visit).2.keys.Perm c.keys := by
  obtain ⟨_, _, _, _, -, -, -, hsweep⟩ := sweep_of_broken h [] []
  refine ⟨congrArg Prod.fst hsweep, ?_⟩
  have hlist : (c.retainWhile visit).2.toList = (sweep visit 0 [] [] c.toList).2 :=
    Buffer.toList_ofList _
  rw [keys, hlist]
  exact keys_sweep_perm h

theorem keys_stays_sublist (visit : Visitor K V) (n : Nat) (es : List (Entry K V)) :
    ((visit.stays n es).map (·.key)).Sublist (es.map (·.key)) := by
  induction es generalizing n with
  | nil => exact List.Sublist.slnil
  | cons e es ih =>
    cases hv : (visit n e).2 with
    | none => simp [stays, shown_cons_of_none hv]
    | some b =>
      have hrest := ih (n + 1)
      cases b with
      | false => simpa [stays, shown_cons hv] using hrest.cons e.key
      | true => simpa [stays, shown_cons hv] using hrest

theorem ValidFor.of_keys_perm [Std.TransCmp order] {d : Flat m K V} (h : c.ValidFor order)
    (ho : d.order = c.order) (hp : d.keys.Perm c.keys) (hs : Sorted order d.toList) :
    d.ValidFor order := by
  obtain ⟨rfl, hvalid⟩ := h
  have hkeys : d.keys.Pairwise fun a b => c.order a b ≠ .gt := sorted_iff_keys.mp hs
  refine ⟨ho, ?_⟩
  cases m with
  | repeated =>
    show d.keys.Pairwise fun a b => d.order a b ≠ .gt
    rwa [ho]
  | unique =>
    have hne : d.keys.Pairwise fun a b => c.order a b ≠ .eq := by
      refine (hp.pairwise_iff fun hab hba => hab (Std.OrientedCmp.eq_symm hba)).mpr ?_
      refine List.Pairwise.imp (fun hab => ?_) hvalid
      rw [hab]
      nofun
    show d.keys.Pairwise fun a b => d.order a b = .lt
    rw [ho]
    refine hkeys.imp₂ (fun a b hle hne => ?_) hne
    cases hab : c.order a b with
    | lt => rfl
    | eq => exact absurd hab hne
    | gt => exact absurd hab hle

/-- A retention leaves a valid container unless the visitor disorders it. -/
theorem validFor_retainWhile_iff [Std.TransCmp order] (h : c.ValidFor order) :
    (c.retainWhile visit).2.ValidFor order ↔ visit.disorders order c.toList = false := by
  have hlist : (c.retainWhile visit).2.toList = (sweep visit 0 [] [] c.toList).2 :=
    Buffer.toList_ofList _
  cases hend : visit.givesUp 0 c.toList with
  | false =>
    refine iff_of_true (h.of_sublist rfl ?_) (by rw [disorders, hend, Bool.false_and])
    rw [keys, (retainWhile_of_finished hend).2]
    exact keys_stays_sublist visit 0 c.toList
  | true =>
    rw [disorders, hend, Bool.true_and, Bool.not_eq_false', decide_eq_true_iff]
    constructor
    · intro hleft
      exact patient_of_sorted hend (hlist ▸ hleft.sorted)
    · intro hpatient
      refine h.of_keys_perm rfl (retainWhile_of_broken hend).2 ?_
      rw [hlist]
      exact sorted_sweep h.sorted hpatient fun _ hg => absurd hg List.not_mem_nil

end Flat

/-! ## Loads -/

/-- Whether the source gives up on a load that puts entries into the container as they come. -/
def Source.breaksOff (s : Source K V) (upper : Option Nat) : Bool :=
  !s.ends && upper != some 0 && upper != some 1

namespace Flat

instance : (m : Multiplicity) → (c : Flat m K V) → Decidable c.Valid
  | .unique, c => inferInstanceAs (Decidable (c.keys.Pairwise fun a b => c.order a b = .lt))
  | .repeated, c => inferInstanceAs (Decidable (c.keys.Pairwise fun a b => c.order a b ≠ .gt))

variable {c : Flat m K V} {s : Source K V} {upper : Option Nat}

/-- A load that is broken off has put its entries after all others. -/
theorem extendFrom_of_broken (h : s.breaksOff upper = true) :
    c.extendFrom upper s =
      pure (.error .sourceFailed, { c with entries := c.entries.append s.items }) := by
  obtain ⟨items, ends⟩ := s
  cases ends with
  | true => simp [Source.breaksOff] at h
  | false =>
    match upper with
    | some 0 | some 1 => simp [Source.breaksOff] at h
    | none | some (_ + 2) => rfl

/-- Any other load takes in the entries that it would take from a source that ends. -/
theorem left_extendFrom (h : s.breaksOff upper = false) :
    (c.extendFrom upper s).value.2 = (c.extend upper s.items).value := by
  obtain ⟨items, ends⟩ := s
  cases ends with
  | true => rfl
  | false =>
    match upper, items with
    | some 0, _ | some 1, [] | some 1, _ :: _ => rfl
    | none, _ | some (_ + 2), _ => simp [Source.breaksOff] at h

/-- Several workers do not touch the container before their source has ended. -/
theorem left_gatherFrom (c : Flat m K V) (s : Source K V) :
    (c.gatherFrom s).value.2 = if s.ends then (c.gatherInto s.items).value else c := by
  obtain ⟨items, ends⟩ := s
  cases ends <;> rfl

/-! ## Calls -/

/-- Whether a load that is broken off leaves entries out of order. -/
def cutOff (c : Flat m K V) (upper : Option Nat) (s : Source K V) : Bool :=
  s.breaksOff upper && !decide ({ c with entries := c.entries.append s.items } : Flat m K V).Valid

theorem validFor_extendFrom_iff [Std.TransCmp order] (h : c.ValidFor order) :
    (c.extendFrom upper s).value.2.ValidFor order ↔ c.cutOff upper s = false := by
  cases hend : s.breaksOff upper with
  | false =>
    refine iff_of_true ?_ (by rw [cutOff, hend, Bool.false_and])
    rw [left_extendFrom hend]
    exact (takesIn_extend h upper s.items).validFor
  | true =>
    rw [cutOff, hend, Bool.true_and, Bool.not_eq_false', decide_eq_true_iff,
      extendFrom_of_broken hend]
    exact ⟨fun hleft => hleft.valid, fun hvalid => ⟨h.order_eq, hvalid⟩⟩

theorem validFor_gatherFrom [Std.TransCmp order] (h : c.ValidFor order) (s : Source K V) :
    (c.gatherFrom s).value.2.ValidFor order := by
  rw [left_gatherFrom]
  split
  · exact (takesIn_gatherInto h s.items).validFor
  · exact h

/-- Whether a call leaves the entries of a valid container out of order. -/
def disorders [Key K] (c : Flat m K V) : Call K V → Bool
  | .step _ | .gather _ | .gatherCopied _ => false
  | .retain visit => visit.disorders c.order c.toList
  | .extend upper s => c.cutOff upper s
  | .extendCopied upper s => Key.copied K && c.cutOff upper s

theorem validFor_pack : c.pack.ValidFor order ↔ c.ValidFor order := by
  cases m <;> exact Iff.rfl

variable [DecidableEq K] [DecidableEq V] [Inhabited V] [Key K] [Document K V] [Std.TransCmp order]

/-- A call leaves a valid container unless it disorders the entries. -/
theorem validFor_call_iff (h : c.ValidFor order) (x : Call K V) :
    (c.call x).ValidFor order ↔ c.disorders x = false := by
  cases x with
  | step x => exact iff_of_true (validFor_step h x) rfl
  | retain visit =>
    rw [disorders, h.order_eq]
    exact validFor_pack.trans (validFor_retainWhile_iff h)
  | extend upper s => exact validFor_pack.trans (validFor_extendFrom_iff h)
  | extendCopied upper s =>
    simp only [call, disorders]
    split
    · rename_i hcopied
      rw [hcopied, Bool.true_and]
      exact validFor_pack.trans (validFor_extendFrom_iff h)
    · rename_i hcopied
      exact iff_of_true h.pack (by simp [hcopied])
  | gather s => exact iff_of_true (validFor_gatherFrom h s).pack rfl
  | gatherCopied s =>
    refine iff_of_true ?_ rfl
    simp only [call]
    split
    · exact (validFor_gatherFrom h s).pack
    · exact h.pack

end Flat

namespace Container

/-- Whether a call leaves the entries of a valid container out of order. -/
def disorders [Key K] : Container K V → Call K V → Bool
  | .map c, x => c.disorders x
  | .multimap c, x => c.disorders x

variable [DecidableEq K] [DecidableEq V] [Inhabited V] [Key K] [Document K V] [Std.TransCmp order]

theorem validFor_call_iff {c : Container K V} (h : c.ValidFor order) (x : Call K V) :
    (c.call x).ValidFor order ↔ c.disorders x = false := by
  cases c with
  | map c => exact Flat.validFor_call_iff h x
  | multimap c => exact Flat.validFor_call_iff h x

end Container

/-! ## Runs -/

namespace Session

variable [DecidableEq K] [DecidableEq V] [Inhabited V] [Key K] [Document K V]

/-- Whether any of the calls, when its turn comes, leaves the entries out of order. -/
def disorders (s : Session K V) : List (Call K V) → Bool
  | [] => false
  | x :: xs => s.current.disorders x || (s.call x).session.disorders xs

variable [Std.TransCmp order] {s : Session K V}

theorem validFor_call (h : s.ValidFor order) {x : Call K V}
    (hx : s.current.disorders x = false) : (s.call x).session.ValidFor order := by
  have hcurrent := h _ List.mem_cons_self
  have hsettle : (s.settle (s.current.call x)).session.ValidFor order :=
    validFor_settle h ((Container.validFor_call_iff hcurrent x).mpr hx)
  cases x with
  | step x => exact validFor_step h x
  | retain | extend | extendCopied | gather | gatherCopied => exact hsettle

theorem validFor_afterCalls (h : s.ValidFor order) {xs : List (Call K V)}
    (hxs : s.disorders xs = false) : (s.afterCalls xs).ValidFor order := by
  induction xs generalizing s with
  | nil => exact h
  | cons x xs ih =>
    obtain ⟨hx, hrest⟩ := Bool.or_eq_false_iff.mp hxs
    exact ih (validFor_call h hx) hrest

/-- Whatever a session was started with and whatever was called, as long as no call that was broken
off left entries out of order, each container has its keys in order under the comparator of the
start, and a unique one has no two keys of one class. -/
theorem sorted_after_calls {b : Build K V} {x : Reported (Session K V)}
    (hx : b.start m order = .ok x) {xs : List (Call K V)} (hxs : x.value.disorders xs = false)
    {c : Container K V} (hc : c ∈ (x.value.afterCalls xs).containers) :
    c.comparator = order ∧ (c.toList.Pairwise fun e f => c.comparator e.key f.key ≠ .gt) ∧
      ∀ d, c = .map d → d.toList.Pairwise fun e f => d.order e.key f.key = .lt := by
  have h := validFor_afterCalls (Build.validFor_start hx) hxs c hc
  cases c with
  | map d =>
    obtain ⟨rfl, hvalid⟩ : d.ValidFor order := h
    refine ⟨rfl, (Flat.valid_iff.mp hvalid).1, ?_⟩
    rintro _ ⟨⟩
    exact List.pairwise_map.mp hvalid
  | multimap d =>
    obtain ⟨rfl, hvalid⟩ : d.ValidFor order := h
    refine ⟨rfl, (Flat.valid_iff.mp hvalid).1, ?_⟩
    rintro _ ⟨⟩

/-- A visitor that gives up after it let entries stay and others go, in this order, changes no more
than values; several workers whose source gives up change nothing. -/
theorem sorted_after_calls_digits :
    let s : Session Int64 Int64 := ⟨.map (.empty KeyOrder.intMod.order), []⟩
    let calls : List (Call Int64 Int64) :=
      [.step (.insert 24 1), .step (.insert 13 2), .step (.insert 5 3),
        .retain fun n e => (e.value + 10, if n = 0 then some true else
          if n = 1 then some false else none),
        .gather ⟨[⟨1, 4⟩], false⟩, .extend (some 1) ⟨[⟨2, 5⟩, ⟨1, 6⟩], false⟩]
    let t := s.afterCalls calls
    t.current.toList = [⟨2, 5⟩, ⟨13, 12⟩, ⟨24, 11⟩, ⟨5, 13⟩] ∧
      t.current.toList.Pairwise fun e f => t.current.comparator e.key f.key ≠ .gt := by
  intro s calls t
  have hcalls : s.disorders calls = false := by decide +kernel
  refine ⟨by decide +kernel, ?_⟩
  exact (sorted_after_calls (b := .empty) (m := .unique) (x := pure s) rfl hcalls
    List.mem_cons_self).2.1

/-- Of four keys the first goes, the second stays, and the visitor gives up at the third: the
second is left before the first. A source that gives up leaves what it gave as it gave it, in a
unique container as well. -/
theorem interruptions_disorder :
    let visited := Session.call
      (Session.after ⟨.multimap (.empty KeyOrder.int.order), []⟩
        [.insert 1 10, .insert 2 20, .insert 3 30, .insert 4 40] : Session Int64 Int64)
      (.retain fun n e => (e.value, if n = 0 then some false else
        if n = 1 then some true else none))
    let loaded := Session.call
      (Session.after ⟨.map (.empty KeyOrder.int.order), []⟩ [.insert 1 10] :
        Session Int64 Int64)
      (.extend none ⟨[⟨1, 11⟩, ⟨0, 0⟩], false⟩)
    (visited.answer = .error .visitorFailed ∧
      visited.session.current.toList = [⟨2, 20⟩, ⟨1, 10⟩, ⟨3, 30⟩, ⟨4, 40⟩] ∧
      ¬ visited.session.current.toList.Pairwise fun e f =>
        KeyOrder.int.order e.key f.key ≠ .gt) ∧
    loaded.answer = .error .sourceFailed ∧
      loaded.session.current.toList = [⟨1, 10⟩, ⟨1, 11⟩, ⟨0, 0⟩] ∧
      ¬ loaded.session.current.toList.Pairwise fun e f =>
        KeyOrder.int.order e.key f.key ≠ .gt := by
  refine ⟨⟨?_, ?_, ?_⟩, ?_, ?_, ?_⟩
  · with_unfolding_all rfl
  · decide +kernel
  · decide +kernel
  · with_unfolding_all rfl
  · decide +kernel
  · decide +kernel

end Session

end FlatAssoc
