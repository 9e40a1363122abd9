import FlatAssoc.Proofs.Refinement

/-!
# Panics

A panic is a failure that a caller cannot go on from. A step of a valid container panics in the
cases that `Flat.Panics` lists (`Flat.Panics.answer_eq`) and in no other
(`Flat.panics_of_answer`): every position and every difference that the operations compute from a
consistent probe is in bounds (`Flat.inBounds`), so that no search, no range of matches and no slot
of a value ever fails.
-/

namespace FlatAssoc

variable {m : Multiplicity} {K V : Type} {order : Comparator K}

/-! ## What panics -/

/-- The failures that a caller cannot go on from, as opposed to refusals, which are answered. -/
def Failure.IsPanic : Failure → Prop
  | .noEntry | .makerFailed | .visitorFailed | .sourceFailed | .badRange | .outOfBounds
  | .noRoom => True
  | .roomRefused | .keyNotText | .unreadable _ | .notOffered => False

/-- The two bounds delimit a part of `size` positions. -/
def Bound.Delimit (lo hi : Bound) (size : Nat) : Prop :=
  ∃ start stop, lo.start? = some start ∧ hi.stop? size = some stop ∧ start ≤ stop ∧ stop ≤ size

/-- The steps that panic, each with its failure. -/
inductive Flat.Panics : {m : Multiplicity} → Flat m K V → Step K V → Failure → Prop
  /-- What is required does not match any entry. -/
  | index {m : Multiplicity} {c : Flat m K V} {t : Target K}
    (h : ∀ e ∈ c.toList, t.under c.order e.key ≠ .eq) : Panics c (.look .index t) .noEntry
  | removeRange {m : Multiplicity} {c : Flat m K V} {lo hi : Bound} {script : List Request}
    (h : ¬ lo.Delimit hi c.size) : Panics c (.removeRange lo hi script) .badRange
  /-- A multimap always runs the maker. -/
  | emplace {c : Multimap K V} {k : K} : Panics c (.emplace k .fails) .makerFailed
  /-- A map runs the maker for a new class only. -/
  | emplaceNew {c : Map K V} {k : K} (h : ∀ e ∈ c.toList, c.order e.key k ≠ .eq) :
    Panics c (.emplace k .fails) .makerFailed
  /-- An assignment always runs the maker. -/
  | emplaceOrAssign {c : Map K V} {k : K} : Panics c (.emplaceOrAssign k .fails) .makerFailed
  | getOrInsertWith {c : Map K V} {k : K} {f : V → V}
    (h : ∀ e ∈ c.toList, c.order e.key k ≠ .eq) :
    Panics c (.getOrInsertWith k .fails f) .makerFailed
  /-- More room is demanded than there can be. -/
  | reserve {m : Multiplicity} {c : Flat m K V} {n : Nat} (h : roomLimit ≤ n) :
    Panics c (.reserve n) .noRoom

/-- Documents that are refused only for a key that has no form as a name. -/
class Document.RefusesKeysOnly (K V : Type) [Document K V] : Prop where
  write_eq_error {es : List (Entry K V)} {e : Failure} :
    Document.write es = .error e → e = .keyNotText

/-! ## Probes of steps -/

/-- What a traversal seeks, if it seeks anything. -/
def Tour.target? : Tour K → Option (Target K)
  | .matching t | .lentMatching t => some t
  | _ => none

/-- What a step seeks, if it seeks anything. -/
def Step.target? : Step K V → Option (Target K)
  | .look _ t | .compare _ t | .update t _ | .take _ t | .removeAll t => some t
  | .tour t _ _ | .tourAll t _ => t.target?
  | _ => none

/-- A probe of the caller's own is consistent along the stored keys. -/
def Step.ConsistentAlong (x : Step K V) (keys : List K) : Prop :=
  ∀ p, x.target? = some (.probe p) → p.Consistent keys

theorem map_ne_error {ε α β : Type} {x : Except ε α} {a : α} (h : x = .ok a) (f : α → β)
    (e : ε) : f <$> x ≠ .error e := by
  rw [h]
  exact fun h => nomatch h

namespace Flat

variable {c : Flat m K V}

/-! ## Positions in bounds -/

theorem isPart_matchRange {c : Multimap K V} {p : Probe K} (h : c.ConsistentWith p) :
    c.entries.IsPart (c.matchRange p).value.1 (c.matchRange p).value.2 := by
  simp only [matchRange, Noted.value_bind]
  cases (c.outside p).value with
  | true => exact ⟨Nat.le_refl 0, Nat.zero_le _⟩
  | false => exact isPart_bounds h

theorem isPart_zipIdx {b : Buffer (Entry K V)} {start stop : Nat} (h : b.IsPart start stop) :
    b.zipIdx.IsPart start stop := by
  unfold Buffer.IsPart at *
  rw [Buffer.size_eq_length, Buffer.toList_zipIdx, List.length_zipIdx, ← Buffer.size_eq_length]
  exact h

theorem removeRange_eq_ok {lo hi : Bound} (h : lo.Delimit hi c.size) :
    ∃ es d, c.removeRange lo hi = (.ok es, d) := by
  obtain ⟨start, stop, hlo, hhi, hpart⟩ := h
  have hok := removePart_eq_ok c hpart
  simp only [removeRange, hlo, hhi, hok]
  exact ⟨_, _, rfl⟩

theorem removeRange_eq_error {lo hi : Bound} (h : ¬ lo.Delimit hi c.size) :
    c.removeRange lo hi = (.error .badRange, c) := by
  unfold removeRange
  split
  · rename_i start stop hlo hhi
    apply removePart_eq_error
    intro hpart
    exact h ⟨start, stop, hlo, hhi, hpart⟩
  · rfl

theorem firstMatch?_eq_none_iff {p : Probe K} (h : c.ConsistentWith p) :
    (c.firstMatch? p).value = none ↔ ∀ e ∈ c.toList, p e.key ≠ .eq := by
  have hget := any_get?_lowerBound h
  rw [firstMatch?, Noted.value_map, value_find? h]
  cases hany : c.toList.any fun e => p e.key == .eq with
  | true =>
    rw [hany] at hget
    constructor
    · intro hnone
      have hnone : c.get? (c.toList.countP fun e => p e.key == .lt) = none := hnone
      rw [hnone] at hget
      cases hget
    · intro hall
      rw [any_match_eq_false hall] at hany
      cases hany
  | false =>
    refine ⟨fun _ e he heq => ?_, fun _ => rfl⟩
    have := List.any_eq_false.mp hany e he
    simp [heq] at this

theorem consistentWith_target [Std.TransCmp order] (h : c.ValidFor order) {x : Step K V}
    (hx : x.ConsistentAlong c.keys) {t : Target K} (ht : x.target? = some t) :
    c.ConsistentWith (t.under order) := by
  cases t with
  | key k => exact h.consistentWith k
  | probe p => exact hx p ht

/-- A traversal is refused where there is none, and never for its range. -/
theorem tour_eq_error {t : Tour K} {script : List Request} {f : V → V} {e : Failure}
    (ht : ∀ u, t.target? = some u → c.ConsistentWith (u.under c.order))
    (he : (c.tour t script f).value.1 = .error e) : e = .notOffered := by
  cases t with
  | entries | keys | values | lentEntries | lentValues => cases he
  | ownedEntries | ownedKeys | ownedValues => cases he
  | drained =>
    obtain ⟨d, hdrain, -⟩ := c.exists_drain_eq
    exact absurd he (map_ne_error (congrArg Prod.fst hdrain) _ e)
  | matching u =>
    cases m with
    | unique =>
      cases he
      rfl
    | repeated =>
      have hpart := Buffer.part_eq_ok (isPart_matchRange (ht u rfl))
      simp only [tour, matches?, Noted.value_map, hpart, throughPart] at he
      cases he
  | lentMatching u =>
    cases m with
    | unique =>
      cases he
      rfl
    | repeated =>
      have hpart := Buffer.part_eq_ok (isPart_zipIdx (isPart_matchRange (ht u rfl)))
      simp only [tour, lentMatches?, Noted.value_map, hpart, throughPart] at he
      cases he

section

variable {α : Type} {x : Asked K (Making m K V α)} {f : α → Nat → Answer K V} {e : Failure}

theorem answer_ne_error_of_gives {r : α × Flat m K V} (hx : x.value.Gives c r) :
    (c.making x f).answer ≠ .error e := by
  rw [making_of_gives hx]
  nofun

theorem eq_fails_of_answer {make : Maker V} {g : V → α × Flat m K V}
    (hx : x.value.Makes c make g) (he : (c.making x f).answer = .error e) :
    make = .fails ∧ e = .makerFailed := by
  cases make with
  | gives v =>
    rw [making_of_makes hx] at he
    cases he
  | fails =>
    rw [making_of_fails hx] at he
    cases he
    exact ⟨rfl, rfl⟩

theorem answer_of_fails {g : V → α × Flat m K V} (hx : x.value.Makes c .fails g) :
    (c.making x f).answer = .error .makerFailed := by rw [making_of_fails hx]

end

/-! ## Steps -/

section

variable [Std.TransCmp order] [DecidableEq K] [DecidableEq V] [Inhabited V] [Key K] [Document K V]

/-- What is listed as a panic is one. -/
theorem Panics.answer_eq (h : c.ValidFor order) {x : Step K V} {e : Failure}
    (hx : x.ConsistentAlong c.keys) (hp : c.Panics x e) : (c.step x).answer = .error e := by
  obtain rfl : c.order = order := h.order_eq
  cases hp with
  | @index _ _ t hnone =>
    have hcons : c.ConsistentWith (t.under c.order) := consistentWith_target h hx rfl
    have hvalue := (firstMatch?_eq_none_iff hcons).mpr hnone
    show Answer.value <$> (c.index (t.under c.order)).value = _
    rw [Flat.index, Noted.value_map, hvalue]
    rfl
  | @removeRange _ _ lo hi script hrange =>
    show _ <$> (readTaken (c.removeRange lo hi) script).1 = _
    rw [removeRange_eq_error hrange]
    rfl
  | @emplace _ k => exact answer_of_fails (makes_emplace h rfl .fails)
  | @emplaceNew c k hnone =>
    have hroom : Multiplicity.unique.full (ofClass c.order k c.toList) = false := by
      rw [ofClass_eq_nil.mpr hnone]
      rfl
    exact answer_of_fails (makes_emplace h hroom .fails)
  | @emplaceOrAssign _ k =>
    rcases ofClass_cases h k with he | ⟨f, he⟩
    · exact answer_of_fails (makes_emplaceOrAssign_free h he .fails)
    · exact answer_of_fails (makes_emplaceOrAssign_held h he .fails)
  | @getOrInsertWith _ k f hnone =>
    exact answer_of_fails (makes_getOrInsertWith_free h (ofClass_eq_nil.mpr hnone) .fails f)
  | reserve hroom =>
    show (if _ then _ else _ : Effect K V).answer = _
    rw [if_neg (Nat.not_lt.mpr hroom)]
    rfl

theorem panics_emplace (h : c.ValidFor order) {k : K} {make : Maker V} {e : Failure}
    (he : (c.step (.emplace k make)).answer = .error e) : c.Panics (.emplace k make) e := by
  obtain rfl : c.order = order := h.order_eq
  cases hfull : m.full (ofClass c.order k c.toList) with
  | true => exact absurd he (answer_ne_error_of_gives (gives_emplace h hfull make.run))
  | false =>
    obtain ⟨rfl, rfl⟩ := eq_fails_of_answer (makes_emplace h hfull make) he
    cases m with
    | repeated => exact .emplace
    | unique =>
      have hnil : ofClass c.order k c.toList = [] := by simpa [Multiplicity.full] using hfull
      exact .emplaceNew (ofClass_eq_nil.mp hnil)

theorem panics_emplaceOrAssign {c : Map K V} (h : c.ValidFor order) {k : K} {make : Maker V}
    {e : Failure} (he : (c.step (.emplaceOrAssign k make)).answer = .error e) :
    c.Panics (.emplaceOrAssign k make) e := by
  rcases ofClass_cases h k with hk | ⟨f, hk⟩
  · obtain ⟨rfl, rfl⟩ := eq_fails_of_answer (makes_emplaceOrAssign_free h hk make) he
    exact .emplaceOrAssign
  · obtain ⟨rfl, rfl⟩ := eq_fails_of_answer (makes_emplaceOrAssign_held h hk make) he
    exact .emplaceOrAssign

theorem panics_getOrInsertWith {c : Map K V} (h : c.ValidFor order) {k : K} {make : Maker V}
    {f : V → V} {e : Failure} (he : (c.step (.getOrInsertWith k make f)).answer = .error e) :
    c.Panics (.getOrInsertWith k make f) e := by
  obtain rfl : c.order = order := h.order_eq
  rcases ofClass_cases h k with hk | ⟨g, hk⟩
  · obtain ⟨rfl, rfl⟩ := eq_fails_of_answer (makes_getOrInsertWith_free h hk make f) he
    exact .getOrInsertWith (ofClass_eq_nil.mp hk)
  · exact absurd he (answer_ne_error_of_gives (gives_getOrInsertWith_held h hk make.run f))

theorem panics_index (h : c.ValidFor order) {t : Target K} {e : Failure}
    (hx : (Step.look .index t : Step K V).ConsistentAlong c.keys)
    (he : (c.step (.look .index t)).answer = .error e) : c.Panics (.look .index t) e := by
  obtain rfl : c.order = order := h.order_eq
  have hcons : c.ConsistentWith (t.under c.order) := consistentWith_target h hx rfl
  have hindex : (c.index (t.under c.order)).value = .error e := eq_error_of_map he
  rw [index, Noted.value_map] at hindex
  cases hfirst : (c.firstMatch? (t.under c.order)).value with
  | some f =>
    rw [hfirst] at hindex
    cases hindex
  | none =>
    rw [hfirst] at hindex
    cases hindex
    exact .index ((firstMatch?_eq_none_iff hcons).mp hfirst)

theorem panics_of_answer [Document.RefusesKeysOnly K V] (h : c.ValidFor order) {x : Step K V}
    {e : Failure} (hx : x.ConsistentAlong c.keys) (hp : e.IsPanic)
    (he : (c.step x).answer = .error e) : c.Panics x e := by
  obtain rfl : c.order = order := h.order_eq
  cases x with
  -- what fails neither by its definition nor by what it calls
  | size | isEmpty | first | last | getAt | slices | capacity | shrink => cases he
  | compare | equals | update | clear | takeOver | retain => cases he
  | popFirst | popLast | removeAt | take => cases he
  | insert | add | extend | gather | rebuild => cases he
  | debug pretty => cases pretty <;> cases he
  | look l t =>
    cases l with
    | first f => cases f <;> cases he
    | index => exact panics_index h hx he
    | position | count | lower | upper | range => cases he
  | document =>
    have hwrite := Document.RefusesKeysOnly.write_eq_error (eq_error_of_map he)
    cases hwrite
    cases hp
  | reserve n =>
    simp only [step] at he
    split at he
    · cases he
    · rename_i hn
      cases he
      exact .reserve (Nat.not_lt.mp hn)
  | tryReserve n =>
    simp only [step] at he
    split at he <;> cases he
    cases hp
  | updateAt i f =>
    simp only [step] at he
    split at he <;> cases he
  | removeRange lo hi script =>
    by_cases hrange : lo.Delimit hi c.size
    · obtain ⟨es, d, hr⟩ := removeRange_eq_ok hrange
      exact absurd (eq_error_of_map he) (map_ne_error (congrArg Prod.fst hr) _ e)
    · have hfail : (c.removeRange lo hi).1 = .error e := eq_error_of_map (eq_error_of_map he)
      rw [removeRange_eq_error hrange] at hfail
      cases hfail
      exact .removeRange hrange
  | removeAll t =>
    cases m with
    | unique =>
      cases he
      cases hp
    | repeated =>
      obtain ⟨d, hd, -⟩ := value_removeAll (consistentWith_target h hx (t := t) rfl)
      exact absurd he (map_ne_error (congrArg Prod.fst hd) _ e)
  | tour t script f | tourAll t f =>
    have hfail := eq_error_of_map he
    rw [tour_eq_error (fun u hu => consistentWith_target h hx hu) hfail] at hp
    cases hp
  | emplace k make => exact panics_emplace h he
  | insertOrAssign k v =>
    cases m with
    | unique =>
      exact absurd (eq_error_of_map he) (insertOrAssign_ne_error h k v e)
    | repeated =>
      cases he
      cases hp
  | getOrDefault k f =>
    cases m with
    | unique =>
      exact absurd (eq_error_of_map he) (getOrDefault_ne_error h k f e)
    | repeated =>
      cases he
      cases hp
  | emplaceOrAssign k make =>
    cases m with
    | unique => exact panics_emplaceOrAssign h he
    | repeated =>
      cases he
      cases hp
  | getOrInsertWith k make f =>
    cases m with
    | unique => exact panics_getOrInsertWith h he
    | repeated =>
      cases he
      cases hp
  | extendCopied | gatherCopied =>
    simp only [step] at he
    split at he <;> cases he
  | toMultimap | toMap =>
    cases m <;> cases he
    cases hp
  | fork | swap | same =>
    cases he
    cases hp

end

/-! ## Bounds -/

/-- The range that a traversal of all matches runs over is a part of the container. -/
def MatchesInBounds : {m : Multiplicity} → Flat m K V → Prop
  | .repeated, c => ∀ p, c.ConsistentWith p →
    (c.matchRange p).value.1 ≤ (c.matchRange p).value.2 ∧ (c.matchRange p).value.2 ≤ c.size
  | .unique, _ => True

/-- The positions and differences that the operations of a container rely on. -/
structure InBounds (c : Flat m K V) : Prop where
  traversed : c.MatchesInBounds
  /-- The range of all matches, as a removal takes it. -/
  bounds (p : Probe K) (h : c.ConsistentWith p) :
    (c.bounds p).value.1 ≤ (c.bounds p).value.2 ∧ (c.bounds p).value.2 ≤ c.size
  /-- The last position, where a search looks once there is a first entry. -/
  last (e : Entry K V) (h : c.first? = some e) : 1 ≤ c.size
  /-- The number of entries that the uniqueness pass drops. -/
  dropped (es : List (Entry K V)) : (collapse c.order es).length ≤ es.length
  /-- The slot of a class that is held. -/
  held (k : K) (i : Nat) (h : (c.spot k).value = .held i) : i < c.size
  /-- The place of a class that is not. -/
  free (k : K) (i : Nat) (h : (c.spot k).value = .free i) : i ≤ c.size
  /-- The slot of a value, whether it was there or has just been put there. -/
  slot (k : K) (v : V) :
    (c.insert k v).value.1.position < (c.insert k v).value.2.size

theorem size_place {i : Nat} (h : i ≤ c.size) (e : Entry K V) :
    (c.place i e).size = c.size + 1 := by
  rw [size_eq_length, toList_place c h, List.length_append, List.length_cons, List.length_take,
    List.length_drop, ← size_eq_length]
  omega

variable [Std.TransCmp order]

theorem rank_lt_size (h : c.ValidFor order) {k : K}
    (hfull : m.full (ofClass order k c.toList) = true) : rank m order k c.toList < c.size := by
  cases m with
  | repeated => cases hfull
  | unique =>
    cases he : ofClass order k c.toList with
    | nil =>
      rw [he] at hfull
      cases hfull
    | cons e es =>
      obtain ⟨hlt, -⟩ := List.getElem?_eq_some_iff.mp (getElem?_rank h he)
      rwa [size_eq_length]

theorem inBounds (h : c.ValidFor order) : c.InBounds where
  traversed := by
    cases m with
    | unique => trivial
    | repeated => exact fun p hp => isPart_matchRange hp
  bounds p hp := isPart_bounds hp
  last e he := by
    rw [first?_eq] at he
    rw [size_eq_length]
    exact List.length_pos_of_mem (List.mem_of_head? he)
  dropped es := (collapse_sublist es).length_le
  held k i hi := by
    rw [value_spot h] at hi
    split at hi <;> cases hi
    rename_i hfull
    exact rank_lt_size h hfull
  free k i hi := by
    rw [value_spot h] at hi
    split at hi <;> cases hi
    exact rank_le_size k
  slot k v := by
    rw [value_insert h]
    split
    · rename_i hfull
      exact rank_lt_size h hfull
    · have hle : rank m order k c.toList ≤ c.size := rank_le_size k
      show rank m order k c.toList < (c.place (rank m order k c.toList) ⟨k, v⟩).size
      rw [size_place hle]
      omega

end Flat

/-! ## Documents and builds -/

namespace Document

variable [Key K]

instance : RefusesKeysOnly K Unit where
  write_eq_error h := nomatch h

theorem member_eq_error {e : Entry K Int64} {f : Failure} (h : member e = .error f) :
    f = .keyNotText := by
  unfold member at h
  split at h
  · cases h
  · cases h
    rfl

theorem mapM_member_eq_error {es : List (Entry K Int64)} {f : Failure}
    (h : es.mapM member = .error f) : f = .keyNotText := by
  induction es with
  | nil => cases h
  | cons e es ih =>
    rw [List.mapM_cons] at h
    cases he : member e with
    | error g =>
      rw [he] at h
      cases h
      exact member_eq_error he
    | ok x =>
      rw [he] at h
      cases hes : es.mapM member with
      | error g =>
        rw [hes] at h
        cases h
        exact ih hes
      | ok xs =>
        rw [hes] at h
        cases h

instance : RefusesKeysOnly K Int64 where
  write_eq_error h := mapM_member_eq_error (eq_error_of_map h)

end Document

/-- Nothing in the making of a container panics but a demand for more room than there can be. -/
theorem Build.run_eq_panic [Key K] [Document K V] {b : Build K V} {e : Failure} (he : e.IsPanic)
    (h : b.run m order = .error e) : ∃ n, b = .withRoom n ∧ roomLimit ≤ n := by
  cases b with
  | empty | inserted | collected | gathered => cases h
  | withRoom n =>
    refine ⟨n, rfl, ?_⟩
    simp only [run] at h
    split at h
    · cases h
    · omega
  | document text =>
    simp only [run] at h
    split at h <;> cases h
    cases he

/-! ## Sessions -/

namespace Session

variable {s : Session K V}

variable [DecidableEq K] [DecidableEq V] [Inhabited V] [Key K] [Document K V]

/-- A session panics exactly when its container does: a step on the copies never does. -/
theorem answer_step_eq_error {c : Flat m K V} (hs : s.current = c.pack) {x : Step K V}
    {e : Failure} (he : e.IsPanic) :
    (s.step x).answer = .error e ↔ (c.step x).answer = .error e := by
  have hsettle : (s.settle (s.current.step x)).answer = .error e ↔
      (c.step x).answer = .error e := by
    rw [settle, hs, Flat.pack_step]
  unfold step
  split
  · refine ⟨fun h => (nomatch h), fun h => ?_⟩
    cases h
    cases he
  · split <;> constructor <;> intro h <;> cases h <;> cases he
  · split
    · constructor <;> intro h <;> cases h <;> cases he
    · split <;> constructor <;> intro h <;> cases h <;> cases he
  · exact hsettle

variable [Std.TransCmp order] [Document.RefusesKeysOnly K V]

/-- A step panics exactly if it is listed as one that does, and no position or difference that an
operation computes is out of bounds. -/
theorem answer_eq_panic_iff (hr : s.Reached order) {c : Flat m K V} (hs : s.current = c.pack) :
    c.InBounds ∧ ∀ x : Step K V, x.ConsistentAlong c.keys → ∀ e : Failure, e.IsPanic →
      ((s.step x).answer = .error e ↔ c.Panics x e) := by
  have hvalid : c.ValidFor order := hr.validFor_current hs
  refine ⟨Flat.inBounds hvalid, fun x hx e he => ?_⟩
  rw [answer_step_eq_error hs he]
  constructor
  · exact Flat.panics_of_answer hvalid hx he
  · exact Flat.Panics.answer_eq hvalid hx

/-- Keys of one last digit are one class. The two keys that are held lie in the lower half of the
digits, so a probe for the upper half finds nothing where something is required; a maker that
gives up is not run for a class that is held. -/
theorem answer_eq_panic_iff_digits :
    let s : Session Int64 Int64 :=
      Session.after ⟨.map (.empty KeyOrder.intMod.order), []⟩ [.insert 13 0, .insert 1 1]
    (s.step (.look .index (.probe (KeyOrder.intMod.probe 1)))).answer = .error .noEntry ∧
      (s.step (.look .index (.probe (KeyOrder.intMod.probe 0)))).answer ≠ .error .noEntry ∧
      (s.step (.emplace 4 .fails)).answer = .error .makerFailed ∧
      (s.step (.emplace 23 .fails)).answer ≠ .error .makerFailed := by
  intro s
  have hreached : s.Reached KeyOrder.intMod.order := ⟨.unique, .empty, _, _, rfl, rfl⟩
  have hentry : Failure.noEntry.IsPanic := trivial
  have hmaker : Failure.makerFailed.IsPanic := trivial
  have hhalf (n : Int64) : (Step.look .index (.probe (KeyOrder.intMod.probe n)) :
      Step Int64 Int64).ConsistentAlong [1, 13] ↔ (KeyOrder.intMod.probe n).Consistent [1, 13] :=
    ⟨fun h => h _ rfl, by rintro h _ ⟨⟩; exact h⟩
  have hkey (k : Int64) : (Step.emplace k .fails : Step Int64 Int64).ConsistentAlong [1, 13] := by
    rintro _ ⟨⟩
  obtain ⟨-, h⟩ := answer_eq_panic_iff (m := .unique) hreached rfl
  refine ⟨?_, fun he => ?_, ?_, fun he => ?_⟩
  · exact (h _ ((hhalf 1).mpr (by decide)) _ hentry).mpr (.index (by decide +kernel))
  · cases (h _ ((hhalf 0).mpr (by decide)) _ hentry).mp he with
    | index hnone =>
      revert hnone
      decide +kernel
  · exact (h _ (hkey 4) _ hmaker).mpr (.emplaceNew (by decide +kernel))
  · cases (h _ (hkey 23) _ hmaker).mp he with
    | emplaceNew hnone =>
      revert hnone
      decide +kernel

end Session

end FlatAssoc
