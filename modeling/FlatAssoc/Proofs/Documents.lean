import FlatAssoc.Proofs.Reading
import FlatAssoc.Proofs.Uniqueness

/-!
# Round trips through documents

The document that a container writes lists its entries in order, and reading it gives them back:
for integers and strings as the keys of a map in the document, and for keys of every kind as the
elements of a sequence. The entries of a container are sorted already, so a container that is
built from its document holds what it holds, and a unique one that is built from the document of a
repeated one holds what the uniqueness pass leaves of it (`Session.roundTrips`).
-/

namespace FlatAssoc

variable {m : Multiplicity} {K V : Type} {order : Comparator K}

/-! ## Kinds of keys -/

/-- Keys whose elements are read back. -/
class Key.HasElement (K : Type) [Key K] : Prop where
  readsBack (k : K) : Json.ReadsBack Key.readElement (Key.element k) k

/-- Keys that have a form as a name, which is read back. -/
class Key.HasName (K : Type) [Key K] : Prop where
  readsBack (k : K) : ∃ text, Key.name? k = some text ∧ Json.NameReadsBack Key.readName text k

namespace Key

theorem forall₂_intText (ns : List Int64) :
    List.Forall₂ (Json.ReadsBack Json.readInt) (ns.map intText) ns := by
  rw [List.forall₂_map_left_iff]
  exact List.forall₂_same.mpr fun n _ => Json.readsBack_int n

instance : HasElement Int64 := ⟨Json.readsBack_int⟩

instance : HasElement String := ⟨Json.readsBack_string⟩

instance : HasElement (Int64 × Int64) :=
  ⟨fun p => Json.readsBack_pair (Json.readsBack_int p.1) (Json.readsBack_int p.2)⟩

instance : HasElement (List Int64) := ⟨fun ns => Json.readsBack_sequence (forall₂_intText ns)⟩

instance : HasName Int64 := ⟨fun n => ⟨_, rfl, Json.nameReadsBack_int n⟩⟩

instance : HasName String := ⟨fun s => ⟨_, rfl, Json.nameReadsBack_string s⟩⟩

end Key

/-! ## Documents -/

/-- Documents that can be written of any entries and are read back. -/
class Document.ReadsBack (K V : Type) [Document K V] : Prop where
  exists_write (es : List (Entry K V)) :
    ∃ text, Document.write es = .ok text ∧ Document.read text = .ok es

namespace Document

variable [Key K]

theorem exists_member [Key.HasName K] (e : Entry K Int64) :
    ∃ name, member e = .ok (name, intText e.value) ∧
      Json.NameReadsBack Key.readName name e.key := by
  obtain ⟨name, hname, hread⟩ := Key.HasName.readsBack e.key
  refine ⟨name, ?_, hread⟩
  rw [member, hname]

theorem exists_mapM_member [Key.HasName K] (es : List (Entry K Int64)) :
    ∃ members, es.mapM member = .ok members ∧
      List.Forall₂ (fun t p => Json.NameReadsBack Key.readName t.1 p.1 ∧
        Json.ReadsBack Json.readInt t.2 p.2) members (es.map Entry.pair) := by
  induction es with
  | nil => exact ⟨[], rfl, .nil⟩
  | cons e es ih =>
    obtain ⟨name, hmember, hname⟩ := exists_member e
    obtain ⟨members, hmembers, hread⟩ := ih
    refine ⟨(name, intText e.value) :: members, ?_, .cons ⟨hname, Json.readsBack_int _⟩ hread⟩
    rw [List.mapM_cons, hmember, hmembers]
    rfl

instance [Key.HasName K] : ReadsBack K Int64 where
  exists_write es := by
    obtain ⟨members, hmembers, hread⟩ := exists_mapM_member es
    refine ⟨Json.writeMap members, ?_, ?_⟩
    · show Json.writeMap <$> es.mapM member = _
      rw [hmembers]
      rfl
    · show List.map Entry.ofPair <$> Json.readDocument (Json.readMap Key.readName Json.readInt)
        (Json.writeMap members) = _
      rw [Json.readDocument_eq_ok (Json.readsBack_map hread)]
      show Except.ok ((es.map Entry.pair).map Entry.ofPair) = _
      rw [List.map_map]
      exact congrArg Except.ok (List.map_id es)

instance [Key.HasElement K] : ReadsBack K Unit where
  exists_write es := by
    have hread : List.Forall₂ (Json.ReadsBack Key.readElement)
        (es.map fun e => Key.element e.key) (es.map (·.key)) := by
      rw [List.forall₂_map_left_iff, List.forall₂_map_right_iff]
      exact List.forall₂_same.mpr fun e _ => Key.HasElement.readsBack e.key
    refine ⟨Json.writeSequence (es.map fun e => Key.element e.key), rfl, ?_⟩
    show List.map (fun k => (⟨k, ()⟩ : Entry K Unit)) <$>
      Json.readDocument (Json.readSequence Key.readElement)
        (Json.writeSequence (es.map fun e => Key.element e.key)) = _
    rw [Json.readDocument_eq_ok (Json.readsBack_sequence hread)]
    show Except.ok ((es.map (·.key)).map fun k => (⟨k, ()⟩ : Entry K Unit)) = _
    rw [List.map_map]
    exact congrArg Except.ok (List.map_id es)

end Document

/-! ## Containers -/

/-- The build succeeds with a container of the given comparator and entries. -/
def Build.Makes [Document K V] (b : Build K V) (m : Multiplicity) (order : Comparator K)
    (es : List (Entry K V)) : Prop :=
  ∃ x, b.run m order = .ok x ∧ x.value.order = order ∧ x.value.toList = es

namespace Flat

variable [Std.TransCmp order]

theorem takesIn_toMap {c : Multimap K V} (h : c.ValidFor order) :
    TakesIn order (empty order) c.toList c.toMap.value := by
  obtain rfl : c.order = order := h.order_eq
  exact takesIn_settled rfl h.sorted (fun _ => rfl) (toList_toMap c)

end Flat

theorem Build.makes_of_takesIn [Document K V] [Std.TransCmp order] {c : Flat m K V}
    {es : List (Entry K V)} {text : String} (hread : Document.read text.toList = .ok es)
    (h : Flat.TakesIn order (.empty order) es c) :
    (document text : Build K V).Makes m order c.toList := by
  obtain ⟨x, hx, htaken⟩ := (Loads.document hread).takesIn m order
  exact ⟨x, hx, htaken.validFor.order_eq, htaken.toList_eq h⟩

namespace Session

/-- Any container that a session comes to can be written as a document. A container of the same
multiplicity that is built from it holds the same entries; a map that is built from the document
of a multimap holds what the uniqueness pass leaves, which is the first entry of each class. -/
def RoundTrips (K V : Type) [DecidableEq K] [DecidableEq V] [Inhabited V] [Key K] [Document K V] :
    Prop :=
  ∀ (order : Comparator K) [Std.TransCmp order] (s : Session K V), s.Reached order →
    ∃ text, (s.step .document).answer = .ok (.text text) ∧
      (∀ c : Map K V, s.current = .map c →
        (Build.document text).Makes .unique c.order c.toList) ∧
      ∀ c : Multimap K V, s.current = .multimap c →
        (Build.document text).Makes .repeated c.order c.toList ∧
        (Build.document text).Makes .unique c.order c.toMap.value.toList ∧
        c.toMap.value.toList = firsts c.order c.toList

variable [DecidableEq K] [DecidableEq V] [Inhabited V] [Key K] [Document K V] {s : Session K V}

theorem answer_document {text : List Char} (h : Document.write s.current.toList = .ok text) :
    (s.step .document).answer = .ok (.text (String.ofList text)) := by
  show (s.current.step .document).answer = _
  cases hc : s.current with
  | map c | multimap c =>
    rw [hc] at h
    show (fun cs => Answer.text (String.ofList cs)) <$> Document.write c.toList = _
    rw [show Document.write c.toList = .ok text from h]
    rfl

theorem roundTrips [Document.ReadsBack K V] : RoundTrips K V := by
  intro order _ s hr
  obtain ⟨text, hwrite, hread⟩ := Document.ReadsBack.exists_write s.current.toList
  rw [← String.toList_ofList (l := text)] at hread
  refine ⟨String.ofList text, answer_document hwrite, fun c hc => ?_, fun c hc => ?_⟩
  -- a valid container is what taking in its own entries from nothing leads to
  · have hvalid : c.ValidFor order := hr.validFor_current (c := c) hc
    rw [hc] at hread
    obtain rfl : c.order = order := hvalid.order_eq
    exact Build.makes_of_takesIn hread (Flat.takesIn_toList hvalid)
  · have hvalid : c.ValidFor order := hr.validFor_current (c := c) hc
    rw [hc] at hread
    obtain rfl : c.order = order := hvalid.order_eq
    exact ⟨Build.makes_of_takesIn hread (Flat.takesIn_toList hvalid),
      Build.makes_of_takesIn hread (Flat.takesIn_toMap hvalid),
      (Flat.mirrors_toMap hvalid).toList_eq_firsts⟩

/-- Integers and strings as keys of maps, and keys of every kind as elements of sets, make the
round trip. -/
theorem document_round_trips :
    RoundTrips Int64 Int64 ∧ RoundTrips String Int64 ∧ RoundTrips Int64 Unit ∧
      RoundTrips String Unit ∧ RoundTrips (Int64 × Int64) Unit ∧
      RoundTrips (List Int64) Unit :=
  ⟨roundTrips, roundTrips, roundTrips, roundTrips, roundTrips, roundTrips⟩

/-- Strings of two bytes each are one class. They are written with an escaped quote and backslash,
with an escaped control character, and with a character of two bytes as it is. -/
theorem document_round_trips_text :
    let s : Session String Int64 :=
      Session.after ⟨.multimap (.empty KeyOrder.textLength.order), []⟩
        [.insert "\"\\" 1, .insert "\n\x01" (-2), .insert "é" 3]
    let entries : List (Entry String Int64) := [⟨"\"\\", 1⟩, ⟨"\n\x01", -2⟩, ⟨"é", 3⟩]
    s.current.toList = entries ∧
      ∃ text, (s.step .document).answer = .ok (.text text) ∧
        (Build.document text).Makes .repeated KeyOrder.textLength.order entries ∧
        (Build.document text).Makes .unique KeyOrder.textLength.order [⟨"\"\\", (1 : Int64)⟩] := by
  intro s entries
  have hreached : s.Reached KeyOrder.textLength.order := ⟨.repeated, .empty, _, _, rfl, rfl⟩
  obtain ⟨-, hround, -⟩ := document_round_trips
  obtain ⟨text, hanswer, -, hmulti⟩ := hround _ s hreached
  obtain ⟨hrepeated, hunique, -⟩ := hmulti _ rfl
  exact ⟨by decide +kernel, text, hanswer, hrepeated, hunique⟩

end Session

end FlatAssoc
