import FlatAssoc.Cursor.Script
import FlatAssoc.Flat.Traverse
import FlatAssoc.Key

/-!
# Answers, and steps on a single entry

What a step answers, before it is written down. A step on a single entry answers and leaves an
entry; the steps that take an entry apart work on a copy.
-/

namespace FlatAssoc

/-- What a step answers. -/
inductive Answer (K V : Type) where
  | nothing
  | flag (b : Bool)
  | number (n : Nat)
  | ordering (o : Ordering)
  | text (s : String)
  | key (k : K)
  | value (v : V)
  | entry (e : Entry K V)
  | list (items : List (Answer K V))

/-- The side of an entry that is answered. -/
inductive Facet where
  | entry
  | key
  | value
  | presence
  deriving DecidableEq, Repr

namespace Answer

variable {K V : Type}

/-- One side of an entry. -/
def ofEntry (f : Facet) (e : Entry K V) : Answer K V :=
  match f with
  | .entry => .entry e
  | .key => .key e.key
  | .value => .value e.value
  | .presence => .flag true

/-- One side of an entry that need not be there. -/
def optional (f : Facet) : Option (Entry K V) → Answer K V
  | some e => ofEntry f e
  | none => if f = .presence then .flag false else .nothing

/-- A number that need not be there. -/
def ofNat? : Option Nat → Answer K V
  | some n => .number n
  | none => .nothing

def numbers (ns : List Nat) : Answer K V := .list (ns.map .number)

end Answer

namespace Tour

variable {K V : Type}

/-- The side of an entry that a traversal shows. -/
def facet : Tour K → Facet
  | .keys | .ownedKeys => .key
  | .values | .lentValues | .ownedValues => .value
  | _ => .entry

/-- The debug words of a traversal with these entries left: a list of what it shows, and for the
traversal that owns its entries the entries themselves inside two wrappings. -/
def words [Key K] [Document K V] (t : Tour K) (es : List (Entry K V)) : Debug :=
  match t with
  | .ownedEntries =>
    .tuple "IntoIter" [.tuple "IntoIter" [.list (es.map Document.entryWords)]]
  | _ =>
    .list (es.map fun e =>
      match t.facet with
      | .key => Key.words e.key
      | .value => Document.valueWords K e.value
      | _ => Document.pairWords e)

/-- What a reading answers. -/
def answer [Key K] [Document K V] (t : Tour K) : Reading (Entry K V) → Answer K V
  | .item x => .optional t.facet x
  | .items xs | .view xs => .list (xs.map (.ofEntry t.facet))
  | .words xs => .text (t.words xs).compact
  | .number n => .number n
  | .bounds lower upper => .numbers [lower, upper]

end Tour

/-! ## Steps on an entry -/

/-- A request to a single entry. -/
inductive EntryStep (K V : Type) where
  | key
  | value
  | pair
  | update (f : V → V)
  | updatePair (f : V → V)
  | replaceValue (v : V)
  | swap (other : Entry K V)
  | clone (v : V)
  | equals (other : Entry K V)
  | debug (pretty : Bool)

namespace Entry

variable {K V : Type} [DecidableEq K] [DecidableEq V] [Key K] [Document K V]

/-- What a step on an entry answers and leaves. -/
def step (e : Entry K V) : EntryStep K V → Answer K V × Entry K V
  | .key => (.key e.key, e)
  | .value => (.value e.value, e)
  | .pair => (.entry e, e)
  | .update f => (.nothing, e.update f)
  | .updatePair f => (.key e.key, e.update f)
  | .replaceValue v => (.value e.value, { e with value := v })
  | .swap other => (.entry e, other)
  | .clone v =>
    let copy := { e with value := v }
    (.list [.flag (copy == e), .entry copy], e)
  | .equals other => (.flag (e == other), e)
  | .debug false => (.text (Document.entryWords e).compact, e)
  | .debug true => (.text (Document.entryWords e).pretty, e)

/-- The answers to a sequence of steps, each with the entry that it leaves. -/
def run (e : Entry K V) : List (EntryStep K V) → List (Answer K V × Entry K V)
  | [] => []
  | x :: xs => e.step x :: run (e.step x).2 xs

end Entry

end FlatAssoc
