import FlatAssoc.Cursor.Script
import FlatAssoc.Flat.Remove

/-!
# Traversal

A traversal hands out entries through a cursor. One that lends its entries for change changes the
values of exactly those that it handed out, each once; one that owns them leaves the container
empty.
-/

namespace FlatAssoc

/-- What a traversal runs over and how. -/
inductive Tour (K : Type) where
  /-- Entries, with jumps from both ends. -/
  | entries
  /-- Keys, with jumps from the front. -/
  | keys
  /-- Values, step by step. -/
  | values
  /-- Entries whose values may change. -/
  | lentEntries
  /-- Values that may change. -/
  | lentValues
  /-- Entries that leave the container. -/
  | ownedEntries
  /-- Keys of entries that leave the container. -/
  | ownedKeys
  /-- Values of entries that leave the container. -/
  | ownedValues
  /-- Entries drained from the container. -/
  | drained
  /-- Matches. -/
  | matching (t : Target K)
  /-- Matches whose values may change. -/
  | lentMatching (t : Target K)

namespace Flat

variable {m : Multiplicity} {K V ρ : Type}

/-- The readings of a traversal and what it leaves of the container. -/
structure Toured (m : Multiplicity) (K V : Type) where
  readings : List (Reading (Entry K V))
  container : Flat m K V

/-- A traversal that was not refused. -/
def Toured.done (r : Toured m K V) : Attempt m K V (List (Reading (Entry K V))) :=
  (.ok r.readings, r.container)

/-- Plays a script on a cursor over entries. -/
def borrow [Cursor ρ (Entry K V)] (c : Flat m K V) (cursor : ρ) (script : List Request) :
    Toured m K V :=
  ⟨Cursor.play cursor script, c⟩

/-- Plays a script on a cursor over entries with their positions, and changes the values of those
that were handed out. -/
def lend [Cursor ρ (Entry K V × Nat)] (c : Flat m K V) (cursor : ρ) (script : List Request)
    (f : V → V) : Toured m K V :=
  ⟨(Cursor.play cursor script).map (Reading.map Prod.fst),
    c.modifyAll ((Cursor.handedOut cursor script).map Prod.snd) f⟩

/-- Plays a script on a cursor over the entries of a container that they have all left. -/
def giveAway (c : Flat m K V) (script : List Request) : Toured m K V :=
  ⟨Cursor.play (Taken.mk c.toList) script, empty c.order⟩

/-- Plays a script on a cursor over entries that were taken out of a container. -/
def readTaken (taken : Attempt m K V (List (Entry K V))) (script : List Request) :
    Attempt m K V (List (Reading (Entry K V))) :=
  ((fun es => Cursor.play (Taken.mk es) script) <$> taken.1, taken.2)

def throughPart (c : Flat m K V) (part : Except Failure ρ) (go : ρ → Toured m K V) :
    Attempt m K V (List (Reading (Entry K V))) :=
  match part with
  | .ok cursor => (go cursor).done
  | .error e => (.error e, c)

def matches? (c : Multimap K V) (p : Probe K) : Asked K (Except Failure (Halves (Entry K V))) :=
  (fun r => c.entries.part r.1 r.2) <$> c.matchRange p

/-- The cursor over all matches with their positions. -/
def lentMatches? (c : Multimap K V) (p : Probe K) :
    Asked K (Except Failure (Halves (Entry K V × Nat))) :=
  (fun r => c.entries.zipIdx.part r.1 r.2) <$> c.matchRange p

/-- Plays a script on the traversal of a container; values that may change change by `f`. -/
def tour (c : Flat m K V) (t : Tour K) (script : List Request) (f : V → V) :
    Asked K (Attempt m K V (List (Reading (Entry K V)))) :=
  match t with
  | .entries => pure (c.borrow c.entries.halves script).done
  | .keys => pure (c.borrow (ForwardHalves.mk c.entries.halves) script).done
  | .values => pure (c.borrow (SteppedHalves.mk c.entries.halves) script).done
  | .lentEntries => pure (c.lend c.entries.zipIdx.halves script f).done
  | .lentValues => pure (c.lend (SteppedHalves.mk c.entries.zipIdx.halves) script f).done
  | .ownedEntries | .ownedKeys | .ownedValues => pure (c.giveAway script).done
  | .drained => pure (readTaken c.drain script)
  | .matching t =>
    match m, c with
    | .repeated, c =>
      (c.throughPart · fun h => c.borrow h script) <$> c.matches? (t.under c.order)
    | .unique, c => pure (.error .notOffered, c)
  | .lentMatching t =>
    match m, c with
    | .repeated, c =>
      (c.throughPart · fun h => c.lend h script f) <$> c.lentMatches? (t.under c.order)
    | .unique, c => pure (.error .notOffered, c)

end Flat

end FlatAssoc
