import FlatAssoc.Flat.Load
import FlatAssoc.Flat.Remove
import FlatAssoc.Flat.Traverse
import FlatAssoc.Entry.Step

/-!
# Steps

A step is one request to a container. It answers or fails, and leaves a container either way. The
stored keys that it compared and the events that it reported are noted.
-/

namespace FlatAssoc

/-- What a keyed read answers. -/
inductive Look where
  /-- One side of the first match. -/
  | first (f : Facet)
  | position
  | count
  | lower
  | upper
  | range
  /-- The value of the first match, which must be there. -/
  | index
  deriving DecidableEq, Repr

/-- One request to a container. -/
inductive Step (K V : Type) where
  | size
  | isEmpty
  | first
  | last
  | getAt (i : Nat)
  | look (l : Look) (t : Target K)
  | compare (left : K) (t : Target K)
  | slices
  | debug (pretty : Bool)
  | document
  | capacity
  | shrink
  | reserve (n : Nat)
  | tryReserve (n : Nat)
  | equals (items : List (Entry K V))
  | update (t : Target K) (f : V → V)
  | updateAt (i : Nat) (f : V → V)
  | clear
  | popFirst
  | popLast
  | removeAt (i : Nat)
  | removeRange (lo hi : Bound) (script : List Request)
  | take (f : Facet) (t : Target K)
  | removeAll (t : Target K)
  | retain (visit : Nat → Entry K V → V × Bool)
  | tour (t : Tour K) (script : List Request) (f : V → V)
  | tourAll (t : Tour K) (f : V → V)
  | insert (k : K) (v : V)
  | add (k : K) (v : V)
  | emplace (k : K) (make : Maker V)
  | insertOrAssign (k : K) (v : V)
  | emplaceOrAssign (k : K) (make : Maker V)
  | getOrInsertWith (k : K) (make : Maker V) (f : V → V)
  | getOrDefault (k : K) (f : V → V)
  | extend (upper : Option Nat) (items : List (Entry K V))
  | extendCopied (upper : Option Nat) (items : List (Entry K V))
  | gather (items : List (Entry K V))
  | gatherCopied (items : List (Entry K V))
  | rebuild
  | toMultimap
  | toMap
  | fork
  | swap
  | same
  | takeOver

/-- A call to a container: a step, or one of those that take a visitor or a source, which may give
up on the way. -/
inductive Call (K V : Type) where
  | step (x : Step K V)
  | retain (visit : Visitor K V)
  | extend (upper : Option Nat) (s : Source K V)
  | extendCopied (upper : Option Nat) (s : Source K V)
  | gather (s : Source K V)
  | gatherCopied (s : Source K V)

/-- A container of either multiplicity. -/
inductive Container (K V : Type) where
  | map (c : Map K V)
  | multimap (c : Multimap K V)

/-- What a step comes to: its answer or failure and the container that it leaves, with the stored
keys that it compared and the events that it reported. -/
structure Effect (K V : Type) where
  answer : Except Failure (Answer K V)
  left : Container K V
  asked : List K
  events : List Event

/-- The answer with the container that is left, or the failure. -/
def Effect.outcome {K V : Type} (x : Effect K V) : Except Failure (Answer K V × Container K V) :=
  (·, x.left) <$> x.answer

/-- The room that no container can have. The bound is coarse: of entries that take more room, fewer
than this can be had as well. -/
def roomLimit : Nat := Nat.pow 2 61

namespace Flat

variable {m : Multiplicity} {K V : Type}

/-- The container of either multiplicity. -/
def pack (c : Flat m K V) : Container K V :=
  match m, c with
  | .unique, c => .map c
  | .repeated, c => .multimap c

def leaving (a : Answer K V) (c : Flat m K V) : Effect K V := ⟨.ok a, c.pack, [], []⟩

def answering (c : Flat m K V) (a : Answer K V) : Effect K V := leaving a c

/-- A failure before anything is done. -/
def failing (c : Flat m K V) (e : Failure) : Effect K V := ⟨.error e, c.pack, [], []⟩

/-- An answer found by comparisons, which leaves the container as it is. -/
def finding {α : Type} (c : Flat m K V) (x : Asked K α) (f : α → Answer K V) : Effect K V :=
  ⟨.ok (f x.value), c.pack, x.notes, []⟩

/-- An answer found by comparisons, with the container that it leaves. -/
def changing {α : Type} (x : Asked K (α × Flat m K V)) (f : α → Answer K V) : Effect K V :=
  ⟨.ok (f x.value.1), x.value.2.pack, x.notes, []⟩

/-- An answer or a failure found by comparisons, with the container that is left. -/
def attempting {α : Type} (x : Asked K (Attempt m K V α)) (f : α → Answer K V) : Effect K V :=
  ⟨f <$> x.value.1, x.value.2.pack, x.notes, []⟩

def loading (x : Reported (Flat m K V)) (a : Answer K V) : Effect K V :=
  ⟨.ok a, x.value.pack, [], x.notes⟩

/-- A bulk load that may fail. -/
def attemptingLoad (x : Reported (Attempt m K V Unit)) (a : Answer K V) : Effect K V :=
  ⟨(fun _ => a) <$> x.value.1, x.value.2.pack, [], x.notes⟩

/-- Work on the container after a place was found by comparisons; the answer is told how often a
maker ran. -/
def making {α : Type} (c : Flat m K V) (x : Asked K (Making m K V α)) (f : α → Nat → Answer K V) :
    Effect K V :=
  let done := x.value.attempt c
  ⟨(f · (x.value.runs c)) <$> done.1, done.2.pack, x.notes, []⟩

/-- An entry that may have left the container. -/
def parting (c : Flat m K V) (f : Facet) (x : Option (Entry K V × Flat m K V)) :
    Answer K V × Flat m K V :=
  match x with
  | some (e, c) => (.ofEntry f e, c)
  | none => (.optional f none, c)

def look (c : Flat m K V) (l : Look) (p : Probe K) : Effect K V :=
  match l with
  | .first .presence => c.finding (c.contains p) .flag
  | .first f => c.finding (c.firstMatch? p) (.optional f)
  | .position => c.finding (c.find? p) .ofNat?
  | .count => c.finding (c.count p) .number
  | .lower => c.finding (c.lowerBound p) .number
  | .upper => c.finding (c.upperBound p) .number
  | .range => c.finding (c.equalRange p) fun r => .numbers [r.1, r.2]
  | .index => attempting ((·, c) <$> c.index p) .value

/-- The answer to an insertion: where the entry is, and for a unique container whether it is
new. -/
def placedAnswer (m : Multiplicity) (p : Placed) : Answer K V :=
  match m with
  | .unique => .list [.number p.position, .flag p.inserted]
  | .repeated => .number p.position

/-- The answer to an insertion with a maker, which adds whether the maker ran. -/
def madeAnswer (m : Multiplicity) (p : Placed) (runs : Nat) : Answer K V :=
  match m with
  | .unique => .list [.number p.position, .flag p.inserted, .flag (0 < runs)]
  | .repeated => .list [.number p.position, .flag (0 < runs)]

/-- Whether several workers can gather a load from a borrowed source: keys must be copied for it,
and a container that holds each key once and nothing beside it never offers it. -/
def gathersCopied (m : Multiplicity) (K V : Type) [Key K] [Document K V] : Bool :=
  Key.copied K && !(m = .unique && Document.keysAlone K V)

/-- One step of a single container. -/
def step [DecidableEq K] [DecidableEq V] [Inhabited V] [Key K] [Document K V]
    (c : Flat m K V) : Step K V → Effect K V
  | .size => c.answering (.number c.size)
  | .isEmpty => c.answering (.flag c.isEmpty)
  | .first => c.answering (.optional .entry c.first?)
  | .last => c.answering (.optional .entry c.last?)
  | .getAt i => c.answering (.optional .entry (c.get? i))
  | .look l t => c.look l (t.under c.order)
  | .compare left t =>
    c.finding ⟨t.under c.order left, [left]⟩ .ordering
  | .slices => c.answering (.list (c.entries.halves.toList.map .entry))
  | .debug false => c.answering (.text (Document.words c.toList).compact)
  | .debug true => c.answering (.text (Document.words c.toList).pretty)
  | .document =>
    attempting (pure (Document.write c.toList, c)) fun cs => .text (String.ofList cs)
  | .capacity | .shrink => c.answering (.flag true)
  | .reserve n =>
    if n < roomLimit then c.answering (.flag true) else c.failing .noRoom
  | .tryReserve n =>
    if n < roomLimit then c.answering (.text "ok") else c.failing .roomRefused
  | .equals items =>
    let d := (empty c.order : Flat m K V).extend (some items.length) items
    ⟨.ok (.list [.flag (c.same d.value), .flag (d.value.same c)]), c.pack, [], d.notes⟩
  | .update t f =>
    changing (c.update (t.under c.order) f) fun
      | some v => .value v
      | none => .nothing
  | .updateAt i f =>
    match c.get? i with
    | some e => leaving (.entry e) (c.modify i f)
    | none => c.answering .nothing
  | .clear => leaving .nothing c.clear
  | .popFirst => changing (pure (c.parting .entry c.popFirst?)) id
  | .popLast => changing (pure (c.parting .entry c.popLast?)) id
  | .removeAt i => changing (pure (c.parting .entry (c.removeAt? i))) id
  | .removeRange lo hi script =>
    attempting (pure (readTaken (c.removeRange lo hi) script)) fun readings =>
      .list (readings.map (Tour.answer .drained))
  | .take f t => changing (c.parting f <$> c.take? (t.under c.order)) id
  | .removeAll t =>
    match m, c with
    | .repeated, c => attempting (c.removeAll (t.under c.order)) .number
    | .unique, c => c.failing .notOffered
  | .retain visit => leaving (.list (c.toList.map .entry)) (c.retain visit)
  | .tour t script f =>
    attempting (c.tour t script f) fun readings => .list (readings.map t.answer)
  | .tourAll t f =>
    attempting (c.tour t [.collect] f) fun readings =>
      .list (readings.flatMap fun r => r.handedOut.map (.ofEntry t.facet))
  | .insert k v => changing (c.insert k v) (placedAnswer m)
  | .add k v => changing (c.insert k v) fun p => .flag p.inserted
  | .emplace k make => c.making (c.emplace k make.run) (madeAnswer m)
  | .insertOrAssign k v =>
    match m, c with
    | .unique, c => attempting (c.insertOrAssign k v) (placedAnswer .unique)
    | .repeated, c => c.failing .notOffered
  | .emplaceOrAssign k make =>
    match m, c with
    | .unique, c => c.making (c.emplaceOrAssign k make.run) (madeAnswer .unique)
    | .repeated, c => c.failing .notOffered
  | .getOrInsertWith k make f =>
    match m, c with
    | .unique, c =>
      c.making (c.getOrInsertWith k make.run f) fun v runs => .list [.value v, .flag (0 < runs)]
    | .repeated, c => c.failing .notOffered
  | .getOrDefault k f =>
    match m, c with
    | .unique, c => attempting (c.getOrDefault k f) .value
    | .repeated, c => c.failing .notOffered
  | .extend upper items => loading (c.extend upper items) .nothing
  | .extendCopied upper items =>
    if Key.copied K then loading (c.extend upper items) (.flag true)
    else c.answering (.flag false)
  | .gather items => loading (c.gatherInto items) .nothing
  | .gatherCopied items =>
    if gathersCopied m K V then loading (c.gatherInto items) (.flag true)
    else c.answering (.flag false)
  | .rebuild => loading c.rebuild .nothing
  | .toMultimap =>
    match m, c with
    | .unique, c => leaving .nothing c.toMultimap
    | .repeated, c => c.failing .notOffered
  | .toMap =>
    match m, c with
    | .repeated, c => loading c.toMap .nothing
    | .unique, c => c.failing .notOffered
  | .takeOver => leaving (.number c.size) c.clear
  | .fork | .swap | .same => c.failing .notOffered

def call [DecidableEq K] [DecidableEq V] [Inhabited V] [Key K] [Document K V]
    (c : Flat m K V) : Call K V → Effect K V
  | .step x => c.step x
  | .retain visit => attempting (pure (c.retainWhile visit)) fun _ => .nothing
  | .extend upper s => attemptingLoad (c.extendFrom upper s) .nothing
  | .extendCopied upper s =>
    if Key.copied K then attemptingLoad (c.extendFrom upper s) (.flag true)
    else c.answering (.flag false)
  | .gather s => attemptingLoad (c.gatherFrom s) .nothing
  | .gatherCopied s =>
    if gathersCopied m K V then attemptingLoad (c.gatherFrom s) (.flag true)
    else c.answering (.flag false)

end Flat

namespace Container

variable {K V : Type}

def toList : Container K V → List (Entry K V)
  | .map c => c.toList
  | .multimap c => c.toList

/-- Containers are the same if they are of one multiplicity and hold the same entries. -/
def same? [DecidableEq K] [DecidableEq V] : Container K V → Container K V → Option Bool
  | .map c, .map d => some (c.same d)
  | .multimap c, .multimap d => some (c.same d)
  | _, _ => none

/-- One step of a single container. -/
def step [DecidableEq K] [DecidableEq V] [Inhabited V] [Key K] [Document K V] :
    Container K V → Step K V → Effect K V
  | .map c, s => c.step s
  | .multimap c, s => c.step s

def call [DecidableEq K] [DecidableEq V] [Inhabited V] [Key K] [Document K V] :
    Container K V → Call K V → Effect K V
  | .map c, x => c.call x
  | .multimap c, x => c.call x

end Container

end FlatAssoc
