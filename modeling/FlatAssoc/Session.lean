import FlatAssoc.Session.Step

/-!
# Sessions

A session works on one container and keeps copies of earlier ones on a stack. Its container is
built first, and then each step answers or fails.
-/

namespace FlatAssoc

/-- The container at hand and the copies that were set aside, the newest first. -/
structure Session (K V : Type) where
  current : Container K V
  saved : List (Container K V)

/-- What a step comes to. -/
structure Reply (K V : Type) where
  answer : Except Failure (Answer K V)
  asked : List K
  events : List Event
  session : Session K V

namespace Session

variable {K V : Type}

/-- An answer without comparisons or events. -/
def reply (s : Session K V) (a : Answer K V) : Reply K V := ⟨.ok a, [], [], s⟩

/-- A failure without comparisons or events. -/
def fail (s : Session K V) (e : Failure) : Reply K V := ⟨.error e, [], [], s⟩

/-- What a step on the container at hand comes to. -/
def settle (s : Session K V) (x : Effect K V) : Reply K V :=
  ⟨x.answer, x.asked, x.events, { s with current := x.left }⟩

variable [DecidableEq K] [DecidableEq V] [Inhabited V] [Key K] [Document K V]

/-- One step of a session. -/
def step (s : Session K V) : Step K V → Reply K V
  | .fork =>
    { s with saved := s.current :: s.saved : Session K V }.reply (.number (s.saved.length + 1))
  | .swap =>
    match s.saved with
    | [] => s.fail .notOffered
    | c :: saved => { current := c, saved := s.current :: saved : Session K V }.reply .nothing
  | .same =>
    match s.saved with
    | [] => s.fail .notOffered
    | c :: _ =>
      match s.current.same? c with
      | some b => s.reply (.flag b)
      | none => s.fail .notOffered
  | x => s.settle (s.current.step x)

/-- The replies to a sequence of steps. -/
def run (s : Session K V) : List (Step K V) → List (Reply K V)
  | [] => []
  | x :: xs => s.step x :: run (s.step x).session xs

/-- The session after a sequence of steps. -/
def after (s : Session K V) (xs : List (Step K V)) : Session K V :=
  xs.foldl (fun s x => (s.step x).session) s

def call (s : Session K V) : Call K V → Reply K V
  | .step x => s.step x
  | x => s.settle (s.current.call x)

/-- The session after a sequence of calls. -/
def afterCalls (s : Session K V) (xs : List (Call K V)) : Session K V :=
  xs.foldl (fun s x => (s.call x).session) s

end Session

/-- How a container is built. -/
inductive Build (K V : Type) where
  | empty
  | withRoom (n : Nat)
  | inserted (items : List (Entry K V))
  /-- From items that come one by one or are all there from the start. -/
  | collected (items : List (Entry K V))
  | gathered (items : List (Entry K V))
  | document (text : String)

namespace Build

variable {K V : Type} [Key K] [Document K V]

/-- Builds a container. -/
def run (m : Multiplicity) (order : Comparator K) :
    Build K V → Except Failure (Reported (Flat m K V))
  | .empty => .ok (pure (.empty order))
  | .withRoom n => if n < roomLimit then .ok (pure (.empty order)) else .error .noRoom
  | .inserted items =>
    .ok (pure (items.foldl (fun c e => (c.insert e.key e.value).value.2) (.empty order)))
  | .collected items => .ok (Flat.ofList order items)
  | .gathered items => .ok (Flat.gather order items)
  | .document text =>
    match Document.read text.toList with
    | .ok items => .ok (Flat.ofList order items)
    | .error e => .error (.unreadable e)

def start (m : Multiplicity) (order : Comparator K) (b : Build K V) :
    Except Failure (Reported (Session K V)) :=
  (fun x => (fun c => ⟨c.pack, []⟩) <$> x) <$> b.run m order

end Build

end FlatAssoc
