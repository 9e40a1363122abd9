import FlatAssoc.Flat.Lookup

/-!
# Insertion

The place of a new entry is found before its value is made, and only then is it put there. A unique
container makes no value for a class that it already holds, unless it is asked to assign one.
-/

namespace FlatAssoc

/-- Where a key belongs: at an entry that holds it, or at a position that is free for it. -/
inductive Spot where
  | held (i : Nat)
  | free (i : Nat)
  deriving DecidableEq, Repr

/-- The position of an entry and whether it is new. -/
structure Placed where
  position : Nat
  inserted : Bool
  deriving DecidableEq, Repr

/-- How a value is made: it succeeds with a value or gives up. -/
inductive Maker (V : Type) where
  | gives (v : V)
  | fails
  deriving DecidableEq, Repr

/-- Work on a container that may fail and counts the makers that it runs. What is done to the
container by the time of a failure stays done. -/
abbrev Making (m : Multiplicity) (K V : Type) :=
  ExceptT Failure (StateT (Flat m K V) (StateM Nat))

def Maker.run {m : Multiplicity} {K V : Type} (mk : Maker V) : Making m K V V := do
  modifyThe Nat (· + 1)
  match mk with
  | .gives v => pure v
  | .fails => throw .makerFailed

namespace Making

variable {m : Multiplicity} {K V α : Type}

def attempt (x : Making m K V α) (c : Flat m K V) : Attempt m K V α := ((x.run.run c).run 0).1

/-- How many makers are run in the work on `c`. -/
def runs (x : Making m K V α) (c : Flat m K V) : Nat := ((x.run.run c).run 0).2

end Making

namespace Flat

variable {m : Multiplicity} {K V : Type} {μ : Type → Type}

/-- Puts an entry at position `i`, before the entry that stood there. -/
def place (c : Flat m K V) (i : Nat) (e : Entry K V) : Flat m K V :=
  { c with
    entries :=
      if i = 0 then c.entries.pushFront e
      else if i = c.size then c.entries.pushBack e
      else c.entries.insertIdx i e }

/-- Where a new entry goes that may repeat a class: before a greater first key, after a last key
that is not greater, and else after its class. -/
def insertPosition (c : Flat m K V) (k : K) : Asked K Nat :=
  match c.first?, c.last? with
  | some front, some back => do
    match ← front.ask (c.order.probe k) with
    | .gt => pure 0
    | _ =>
      match ← back.ask (c.order.probe k) with
      | .gt => c.upperBound (c.order.probe k)
      | _ => pure c.size
  | _, _ => pure 0

/-- Where a class is or belongs. -/
def locate (c : Flat m K V) (k : K) : Asked K Spot :=
  match c.first?, c.last? with
  | some front, some back => do
    match ← front.ask (c.order.probe k) with
    | .gt => pure (.free 0)
    | .eq => pure (.held 0)
    | .lt =>
      match ← back.ask (c.order.probe k) with
      | .lt => pure (.free c.size)
      | .eq => pure (.held (c.size - 1))
      | .gt =>
        let i ← c.lowerBound (c.order.probe k)
        match c.get? i with
        | none => pure (.free i)
        | some e => (fun o => if o = .eq then .held i else .free i) <$> e.ask (c.order.probe k)
  | _, _ => pure (.free 0)

/-- Where an entry with key `k` is or goes. -/
def spot (c : Flat m K V) (k : K) : Asked K Spot :=
  match m with
  | .unique => c.locate k
  | .repeated => .free <$> c.insertPosition k

/-- Adds an entry whose value is made once its place is known, unless that place is taken. -/
def emplace [Monad μ] [MonadStateOf (Flat m K V) μ] (c : Flat m K V) (k : K) (make : μ V) :
    Asked K (μ Placed) :=
  (fun s => match s with
    | .held i => pure ⟨i, false⟩
    | .free i => do
      let v ← make
      modifyThe (Flat m K V) (·.place i ⟨k, v⟩)
      pure ⟨i, true⟩) <$> c.spot k

/-- Adds an entry, unless its place is taken. -/
def insert (c : Flat m K V) (k : K) (v : V) : Asked K (Placed × Flat m K V) :=
  (·.run c) <$> c.emplace k (pure v : StateM (Flat m K V) V)

/-- The value at position `i`, which must hold an entry. -/
def valueAt (i : Nat) : Making m K V V := do
  match (← getThe (Flat m K V)).get? i with
  | some e => pure e.value
  | none => throw .outOfBounds

/-- Adds an entry, or replaces the value of the one that holds its class; either way the value is
made first. A stored key stays. -/
def emplaceOrAssign (c : Map K V) (k : K) (make : Making .unique K V V) :
    Asked K (Making .unique K V Placed) :=
  (fun s => match s with
    | .held i => do
      let v ← make
      let _ ← valueAt i
      modifyThe (Map K V) (·.modify i fun _ => v)
      pure ⟨i, false⟩
    | .free i => do
      let v ← make
      modifyThe (Map K V) (·.place i ⟨k, v⟩)
      pure ⟨i, true⟩) <$> c.spot k

def insertOrAssign (c : Map K V) (k : K) (v : V) : Asked K (Attempt .unique K V Placed) :=
  (·.attempt c) <$> c.emplaceOrAssign k (Maker.gives v).run

/-- Changes the value of a class, which is made first if the class is not held. -/
def getOrInsertWith (c : Map K V) (k : K) (make : Making .unique K V V) (f : V → V) :
    Asked K (Making .unique K V V) :=
  (fun placing => do
    let placed ← placing
    let v ← valueAt placed.position
    modifyThe (Map K V) (·.modify placed.position f)
    pure (f v)) <$> c.emplace k make

/-- Changes the value of a class, which is the default if the class is not held. -/
def getOrDefault [Inhabited V] (c : Map K V) (k : K) (f : V → V) :
    Asked K (Attempt .unique K V V) :=
  (·.attempt c) <$> c.getOrInsertWith k (Maker.gives default).run f

/-! ## The entries after each operation -/

/-- The entries before the position stay, then comes the new entry, then those from it on. -/
theorem toList_place (c : Flat m K V) {i : Nat} (h : i ≤ c.size) (e : Entry K V) :
    (c.place i e).toList = c.toList.take i ++ e :: c.toList.drop i := by
  unfold place toList
  split
  · rename_i hi
    simp [hi]
  · split
    · rename_i hi
      rw [Buffer.toList_pushBack, hi, size_eq_length, toList, List.take_length, List.drop_length]
    · exact Buffer.toList_insertIdx _ h e

@[simp] theorem order_place (c : Flat m K V) (i : Nat) (e : Entry K V) :
    (c.place i e).order = c.order := rfl

end Flat

end FlatAssoc
