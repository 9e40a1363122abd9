import FlatAssoc.Comparator

/-!
# Orders of keys

Each order comes with probes for what its keys have in common: the tens of an integer, the start
of a string or of a list, a component of a pair, a length.
-/

namespace FlatAssoc

/-- An order of keys and its coarser probes. -/
structure KeyOrder (K P : Type) where
  order : Comparator K
  probe : P → Probe K

namespace KeyOrder

variable {K P A B : Type}

/-- The same classes and probes in the opposite order. -/
def reverse (o : KeyOrder K P) : KeyOrder K P :=
  ⟨o.order.reverse, fun p k => (o.probe p k).swap⟩

/-- Keys by their measure, and probes by a coarser measure of it. -/
def byMeasure [Ord A] [Ord B] (measure : K → A) (coarser : A → B) (target : P → B) :
    KeyOrder K P :=
  ⟨fun a b => compare (measure a) (measure b),
    fun p k => compare (coarser (measure k)) (target p)⟩

/-! ## Integers -/

/-- Integers by value, and probes by their tens. -/
def int : KeyOrder Int64 Int64 := byMeasure Int64.toInt (· / 10) Int64.toInt

/-- Integers by magnitude, and probes by its tens. -/
def intAbs : KeyOrder Int64 Int64 :=
  byMeasure (fun n => (n.toInt.natAbs : Int)) (· / 10) Int64.toInt

/-- Integers by their last digit, and probes by the half of the ten digits it is in. -/
def intMod : KeyOrder Int64 Int64 := byMeasure (fun n => n.toInt % 10) (· / 5) Int64.toInt

/-! ## Strings and lists -/

/-- Where the start of `xs`, no longer than `ys`, stands against `ys`. -/
def compareStart [Ord A] (xs ys : List A) : Ordering := compare (xs.take ys.length) ys

/-- The bytes of a string. -/
def bytes (s : String) : List UInt8 := s.toUTF8.data.toList

/-- The string with the capital letters of the alphabet made small. -/
def lowered (s : String) : String := s.map Char.toLower

/-- Strings by their characters, and probes by the start of their bytes. -/
def text : KeyOrder String String :=
  ⟨fun a b => compare a b, fun p k => compareStart (bytes k) (bytes p)⟩

/-- Strings by the number of their bytes, and probes by the same. -/
def textLength : KeyOrder String String := byMeasure String.utf8ByteSize id String.utf8ByteSize

/-- Strings by the number of their bytes and then by their characters, and probes by the number
of bytes alone. -/
def textLengthThen : KeyOrder String String :=
  ⟨fun a b => (textLength.order a b).then (text.order a b), textLength.probe⟩

/-- Strings without regard to the case of the alphabet, and probes likewise. -/
def textFolded : KeyOrder String String :=
  ⟨fun a b => text.order (lowered a) (lowered b), fun p k => text.probe (lowered p) (lowered k)⟩

/-- Lists element by element, and probes by their start. -/
def list : KeyOrder (List Int64) (List Int64) :=
  ⟨fun a b => compare (a.map Int64.toInt) (b.map Int64.toInt),
    fun p k => compareStart (k.map Int64.toInt) (p.map Int64.toInt)⟩

/-- Lists by length, and probes by the same. -/
def listLength : KeyOrder (List Int64) (List Int64) := byMeasure List.length id List.length

/-! ## Pairs -/

/-- Pairs by their first component, and probes by the same. -/
def pairFirst : KeyOrder (Int64 × Int64) Int64 :=
  byMeasure (fun k => k.1.toInt) id Int64.toInt

/-- Pairs by their second component, and probes by its tens. -/
def pairSecond : KeyOrder (Int64 × Int64) Int64 :=
  byMeasure (fun k => k.2.toInt) (· / 10) Int64.toInt

/-- Pairs by their first component and then by the second one, and probes by the first alone. -/
def pair : KeyOrder (Int64 × Int64) Int64 :=
  ⟨fun a b => (pairFirst.order a b).then (pairSecond.order a b), pairFirst.probe⟩

end KeyOrder

end FlatAssoc
