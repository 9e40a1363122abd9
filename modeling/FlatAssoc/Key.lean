import FlatAssoc.Flat
import FlatAssoc.Json.Notation

/-!
# Kinds of keys and their documents

Integers, strings, pairs of integers and lists of integers can be keys. Each kind has debug words
and a form as an element of a document; only integers and strings have a form as the name of a
member, where an integer stands in quotes. A container with values is a map in a document and in
debug text, a set is a sequence of keys and, in debug text, keys in braces. Entries are written in
order and read in the order of the document.
-/

namespace FlatAssoc

/-- How keys are put into words, written and read. -/
class Key (K : Type) where
  /-- The debug words. -/
  words : K → Debug
  /-- The form as an element. -/
  element : K → List Char
  /-- The form as a name, if there is one. -/
  name? : K → Option (List Char)
  /-- Reads an element. -/
  readElement : Json.Read K
  /-- Reads a name, after its opening quote. -/
  readName : Json.Read K
  /-- Whether keys can be copied out of a borrowed source. -/
  copied : Bool

/-- The notation of a word with a sign. -/
def intText (n : Int64) : List Char := Decimal.ofInt n.toInt

def intWords (n : Int64) : Debug := .atom (String.ofList (intText n))

namespace Key

/-- An integer in quotes, after the opening one. -/
def readIntName : Json.Read Int64 := fun cs =>
  match cs with
  | [] => .error .malformed
  | c :: cs =>
    if Json.startsNumber c then do
      let (n, rest) ← Json.readSigned (c :: cs)
      let i ← n.toInt64
      match rest with
      | '"' :: rest => pure (i, rest)
      | _ => throw .malformed
    else .error .malformed

/-- A string in place of the name of a kind that has none. -/
def refuseName {K : Type} (wanted : Json.Wanted) : Json.Read K := fun cs =>
  match Json.readText cs with
  | .ok (s, _) => .error (.mismatch (.text (Text.quote (String.ofList s))) wanted)
  | .error e => .error e

instance : Key Int64 where
  words := intWords
  element := intText
  name? n := some ('"' :: intText n ++ ['"'])
  readElement := Json.readInt
  readName := readIntName
  copied := true

instance : Key String where
  words s := .atom (Text.quote s)
  element s := Json.writeText s.toList
  name? s := some (Json.writeText s.toList)
  readElement := Json.readString
  readName cs := (fun (s, rest) => (String.ofList s, rest)) <$> Json.readText cs
  copied := false

instance : Key (Int64 × Int64) where
  words p := .tuple "" [intWords p.1, intWords p.2]
  element p := Json.writeSequence [intText p.1, intText p.2]
  name? _ := none
  readElement := Json.readPair Json.readInt
  readName := refuseName .pair
  copied := true

instance : Key (List Int64) where
  words ns := .list (ns.map intWords)
  element ns := Json.writeSequence (ns.map intText)
  name? _ := none
  readElement := Json.readSequence Json.readInt
  readName := refuseName .sequence
  copied := false

end Key

/-! ## Containers as documents -/

/-- How the entries of a container are put into words, written and read. -/
class Document (K V : Type) where
  /-- The debug words of a value. -/
  valueWords : V → Debug
  /-- The debug words of a container. -/
  words : List (Entry K V) → Debug
  /-- The document of a container. -/
  write : List (Entry K V) → Except Failure (List Char)
  /-- The entries in a document. -/
  read : List Char → Except Json.Error (List (Entry K V))
  /-- Whether entries are keys without values. -/
  keysAlone : Bool

namespace Document

variable {K : Type} [Key K]

/-- The member for an entry, whose key must have a form as a name. -/
def member (e : Entry K Int64) : Except Failure (List Char × List Char) :=
  match Key.name? e.key with
  | some name => .ok (name, intText e.value)
  | none => .error .keyNotText

instance : Document K Int64 where
  valueWords := intWords
  words es := .braces (es.map fun e => .field (Key.words e.key) (intWords e.value))
  write es := Json.writeMap <$> es.mapM member
  read cs := (·.map Entry.ofPair) <$> Json.readDocument (Json.readMap Key.readName Json.readInt) cs
  keysAlone := false

instance : Document K Unit where
  valueWords _ := .tuple "" []
  words es := .braces (es.map fun e => Key.words e.key)
  write es := .ok (Json.writeSequence (es.map fun e => Key.element e.key))
  read cs := (·.map fun k => ⟨k, ()⟩) <$> Json.readDocument (Json.readSequence Key.readElement) cs
  keysAlone := true

variable {V : Type} [Document K V]

def entryWords (e : Entry K V) : Debug :=
  .tuple "Entry" [Key.words e.key, valueWords K e.value]

def pairWords (e : Entry K V) : Debug := .tuple "" [Key.words e.key, valueWords K e.value]

end Document

end FlatAssoc
