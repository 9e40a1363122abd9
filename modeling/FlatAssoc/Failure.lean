/-!
# Failures

What can make an operation fail, and the wordings that are part of its behaviour. A document is
refused for the first problem met from left to right; a value of the wrong kind is described only
where a map or a sequence is wanted.
-/

namespace FlatAssoc

/-! ## Documents -/

namespace Json

/-- What the reader of a value wants. -/
inductive Wanted where
  | map
  | sequence
  | integer
  | text
  | pair
  deriving DecidableEq, Repr

/-- What the reader of a value finds. -/
inductive Found where
  | map
  | sequence
  | null
  | boolean (b : Bool)
  | integer (n : Int)
  | real (decimal : String)
  | text (quoted : String)
  deriving DecidableEq, Repr

/-- Why a document is refused. -/
inductive Error where
  /-- The text ends too early. -/
  | ended
  /-- The text is not written as a document is. -/
  | malformed
  /-- A value of another kind was wanted. -/
  | mismatch (found : Found) (wanted : Wanted)
  /-- An integer that no key or value can be. -/
  | outOfRange (n : Int)
  /-- A sequence with too few elements. -/
  | tooShort (length : Nat)
  deriving DecidableEq, Repr

/-- The words for what was found. -/
def Found.words : Found → String
  | .map => "map"
  | .sequence => "sequence"
  | .null => "null"
  | .boolean b => "boolean `" ++ (if b then "true" else "false") ++ "`"
  | .integer n => "integer `" ++ toString n ++ "`"
  | .real decimal => "floating point `" ++ decimal ++ "`"
  | .text quoted => "string " ++ quoted

def mismatchWords (found : Found) (wanted : String) : String :=
  "invalid type: " ++ found.words ++ ", expected " ++ wanted

/-- The description of an error, for those that have one. -/
def Error.message? : Error → Option String
  | .mismatch found .map => some (mismatchWords found "a map")
  | .mismatch found .sequence => some (mismatchWords found "a sequence")
  | _ => none

end Json

/-! ## Operations -/

/-- Why an operation did not answer. -/
inductive Failure where
  /-- No entry matches where one is required. -/
  | noEntry
  /-- The maker of a value gave up. -/
  | makerFailed
  /-- The visitor of a retention gave up. -/
  | visitorFailed
  /-- The source of a load gave up. -/
  | sourceFailed
  /-- Positions that do not delimit a part of the container. -/
  | badRange
  /-- A position past the last entry. -/
  | outOfBounds
  /-- More room was demanded than can exist. -/
  | noRoom
  /-- More room was asked for, politely, than can exist. -/
  | roomRefused
  /-- A key that has no form as the name of an object's member. -/
  | keyNotText
  /-- A document that holds no such container. -/
  | unreadable (e : Json.Error)
  /-- A step that the container at hand does not offer. -/
  | notOffered
  deriving DecidableEq, Repr

namespace Failure

/-- The wording of a failure, for those that have one. -/
def message? : Failure → Option String
  | .noEntry => some "no entry found for key"
  | .makerFailed => some "make failed"
  | .keyNotText => some "key must be a string"
  | .unreadable e => e.message?
  | _ => none

end Failure

end FlatAssoc
