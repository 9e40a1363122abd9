import FlatAssoc.Json.Number
import FlatAssoc.Text.Debug

/-!
# The notation of documents

Documents are written without blanks; in a string only the quote, the backslash and the control
characters below the blank are escaped. A reader is told what it wants, so it stops at the first
thing that does not fit: the end of the text, a text that is no document, or a value of another
kind.
-/

namespace FlatAssoc

/-! ## Writing -/

namespace Json

/-- A lower-case hexadecimal digit. -/
def hexDigit (n : Nat) : Char := if n < 10 then Char.ofNat (48 + n) else Char.ofNat (87 + n)

/-- How a character stands in a string. -/
def escape (c : Char) : List Char :=
  match c with
  | '"' => ['\\', '"']
  | '\\' => ['\\', '\\']
  | '\x08' => ['\\', 'b']
  | '\x0c' => ['\\', 'f']
  | '\n' => ['\\', 'n']
  | '\r' => ['\\', 'r']
  | '\t' => ['\\', 't']
  | c =>
    if c.toNat < 0x20 then ['\\', 'u', '0', '0', hexDigit (c.toNat / 16), hexDigit (c.toNat % 16)]
    else [c]

def writeText (s : List Char) : List Char := '"' :: s.flatMap escape ++ ['"']

/-- Items with commas between them. -/
def separated : List (List Char) → List Char
  | [] => []
  | [x] => x
  | x :: y :: r => x ++ ',' :: separated (y :: r)

def writeSequence (items : List (List Char)) : List Char := '[' :: separated items ++ [']']

/-- A map of written names and values. -/
def writeMap (members : List (List Char × List Char)) : List Char :=
  '\x7b' :: separated (members.map fun (name, value) => name ++ ':' :: value) ++ ['\x7d']

/-! ## Blanks -/

/-- The blanks between the parts of a document. -/
def isBlank (c : Char) : Bool := c == ' ' || c == '\n' || c == '\t' || c == '\r'

/-- The text from its first part on. -/
def skipBlank (cs : List Char) : List Char := cs.dropWhile isBlank

/-! ## Strings -/

/-- The value of a hexadecimal digit of either case. -/
def hexValue? (c : Char) : Option Nat :=
  let n := c.toNat
  if 48 ≤ n ∧ n ≤ 57 then some (n - 48)
  else if 97 ≤ n ∧ n ≤ 102 then some (n - 87)
  else if 65 ≤ n ∧ n ≤ 70 then some (n - 55)
  else none

/-- The number of bytes of a text. -/
def byteLength (cs : List Char) : Nat := cs.foldl (fun n c => n + c.utf8Size) 0

/-- Four hexadecimal digits; a text with fewer than four bytes left ends too early. -/
def readHex : Read Nat := fun cs =>
  match cs with
  | a :: b :: c :: d :: rest =>
    match hexValue? a, hexValue? b, hexValue? c, hexValue? d with
    | some a, some b, some c, some d => .ok (((a * 16 + b) * 16 + c) * 16 + d, rest)
    | _, _, _, _ => .error .malformed
  | cs => if byteLength cs < 4 then .error .ended else .error .malformed

/-- Whether a code unit opens a pair of units for one character. -/
def isLeading (n : Nat) : Bool := 0xd800 ≤ n && n ≤ 0xdbff

/-- Whether a code unit closes a pair of units for one character. -/
def isTrailing (n : Nat) : Bool := 0xdc00 ≤ n && n ≤ 0xdfff

/-- The second unit of a pair, which has to follow the first one. -/
def readTrailing : Read Nat := fun cs =>
  match cs with
  | [] | ['\\'] => .error .ended
  | '\\' :: 'u' :: cs =>
    match readHex cs with
    | .error e => .error e
    | .ok (n, rest) => if isTrailing n then .ok (n, rest) else .error .malformed
  | _ => .error .malformed

/-- A character given by one code unit or by a pair of them. -/
def readUnits : Read Char := fun cs =>
  match readHex cs with
  | .error e => .error e
  | .ok (n, cs) =>
    if isTrailing n then .error .malformed
    else if isLeading n then
      match readTrailing cs with
      | .error e => .error e
      | .ok (n', cs) => .ok (Char.ofNat ((n - 0xd800) * 0x400 + (n' - 0xdc00) + 0x10000), cs)
    else .ok (Char.ofNat n, cs)

/-- What a one-letter escape stands for. -/
def unescape? : Char → Option Char
  | '"' => some '"'
  | '\\' => some '\\'
  | '/' => some '/'
  | 'b' => some '\x08'
  | 'f' => some '\x0c'
  | 'n' => some '\n'
  | 'r' => some '\r'
  | 't' => some '\t'
  | _ => none

/-- An escaped character, after the backslash. -/
def readEscape : Read Char := fun cs =>
  match cs with
  | [] => .error .ended
  | 'u' :: cs => readUnits cs
  | c :: cs =>
    match unescape? c with
    | some x => .ok (x, cs)
    | none => .error .malformed

theorem length_readHex {cs rest : List Char} {n : Nat} (h : readHex cs = .ok (n, rest)) :
    rest.length < cs.length := by
  unfold readHex at h
  split at h
  · split at h
    · simp only [Except.ok.injEq, Prod.mk.injEq] at h
      simp only [← h.2, List.length_cons]
      omega
    · simp at h
  · split at h <;> simp at h

theorem length_readTrailing {cs rest : List Char} {n : Nat}
    (h : readTrailing cs = .ok (n, rest)) : rest.length < cs.length := by
  unfold readTrailing at h
  split at h
  · simp at h
  · simp at h
  · split at h
    · simp at h
    · rename_i hx
      split at h
      · simp only [Except.ok.injEq, Prod.mk.injEq] at h
        have := length_readHex hx
        simp only [List.length_cons, ← h.2]
        omega
      · simp at h
  · simp at h

theorem length_readUnits {cs rest : List Char} {x : Char} (h : readUnits cs = .ok (x, rest)) :
    rest.length < cs.length := by
  unfold readUnits at h
  split at h
  · simp at h
  · rename_i hx
    have h₁ := length_readHex hx
    split at h
    · simp at h
    · split at h
      · split at h
        · simp at h
        · rename_i hy
          have h₂ := length_readTrailing hy
          simp only [Except.ok.injEq, Prod.mk.injEq] at h
          simp only [← h.2]
          omega
      · simp only [Except.ok.injEq, Prod.mk.injEq] at h
        simpa only [← h.2] using h₁

theorem length_readEscape {cs rest : List Char} {x : Char} (h : readEscape cs = .ok (x, rest)) :
    rest.length < cs.length := by
  unfold readEscape at h
  split at h
  · simp at h
  · have := length_readUnits h
    simp only [List.length_cons]
    omega
  · split at h
    · simp only [Except.ok.injEq, Prod.mk.injEq] at h
      simp [← h.2]
    · simp at h

/-- The characters of a string, after its opening quote. -/
def readText (cs : List Char) : Except Error (List Char × List Char) :=
  match cs with
  | [] => .error .ended
  | '"' :: cs => .ok ([], cs)
  | '\\' :: cs =>
    match _h : readEscape cs with
    | .error e => .error e
    | .ok (x, cs) => (fun (xs, rest) => (x :: xs, rest)) <$> readText cs
  | c :: cs =>
    if c.toNat < 0x20 then .error .malformed
    else (fun (xs, rest) => (c :: xs, rest)) <$> readText cs
  termination_by cs.length
  decreasing_by
  all_goals
    first
    | exact Nat.lt_succ_of_lt (length_readEscape _h)
    | exact Nat.lt_succ_self _

/-! ## Values of other kinds -/

/-- Reads a fixed word, and nothing of a text that departs from it. -/
def readWord : List Char → List Char → Except Error (List Char)
  | [], cs => .ok cs
  | _ :: _, [] => .error .ended
  | w :: ws, c :: cs => if w = c then readWord ws cs else .error .malformed

/-- Whether a number may start with this character. -/
def startsNumber (c : Char) : Bool := c == '-' || (Decimal.digit? c).isSome

/-- A number with its sign. -/
def readSigned : Read Number := fun cs =>
  match cs with
  | '-' :: cs => readNumber true cs
  | cs => readNumber false cs

/-- What stands in place of the value that is wanted; the first token is read to its end. -/
def describe (cs : List Char) : Except Error Found :=
  match cs with
  | [] => .error .ended
  | 'n' :: cs => (fun _ => .null) <$> readWord ['u', 'l', 'l'] cs
  | 't' :: cs => (fun _ => .boolean true) <$> readWord ['r', 'u', 'e'] cs
  | 'f' :: cs => (fun _ => .boolean false) <$> readWord ['a', 'l', 's', 'e'] cs
  | '"' :: cs => (fun (s, _) => .text (Text.quote (String.ofList s))) <$> readText cs
  | '[' :: _ => .ok .sequence
  | '\x7b' :: _ => .ok .map
  | c :: cs =>
    if startsNumber c then (fun (n, _) => n.found) <$> readSigned (c :: cs)
    else .error .malformed

/-- The error for a value of another kind than the one wanted. -/
def refuse {α : Type} (wanted : Wanted) (cs : List Char) : Except Error α :=
  match describe cs with
  | .ok found => .error (.mismatch found wanted)
  | .error e => .error e

/-- An integer of a word with a sign, from a number. -/
def Number.toInt64 : Number → Except Error Int64
  | .integer n =>
    if Int64.minValue.toInt ≤ n ∧ n ≤ Int64.maxValue.toInt then .ok (Int64.ofInt n)
    else .error (.outOfRange n)
  | .real x => .error (.mismatch (Number.real x).found .integer)

def readInt : Read Int64 := fun cs =>
  match skipBlank cs with
  | [] => .error .ended
  | c :: cs =>
    if startsNumber c then do
      let (n, rest) ← readSigned (c :: cs)
      let i ← n.toInt64
      pure (i, rest)
    else refuse .integer (c :: cs)

def readString : Read String := fun cs =>
  match skipBlank cs with
  | '"' :: cs => (fun (s, rest) => (String.ofList s, rest)) <$> readText cs
  | cs => refuse .text cs

/-! ## Sequences and maps -/

/-- Items with commas between them, up to the closing character. A reader of items that takes
nothing makes the text malformed. -/
def readItems {α : Type} (item : Read α) (closing : Char) (first : Bool) (cs : List Char) :
    Except Error (List α × List Char) :=
  match skipBlank cs with
  | [] => .error .ended
  | c :: rest =>
    if c = closing then .ok ([], rest)
    else if first || c = ',' then
      match item (if first then c :: rest else skipBlank rest) with
      | .error e => .error e
      | .ok (x, rest) =>
        if rest.length < cs.length then
          (fun (xs, rest) => (x :: xs, rest)) <$> readItems item closing false rest
        else .error .malformed
    else .error .malformed
  termination_by cs.length

def readSequence {α : Type} (item : Read α) : Read (List α) := fun cs =>
  match skipBlank cs with
  | '[' :: cs => readItems item ']' true cs
  | cs => refuse .sequence cs

/-- The second element of a pair. -/
def readSecond {α : Type} (item : Read α) : Read α := fun cs =>
  match skipBlank cs with
  | [] => .error .ended
  | ']' :: _ => .error (.tooShort 1)
  | ',' :: cs => item cs
  | _ => .error .malformed

/-- The end of a pair. -/
def readPairEnd (cs : List Char) : Except Error (List Char) :=
  match skipBlank cs with
  | [] => .error .ended
  | ']' :: cs => .ok cs
  | _ => .error .malformed

/-- A sequence of two elements. -/
def readPair {α : Type} (item : Read α) : Read (α × α) := fun cs =>
  match skipBlank cs with
  | '[' :: cs => do
    match skipBlank cs with
    | ']' :: _ => throw (.tooShort 0)
    | cs =>
      let (a, cs) ← item cs
      let (b, cs) ← readSecond item cs
      let cs ← readPairEnd cs
      pure ((a, b), cs)
  | cs => refuse .pair cs

/-- A name, a colon and a value; the reader of the name starts after its opening quote. -/
def readMember {α β : Type} (name : Read α) (value : Read β) : Read (α × β) := fun cs =>
  match cs with
  | [] => .error .ended
  | '"' :: cs => do
    let (k, cs) ← name cs
    match skipBlank cs with
    | [] => throw .ended
    | ':' :: cs =>
      let (v, cs) ← value cs
      pure ((k, v), cs)
    | _ => throw .malformed
  | _ => .error .malformed

/-- A map of any size. -/
def readMap {α β : Type} (name : Read α) (value : Read β) : Read (List (α × β)) := fun cs =>
  match skipBlank cs with
  | '\x7b' :: cs => readItems (readMember name value) '\x7d' true cs
  | cs => refuse .map cs

/-- A whole document: one value and blanks. -/
def readDocument {α : Type} (value : Read α) (cs : List Char) : Except Error α := do
  let (x, rest) ← value cs
  if (skipBlank rest).isEmpty then pure x else throw .malformed

end Json

end FlatAssoc
