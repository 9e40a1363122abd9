import FlatAssoc.Key
import Mathlib.Data.List.Forall2

/-!
# Reading back what was written

A reader reads a text back (`Json.ReadsBack`) if it takes from it what was written, whatever
follows that does not go on with a number. The readers of integers and strings do so for what the
writers leave, and the readers of sequences, pairs and maps if the readers of their parts do.
-/

namespace FlatAssoc

/-! ## Digits -/

namespace Decimal

theorem digit?_digitChar : ∀ d < 10, digit? (digitChar d) = some d := by decide

theorem digitChar_ne_minus : ∀ d < 10, digitChar d ≠ '-' := by decide

theorem lt_of_mem_digits {n d : Nat} (h : d ∈ digits n) : d < 10 := by
  induction n using digits.induct with
  | case1 n hn =>
    rw [digits, if_pos hn, List.mem_singleton] at h
    omega
  | case2 n hn ih =>
    rw [digits, if_neg hn, List.mem_append, List.mem_singleton] at h
    rcases h with h | h
    · exact ih h
    · omega

theorem ofDigits_append_singleton (ds : List Nat) (d : Nat) :
    ofDigits (ds ++ [d]) = 10 * ofDigits ds + d := List.foldl_append

theorem ofDigits_digits (n : Nat) : ofDigits (digits n) = n := by
  induction n using digits.induct with
  | case1 n hn =>
    rw [digits, if_pos hn]
    exact Nat.zero_add n
  | case2 n hn ih =>
    rw [digits, if_neg hn, ofDigits_append_singleton, ih]
    omega

theorem le_foldl (w : Nat) (ds : List Nat) : w ≤ ds.foldl (fun n d => 10 * n + d) w := by
  induction ds generalizing w with
  | nil => exact Nat.le_refl w
  | cons d ds ih =>
    have hd := ih (10 * w + d)
    rw [List.foldl_cons]
    omega

theorem digits_ne_nil (n : Nat) : digits n ≠ [] := by
  unfold digits
  split
  · exact List.cons_ne_nil n []
  · exact List.append_ne_nil_of_right_ne_nil _ (List.cons_ne_nil _ _)

/-- A leading zero stands alone. -/
theorem tail_eq_nil_of_digits {n : Nat} {ds : List Nat} (h : digits n = 0 :: ds) : ds = [] := by
  induction n using digits.induct generalizing ds with
  | case1 n hn =>
    rw [digits, if_pos hn] at h
    exact (List.cons.inj h).2.symm
  | case2 n hn ih =>
    rw [digits, if_neg hn] at h
    cases hq : digits (n / 10) with
    | nil => exact absurd hq (digits_ne_nil _)
    | cons d es =>
      rw [hq] at h
      obtain ⟨rfl, -⟩ := List.cons.inj h
      -- all higher places are zero, so there are none
      have hzero : n / 10 = 0 := by
        rw [← ofDigits_digits (n / 10), hq, ih hq]
        rfl
      omega

theorem spanDigits_map {ds : List Nat} (h : ∀ d ∈ ds, d < 10) {rest : List Char}
    (hr : ∀ c ∈ rest.head?, digit? c = none) :
    spanDigits (ds.map digitChar ++ rest) = (ds, rest) := by
  induction ds with
  | nil =>
    cases rest with
    | nil => rfl
    | cons c cs =>
      have hc : digit? c = none := hr c rfl
      simp only [List.map_nil, List.nil_append, spanDigits, hc]
  | cons d ds ih =>
    have hd : digit? (digitChar d) = some d := digit?_digitChar d (h d List.mem_cons_self)
    have hds := ih fun x hx => h x (List.mem_cons_of_mem _ hx)
    simp only [List.map_cons, List.cons_append, spanDigits, hd, hds]

theorem spanDigits_ofNat (n : Nat) {rest : List Char} (hr : ∀ c ∈ rest.head?, digit? c = none) :
    spanDigits (ofNat n ++ rest) = (digits n, rest) :=
  spanDigits_map (fun _ => lt_of_mem_digits) hr

theorem exists_ofNat_eq_cons (n : Nat) : ∃ d cs, d < 10 ∧ ofNat n = digitChar d :: cs := by
  unfold ofNat
  cases h : digits n with
  | nil => exact absurd h (digits_ne_nil n)
  | cons d ds =>
    refine ⟨d, ds.map digitChar, ?_, rfl⟩
    apply lt_of_mem_digits (n := n)
    rw [h]
    exact List.mem_cons_self

end Decimal

namespace Json

/-! ## Numbers -/

/-- The text does not go on with a number. -/
def Ends (cs : List Char) : Prop :=
  ∀ c ∈ cs.head?, Decimal.digit? c = none ∧ c ≠ '.' ∧ c ≠ 'e' ∧ c ≠ 'E'

theorem ends_nil : Ends [] := fun _ h => nomatch h

theorem ends_cons {c : Char}
    (h : Decimal.digit? c = none ∧ c ≠ '.' ∧ c ≠ 'e' ∧ c ≠ 'E') (cs : List Char) :
    Ends (c :: cs) := by
  rintro _ ⟨⟩
  exact h

variable {rest : List Char}

theorem readDigits_ofNat (n : Nat) (hr : Ends rest) :
    readDigits (Decimal.ofNat n ++ rest) = .ok (Decimal.digits n, rest) := by
  have hspan := Decimal.spanDigits_ofNat n fun c hc => (hr c hc).1
  obtain ⟨d, cs, -, hcons⟩ := Decimal.exists_ofNat_eq_cons n
  unfold readDigits
  rw [hspan, hcons]
  cases h : Decimal.digits n with
  | nil => exact absurd h (Decimal.digits_ne_nil n)
  | cons d ds => rfl

theorem readWhole_ofNat (n : Nat) (hr : Ends rest) :
    readWhole (Decimal.ofNat n ++ rest) = .ok (Decimal.digits n, rest) := by
  unfold readWhole
  rw [readDigits_ofNat n hr]
  split
  · rename_i d ds hzero
    cases Decimal.tail_eq_nil_of_digits (congrArg Prod.fst (Except.ok.inj hzero))
  · rfl

theorem readFraction_eq_none (hr : Ends rest) : readFraction rest = .ok (none, rest) := by
  unfold readFraction
  split
  · exact absurd rfl (hr '.' rfl).2.1
  · rfl

theorem readExponent_eq_none (hr : Ends rest) : readExponent rest = .ok (none, rest) := by
  unfold readExponent
  split
  · exact absurd rfl (hr 'e' rfl).2.2.1
  · exact absurd rfl (hr 'E' rfl).2.2.2
  · rfl

theorem readNumeral_ofNat (n : Nat) (hr : Ends rest) :
    readNumeral (Decimal.ofNat n ++ rest) = .ok (⟨Decimal.digits n, none, none⟩, rest) := by
  simp only [readNumeral, readWhole_ofNat n hr, readFraction_eq_none hr, readExponent_eq_none hr,
    bind, Except.bind]
  rfl

/-- Digits of a number that fits a word are all accumulated. -/
theorem accumulate_eq {w : Nat} {ds : List Nat}
    (h : ds.foldl (fun n d => 10 * n + d) w < wordLimit) :
    accumulate w ds = (ds.foldl (fun n d => 10 * n + d) w, []) := by
  induction ds generalizing w with
  | nil => rfl
  | cons d ds ih =>
    have hstep : 10 * w + d < wordLimit := Nat.lt_of_le_of_lt (Decimal.le_foldl _ ds) h
    rw [accumulate, if_pos hstep, ih h]
    rfl

theorem accumulate_digits {n : Nat} (h : n < wordLimit) :
    accumulate 0 (Decimal.digits n) = (n, []) := by
  have hn : (Decimal.digits n).foldl (fun n d => 10 * n + d) 0 = n := Decimal.ofDigits_digits n
  rw [accumulate_eq (by rwa [hn]), hn]

theorem integer?_digits {n : Nat} (h : n < wordLimit) :
    (Numeral.mk (Decimal.digits n) none none).integer? false = some (n : Int) := by
  simp only [Numeral.integer?, accumulate_digits h]
  rfl

/-- A negative integer is read exactly down to the least one of a word with a sign. -/
theorem integer?_digits_negative {n : Nat} (hn : n ≠ 0) (h : n ≤ wordLimit / 2) :
    (Numeral.mk (Decimal.digits n) none none).integer? true = some (-(n : Int)) := by
  have hlt : n < wordLimit := Nat.lt_of_le_of_lt h (by decide)
  have hrange : ¬ (n = 0 ∨ wordLimit / 2 < n) := by omega
  simp only [Numeral.integer?, accumulate_digits hlt, if_true, if_neg hrange]

theorem readNumber_ofNat {negative : Bool} {n : Nat} {i : Int}
    (hi : (Numeral.mk (Decimal.digits n) none none).integer? negative = some i) (hr : Ends rest) :
    readNumber negative (Decimal.ofNat n ++ rest) = .ok (.integer i, rest) := by
  simp only [readNumber, readNumeral_ofNat n hr, bind, Except.bind, hi]
  rfl

theorem readSigned_cons {c : Char} (h : c ≠ '-') (cs : List Char) :
    readSigned (c :: cs) = readNumber false (c :: cs) := by
  unfold readSigned
  split
  · rename_i cs' heq
    exact absurd (List.cons.inj heq).1 h
  · rfl

theorem readSigned_intText (n : Int64) (hr : Ends rest) :
    readSigned (intText n ++ rest) = .ok (.integer n.toInt, rest) := by
  have hlow := n.le_toInt
  have hhigh := n.toInt_lt
  unfold intText
  cases hn : n.toInt with
  | ofNat i =>
    obtain ⟨d, cs, hd, hcons⟩ := Decimal.exists_ofNat_eq_cons i
    have hi : i < wordLimit := by
      rw [hn, Int.ofNat_eq_natCast] at hhigh
      show i < 18446744073709551616
      omega
    have hread := readNumber_ofNat (integer?_digits hi) hr
    rw [hcons] at hread
    rw [Decimal.ofInt, hcons, List.cons_append, readSigned_cons (Decimal.digitChar_ne_minus d hd)]
    exact hread
  | negSucc i =>
    have hi : i + 1 ≤ wordLimit / 2 := by
      rw [hn, Int.negSucc_eq] at hlow
      show i + 1 ≤ 18446744073709551616 / 2
      omega
    exact readNumber_ofNat (integer?_digits_negative (Nat.succ_ne_zero i) hi) hr

theorem toInt64_integer (n : Int64) : (Number.integer n.toInt).toInt64 = .ok n := by
  have hrange : Int64.minValue.toInt ≤ n.toInt ∧ n.toInt ≤ Int64.maxValue.toInt :=
    ⟨n.minValue_le_toInt, n.toInt_le⟩
  rw [Number.toInt64, if_pos hrange, Int64.ofInt_toInt]

/-! ## Strings -/

theorem hexValue?_hexDigit : ∀ n < 16, hexValue? (hexDigit n) = some n := by decide

/-- An escaped control character is given by one code unit. -/
theorem readUnits_control {c : Char} (h : c.toNat < 0x20) (rest : List Char) :
    readUnits ('0' :: '0' :: hexDigit (c.toNat / 16) :: hexDigit (c.toNat % 16) :: rest) =
      .ok (c, rest) := by
  have hhigh := hexValue?_hexDigit (c.toNat / 16) (by omega)
  have hlow := hexValue?_hexDigit (c.toNat % 16) (by omega)
  have hzero : hexValue? '0' = some 0 := rfl
  have hunit : ((0 * 16 + 0) * 16 + c.toNat / 16) * 16 + c.toNat % 16 = c.toNat := by omega
  have htrailing : isTrailing c.toNat = false := by
    simp only [isTrailing, Bool.and_eq_false_iff, decide_eq_false_iff_not]
    omega
  have hleading : isLeading c.toNat = false := by
    simp only [isLeading, Bool.and_eq_false_iff, decide_eq_false_iff_not]
    omega
  simp only [readUnits, readHex, hzero, hhigh, hlow, hunit, htrailing, hleading, Char.ofNat_toNat]
  rfl

theorem readText_escaped {cs cs' : List Char} {x : Char} (h : readEscape cs = .ok (x, cs')) :
    readText ('\\' :: cs) = (fun r => (x :: r.1, r.2)) <$> readText cs' := by
  rw [readText]
  split
  · rename_i e he
    rw [h] at he
    cases he
  · rename_i y ys hy
    rw [h] at hy
    cases hy
    rfl

theorem readText_plain {c : Char} (hq : c ≠ '"') (hb : c ≠ '\\') (h : ¬ c.toNat < 0x20)
    (cs : List Char) : readText (c :: cs) = (fun r => (c :: r.1, r.2)) <$> readText cs := by
  rw [readText]
  · rw [if_neg h]
  · exact hq
  · exact hb

/-- Whether or not it is escaped, a character is read back. -/
theorem readText_escape (c : Char) (cs : List Char) :
    readText (escape c ++ cs) = (fun r => (c :: r.1, r.2)) <$> readText cs := by
  unfold escape
  split
  -- the escapes of one letter
  iterate 7 exact readText_escaped rfl
  · rename_i hq hb _ _ _ _ _
    split
    · rename_i hc
      exact readText_escaped (readUnits_control hc cs)
    · rename_i hc
      exact readText_plain hq hb hc cs

theorem readText_flatMap (s : List Char) (rest : List Char) :
    readText (s.flatMap escape ++ '"' :: rest) = .ok (s, rest) := by
  induction s with
  | nil => rw [List.flatMap_nil, List.nil_append, readText]
  | cons c s ih =>
    rw [List.flatMap_cons, List.append_assoc, readText_escape, ih]
    rfl

theorem readText_string (s : String) (rest : List Char) :
    (fun r => (String.ofList r.1, r.2)) <$> readText (s.toList.flatMap escape ++ '"' :: rest) =
      .ok (s, rest) := by
  rw [readText_flatMap]
  show Except.ok (String.ofList s.toList, rest) = _
  rw [String.ofList_toList]

/-! ## Readers -/

/-- A character that a value may open with: it is no blank and it closes nothing. -/
def Opens (c : Char) : Prop := isBlank c = false ∧ c ≠ ']' ∧ c ≠ '\x7d'

instance (c : Char) : Decidable (Opens c) := by
  unfold Opens
  infer_instance

/-- The reader takes `x` from the front of a text that starts with `text` and then ends, or goes
on with anything but a number. -/
structure ReadsBack {α : Type} (read : Read α) (text : List Char) (x : α) : Prop where
  opens : ∃ c cs, text = c :: cs ∧ Opens c
  reads : ∀ rest, Ends rest → read (text ++ rest) = .ok (x, rest)

/-- The reader of a name takes `x` from the front of what follows the opening quote. -/
def NameReadsBack {α : Type} (read : Read α) (text : List Char) (x : α) : Prop :=
  ∃ cs, text = '"' :: cs ∧ ∀ rest, read (cs ++ rest) = .ok (x, rest)

theorem skipBlank_cons {c : Char} (h : isBlank c = false) (cs : List Char) :
    skipBlank (c :: cs) = c :: cs := by
  rw [skipBlank, List.dropWhile_cons, h]
  rfl

/-- No blank is skipped before a text that is read back. -/
theorem ReadsBack.skipBlank {α : Type} {read : Read α} {text : List Char} {x : α}
    (h : ReadsBack read text x) (rest : List Char) :
    Json.skipBlank (text ++ rest) = text ++ rest := by
  obtain ⟨c, cs, rfl, hc⟩ := h.opens
  exact skipBlank_cons hc.1 (cs ++ rest)

/-! ## Integers and strings -/

theorem exists_intText_eq_cons (n : Int64) :
    ∃ c cs, intText n = c :: cs ∧ startsNumber c = true ∧ Opens c := by
  have hdigit : ∀ d < 10, startsNumber (Decimal.digitChar d) = true ∧
      Opens (Decimal.digitChar d) := by decide
  unfold intText
  cases n.toInt with
  | ofNat i =>
    obtain ⟨d, cs, hd, hcons⟩ := Decimal.exists_ofNat_eq_cons i
    exact ⟨Decimal.digitChar d, cs, hcons, hdigit d hd⟩
  | negSucc i => exact ⟨'-', Decimal.ofNat (i + 1), rfl, by decide, by decide⟩

theorem readsBack_int (n : Int64) : ReadsBack readInt (intText n) n := by
  obtain ⟨c, cs, hcons, hstart, hopens⟩ := exists_intText_eq_cons n
  refine ⟨⟨c, cs, hcons, hopens⟩, fun rest hr => ?_⟩
  have hsigned := readSigned_intText n hr
  rw [hcons] at hsigned ⊢
  unfold readInt
  rw [List.cons_append, skipBlank_cons hopens.1]
  simp only [if_pos hstart, ← List.cons_append, hsigned, toInt64_integer, bind, Except.bind]
  rfl

theorem nameReadsBack_int (n : Int64) :
    NameReadsBack Key.readIntName ('"' :: intText n ++ ['"']) n := by
  obtain ⟨c, cs, hcons, hstart, -⟩ := exists_intText_eq_cons n
  refine ⟨intText n ++ ['"'], rfl, fun rest => ?_⟩
  have hr : Ends ('"' :: rest) := ends_cons (by decide) rest
  have hsigned := readSigned_intText n hr
  rw [List.append_assoc]
  rw [hcons] at hsigned ⊢
  simp only [Key.readIntName, List.cons_append, List.nil_append, if_pos hstart] at hsigned ⊢
  simp only [hsigned, toInt64_integer, bind, Except.bind]
  rfl

theorem readsBack_string (s : String) : ReadsBack readString (writeText s.toList) s := by
  refine ⟨⟨'"', _, rfl, by decide⟩, fun rest _ => ?_⟩
  have hquote : isBlank '"' = false := rfl
  unfold readString writeText
  rw [List.append_assoc, List.cons_append, skipBlank_cons hquote]
  exact readText_string s rest

theorem nameReadsBack_string (s : String) :
    NameReadsBack Key.readName (writeText s.toList) s := by
  refine ⟨s.toList.flatMap escape ++ ['"'], rfl, fun rest => ?_⟩
  rw [List.append_assoc]
  exact readText_string s rest

/-! ## Sequences and maps -/

section

variable {α : Type} {item : Read α} {closing : Char} {texts : List (List Char)} {xs : List α}

/-- All items but the first one follow a comma. -/
theorem separated_cons (text : List Char) (texts : List (List Char)) :
    separated (text :: texts) = text ++ texts.flatMap (',' :: ·) := by
  induction texts generalizing text with
  | nil => rw [separated, List.flatMap_nil, List.append_nil]
  | cons t ts ih => rw [separated, ih, List.flatMap_cons, List.cons_append]

/-- What closes a sequence or a map. -/
def Closes (c : Char) : Prop := c = ']' ∨ c = '\x7d'

theorem Closes.ends (hc : Closes closing) (rest : List Char) : Ends (closing :: rest) := by
  rcases hc with rfl | rfl
  · exact ends_cons (by decide) rest
  · exact ends_cons (by decide) rest

theorem Closes.not_blank (hc : Closes closing) : isBlank closing = false := by
  rcases hc with rfl | rfl <;> rfl

theorem Closes.ne_comma (hc : Closes closing) : ',' ≠ closing := by
  rcases hc with rfl | rfl <;> decide

theorem Opens.ne_closing {c : Char} (h : Opens c) (hc : Closes closing) : c ≠ closing := by
  rcases hc with rfl | rfl
  · exact h.2.1
  · exact h.2.2

theorem ends_flatMap (hc : Closes closing) (texts : List (List Char)) (rest : List Char) :
    Ends (texts.flatMap (',' :: ·) ++ closing :: rest) := by
  cases texts with
  | nil => exact hc.ends rest
  | cons t ts => exact ends_cons (by decide) _

theorem readItems_closing (hc : Closes closing) (first : Bool) (rest : List Char) :
    readItems item closing first (closing :: rest) = .ok ([], rest) := by
  rw [readItems, skipBlank_cons hc.not_blank]
  simp only [if_pos]

/-- Items after commas are read back up to what closes them. -/
theorem readItems_flatMap (hc : Closes closing) (h : List.Forall₂ (ReadsBack item) texts xs)
    (rest : List Char) :
    readItems item closing false (texts.flatMap (',' :: ·) ++ closing :: rest) =
      .ok (xs, rest) := by
  -- after each item stands a comma or what closes the items, so the item is read to its end
  induction h with
  | nil => exact readItems_closing hc false rest
  | @cons t x ts xs ht _ ih =>
    have hcomma : isBlank ',' = false := rfl
    have hread := ht.reads _ (ends_flatMap hc ts rest)
    have hlt : (ts.flatMap (',' :: ·) ++ closing :: rest).length <
        (',' :: (t ++ (ts.flatMap (',' :: ·) ++ closing :: rest))).length := by
      simp only [List.length_cons, List.length_append]
      omega
    rw [List.flatMap_cons, List.cons_append, List.cons_append, List.append_assoc, readItems,
      skipBlank_cons hcomma]
    simp only [if_neg hc.ne_comma, Bool.false_eq_true, if_false, ht.skipBlank, hread, ih,
      if_pos hlt]
    rfl

theorem readItems_separated (hc : Closes closing) (h : List.Forall₂ (ReadsBack item) texts xs)
    (rest : List Char) :
    readItems item closing true (separated texts ++ closing :: rest) = .ok (xs, rest) := by
  cases h with
  | nil => exact readItems_closing hc true rest
  | @cons t x ts xs ht hts =>
    have hread := ht.reads _ (ends_flatMap hc ts rest)
    have hitems := readItems_flatMap hc hts rest
    obtain ⟨c, cs, rfl, hopens⟩ := ht.opens
    have hlt : (ts.flatMap (',' :: ·) ++ closing :: rest).length <
        (c :: (cs ++ (ts.flatMap (',' :: ·) ++ closing :: rest))).length := by
      simp only [List.length_cons, List.length_append]
      omega
    rw [List.cons_append] at hread
    rw [separated_cons, List.append_assoc, List.cons_append, readItems, skipBlank_cons hopens.1]
    simp only [if_neg (hopens.ne_closing hc), Bool.true_or, if_true, hread, hitems, if_pos hlt]
    rfl

end

variable {α β : Type}

theorem readsBack_sequence {item : Read α} {texts : List (List Char)} {xs : List α}
    (h : List.Forall₂ (ReadsBack item) texts xs) :
    ReadsBack (readSequence item) (writeSequence texts) xs := by
  refine ⟨⟨'[', _, rfl, by decide⟩, fun rest _ => ?_⟩
  have hitems := readItems_separated (.inl rfl) h rest
  have hopen : isBlank '[' = false := rfl
  unfold readSequence writeSequence
  rw [List.append_assoc, List.cons_append, skipBlank_cons hopen]
  exact hitems

theorem readsBack_pair {item : Read α} {text₁ text₂ : List Char} {a b : α}
    (ha : ReadsBack item text₁ a) (hb : ReadsBack item text₂ b) :
    ReadsBack (readPair item) (writeSequence [text₁, text₂]) (a, b) := by
  refine ⟨⟨'[', _, rfl, by decide⟩, fun rest _ => ?_⟩
  have hopen : isBlank '[' = false := rfl
  have hcomma : isBlank ',' = false := rfl
  have hclose : isBlank ']' = false := rfl
  have hfirst := ha.reads (',' :: (text₂ ++ ']' :: rest)) (ends_cons (by decide) _)
  have hsecond := hb.reads (']' :: rest) (ends_cons (by decide) rest)
  have htext : writeSequence [text₁, text₂] ++ rest =
      '[' :: (text₁ ++ ',' :: (text₂ ++ ']' :: rest)) := by
    simp only [writeSequence, separated, List.cons_append, List.append_assoc, List.nil_append]
  rw [htext, readPair, skipBlank_cons hopen]
  obtain ⟨c, cs, rfl, hopens⟩ := ha.opens
  rw [List.cons_append] at hfirst ⊢
  simp only [skipBlank_cons hopens.1]
  split
  · rename_i heq
    exact absurd (List.cons.inj heq).1 hopens.2.1
  · simp only [hfirst, readSecond, readPairEnd, skipBlank_cons hcomma, hsecond,
      skipBlank_cons hclose, bind, Except.bind]
    rfl

theorem readsBack_member {name : Read α} {value : Read β} {text₁ text₂ : List Char} {a : α} {b : β}
    (ha : NameReadsBack name text₁ a) (hb : ReadsBack value text₂ b) :
    ReadsBack (readMember name value) (text₁ ++ ':' :: text₂) (a, b) := by
  obtain ⟨cs, rfl, hname⟩ := ha
  refine ⟨⟨'"', _, rfl, by decide⟩, fun rest hr => ?_⟩
  have hcolon : isBlank ':' = false := rfl
  have hvalue := hb.reads rest hr
  rw [List.append_assoc, List.cons_append, readMember]
  simp only [hname, List.cons_append, skipBlank_cons hcolon, hvalue, bind, Except.bind]
  rfl

theorem readsBack_map {name : Read α} {value : Read β} {members : List (List Char × List Char)}
    {ps : List (α × β)}
    (h : List.Forall₂ (fun m p => NameReadsBack name m.1 p.1 ∧ ReadsBack value m.2 p.2)
      members ps) :
    ReadsBack (readMap name value) (writeMap members) ps := by
  have hmembers : List.Forall₂ (ReadsBack (readMember name value))
      (members.map fun m => m.1 ++ ':' :: m.2) ps := by
    rw [List.forall₂_map_left_iff]
    exact h.imp fun _ _ hmp => readsBack_member hmp.1 hmp.2
  refine ⟨⟨'\x7b', _, rfl, by decide⟩, fun rest _ => ?_⟩
  have hitems := readItems_separated (.inr rfl) hmembers rest
  have hopen : isBlank '\x7b' = false := rfl
  unfold readMap writeMap
  rw [List.append_assoc, List.cons_append, skipBlank_cons hopen]
  exact hitems

/-- A document holds what its one value is read back as. -/
theorem readDocument_eq_ok {read : Read α} {text : List Char} {x : α} (h : ReadsBack read text x) :
    readDocument read text = .ok x := by
  have hread := h.reads [] ends_nil
  rw [List.append_nil] at hread
  rw [readDocument, hread]
  rfl

end Json

end FlatAssoc
