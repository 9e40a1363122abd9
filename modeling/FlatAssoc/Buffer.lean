/-!
# Double-ended buffers

A buffer keeps its items in two slices, read one after the other. Where the seam between them
lies depends on how the buffer came about; everything a buffer answers is stated over `toList`,
which does not show it.
-/

namespace FlatAssoc

/-- Items in two slices, `front` before `back`. -/
structure Buffer (α : Type) where
  front : Array α
  back : Array α

namespace Buffer

variable {α : Type}

/-- The items in order. -/
def toList (b : Buffer α) : List α := b.front.toList ++ b.back.toList

/-- A buffer without items. -/
def empty : Buffer α := ⟨#[], #[]⟩

def ofList (xs : List α) : Buffer α := ⟨#[], xs.toArray⟩

def size (b : Buffer α) : Nat := b.front.size + b.back.size

/-- The item at position `i`. -/
def get? (b : Buffer α) (i : Nat) : Option α :=
  if i < b.front.size then b.front[i]? else b.back[i - b.front.size]?

def first? (b : Buffer α) : Option α := b.get? 0

def last? (b : Buffer α) : Option α := b.get? (b.size - 1)

/-- Puts an item before all others. -/
def pushFront (b : Buffer α) (x : α) : Buffer α := ⟨#[x] ++ b.front, b.back⟩

/-- Puts an item after all others. -/
def pushBack (b : Buffer α) (x : α) : Buffer α := ⟨b.front, b.back.push x⟩

/-- Puts an item at position `i`, before the item that stood there. -/
def insertIdx (b : Buffer α) (i : Nat) (x : α) : Buffer α :=
  if i ≤ b.front.size then ⟨b.front.insertIdxIfInBounds i x, b.back⟩
  else ⟨b.front, b.back.insertIdxIfInBounds (i - b.front.size) x⟩

/-- Takes out the item at position `i`. -/
def eraseIdx (b : Buffer α) (i : Nat) : Buffer α :=
  if i < b.front.size then ⟨b.front.eraseIdxIfInBounds i, b.back⟩
  else ⟨b.front, b.back.eraseIdxIfInBounds (i - b.front.size)⟩

/-- Changes the item at position `i`. -/
def modify (b : Buffer α) (i : Nat) (f : α → α) : Buffer α :=
  if i < b.front.size then ⟨b.front.modify i f, b.back⟩
  else ⟨b.front, b.back.modify (i - b.front.size) f⟩

/-- Puts all of `xs` after the items. -/
def append (b : Buffer α) (xs : List α) : Buffer α := ⟨b.front, b.back ++ xs.toArray⟩

/-- Takes out the items at the positions from `start` up to, not including, `stop`. -/
def eraseRange (b : Buffer α) (start stop : Nat) : Buffer α :=
  ⟨b.front.extract 0 start ++ b.front.extract stop b.front.size,
    b.back.extract 0 (start - b.front.size) ++
      b.back.extract (stop - b.front.size) b.back.size⟩

/-! ## The items after each operation -/

@[simp] theorem toList_empty : (empty : Buffer α).toList = [] := rfl

@[simp] theorem toList_ofList (xs : List α) : (ofList xs).toList = xs := by simp [toList, ofList]

theorem size_eq_length (b : Buffer α) : b.size = b.toList.length := by simp [size, toList]

theorem get?_eq (b : Buffer α) (i : Nat) : b.get? i = b.toList[i]? := by
  unfold get? toList
  split
  · rename_i h
    rw [List.getElem?_append_left (by simpa using h), Array.getElem?_toList]
  · rename_i h
    rw [List.getElem?_append_right (by simpa using h), Array.getElem?_toList, Array.length_toList]

theorem first?_eq (b : Buffer α) : b.first? = b.toList.head? := by
  rw [first?, get?_eq, List.head?_eq_getElem?]

theorem last?_eq (b : Buffer α) : b.last? = b.toList.getLast? := by
  rw [last?, get?_eq, size_eq_length, List.getLast?_eq_getElem?]

@[simp] theorem toList_pushFront (b : Buffer α) (x : α) :
    (b.pushFront x).toList = x :: b.toList := by simp [pushFront, toList]

@[simp] theorem toList_pushBack (b : Buffer α) (x : α) :
    (b.pushBack x).toList = b.toList ++ [x] := by simp [pushBack, toList]

@[simp] theorem toList_append (b : Buffer α) (xs : List α) :
    (b.append xs).toList = b.toList ++ xs := by simp [append, toList]

theorem insertIdx_eq_take_drop {xs : List α} {i : Nat} (h : i ≤ xs.length) (x : α) :
    xs.insertIdx i x = xs.take i ++ x :: xs.drop i := by
  induction xs generalizing i with
  | nil => obtain rfl : i = 0 := by simpa using h
           rfl
  | cons y ys ih =>
    cases i with
    | zero => rfl
    | succ i => simp [ih (by simpa using h)]

theorem toList_insertIdx (b : Buffer α) {i : Nat} (h : i ≤ b.size) (x : α) :
    (b.insertIdx i x).toList = b.toList.take i ++ x :: b.toList.drop i := by
  unfold size at h
  unfold insertIdx
  split
  · rename_i hi
    simp [toList, Array.insertIdxIfInBounds, hi, insertIdx_eq_take_drop,
      List.take_append_of_le_length, List.drop_append_of_le_length]
  · rename_i hi
    have hb : i - b.front.size ≤ b.back.size := by omega
    simp only [toList, Array.insertIdxIfInBounds, hb, dif_pos, Array.toList_insertIdx,
      List.take_append, List.drop_append, Array.length_toList]
    have ht : b.front.toList.take i = b.front.toList := List.take_of_length_le (by simp; omega)
    have hd : b.front.toList.drop i = [] := List.drop_of_length_le (by simp; omega)
    rw [insertIdx_eq_take_drop (by simpa using hb), ht, hd]
    simp

@[simp] theorem toList_eraseIdx (b : Buffer α) (i : Nat) :
    (b.eraseIdx i).toList = b.toList.eraseIdx i := by
  rw [toList, toList, List.eraseIdx_append, Array.length_toList]
  unfold eraseIdx
  split <;> simp

theorem modify_append (xs ys : List α) (i : Nat) (f : α → α) :
    (xs ++ ys).modify i f =
      if i < xs.length then xs.modify i f ++ ys else xs ++ ys.modify (i - xs.length) f := by
  induction xs generalizing i with
  | nil => simp
  | cons x xs ih =>
    cases i with
    | zero => simp
    | succ i =>
      simp only [List.cons_append, List.modify_succ_cons, ih, List.length_cons,
        Nat.add_lt_add_iff_right, Nat.add_sub_add_right]
      split <;> rfl

@[simp] theorem toList_modify (b : Buffer α) (i : Nat) (f : α → α) :
    (b.modify i f).toList = b.toList.modify i f := by
  rw [toList, toList, modify_append, Array.length_toList]
  unfold modify
  split <;> simp

theorem toList_eraseRange (b : Buffer α) {start stop : Nat} (h : start ≤ stop) :
    (b.eraseRange start stop).toList = b.toList.take start ++ b.toList.drop stop := by
  simp only [eraseRange, toList, Array.toList_append, Array.toList_extract,
    List.extract_eq_take_drop, List.take_append, List.drop_append, Array.length_toList,
    List.drop_zero, Nat.sub_zero]
  have hf : (b.front.toList.drop stop).take (b.front.size - stop) = b.front.toList.drop stop :=
    List.take_of_length_le (by simp)
  have hb : (b.back.toList.drop (stop - b.front.size)).take
      (b.back.size - (stop - b.front.size)) = b.back.toList.drop (stop - b.front.size) :=
    List.take_of_length_le (by simp)
  rw [hf, hb]
  by_cases hs : start ≤ b.front.size
  · simp [Nat.sub_eq_zero_of_le hs]
  · have hd : b.front.toList.drop stop = [] := List.drop_of_length_le (by simp; omega)
    simp [hd]

end Buffer

end FlatAssoc
