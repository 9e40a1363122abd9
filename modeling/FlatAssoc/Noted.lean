/-!
# Answers with notes

A `Noted ν α` is an answer of type `α` together with the notes taken on the way to it, oldest
first. Searches note the stored keys that they compare, bulk loads note what they report.
-/

namespace FlatAssoc

/-- An answer and the notes taken on the way to it. -/
@[ext] structure Noted (ν α : Type) where
  value : α
  notes : List ν

namespace Noted

variable {ν α β : Type}

/-- Takes one note. -/
def note (n : ν) : Noted ν Unit := ⟨(), [n]⟩

/-- Takes a note if there is one to take. -/
def noteAll (ns : List ν) : Noted ν Unit := ⟨(), ns⟩

instance : Monad (Noted ν) where
  pure a := ⟨a, []⟩
  bind x f := ⟨(f x.value).value, x.notes ++ (f x.value).notes⟩

@[simp] theorem value_pure (a : α) : (pure a : Noted ν α).value = a := rfl

@[simp] theorem notes_pure (a : α) : (pure a : Noted ν α).notes = [] := rfl

@[simp] theorem value_bind (x : Noted ν α) (f : α → Noted ν β) :
    (x >>= f).value = (f x.value).value := rfl

@[simp] theorem notes_bind (x : Noted ν α) (f : α → Noted ν β) :
    (x >>= f).notes = x.notes ++ (f x.value).notes := rfl

@[simp] theorem value_map (f : α → β) (x : Noted ν α) : (f <$> x).value = f x.value := rfl

@[simp] theorem notes_map (f : α → β) (x : Noted ν α) : (f <$> x).notes = x.notes :=
  List.append_nil _

@[simp] theorem value_note (n : ν) : (note n).value = () := rfl

@[simp] theorem notes_note (n : ν) : (note n).notes = [n] := rfl

@[simp] theorem notes_noteAll (ns : List ν) : (noteAll ns).notes = ns := rfl

instance : LawfulMonad (Noted ν) := LawfulMonad.mk' _
  (fun _ => Noted.ext rfl (notes_map _ _)) (fun _ _ => rfl)
  (fun _ _ _ => Noted.ext rfl (List.append_assoc _ _ _))

end Noted

end FlatAssoc
