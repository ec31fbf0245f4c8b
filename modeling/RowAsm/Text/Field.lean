/-!
# Cutting a list at separators

* `Text.fields sep l` cuts `l` at every separator and keeps the empty fields;
* `Text.words sep l` keeps the non-empty ones, the maximal runs without a separator.

Both work for any kind of item: characters of a column, and tokens of a text. A separator divides
the list into two that are cut on their own (`fields_append_cons`, `words_append_cons`), and it
makes no difference whether items are cut or their images (`fields_map`, `words_map`).
-/

namespace RowAsm
namespace Text

variable {α : Type}

/-- The fields between separators; there is one more field than there are separators. -/
def fields (sep : α → Bool) : List α → List (List α)
  | [] => [[]]
  | a :: l =>
    if sep a then [] :: fields sep l
    else
      match fields sep l with
      | [] => [[a]]
      | f :: fs => (a :: f) :: fs

/-- The non-empty fields. -/
def words (sep : α → Bool) (l : List α) : List (List α) :=
  (fields sep l).filter fun f => !f.isEmpty

@[simp] theorem fields_nil (sep : α → Bool) : fields sep [] = [[]] := rfl

@[simp] theorem words_nil (sep : α → Bool) : words sep [] = [] := rfl

theorem fields_ne_nil (sep : α → Bool) (l : List α) : fields sep l ≠ [] := by
  cases l with
  | nil => simp
  | cons a l =>
    rw [fields]
    split
    · simp
    · split <;> simp

/-- A separator divides the fields. -/
theorem fields_append_cons {sep : α → Bool} {a : α} (h : sep a = true) (l r : List α) :
    fields sep (l ++ a :: r) = fields sep l ++ fields sep r := by
  induction l with
  | nil => simp [fields, h]
  | cons b l ih =>
    simp only [List.cons_append, fields, ih]
    split
    · rfl
    · cases hl : fields sep l with
      | nil => exact absurd hl (fields_ne_nil sep l)
      | cons f fs => rfl

/-- A separator divides the words. -/
theorem words_append_cons {sep : α → Bool} {a : α} (h : sep a = true) (l r : List α) :
    words sep (l ++ a :: r) = words sep l ++ words sep r := by
  rw [words, fields_append_cons h, List.filter_append, words, words]

/-- A field consists of items of the list. -/
theorem mem_of_mem_fields {sep : α → Bool} {l f : List α} (hf : f ∈ fields sep l) {a : α}
    (ha : a ∈ f) : a ∈ l := by
  induction l generalizing f with
  | nil =>
    rw [fields_nil, List.mem_singleton] at hf
    rw [hf] at ha
    exact ha
  | cons b l ih =>
    rw [fields] at hf
    split at hf
    · rcases List.mem_cons.1 hf with rfl | hf
      · cases ha
      · exact List.mem_cons_of_mem b (ih hf ha)
    · split at hf
      · rename_i h
        exact absurd h (fields_ne_nil sep l)
      · rename_i g gs h
        rcases List.mem_cons.1 hf with rfl | hf
        · rcases List.mem_cons.1 ha with rfl | ha
          · exact List.mem_cons_self
          · exact List.mem_cons_of_mem b (ih (h ▸ List.mem_cons_self) ha)
        · exact List.mem_cons_of_mem b (ih (h ▸ List.mem_cons_of_mem g hf) ha)

/-- A word is a field that is not empty. -/
theorem mem_words_iff {sep : α → Bool} {l f : List α} :
    f ∈ words sep l ↔ f ∈ fields sep l ∧ f ≠ [] := by
  rw [words, List.mem_filter]
  simp

/-- The fields of items that are the images of others. -/
theorem fields_map {β : Type} (sep : α → Bool) (f : β → α) (l : List β) :
    fields sep (l.map f) = (fields (fun b => sep (f b)) l).map (List.map f) := by
  induction l with
  | nil => rfl
  | cons b l ih =>
    simp only [List.map_cons, fields, ih]
    split
    · rfl
    · cases fields (fun b => sep (f b)) l <;> rfl

theorem words_map {β : Type} (sep : α → Bool) (f : β → α) (l : List β) :
    words sep (l.map f) = (words (fun b => sep (f b)) l).map (List.map f) := by
  rw [words, words, fields_map, List.filter_map]
  congr 2
  funext f
  cases f <;> rfl

/-- Joins texts with a separator between them. -/
def join (sep : String) : List String → String
  | [] => ""
  | [s] => s
  | s :: rest => s ++ sep ++ join sep rest

end Text
end RowAsm
