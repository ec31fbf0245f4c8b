import RowAsm.Template.Basic

/-!
# Mnemonic indices

An index files the templates of a list by mnemonic: under each mnemonic stand the positions of its
templates, in the order of the list. A look-up takes the mnemonic as it is written in the templates.
-/

namespace RowAsm

/-- Positions filed by mnemonic; every mnemonic has one entry. -/
structure Index where
  entries : List (String × List Nat)
  deriving DecidableEq, Repr

namespace Index

/-- Nothing filed. -/
def empty : Index := ⟨[]⟩

/-- Files a position after those that its mnemonic already has. -/
def fileIn (key : String) (i : Nat) : List (String × List Nat) → List (String × List Nat)
  | [] => [(key, [i])]
  | (k, is) :: rest => if k = key then (k, is ++ [i]) :: rest else (k, is) :: fileIn key i rest

/-- The positions of a mnemonic. -/
def findIn (key : String) : List (String × List Nat) → List Nat
  | [] => []
  | (k, is) :: rest => if k = key then is else findIn key rest

/-- Files one more template, which stands at the position `i`. -/
def insert (x : Index) (t : Template) (i : Nat) : Index := ⟨fileIn t.mnemonic i x.entries⟩

/-- The positions filed under a mnemonic. -/
def find (x : Index) (key : String) : List Nat := findIn key x.entries

/-- Files templates with their positions, one after another. -/
def insertAll (x : Index) (ts : List (Template × Nat)) : Index :=
  ts.foldl (fun x (t, i) => x.insert t i) x

/-- The index of a list of templates. -/
def ofTemplates (ts : List Template) : Index := empty.insertAll ts.zipIdx

/-- Filing changes the entry of one mnemonic only, and adds the new position at its end. -/
theorem findIn_fileIn (key k : String) (i : Nat) (es : List (String × List Nat)) :
    findIn k (fileIn key i es) = if key = k then findIn k es ++ [i] else findIn k es := by
  induction es with
  | nil => simp [fileIn, findIn]
  | cons e es ih =>
    obtain ⟨k', is⟩ := e
    rw [fileIn]
    by_cases hk : k' = key
    · rw [if_pos hk, findIn, findIn]
      by_cases h : k' = k <;> simp [h, hk.symm]
    · rw [if_neg hk, findIn, findIn, ih]
      by_cases h : k' = k
      · simp [h, Ne.symm (h ▸ hk)]
      · simp [h]

theorem find_insert (x : Index) (t : Template) (i : Nat) (key : String) :
    (x.insert t i).find key = if t.mnemonic = key then x.find key ++ [i] else x.find key :=
  findIn_fileIn t.mnemonic key i x.entries

theorem find_insertAll (x : Index) (ts : List (Template × Nat)) (key : String) :
    (x.insertAll ts).find key =
      x.find key ++ (ts.filter fun p => p.1.mnemonic == key).map Prod.snd := by
  induction ts generalizing x with
  | nil => simp [insertAll]
  | cons p ts ih =>
    have h := ih (x.insert p.1 p.2)
    rw [find_insert] at h
    rw [show x.insertAll (p :: ts) = (x.insert p.1 p.2).insertAll ts from rfl, h]
    by_cases hp : p.1.mnemonic = key <;> simp [hp]

/-- Under a mnemonic stand the positions of its templates, all of them and in their order. -/
theorem find_ofTemplates (ts : List Template) (key : String) :
    (ofTemplates ts).find key = (ts.zipIdx.filter fun p => p.1.mnemonic == key).map Prod.snd := by
  rw [ofTemplates, find_insertAll]
  rfl

end Index
end RowAsm
