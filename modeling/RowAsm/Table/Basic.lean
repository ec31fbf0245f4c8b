import RowAsm.Row.Compile
import RowAsm.Table.Index

/-!
# Tables

A table is the list of templates of some rows, in the order of the rows. Rows that give no template
are dropped and counted. The order matters: between two encodings of one length the earlier
template wins. A table keeps an index of its templates by mnemonic.
-/

namespace RowAsm

/-- The templates of a list of rows, and the number of rows that gave none. -/
structure Table where
  templates : List Template
  rejected : Nat
  /-- The templates by mnemonic. -/
  index : Index := .ofTemplates templates
  index_eq : index = .ofTemplates templates := by rfl
  deriving Repr

namespace Table

/-- The table of a list of rows. -/
def compile (rows : List Row) : Table where
  templates := rows.filterMap fun row => row.compile.toOption
  rejected := rows.countP fun row => row.compile.toOption.isNone

/-- The number of templates. -/
def size (table : Table) : Nat := table.templates.length

/-- Whether there is no template. -/
def isEmpty (table : Table) : Bool := table.templates.isEmpty

/-- The template at an index. -/
def get? (table : Table) (i : Nat) : Option Template := table.templates[i]?

/-- Every row is either in the table or counted as dropped. -/
theorem size_add_rejected (rows : List Row) :
    (compile rows).size + (compile rows).rejected = rows.length := by
  simp only [compile, size]
  induction rows with
  | nil => rfl
  | cons row rows ih => cases h : row.compile.toOption <;> simp_all <;> omega

end Table
end RowAsm
