import NodeGrid.Assembly.Error

/-!
# Label tables

A table binds labels to the indices of the instructions that follow them.  A
label is bound once.
-/

namespace NodeGrid.Assembly

/-- Labels with the indices they are bound to, latest first. -/
structure LabelTable where
  entries : List (List Char × Nat)
deriving DecidableEq

namespace LabelTable

/-- A table without labels. -/
def empty : LabelTable := ⟨[]⟩

/-- The index that the label is bound to. -/
def find? (table : LabelTable) (label : List Char) : Option Nat :=
  table.entries.lookup label

/-- Binds a label that is not bound yet. -/
def define (table : LabelTable) (label : List Char) (target : Nat) : Except Cause LabelTable :=
  match table.find? label with
  | none => .ok ⟨(label, target) :: table.entries⟩
  | some _ => .error (.duplicateLabel label)

/-- Binds labels from left to right to the same index. -/
def defineAll (table : LabelTable) (target : Nat) : List (List Char) → Except Cause LabelTable
  | [] => .ok table
  | label :: rest => do (← table.define label target).defineAll target rest

/-- The index that a label in use is bound to. -/
def resolve (table : LabelTable) (label : List Char) : Except Cause Nat :=
  match table.find? label with
  | some target => .ok target
  | none => .error (.undefinedLabel label)

/-- The number of labels. -/
def size (table : LabelTable) : Nat :=
  table.entries.length

end LabelTable

end NodeGrid.Assembly
