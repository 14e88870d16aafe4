import Mathlib.Tactic.Common

/-!
# Journals of a table

What went through each record of a table, as a list for each index. A journal is extended when
something passes through a record, and starts anew when the record is taken again.
-/

namespace RadKernel.Journal

variable {α : Type*} {log : Nat → List α} {j k : Nat}

/-- More items for one record. -/
def extend (log : Nat → List α) (k : Option Nat) (items : List α) : Nat → List α :=
  fun j => if k = some j then log j ++ items else log j

/-- The journal of one record starts anew. -/
def forget (log : Nat → List α) (k : Option Nat) : Nat → List α :=
  fun j => if k = some j then [] else log j

@[simp] theorem extend_none (items : List α) : extend log none items = log := by
  funext j
  simp [extend]

@[simp] theorem extend_nil (o : Option Nat) : extend log o [] = log := by
  funext j
  simp [extend]

@[simp] theorem extend_self (items : List α) : extend log (some k) items k = log k ++ items := by
  simp [extend]

theorem extend_of_ne (h : j ≠ k) (items : List α) : extend log (some k) items j = log j := by
  simp [extend, h.symm]

@[simp] theorem forget_none : forget log none = log := by
  funext j
  simp [forget]

@[simp] theorem forget_self : forget log (some k) k = [] := by
  simp [forget]

theorem forget_of_ne (h : j ≠ k) : forget log (some k) j = log j := by
  simp [forget, h.symm]

end RadKernel.Journal
