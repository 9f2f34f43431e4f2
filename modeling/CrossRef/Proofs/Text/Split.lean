import CrossRef.Text
import Mathlib.Tactic.Common

namespace CrossRef.Text

variable {α : Type} [DecidableEq α] {separator : α}

theorem split_append {as rest first : List α} {others : List (List α)} (has : separator ∉ as)
    (hrest : split separator rest = first :: others) :
    split separator (as ++ rest) = (as ++ first) :: others := by
  induction as with
  | nil => exact hrest
  | cons a as ih =>
    obtain ⟨hne, hnotin⟩ := not_or.1 (mt List.mem_cons.2 has)
    rw [List.cons_append, split, if_neg (Ne.symm hne), ih hnotin]
    rfl

/-- What stands before the first separator is the first piece. -/
theorem split_append_cons {as rest : List α} (has : separator ∉ as) :
    split separator (as ++ separator :: rest) = as :: split separator rest := by
  have hrest : split separator (separator :: rest) = [] :: split separator rest := by
    rw [split, if_pos rfl]
  simpa using split_append has hrest

end CrossRef.Text
