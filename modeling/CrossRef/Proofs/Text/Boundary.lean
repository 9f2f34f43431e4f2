import CrossRef.Text
import Mathlib.Tactic.Common

namespace CrossRef.Text

variable {cs before rest : List Char} {n : Nat}

/-- Offset `n` lies between two characters or at an end of the text. -/
def IsBoundary (cs : List Char) (n : Nat) : Prop :=
  ∃ before behind, cs = before ++ behind ∧ size before = n

theorem isBoundary_iff : IsBoundary cs n ↔ (splitAt? n cs).isSome := by
  rw [Option.isSome_iff_exists, Prod.exists]
  simp only [splitAt?_eq_some_iff, IsBoundary]

instance : Decidable (IsBoundary cs n) := decidable_of_iff _ isBoundary_iff.symm

theorem size_eq_zero : size cs = 0 ↔ cs = [] := by
  cases cs with
  | nil => simp
  | cons c cs =>
    have hc := c.utf8Size_pos
    simp only [size_cons, reduceCtorEq, iff_false]
    omega

theorem IsBoundary.le_size (h : IsBoundary cs n) : n ≤ size cs := by
  obtain ⟨before, behind, rfl, rfl⟩ := h
  simp

theorem isBoundary_size : IsBoundary cs (size cs) := ⟨cs, [], by simp, rfl⟩

/-- Behind a part of the text the boundaries are those of the rest. -/
theorem isBoundary_append (h : size before ≤ n) :
    IsBoundary (before ++ rest) n ↔ IsBoundary rest (n - size before) := by
  constructor
  · rintro ⟨as, bs, hab, rfl⟩
    rcases List.append_eq_append_iff.1 hab with ⟨xs, rfl, rfl⟩ | ⟨xs, rfl, rfl⟩
    · exact ⟨xs, bs, rfl, by simp⟩
    · rw [size_append] at h
      obtain rfl : xs = [] := size_eq_zero.1 (by omega)
      exact ⟨[], rest, rfl, by simp⟩
  · rintro ⟨as, bs, rfl, hn⟩
    exact ⟨before ++ as, bs, by simp, by rw [size_append]; omega⟩

theorem eq_of_size_eq {as bs as' bs' : List Char} (h : as ++ bs = as' ++ bs')
    (hsize : size as = size as') : as = as' ∧ bs = bs' := by
  have hcut := splitAt?_append as bs
  rw [h, hsize, splitAt?_append, Option.some.injEq, Prod.mk.injEq] at hcut
  exact ⟨hcut.1.symm, hcut.2.symm⟩

end CrossRef.Text
