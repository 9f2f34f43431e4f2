import CrossRef.Proofs.Alike

namespace CrossRef

variable {α β κ : Type} [DecidableEq κ]

/-- One thing after the other is taken from the front of some line until nothing is left. -/
inductive Woven : List (List α) → List α → Prop
  | done {lines : List (List α)} : (∀ line ∈ lines, line = []) → Woven lines []
  | take {before behind : List (List α)} {a : α} {line out : List α} :
      Woven (before ++ line :: behind) out → Woven (before ++ (a :: line) :: behind) (a :: out)

namespace Woven

variable {lines : List (List α)} {out : List α}

theorem take_left {a : α} {l m : List α} (h : Woven [l, m] out) : Woven [a :: l, m] (a :: out) :=
  @take _ [] [m] a l out h

theorem take_right {a : α} {l m : List α} (h : Woven [l, m] out) : Woven [l, a :: m] (a :: out) :=
  @take _ [l] [] a m out h

theorem cons_nil (h : Woven lines out) : Woven ([] :: lines) out := by
  induction h with
  | done hnil =>
    apply Woven.done
    intro line hline
    rcases List.mem_cons.1 hline with rfl | hline
    · rfl
    · exact hnil line hline
  | @take before behind a line out _ ih => exact @take _ ([] :: before) behind a line out ih

theorem cons (line : List α) (h : Woven lines out) : Woven (line :: lines) (line ++ out) := by
  induction line with
  | nil => exact h.cons_nil
  | cons a line ih => exact @take _ [] lines a line _ ih

theorem in_a_row (lines : List (List α)) : Woven lines lines.flatten := by
  induction lines with
  | nil => exact .done (by simp)
  | cons line lines ih => exact ih.cons line

theorem singletons (as : List α) (h : Woven lines out) :
    Woven (as.map (fun a => [a]) ++ lines) (as ++ out) := by
  induction as with
  | nil => exact h
  | cons a as ih => exact ih.cons [a]

theorem perm (h : Woven lines out) : out.Perm lines.flatten := by
  induction h with
  | done hnil => rw [List.flatten_eq_nil_iff.2 hnil]
  | @take before behind a line out _ ih =>
    rw [List.flatten_append, List.flatten_cons] at ih ⊢
    exact (ih.cons a).trans (List.perm_middle.symm)

theorem filterMap (f : α → Option β) (h : Woven lines out) :
    Woven (lines.map (List.filterMap f)) (out.filterMap f) := by
  induction h with
  | done hnil =>
    apply Woven.done
    intro line hline
    obtain ⟨line, hmem, rfl⟩ := List.mem_map.1 hline
    rw [hnil line hmem, List.filterMap_nil]
  | @take before behind a line out _ ih =>
    rw [List.map_append, List.map_cons] at ih ⊢
    cases ha : f a with
    | none => rwa [List.filterMap_cons_none ha, List.filterMap_cons_none ha]
    | some b =>
      rw [List.filterMap_cons_some ha, List.filterMap_cons_some ha]
      exact .take ih

/-- Where one line at most is not empty, there is nothing to weave. -/
theorem eq_flatten (h : Woven lines out)
    (hone : lines.Pairwise fun line line' => line = [] ∨ line' = []) : out = lines.flatten := by
  induction h with
  | done hnil => rw [List.flatten_eq_nil_iff.2 hnil]
  | @take before behind a line out _ ih =>
    obtain ⟨hbefore, hrest, hcross⟩ := List.pairwise_append.1 hone
    obtain ⟨hline, hbehind⟩ := List.pairwise_cons.1 hrest
    have hnil : before.flatten = [] := by
      apply List.flatten_eq_nil_iff.2
      intro l hl
      simpa using hcross l hl (a :: line) List.mem_cons_self
    have hnil' : ∀ l ∈ behind, l = [] := by
      intro l hl
      simpa using hline l hl
    rw [ih ?_]
    · simp [hnil]
    · refine List.pairwise_append.2 ⟨hbefore, List.pairwise_cons.2 ⟨?_, hbehind⟩, fun l hl m _ => ?_⟩
      · exact fun l hl => .inr (hnil' l hl)
      · exact .inl (List.flatten_eq_nil_iff.1 hnil l hl)

/-- Where every class comes from one line, a weave is alike the lines in a row. -/
theorem alike {cls : α → κ} (h : Woven lines out)
    (hapart : lines.Pairwise fun line line' => ∀ a ∈ line, ∀ b ∈ line', cls a ≠ cls b) :
    AlikeBy cls out lines.flatten := by
  intro k
  have hone := h.filterMap (Option.guard fun a => cls a = k)
  simp only [List.filterMap_eq_filter] at hone
  rw [hone.eq_flatten ?_, List.filter_flatten]
  refine List.pairwise_map.2 (hapart.imp fun {l m} hlm => ?_)
  by_cases hl : l.filter (fun a => cls a = k) = []
  · exact .inl hl
  · right
    obtain ⟨a, ha⟩ := List.exists_mem_of_ne_nil _ hl
    obtain ⟨ha, hka⟩ := List.mem_filter.1 ha
    refine List.filter_eq_nil_iff.2 fun b hb hkb => hlm a ha b hb ?_
    rw [of_decide_eq_true hka, of_decide_eq_true hkb]

end Woven

end CrossRef
