import Mathlib.Data.List.Count
import Mathlib.Tactic.Common

namespace CrossRef

variable {α β κ ι : Type} [DecidableEq κ] [DecidableEq ι]

/-- The members of every class stand in the same order in both lists. -/
def AlikeBy (cls : α → κ) (xs ys : List α) : Prop :=
  ∀ k, (xs.filter fun a => cls a = k) = ys.filter fun a => cls a = k

namespace AlikeBy

variable {cls : α → κ} {xs ys zs us vs : List α}

theorem refl (xs : List α) : AlikeBy cls xs xs := fun _ => rfl

theorem symm (h : AlikeBy cls xs ys) : AlikeBy cls ys xs := fun k => (h k).symm

theorem trans (h : AlikeBy cls xs ys) (h' : AlikeBy cls ys zs) : AlikeBy cls xs zs :=
  fun k => (h k).trans (h' k)

theorem append (h : AlikeBy cls xs ys) (h' : AlikeBy cls us vs) :
    AlikeBy cls (xs ++ us) (ys ++ vs) := by
  intro k
  rw [List.filter_append, List.filter_append, h k, h' k]

theorem filter (h : AlikeBy cls xs ys) (p : α → Bool) :
    AlikeBy cls (xs.filter p) (ys.filter p) := by
  intro k
  have hswap : ∀ as : List α, ((as.filter p).filter fun a => cls a = k) =
      (as.filter fun a => cls a = k).filter p := by
    intro as
    rw [List.filter_filter, List.filter_filter]
    congr 1
    funext a
    exact Bool.and_comm _ _
  rw [hswap, hswap, h k]

theorem map {cls : β → κ} (f : α → β) (h : AlikeBy (fun a => cls (f a)) xs ys) :
    AlikeBy cls (xs.map f) (ys.map f) := by
  intro k
  rw [List.filter_map, List.filter_map]
  exact congrArg (List.map f) (h k)

theorem mem_iff (h : AlikeBy cls xs ys) (a : α) : a ∈ xs ↔ a ∈ ys := by
  have hmem : ∀ as : List α, a ∈ as ↔ a ∈ as.filter fun b => cls b = cls a := by
    intro as
    rw [List.mem_filter]
    simp
  rw [hmem xs, hmem ys, h (cls a)]

theorem perm [DecidableEq α] (h : AlikeBy cls xs ys) : xs.Perm ys := by
  apply List.perm_iff_count.2
  intro a
  have hcount : ∀ as : List α, as.count a = (as.filter fun b => cls b = cls a).count a := by
    intro as
    rw [List.count_filter (by simp)]
  rw [hcount xs, hcount ys, h (cls a)]

/-- Smaller classes tell less apart. -/
theorem refine (fine : α → ι) (h : AlikeBy cls xs ys)
    (hfine : ∀ a ∈ xs, ∀ b ∈ xs, fine a = fine b → cls a = cls b) : AlikeBy fine xs ys := by
  intro k
  by_cases hk : ∃ a ∈ xs, fine a = k
  · obtain ⟨a, ha, rfl⟩ := hk
    have hwithin : ∀ as : List α, (∀ b ∈ as, b ∈ xs) → (as.filter fun b => fine b = fine a) =
        (as.filter fun b => cls b = cls a).filter fun b => fine b = fine a := by
      intro as has
      rw [List.filter_filter]
      apply List.filter_congr
      intro b hb
      by_cases hba : fine b = fine a
      · simp [hba, hfine b (has b hb) a ha hba]
      · simp [hba]
    rw [hwithin xs fun _ hb => hb, hwithin ys fun b hb => (h.mem_iff b).2 hb, h (cls a)]
  · have hnone : ∀ as : List α, (∀ b ∈ as, b ∈ xs) → (as.filter fun b => fine b = k) = [] := by
      intro as has
      apply List.filter_eq_nil_iff.2
      intro b hb
      simpa using fun hbk => hk ⟨b, has b hb, hbk⟩
    rw [hnone xs fun _ hb => hb, hnone ys fun b hb => (h.mem_iff b).2 hb]

/-- Where every class has one member at most, the order does not matter. -/
theorem of_perm (h : xs.Perm ys) (hd : (xs.map cls).Nodup) : AlikeBy cls xs ys := by
  intro k
  have hp := h.filter fun a => decide (cls a = k)
  have hlen : (xs.filter fun a => cls a = k).length ≤ 1 := by
    have hcount := List.nodup_iff_count.1 hd k
    rw [List.count_eq_countP, List.countP_map, List.countP_eq_length_filter] at hcount
    simpa [Function.comp_def, beq_eq_decide] using hcount
  cases hxs : xs.filter fun a => cls a = k with
  | nil =>
    rw [hxs] at hp
    exact (List.nil_perm.1 hp).symm
  | cons a rest =>
    rw [hxs, List.length_cons] at hlen
    obtain rfl : rest = [] := List.length_eq_zero_iff.1 (by omega)
    rw [hxs] at hp
    rw [List.singleton_perm.1 hp]

theorem of_perm_id [DecidableEq α] (h : xs.Perm ys) : AlikeBy id xs ys := by
  intro k
  have hall : ∀ as : List α, (as.filter fun a => id a = k) = List.replicate (as.count k) k := by
    intro as
    refine List.eq_replicate_iff.2 ⟨?_, fun a ha => of_decide_eq_true (List.mem_filter.1 ha).2⟩
    rw [List.count_eq_length_filter]
    rfl
  rw [hall xs, hall ys, h.count_eq]

theorem find? (k : κ) (h : AlikeBy cls xs ys) {p : α → Bool} (hp : ∀ a, p a = true → cls a = k) :
    xs.find? p = ys.find? p := by
  have hwithin : ∀ as : List α, as.find? p = (as.filter fun a => cls a = k).find? p := by
    intro as
    rw [List.find?_filter]
    congr 1
    funext a
    by_cases ha : p a = true
    · simp [ha, hp a ha]
    · simp [ha]
  rw [hwithin xs, hwithin ys, h k]

end AlikeBy

variable {le : α → α → Bool}

/-- What stands on a par with `a`. -/
def tied (le : α → α → Bool) (a : α) (xs : List α) : List α := xs.filter fun b => le a b && le b a

theorem pairwise_tied (htrans : ∀ a b c, le a b → le b c → le a c) (a : α) (xs : List α) :
    (tied le a xs).Pairwise fun b c => le b c := by
  apply List.pairwise_of_forall_mem_list
  intro b hb c hc
  have hb' := (List.mem_filter.1 hb).2
  have hc' := (List.mem_filter.1 hc).2
  rw [Bool.and_eq_true] at hb' hc'
  exact htrans b a c hb'.2 hc'.1

/-- Sorting leaves what is on a par in its order. -/
theorem tied_mergeSort (htotal : ∀ a b, le a b || le b a)
    (htrans : ∀ a b c, le a b → le b c → le a c) (a : α) (xs : List α) :
    tied le a (xs.mergeSort le) = tied le a xs := by
  have hsub : List.Sublist (tied le a xs) (xs.mergeSort le) :=
    List.sublist_mergeSort htrans htotal (pairwise_tied htrans a xs) List.filter_sublist
  have hsub' : List.Sublist (tied le a xs) (tied le a (xs.mergeSort le)) := by
    have h := hsub.filter fun b => le a b && le b a
    rwa [show (tied le a xs).filter _ = tied le a xs by simp [tied]] at h
  refine (hsub'.eq_of_length ?_).symm
  exact ((xs.mergeSort_perm le).filter _).length_eq.symm

/-- Where what is on a par makes a class, sorting leaves every class in its order. -/
theorem AlikeBy.of_mergeSort {cls : α → κ} (htotal : ∀ a b, le a b || le b a)
    (htrans : ∀ a b c, le a b → le b c → le a c)
    (hcls : ∀ a b, (le a b && le b a) = decide (cls b = cls a)) (xs : List α) :
    AlikeBy cls (xs.mergeSort le) xs := by
  intro k
  by_cases hk : ∃ a, cls a = k
  · obtain ⟨a, rfl⟩ := hk
    have hclass : ∀ as : List α, (as.filter fun b => cls b = cls a) = tied le a as :=
      fun as => List.filter_congr fun b _ => (hcls a b).symm
    rw [hclass, hclass, tied_mergeSort htotal htrans]
  · have hnone : ∀ as : List α, (as.filter fun b => cls b = k) = [] :=
      fun as => List.filter_eq_nil_iff.2 fun b _ => by simpa using fun hb => hk ⟨b, hb⟩
    rw [hnone, hnone]

theorem head?_mergeSort_eq_some (htotal : ∀ a b, le a b || le b a)
    (htrans : ∀ a b c, le a b → le b c → le a c) {xs : List α}
    (hties : ∀ a ∈ xs, ∀ b ∈ xs, le a b → le b a → a = b) (a : α) :
    (xs.mergeSort le).head? = some a ↔ a ∈ xs ∧ ∀ b ∈ xs, le a b := by
  have hsorted := List.pairwise_mergeSort htrans htotal xs
  have hmem : ∀ b, b ∈ xs.mergeSort le ↔ b ∈ xs := fun b => List.mem_mergeSort
  cases hys : xs.mergeSort le with
  | nil =>
    rw [hys] at hmem
    simp [← hmem]
  | cons c ys =>
    rw [hys] at hsorted hmem
    have hc : c ∈ xs := (hmem c).1 List.mem_cons_self
    have hleast : ∀ b ∈ xs, le c b = true := by
      intro b hb
      rcases List.mem_cons.1 ((hmem b).2 hb) with rfl | hb
      · simpa using htotal b b
      · exact (List.pairwise_cons.1 hsorted).1 b hb
    rw [List.head?_cons, Option.some.injEq]
    constructor
    · rintro rfl
      exact ⟨hc, hleast⟩
    · rintro ⟨ha, hall⟩
      exact hties c hc a ha (hleast a ha) (hall c hc)

/-- A list in order is known from what is on a par in it. -/
theorem eq_of_tied (hrefl : ∀ a, le a a) {xs ys : List α} (hx : xs.Pairwise fun a b => le a b)
    (hy : ys.Pairwise fun a b => le a b) (h : ∀ a, tied le a xs = tied le a ys) : xs = ys := by
  induction xs generalizing ys with
  | nil =>
    cases ys with
    | nil => rfl
    | cons b ys =>
      have hb := h b
      simp [tied, hrefl] at hb
  | cons a xs ih =>
    cases ys with
    | nil =>
      have ha := h a
      simp [tied, hrefl] at ha
    | cons b ys =>
      obtain ⟨hax, hxs⟩ := List.pairwise_cons.1 hx
      obtain ⟨hby, hys⟩ := List.pairwise_cons.1 hy
      have hmem : ∀ c {us vs : List α}, tied le c us = tied le c vs → c ∈ us → c ∈ vs := by
        intro c us vs he hc
        have hc' : c ∈ tied le c us := List.mem_filter.2 ⟨hc, by simp [hrefl]⟩
        rw [he] at hc'
        exact (List.mem_filter.1 hc').1
      have hba : le b a = true := by
        rcases List.mem_cons.1 (hmem a (h a) List.mem_cons_self) with rfl | ha
        · exact hrefl a
        · exact hby a ha
      have hab : le a b = true := by
        rcases List.mem_cons.1 (hmem b (h b).symm List.mem_cons_self) with rfl | hb
        · exact hrefl b
        · exact hax b hb
      obtain rfl : a = b := by
        have ha := h a
        simp only [tied, List.filter_cons, hrefl, hab, hba, Bool.and_self, if_true] at ha
        exact (List.cons.inj ha).1
      rw [ih hxs hys fun c => ?_]
      have hc := h c
      simp only [tied, List.filter_cons] at hc
      split at hc
      · exact (List.cons.inj hc).2
      · exact hc

namespace AlikeBy

variable {cls : α → κ} {xs ys : List α}

theorem tied_eq (h : AlikeBy cls xs ys) (hcls : ∀ a b, le a b → le b a → cls a = cls b) (a : α) :
    tied le a xs = tied le a ys := by
  have hwithin : ∀ as : List α, tied le a as = tied le a (as.filter fun b => cls b = cls a) := by
    intro as
    unfold tied
    rw [List.filter_filter]
    apply List.filter_congr
    intro b _
    by_cases hb : (le a b && le b a) = true
    · have hb' := hb
      rw [Bool.and_eq_true] at hb'
      simp [hb'.1, hb'.2, hcls b a hb'.2 hb'.1]
    · simp [hb]
  rw [hwithin xs, hwithin ys, h (cls a)]

theorem mergeSort_eq (h : AlikeBy cls xs ys) (htotal : ∀ a b, le a b || le b a)
    (htrans : ∀ a b c, le a b → le b c → le a c)
    (hcls : ∀ a b, le a b → le b a → cls a = cls b) : xs.mergeSort le = ys.mergeSort le := by
  refine eq_of_tied (fun a => by simpa using htotal a a)
    (List.pairwise_mergeSort htrans htotal xs) (List.pairwise_mergeSort htrans htotal ys) fun a => ?_
  rw [tied_mergeSort htotal htrans, tied_mergeSort htotal htrans, h.tied_eq hcls]

end AlikeBy

end CrossRef
