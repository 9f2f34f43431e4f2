import CrossRef.Catalog
import Mathlib.Data.List.Nodup
import Mathlib.Tactic.Common

namespace CrossRef

variable {α : Type} {key : α → String}

theorem putByKey_last (x : α) (ys : List α) (h : ∀ y ∈ ys, key y < key x) :
    putByKey key x ys = ys ++ [x] := by
  induction ys with
  | nil => rfl
  | cons y ys ih =>
    have hy : key y < key x := h y List.mem_cons_self
    have hlt : ¬ key x < key y := fun hxy => String.lt_irrefl _ (String.lt_trans hy hxy)
    have hne : key x ≠ key y := by
      intro he
      rw [he] at hy
      exact String.lt_irrefl _ hy
    rw [putByKey, if_neg hlt, if_neg hne, ih fun z hz => h z (List.mem_cons_of_mem _ hz)]
    rfl

theorem ne_of_text_lt {a b : String} (h : a < b) : a ≠ b := by
  rintro rfl
  exact String.lt_irrefl _ h

theorem putByKey_of_mem {x : α} {ys : List α} (h : ys.Pairwise fun a b => key a < key b)
    (hx : x ∈ ys) : putByKey key x ys = ys := by
  induction ys with
  | nil => cases hx
  | cons y ys ih =>
    obtain ⟨hy, hys⟩ := List.pairwise_cons.1 h
    rw [putByKey]
    rcases List.mem_cons.1 hx with rfl | hx
    · rw [if_neg (String.lt_irrefl _), if_pos rfl]
    · have hlt : ¬ key x < key y := fun hxy =>
        String.lt_irrefl _ (String.lt_trans hxy (hy x hx))
      rw [if_neg hlt, if_neg (ne_of_text_lt (hy x hx)).symm, ih hys hx]

theorem putByKey_perm (x : α) {ys : List α} (h : ys.Pairwise fun a b => key a < key b) :
    (putByKey key x ys).Perm (x :: ys.filter fun y => key y ≠ key x) := by
  induction ys with
  | nil => exact .refl _
  | cons y ys ih =>
    obtain ⟨hy, hys⟩ := List.pairwise_cons.1 h
    rw [putByKey]
    split
    case isTrue hlt =>
      have hkeep : (y :: ys).filter (fun z => key z ≠ key x) = y :: ys := by
        apply List.filter_eq_self.2
        intro z hz
        rcases List.mem_cons.1 hz with rfl | hz
        · simpa using (ne_of_text_lt hlt).symm
        · simpa using (ne_of_text_lt (String.lt_trans hlt (hy z hz))).symm
      rw [hkeep]
    case isFalse =>
      split
      case isTrue he =>
        have hkeep : (y :: ys).filter (fun z => key z ≠ key x) = ys := by
          rw [List.filter_cons_of_neg (by simpa using he.symm)]
          apply List.filter_eq_self.2
          intro z hz
          simpa [he] using (ne_of_text_lt (hy z hz)).symm
        rw [hkeep]
      case isFalse hne =>
        have hkeep : (y :: ys).filter (fun z => key z ≠ key x) =
            y :: ys.filter fun z => key z ≠ key x :=
          List.filter_cons_of_pos (by simpa using fun he => hne he.symm)
        rw [hkeep]
        exact ((ih hys).cons y).trans (.swap x y _)

namespace Catalog

theorem ext {c d : Catalog key} (h : c.toList = d.toList) : c = d := by
  cases c
  cases d
  simpa using h

theorem keys_nodup (c : Catalog key) : (c.toList.map key).Nodup := by
  refine List.pairwise_map.2 (c.ascending.imp fun h => ?_)
  exact ne_of_text_lt h

theorem put_perm (c : Catalog key) (x : α) :
    (c.put x).toList.Perm (x :: c.toList.filter fun y => key y ≠ key x) :=
  putByKey_perm x c.ascending

theorem put_of_mem {c : Catalog key} {x : α} (h : x ∈ c.toList) : c.put x = c :=
  ext (putByKey_of_mem c.ascending h)

/-- The entry of a key. -/
def get? (c : Catalog key) (k : String) : Option α := c.toList.find? fun x => key x = k

theorem mem_of_get? {c : Catalog key} {k : String} {x : α} (h : c.get? k = some x) :
    x ∈ c.toList ∧ key x = k :=
  ⟨List.mem_of_find?_eq_some h, by simpa using List.find?_some h⟩

theorem filter_eq_get? (c : Catalog key) (k : String) :
    (c.toList.filter fun x => key x = k) = (c.get? k).toList := by
  have hfind : ∀ xs : List α, (xs.map key).Nodup →
      (xs.filter fun x => key x = k) = (xs.find? fun x => key x = k).toList := by
    intro xs
    induction xs with
    | nil => simp
    | cons x xs ih =>
      intro hnd
      obtain ⟨hx, hxs⟩ := List.nodup_cons.1 hnd
      by_cases hk : key x = k
      · have hnone : (xs.filter fun y => key y = k) = [] := by
          refine List.filter_eq_nil_iff.2 fun y hy hy' => hx ?_
          rw [hk, ← of_decide_eq_true hy']
          exact List.mem_map_of_mem hy
        simp [hk, hnone]
      · simp [hk, ih hxs]
  exact hfind c.toList c.keys_nodup

theorem get?_eq_some_iff {c : Catalog key} {k : String} {x : α} :
    c.get? k = some x ↔ x ∈ c.toList ∧ key x = k := by
  have hmem : x ∈ (c.get? k).toList ↔ x ∈ c.toList ∧ key x = k := by
    rw [← filter_eq_get?, List.mem_filter, decide_eq_true_eq]
  rw [← hmem, Option.mem_toList]

theorem get?_put (c : Catalog key) (x : α) (k : String) :
    (c.put x).get? k = if k = key x then some x else c.get? k := by
  apply Option.ext
  intro y
  rw [get?_eq_some_iff, (c.put_perm x).mem_iff, List.mem_cons, List.mem_filter]
  split
  case isTrue hk =>
    subst hk
    simp only [Option.some.injEq]
    constructor
    · rintro ⟨rfl | ⟨-, hne⟩, he⟩
      · rfl
      · simp [he] at hne
    · rintro rfl
      exact ⟨.inl rfl, rfl⟩
  case isFalse hk =>
    rw [get?_eq_some_iff]
    constructor
    · rintro ⟨rfl | ⟨hmem, -⟩, he⟩
      · exact absurd he.symm hk
      · exact ⟨hmem, he⟩
    · rintro ⟨hmem, rfl⟩
      exact ⟨.inr ⟨hmem, by simpa using hk⟩, rfl⟩

/-- The last entry of a key stands. -/
theorem get?_ofList (xs : List α) (k : String) :
    (ofList xs : Catalog key).get? k = xs.reverse.find? fun x => key x = k := by
  have hfold : ∀ (xs : List α) (c : Catalog key),
      (xs.foldl put c).get? k = (xs.reverse.find? fun x => key x = k).or (c.get? k) := by
    intro xs
    induction xs with
    | nil =>
      intro c
      rfl
    | cons x xs ih =>
      intro c
      rw [List.foldl_cons, ih, get?_put, List.reverse_cons, List.find?_append, Option.or_assoc]
      by_cases hk : k = key x
      · simp [hk]
      · simp [hk, Ne.symm hk]
  rw [ofList, hfold xs .empty]
  exact Option.or_none

theorem ofList_toList (c : Catalog key) : ofList c.toList = c := by
  have hfold : ∀ (xs : List α) (d : Catalog key),
      (d.toList ++ xs).Pairwise (fun a b => key a < key b) →
      (xs.foldl put d).toList = d.toList ++ xs := by
    intro xs
    induction xs with
    | nil =>
      intro d _
      exact (List.append_nil _).symm
    | cons x xs ih =>
      intro d hd
      have hlast : (d.put x).toList = d.toList ++ [x] :=
        putByKey_last x d.toList fun y hy =>
          (List.pairwise_append.1 hd).2.2 y hy x List.mem_cons_self
      have happ : d.toList ++ x :: xs = (d.put x).toList ++ xs := by simp [hlast]
      rw [List.foldl_cons, ih (d.put x) (happ ▸ hd), happ]
  exact ext (hfold c.toList .empty c.ascending)

/-- Nothing is lost of entries that all have keys of their own. -/
theorem ofList_perm {xs : List α} (h : (xs.map key).Nodup) :
    (ofList xs : Catalog key).toList.Perm xs := by
  have hfold : ∀ (xs : List α) (c : Catalog key), (xs.map key).Nodup →
      (∀ x ∈ xs, ∀ y ∈ c.toList, key y ≠ key x) →
      (xs.foldl put c).toList.Perm (c.toList ++ xs) := by
    intro xs
    induction xs with
    | nil =>
      intro c _ _
      rw [List.append_nil]
      exact .refl _
    | cons x xs ih =>
      intro c hnd hc
      obtain ⟨hx, hxs⟩ := List.nodup_cons.1 hnd
      have hkeep : (c.toList.filter fun y => key y ≠ key x) = c.toList :=
        List.filter_eq_self.2 fun y hy => by simpa using hc x List.mem_cons_self y hy
      have hput := c.put_perm x
      rw [hkeep] at hput
      have hrest : ∀ z ∈ xs, ∀ y ∈ (c.put x).toList, key y ≠ key z := by
        intro z hz y hy
        rcases List.mem_cons.1 (hput.mem_iff.1 hy) with rfl | hy
        · exact fun he => hx (he ▸ List.mem_map_of_mem hz)
        · exact hc z (List.mem_cons_of_mem _ hz) y hy
      exact (ih (c.put x) hxs hrest).trans ((hput.append_right xs).trans List.perm_middle.symm)
  exact hfold xs .empty h (by simp [Catalog.empty])

theorem mem_foldl_put (xs : List String) (c : TextSet) (z : String) :
    z ∈ (xs.foldl put c).toList ↔ z ∈ c.toList ∨ z ∈ xs := by
  induction xs generalizing c with
  | nil => simp
  | cons x xs ih =>
    rw [List.foldl_cons, ih, (c.put_perm x).mem_iff, List.mem_cons, List.mem_filter]
    by_cases hz : z = x
    · simp [hz]
    · simp [hz]

theorem mem_ofList {xs : List String} (z : String) : z ∈ (ofList xs : TextSet).toList ↔ z ∈ xs := by
  rw [ofList, mem_foldl_put]
  simp [Catalog.empty]

theorem mem_union (c d : TextSet) (z : String) :
    z ∈ (c.union d).toList ↔ z ∈ c.toList ∨ z ∈ d.toList :=
  mem_foldl_put d.toList c z

theorem empty_union (c : TextSet) : Catalog.empty.union c = c := ofList_toList c

/-- Sets of texts are known from their members. -/
theorem eq_of_mem {c d : TextSet} (h : ∀ z, z ∈ c.toList ↔ z ∈ d.toList) : c = d := by
  have hnodup : ∀ e : TextSet, e.toList.Nodup := fun e => by simpa using e.keys_nodup
  have hperm : c.toList.Perm d.toList :=
    (List.perm_ext_iff_of_nodup (hnodup c) (hnodup d)).2 h
  refine ext (hperm.eq_of_pairwise (fun a b _ _ hab hba => ?_) c.ascending d.ascending)
  exact absurd (String.lt_trans hab hba) (String.lt_irrefl _)

end Catalog

end CrossRef
