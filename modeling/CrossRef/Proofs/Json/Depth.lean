import CrossRef.Proofs.Json.Records

namespace CrossRef.Json

mutual

/-- The number of levels that a value opens. -/
def depth : Json → Nat
  | .array items => itemsDepth items + 1
  | .object members => membersDepth members + 1
  | _ => 0

def itemsDepth : List Json → Nat
  | [] => 0
  | j :: rest => max (depth j) (itemsDepth rest)

def membersDepth : List (Text × Json) → Nat
  | [] => 0
  | (_, j) :: rest => max (depth j) (membersDepth rest)

end

mutual

/-- Whether all strings and keys in a value are texts and all its numbers are finite. -/
def isSound : Json → Bool
  | .null => true
  | .bool _ => true
  | .number n => n.isFinite
  | .text t => t.isSome
  | .array items => itemsSound items
  | .object members => membersSound members

def itemsSound : List Json → Bool
  | [] => true
  | j :: rest => isSound j && itemsSound rest

def membersSound : List (Text × Json) → Bool
  | [] => true
  | (name, j) :: rest => name.isSome && isSound j && membersSound rest

end

mutual

theorem fits_iff : ∀ (j : Json) (room : Nat), j.fits room = true ↔ j.depth ≤ room ∧ j.isSound = true
  | .null, room => by simp [fits, depth, isSound]
  | .bool _, room => by simp [fits, depth, isSound]
  | .number _, room => by simp [fits, depth, isSound]
  | .text _, room => by simp [fits, depth, isSound]
  | .array items, room => by
    have hitems := itemsFit_iff items (room - 1)
    by_cases hroom : room = 0
    · simp [fits, depth, hroom]
    · have hlevel : ∀ n, n ≤ room - 1 ↔ n + 1 ≤ room := by omega
      simp only [fits, depth, isSound, Bool.and_eq_true, hitems, hlevel]
      simp [hroom]
  | .object members, room => by
    have hmembers := membersFit_iff members (room - 1)
    by_cases hroom : room = 0
    · simp [fits, depth, hroom]
    · have hlevel : ∀ n, n ≤ room - 1 ↔ n + 1 ≤ room := by omega
      simp only [fits, depth, isSound, Bool.and_eq_true, hmembers, hlevel]
      simp [hroom]

theorem itemsFit_iff : ∀ (items : List Json) (room : Nat),
    itemsFit room items = true ↔ itemsDepth items ≤ room ∧ itemsSound items = true
  | [], room => by simp [itemsFit, itemsDepth, itemsSound]
  | j :: rest, room => by
    have hj := fits_iff j room
    have hrest := itemsFit_iff rest room
    simp only [itemsFit, itemsDepth, itemsSound, Bool.and_eq_true, hj, hrest, Nat.max_le]
    tauto

theorem membersFit_iff : ∀ (members : List (Text × Json)) (room : Nat),
    membersFit room members = true ↔ membersDepth members ≤ room ∧ membersSound members = true
  | [], room => by simp [membersFit, membersDepth, membersSound]
  | (name, j) :: rest, room => by
    have hj := fits_iff j room
    have hrest := membersFit_iff rest room
    simp only [membersFit, membersDepth, membersSound, Bool.and_eq_true, hj, hrest, Nat.max_le]
    tauto

end

theorem itemsDepth_le_iff {items : List Json} {n : Nat} :
    itemsDepth items ≤ n ↔ ∀ j ∈ items, j.depth ≤ n := by
  induction items with
  | nil => simp [itemsDepth]
  | cons j items ih => rw [itemsDepth, Nat.max_le, ih, List.forall_mem_cons]

theorem membersDepth_le_iff {members : List (Text × Json)} {n : Nat} :
    membersDepth members ≤ n ↔ ∀ m ∈ members, m.2.depth ≤ n := by
  induction members with
  | nil => simp [membersDepth]
  | cons m members ih =>
    obtain ⟨name, j⟩ := m
    rw [membersDepth, Nat.max_le, ih, List.forall_mem_cons]

theorem depth_item {items : List Json} {j : Json} (h : j ∈ items) :
    j.depth < (Json.array items).depth := by
  have hle := itemsDepth_le_iff.1 (Nat.le_refl (itemsDepth items)) j h
  rw [depth]
  omega

theorem depth_member {members : List (Text × Json)} {m : Text × Json} (h : m ∈ members) :
    m.2.depth < (Json.object members).depth := by
  have hle := membersDepth_le_iff.1 (Nat.le_refl (membersDepth members)) m h
  rw [depth]
  omega

theorem depth_record_le_iff {members : List (String × Json)} {n : Nat} :
    (record members).depth ≤ n + 1 ↔ ∀ m ∈ members, m.2.depth ≤ n := by
  rw [record, depth, Nat.add_le_add_iff_right, membersDepth_le_iff, List.forall_mem_map]

theorem mem_of_mapM {α β : Type} {f : α → Option β} {xs : List α} {ys : List β}
    (h : xs.mapM f = some ys) {y : β} (hy : y ∈ ys) : ∃ x ∈ xs, f x = some y := by
  induction xs generalizing ys with
  | nil =>
    obtain rfl : [] = ys := Option.some.inj h
    simp at hy
  | cons x xs ih =>
    simp only [List.mapM_cons, Option.bind_eq_bind, Option.bind_eq_some_iff, Option.pure_def,
      Option.some.injEq] at h
    obtain ⟨z, hz, zs, hzs, rfl⟩ := h
    rcases List.mem_cons.1 hy with rfl | hy
    · exact ⟨x, List.mem_cons_self, hz⟩
    · obtain ⟨x', hx', hfx'⟩ := ih hzs hy
      exact ⟨x', List.mem_cons_of_mem _ hx', hfx'⟩

theorem mem_of_member? {name : String} {members : List (Text × Json)} {j : Json}
    (h : member? name members = some (some j)) : (some name, j) ∈ members := by
  unfold member? at h
  split at h
  case h_1 => simp at h
  case h_2 key k hfound =>
    obtain rfl : k = j := by simpa using h
    have hmem : (key, k) ∈ members.filter fun m => m.1 = some name :=
      hfound ▸ List.mem_singleton_self _
    obtain ⟨hmem, hkey⟩ := List.mem_filter.1 hmem
    rwa [← of_decide_eq_true hkey]
  case h_3 => simp at h

theorem depth_field {names : List String} {j k : Json} {fields : List (Option Json)}
    (h : j.fields? names = some fields) (hk : some k ∈ fields) : k.depth < j.depth := by
  cases j with
  | object members =>
    rw [fields?] at h
    split at h
    case isTrue =>
      obtain ⟨name, -, hname⟩ := mem_of_mapM h hk
      exact depth_member (mem_of_member? hname)
    case isFalse => simp at h
  | array items =>
    rw [fields?] at h
    split at h
    case isTrue =>
      obtain rfl := Option.some.inj h
      rcases List.mem_append.1 hk with hk | hk
      · obtain ⟨i, hi, he⟩ := List.mem_map.1 hk
        obtain rfl := Option.some.inj he
        exact depth_item hi
      · simpa using List.eq_of_mem_replicate hk
    case isFalse => simp at h
  | null => simp [fields?] at h
  | bool b => simp [fields?] at h
  | number n => simp [fields?] at h
  | text t => simp [fields?] at h

/-- What is left of a tagged record is no deeper than the record. -/
theorem depth_untag {tag : String} {j shape body : Json} (h : j.untag? tag = some (shape, body)) :
    body.depth ≤ j.depth ∧ 0 < j.depth := by
  cases j with
  | object members =>
    simp only [untag?, Option.bind_eq_bind, Option.bind_eq_some_iff, Option.pure_def,
      Option.some.injEq, Prod.mk.injEq] at h
    obtain ⟨_, -, _, -, -, rfl⟩ := h
    refine ⟨?_, by simp [depth]⟩
    rw [depth, depth, Nat.add_le_add_iff_right, membersDepth_le_iff]
    intro m hm
    exact membersDepth_le_iff.1 (Nat.le_refl _) m (List.mem_filter.1 hm).1
  | array items =>
    cases items with
    | nil => simp [untag?] at h
    | cons first items =>
      obtain ⟨rfl, rfl⟩ := Prod.mk.inj (Option.some.inj h)
      simp only [depth, itemsDepth]
      omega
  | null => simp [untag?] at h
  | bool b => simp [untag?] at h
  | number n => simp [untag?] at h
  | text t => simp [untag?] at h

theorem array_of_list? {α : Type} {item? : Json → Option α} {j : Json} {xs : List α}
    (h : j.list? item? = some xs) : ∃ items, j = .array items ∧ items.mapM item? = some xs := by
  cases j with
  | array items => exact ⟨items, rfl, h⟩
  | _ => simp [list?] at h

theorem isSound_array {items : List Json} (h : ∀ j ∈ items, j.isSound = true) :
    (Json.array items).isSound = true := by
  rw [isSound]
  induction items with
  | nil => rfl
  | cons j items ih =>
    have hj := h j List.mem_cons_self
    have hrest := ih fun k hk => h k (List.mem_cons_of_mem _ hk)
    rw [itemsSound, hj, hrest]
    rfl

theorem isSound_record {members : List (String × Json)} (h : ∀ m ∈ members, m.2.isSound = true) :
    (record members).isSound = true := by
  rw [record, isSound]
  induction members with
  | nil => rfl
  | cons m members ih =>
    have hm := h m List.mem_cons_self
    have hrest := ih fun k hk => h k (List.mem_cons_of_mem _ hk)
    rw [List.map_cons, membersSound, hm, hrest]
    rfl

theorem isSound_ofNat {n : Nat} (h : n < UInt64.size) : (ofNat n).isSound = true := by
  rw [ofNat, isSound, Number.isFinite, Int.natAbs_natCast, if_pos h]

end CrossRef.Json
