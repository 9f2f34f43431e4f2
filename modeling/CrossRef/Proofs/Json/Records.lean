import CrossRef.Json.Decode
import CrossRef.Proofs.Json.Roundtrip

namespace CrossRef.Json

variable {α : Type}

theorem isWhole_array {items : List Json} (h : ∀ j ∈ items, isWhole j = true) :
    isWhole (.array items) = true := by
  rw [isWhole]
  induction items with
  | nil => rfl
  | cons j items ih =>
    have hj := h j List.mem_cons_self
    have hrest := ih fun k hk => h k (List.mem_cons_of_mem _ hk)
    rw [itemsWhole, hj, hrest]
    rfl

theorem isWhole_list {toJson : α → Json} (h : ∀ a, isWhole (toJson a) = true) (xs : List α) :
    isWhole (.array (xs.map toJson)) = true := by
  apply isWhole_array
  intro j hj
  obtain ⟨a, -, rfl⟩ := List.mem_map.1 hj
  exact h a

theorem isWhole_record {members : List (String × Json)} (h : ∀ m ∈ members, isWhole m.2 = true) :
    isWhole (record members) = true := by
  rw [record, isWhole]
  induction members with
  | nil => rfl
  | cons m members ih =>
    have hm := h m List.mem_cons_self
    have hrest := ih fun k hk => h k (List.mem_cons_of_mem _ hk)
    rw [List.map_cons, membersWhole, hm, hrest]
    rfl

theorem filter_absent {members : List (String × Json)} {name : String}
    (h : name ∉ members.map Prod.fst) :
    (members.map fun k => ((some k.1 : Text), k.2)).filter (fun k => k.1 = some name) = [] := by
  apply List.filter_eq_nil_iff.2
  intro k hk
  obtain ⟨m, hm, rfl⟩ := List.mem_map.1 hk
  simp only [Option.some.injEq, decide_eq_true_eq]
  rintro rfl
  exact h (List.mem_map_of_mem hm)

theorem member?_record {members : List (String × Json)} (hnd : (members.map Prod.fst).Nodup)
    {m : String × Json} (h : m ∈ members) :
    member? m.1 (members.map fun k => (some k.1, k.2)) = some (some m.2) := by
  have hfound : (members.map fun k => ((some k.1 : Text), k.2)).filter
      (fun k => k.1 = some m.1) = [(some m.1, m.2)] := by
    induction members with
    | nil => cases h
    | cons k members ih =>
      obtain ⟨hnotin, hnd⟩ := List.nodup_cons.1 hnd
      rw [List.map_cons, List.filter_cons]
      rcases List.mem_cons.1 h with rfl | h
      · have hnone := filter_absent hnotin
        simp [hnone]
      · have hne : k.1 ≠ m.1 := by
          intro he
          rw [he] at hnotin
          exact hnotin (List.mem_map_of_mem h)
        simpa [hne] using ih hnd h
  unfold member?
  simp only [hfound]

theorem fields?_record (members : List (String × Json)) (hnd : (members.map Prod.fst).Nodup) :
    fields? (members.map Prod.fst) (record members) = some (members.map fun m => some m.2) := by
  have hkeys : ((members.map fun m => ((some m.1 : Text), m.2)).all fun m => m.1.isSome) = true := by
    simp
  have hmapM : ∀ rest : List (String × Json), (∀ m ∈ rest, m ∈ members) →
      ((rest.map Prod.fst).mapM fun name =>
        member? name (members.map fun m => ((some m.1 : Text), m.2))) =
      some (rest.map fun m => some m.2) := by
    intro rest
    induction rest with
    | nil =>
      intro _
      rfl
    | cons m rest ih =>
      intro hrest
      have hm := member?_record hnd (hrest m List.mem_cons_self)
      have htail := ih fun k hk => hrest k (List.mem_cons_of_mem _ hk)
      rw [List.map_cons, List.mapM_cons, hm, htail]
      rfl
  unfold record fields?
  simp only [hkeys, if_true]
  exact hmapM members fun m hm => hm

/-- A tag stands in front of the record that it belongs to. -/
theorem untag?_record (tag : String) (shape : Json) (members : List (String × Json))
    (h : tag ∉ members.map Prod.fst) :
    untag? tag (record ((tag, shape) :: members)) = some (shape, record members) := by
  have hkeep : (members.map fun m => ((some m.1 : Text), m.2)).filter
      (fun m => m.1 ≠ some tag) = members.map fun m => (some m.1, m.2) := by
    apply List.filter_eq_self.2
    intro k hk
    obtain ⟨m, hm, rfl⟩ := List.mem_map.1 hk
    simp only [ne_eq, Option.some.injEq, decide_not, Bool.not_eq_true', decide_eq_false_iff_not]
    rintro rfl
    exact h (List.mem_map_of_mem hm)
  have hnone := filter_absent h
  unfold record untag? member?
  simp only [List.map_cons, List.filter_cons, hnone, hkeep]
  simp

theorem mapM_map_of_mem {β : Type} {m : Type → Type} [Monad m] [LawfulMonad m] {read : β → m α}
    {write : α → β} {xs : List α} (h : ∀ a ∈ xs, read (write a) = pure a) :
    (xs.map write).mapM read = pure xs := by
  induction xs with
  | nil => rfl
  | cons a xs ih =>
    have ha := h a List.mem_cons_self
    have hrest := ih fun b hb => h b (List.mem_cons_of_mem _ hb)
    rw [List.map_cons, List.mapM_cons, ha, hrest, pure_bind, pure_bind]

theorem list?_array {item? : Json → Option α} {toJson : α → Json}
    (h : ∀ a, item? (toJson a) = some a) (xs : List α) :
    list? item? (.array (xs.map toJson)) = some xs :=
  mapM_map_of_mem fun a _ => h a

theorem pairs?_record {value? : Json → Option α} {toJson : α → Json}
    (h : ∀ a, value? (toJson a) = some a) (xs : List (String × α)) :
    pairs? value? (record (xs.map fun m => (m.1, toJson m.2))) = some xs := by
  rw [record, List.map_map]
  refine mapM_map_of_mem fun m _ => ?_
  simp [h]

theorem string?_ofString (s : String) : string? (.ofString s) = some s := rfl

theorem nat?_ofNat {limit n : Nat} (h : n < limit) : nat? limit (.ofNat n) = some n := by
  have hrange : (0 : Int) ≤ n ∧ (n : Int) < limit := by omega
  rw [ofNat, nat?, if_pos hrange, Int.toNat_natCast]

theorem uint8?_ofNat (w : UInt8) : uint8? (.ofNat w.toNat) = some w := by
  rw [uint8?, nat?_ofNat w.toNat_lt, Option.map_some, UInt8.ofNat_toNat]

theorem uint32?_ofNat (w : UInt32) : uint32? (.ofNat w.toNat) = some w := by
  rw [uint32?, nat?_ofNat w.toNat_lt, Option.map_some, UInt32.ofNat_toNat]

theorem int64?_ofInt (w : Int64) : int64? (.ofInt w.toInt) = some w := by
  rw [ofInt, int64?, if_pos ⟨w.minValue_le_toInt, w.toInt_le⟩, Int64.ofInt_toInt]

end CrossRef.Json
