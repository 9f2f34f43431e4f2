import CrossRef.Markup.Tree.Json
import CrossRef.Proofs.Fact.Roundtrip
import CrossRef.Proofs.Json.Depth
import CrossRef.Proofs.Markup.Forest

namespace CrossRef

open Json (isWhole record isWhole_record isWhole_array isSound_record isSound_array
  isSound_ofNat fields?_record depth_record_le_iff)

namespace Payload

theorem depth_of_style {within : Bool} {j : Json} {classes : TextSet}
    (h : decode? within j = some (.style classes)) : 2 ≤ j.depth := by
  simp only [decode?, Option.bind_eq_bind, Option.bind_eq_some_iff, Prod.exists] at h
  obtain ⟨shape, body, huntag, n, -, h⟩ := h
  have hbody := (Json.depth_untag huntag).1
  split at h
  case h_3 =>
    obtain ⟨fields, hfields, h⟩ := Option.bind_eq_some_iff.1 h
    split at h
    case h_1 field =>
      obtain ⟨set, hset, -⟩ := Option.bind_eq_some_iff.1 h
      obtain ⟨k, rfl, hk⟩ := Option.bind_eq_some_iff.1 hset
      obtain ⟨texts, htexts, -⟩ := Option.map_eq_some_iff.1 hk
      obtain ⟨items, rfl, -⟩ := Json.array_of_list? htexts
      have hfield := Json.depth_field hfields List.mem_cons_self
      rw [Json.depth] at hfield
      omega
    case h_2 => simp at h
  all_goals
    obtain ⟨fields, -, h⟩ := Option.bind_eq_some_iff.1 h
    split at h <;> simp [Option.bind_eq_some_iff] at h

theorem depth_of_decode? {within : Bool} {j : Json} {p : Payload} (h : decode? within j = some p) :
    p.toJson.depth ≤ j.depth := by
  have hpos : 0 < j.depth := by
    obtain ⟨⟨shape, body⟩, huntag, -⟩ := Option.bind_eq_some_iff.1 h
    exact (Json.depth_untag huntag).2
  cases p with
  | style classes =>
    have htexts : Json.itemsDepth (classes.toList.map Json.ofString) ≤ 0 :=
      Json.itemsDepth_le_iff.2 (by simp [Json.ofString, Json.depth])
    refine Nat.le_trans (depth_record_le_iff.2 ?_) (depth_of_style h)
    simpa [TextSet.toJson, Json.depth, Json.ofString] using htexts
  | _ =>
    refine Nat.le_trans (depth_record_le_iff.2 ?_) hpos
    simp [Binding.toJson, ReferenceKind.toJson, Json.ofString, Json.ofNat, Json.depth]

theorem isSound_toJson (p : Payload) : p.toJson.isSound = true :=
  ((Json.fits_iff _ _).1 (fits_toJson (Nat.le_refl 2) p)).2

end Payload

namespace Markup.Node

theorem listToJson_eq (nodes : List Node) : listToJson nodes = nodes.map toJson := by
  induction nodes with
  | nil => rfl
  | cons node rest ih => rw [listToJson, ih, List.map_cons]

mutual

/-- All offsets in a tree are words of 64 bits. -/
def InRange : Node → Prop
  | .text start _ => start < UInt64.size
  | .annotated _ children => ListInRange children

def ListInRange : List Node → Prop
  | [] => True
  | node :: rest => node.InRange ∧ ListInRange rest

end

theorem listInRange_iff {nodes : List Node} : ListInRange nodes ↔ ∀ node ∈ nodes, node.InRange := by
  induction nodes with
  | nil => simp [ListInRange]
  | cons node rest ih => simp [ListInRange, ih]

theorem isWhole_toJson (node : Node) : isWhole node.toJson = true := by
  induction node using tree_induction with
  | text start content => rfl
  | annotated fact children ih =>
    have hchildren : isWhole (.array (listToJson children)) = true := by
      rw [listToJson_eq]
      exact isWhole_array (List.forall_mem_map.2 ih)
    rw [toJson]
    apply isWhole_record
    intro m hm
    simp only [List.mem_cons, List.not_mem_nil, or_false] at hm
    rcases hm with rfl | rfl | rfl | rfl | rfl
    · rfl
    · rfl
    · rfl
    · exact fact.payload.isWhole_toJson
    · exact hchildren

theorem isSound_toJson {node : Node} (h : node.InRange) : node.toJson.isSound = true := by
  induction node using tree_induction with
  | text start content =>
    rw [toJson]
    apply isSound_record
    intro m hm
    simp only [List.mem_cons, List.not_mem_nil, or_false] at hm
    rcases hm with rfl | rfl | rfl
    · rfl
    · exact isSound_ofNat h
    · rfl
  | annotated fact children ih =>
    have hword : ∀ w : UInt32, (Json.ofNat w.toNat).isSound = true := fun w =>
      isSound_ofNat (Nat.lt_trans w.toNat_lt_size (by decide))
    have hchildren : (Json.array (listToJson children)).isSound = true := by
      rw [listToJson_eq]
      exact isSound_array (List.forall_mem_map.2 fun child hchild =>
        ih child hchild (listInRange_iff.1 h child hchild))
    rw [toJson]
    apply isSound_record
    intro m hm
    simp only [List.mem_cons, List.not_mem_nil, or_false] at hm
    rcases hm with rfl | rfl | rfl | rfl | rfl
    · rfl
    · exact hword _
    · exact hword _
    · exact fact.payload.isSound_toJson
    · exact hchildren

theorem decode?_text {n : Nat} {within : Bool} {start : Json} {offset : Nat} {content : String}
    (hstart : Json.nat? UInt64.size start = some offset) :
    decode? (n + 1) within (record [("node", .ofString "text"), ("start", start),
      ("text", .ofString content)]) = some (.text offset content) := by
  have huntag := Json.untag?_record "node" (.ofString "text")
    [("start", start), ("text", .ofString content)] (by simp)
  have hshape : (Json.ofString "text").shape? shapes within = some 0 := by decide +revert
  have hfields := fields?_record [("start", start), ("text", .ofString content)] (by simp)
  simp only [List.map_cons, List.map_nil] at hfields
  simp [decode?, huntag, hshape, hfields, Json.required, hstart, Json.string?_ofString]

theorem decode?_annotated {n : Nat} {within : Bool} {start length payload : Json} {fact : Fact}
    {items : List Json} {children : List Node} (hs : start.uint32? = some fact.start)
    (hl : length.uint32? = some fact.length)
    (hp : Payload.decode? true payload = some fact.payload)
    (hc : items.mapM (decode? n true) = some children) :
    decode? (n + 1) within (record [("node", .ofString "annotated"), ("start", start),
      ("length", length), ("annotation", payload), ("children", .array items)]) =
      some (.annotated fact children) := by
  have huntag := Json.untag?_record "node" (.ofString "annotated")
    [("start", start), ("length", length), ("annotation", payload), ("children", .array items)]
    (by simp)
  have hshape : (Json.ofString "annotated").shape? shapes within = some 1 := by decide +revert
  have hfields := fields?_record
    [("start", start), ("length", length), ("annotation", payload), ("children", .array items)]
    (by simp)
  simp only [List.map_cons, List.map_nil] at hfields
  simp [decode?, huntag, hshape, hfields, Json.required, hs, hl, hp, Json.list?, hc]

/-- A tree reads back where there is room for its levels. -/
theorem decode?_toJson {n : Nat} {within : Bool} {node : Node} (h : node.InRange)
    (hdepth : node.toJson.depth ≤ n) : decode? n within node.toJson = some node := by
  induction n generalizing node within with
  | zero =>
    cases node <;> simp [toJson, record, Json.depth] at hdepth
  | succ n ih =>
    cases node with
    | text start content => exact decode?_text (Json.nat?_ofNat h)
    | annotated fact children =>
      rw [toJson, depth_record_le_iff] at hdepth
      have hchildren : (Json.array (listToJson children)).depth ≤ n :=
        hdepth ("children", _) (by simp)
      rw [toJson]
      refine decode?_annotated (Json.uint32?_ofNat _) (Json.uint32?_ofNat _)
        (Payload.decode?_toJson true _) ?_
      rw [listToJson_eq] at hchildren ⊢
      refine Json.mapM_map_of_mem fun child hchild => ih (listInRange_iff.1 h child hchild) ?_
      have hlt := Json.depth_item (List.mem_map_of_mem (f := toJson) hchild)
      omega

theorem nat?_lt {limit n : Nat} {j : Json} (h : Json.nat? limit j = some n) : n < limit := by
  unfold Json.nat? at h
  split at h
  case h_1 i =>
    split at h
    case isTrue hi =>
      obtain rfl := Option.some.inj h
      omega
    case isFalse => simp at h
  case h_2 => simp at h

theorem depth_annotated_lt {fact : Fact} {children : List Node} {items : List Json} {n : Nat}
    (hpayload : fact.payload.toJson.depth < n) (hitems : (Json.array items).depth < n)
    (hchildren : ∀ child ∈ children, child.toJson.depth < (Json.array items).depth) :
    (annotated fact children).toJson.depth ≤ n := by
  have hlist : (Json.array (listToJson children)).depth ≤ (Json.array items).depth := by
    rw [Json.depth] at hchildren ⊢
    rw [listToJson_eq, Json.depth, Nat.add_le_add_iff_right, Json.itemsDepth_le_iff,
      List.forall_mem_map]
    exact fun child hchild => Nat.le_of_lt_succ (hchildren child hchild)
  obtain ⟨m, rfl⟩ : ∃ m, n = m + 1 := ⟨n - 1, by omega⟩
  rw [toJson, depth_record_le_iff]
  intro field hfield
  simp only [List.mem_cons, List.not_mem_nil, or_false] at hfield
  rcases hfield with rfl | rfl | rfl | rfl | rfl
  · exact Nat.zero_le _
  · exact Nat.zero_le _
  · exact Nat.zero_le _
  · exact Nat.le_of_lt_succ hpayload
  · exact Nat.le_trans hlist (Nat.le_of_lt_succ hitems)

/-- A tree that was read is within range, and in its own writing no deeper than in the one that it
was read from. -/
theorem admissible_of_decode? {n : Nat} {within : Bool} {j : Json} {node : Node}
    (h : decode? n within j = some node) : node.InRange ∧ node.toJson.depth ≤ j.depth := by
  induction n generalizing within j node with
  | zero => simp [decode?] at h
  | succ n ih =>
    simp only [decode?, Option.bind_eq_bind, Option.bind_eq_some_iff, Prod.exists] at h
    obtain ⟨shape, body, huntag, _, -, h⟩ := h
    obtain ⟨hbody, hpos⟩ := Json.depth_untag huntag
    split at h
    case h_1 =>
      obtain ⟨fields, hfields, h⟩ := Option.bind_eq_some_iff.1 h
      split at h
      case h_1 =>
        simp only [Option.bind_eq_some_iff, Option.pure_def, Option.some.injEq] at h
        obtain ⟨start, hstart, content, -, rfl⟩ := h
        obtain ⟨offset, -, hoffset⟩ := Option.bind_eq_some_iff.1 hstart
        refine ⟨nat?_lt hoffset, Nat.le_trans (depth_record_le_iff.2 ?_) hpos⟩
        simp [Json.ofString, Json.ofNat, Json.depth]
      case h_2 => simp at h
    case h_2 =>
      obtain ⟨fields, hfields, h⟩ := Option.bind_eq_some_iff.1 h
      split at h
      case h_1 =>
        simp only [Option.bind_eq_some_iff, Option.pure_def, Option.some.injEq] at h
        obtain ⟨start, -, length, -, payload, hp, children, hc, rfl⟩ := h
        obtain ⟨k, rfl, hk⟩ := Option.bind_eq_some_iff.1 hp
        obtain ⟨l, rfl, hl⟩ := Option.bind_eq_some_iff.1 hc
        obtain ⟨items, rfl, hitems⟩ := Json.array_of_list? hl
        have hpayload : payload.toJson.depth < j.depth := by
          have hfield := Json.depth_field hfields (k := k) (by simp)
          have hle := Payload.depth_of_decode? hk
          omega
        have hlist : (Json.array items).depth < j.depth := by
          have hfield := Json.depth_field hfields (k := .array items) (by simp)
          omega
        have hchild : ∀ child ∈ children,
            child.InRange ∧ child.toJson.depth < (Json.array items).depth := by
          intro child hchild
          obtain ⟨item, hitem, hdecode⟩ := Json.mem_of_mapM hitems hchild
          obtain ⟨hrange, hle⟩ := ih hdecode
          exact ⟨hrange, Nat.lt_of_le_of_lt hle (Json.depth_item hitem)⟩
        exact ⟨listInRange_iff.2 fun child hc => (hchild child hc).1,
          depth_annotated_lt hpayload hlist fun child hc => (hchild child hc).2⟩
      case h_2 => simp at h

theorem ofJson?_toJson {room : Nat} {node : Node} (h : node.InRange)
    (hdepth : node.toJson.depth ≤ room) : ofJson? room node.toJson = some node := by
  have hfits : node.toJson.fits room = true := (Json.fits_iff _ _).2 ⟨hdepth, isSound_toJson h⟩
  rw [ofJson?, if_pos hfits, decode?_toJson h hdepth]

theorem admissible_of_ofJson? {room : Nat} {j : Json} {node : Node}
    (h : ofJson? room j = some node) : node.InRange ∧ node.toJson.depth ≤ room := by
  rw [ofJson?] at h
  split at h
  case isTrue hfits =>
    obtain ⟨hrange, hdepth⟩ := admissible_of_decode? h
    exact ⟨hrange, Nat.le_trans hdepth ((Json.fits_iff _ _).1 hfits).1⟩
  case isFalse => simp at h

end Markup.Node

end CrossRef
