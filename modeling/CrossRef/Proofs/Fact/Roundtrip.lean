import CrossRef.Fact.Json
import CrossRef.Proofs.Catalog
import CrossRef.Proofs.Json.Records

namespace CrossRef

open Json (isWhole record isWhole_record isWhole_list fields?_record)

theorem ReferenceKind.ofJson?_toJson (k : ReferenceKind) : ofJson? k.toJson = some k := by
  rw [ofJson?, toJson, Json.uint8?_ofNat, Option.bind_some, ofId?_id]

theorem Binding.ofJson?_toJson (b : Binding) : ofJson? b.toJson = some b := rfl

theorem TextSet.ofJson?_toJson (s : TextSet) : ofJson? (toJson s) = some s := by
  have hlist := Json.list?_array Json.string?_ofString s.toList
  rw [ofJson?, toJson, hlist, Option.map_some, Catalog.ofList_toList]

namespace Payload

theorem isWhole_toJson (p : Payload) : isWhole p.toJson = true := by
  cases p with
  | style classes =>
    apply isWhole_record
    intro m hm
    simp only [List.mem_cons, List.not_mem_nil, or_false] at hm
    rcases hm with rfl | rfl
    · rfl
    · exact isWhole_list (fun _ => rfl) classes.toList
  | _ => rfl

theorem itemsFit_texts (room : Nat) (xs : List String) :
    Json.itemsFit room (xs.map Json.ofString) = true := by
  induction xs with
  | nil => rfl
  | cons x xs ih =>
    rw [List.map_cons, Json.itemsFit, ih]
    rfl

theorem fits_toJson {room : Nat} (h : 2 ≤ room) (p : Payload) : p.toJson.fits room = true := by
  have houter : room ≠ 0 := by omega
  have hinner : room - 1 ≠ 0 := by omega
  have hword : ∀ n, n < UInt32.size → (Json.Number.whole (n : Nat)).isFinite = true := by
    intro n hn
    have hsize : UInt32.size < UInt64.size := by decide
    rw [Json.Number.isFinite, Int.natAbs_natCast, if_pos (Nat.lt_trans hn hsize)]
  cases p with
  | declaration binding =>
    simp [toJson, record, Json.fits, Json.membersFit, Binding.toJson, Json.ofString, houter]
  | reference binding kind id =>
    have hkind : (Json.Number.whole (kind.id.toNat : Nat)).isFinite = true :=
      hword _ (Nat.lt_trans kind.id.toNat_lt (by decide))
    have hid := hword id.toNat id.toNat_lt
    simp [toJson, record, Json.fits, Json.membersFit, ReferenceKind.toJson, Json.ofNat,
      Json.ofString, Binding.toJson, hkind, hid, houter]
  | style classes =>
    simp [toJson, record, Json.fits, Json.membersFit, TextSet.toJson, Json.ofString,
      itemsFit_texts, houter, hinner]
  | localVariable id =>
    simp [toJson, record, Json.fits, Json.membersFit, Json.ofString, houter]

theorem decode?_reference (within : Bool) {b k i : Json} {binding : Binding} {kind : ReferenceKind}
    {id : UInt32} (hb : Binding.ofJson? b = some binding) (hk : ReferenceKind.ofJson? k = some kind)
    (hi : i.uint32? = some id) :
    decode? within (record [("type", .ofString "binding-ref"), ("binding", b), ("kind", k),
      ("id", i)]) = some (.reference binding kind id) := by
  have huntag := Json.untag?_record "type" (.ofString "binding-ref")
    [("binding", b), ("kind", k), ("id", i)] (by simp)
  have hshape : (Json.ofString "binding-ref").shape? shapes within = some 1 := by decide +revert
  have hfields := fields?_record [("binding", b), ("kind", k), ("id", i)] (by simp)
  simp only [List.map_cons, List.map_nil] at hfields
  simp [decode?, huntag, hshape, hfields, Json.required, hb, hk, hi]

theorem decode?_toJson (within : Bool) (p : Payload) : decode? within p.toJson = some p := by
  cases p with
  | declaration binding =>
    have huntag := Json.untag?_record "type" (.ofString "binding-decl")
      [("binding", binding.toJson)] (by simp)
    have hshape : (Json.ofString "binding-decl").shape? shapes within = some 0 := by decide +revert
    have hfields := fields?_record [("binding", binding.toJson)] (by simp)
    simp only [List.map_cons, List.map_nil] at hfields
    simp [decode?, toJson, huntag, hshape, hfields, Json.required, Binding.ofJson?_toJson]
  | reference binding kind id =>
    exact decode?_reference within binding.ofJson?_toJson kind.ofJson?_toJson
      (Json.uint32?_ofNat id)
  | style classes =>
    have huntag := Json.untag?_record "type" (.ofString "style")
      [("classes", TextSet.toJson classes)] (by simp)
    have hshape : (Json.ofString "style").shape? shapes within = some 2 := by decide +revert
    have hfields := fields?_record [("classes", TextSet.toJson classes)] (by simp)
    simp only [List.map_cons, List.map_nil] at hfields
    simp [decode?, toJson, huntag, hshape, hfields, Json.required, TextSet.ofJson?_toJson]
  | localVariable id =>
    have huntag := Json.untag?_record "type" (.ofString "lv-ref")
      [("local_id", .ofString id)] (by simp)
    have hshape : (Json.ofString "lv-ref").shape? shapes within = some 3 := by decide +revert
    have hfields := fields?_record [("local_id", .ofString id)] (by simp)
    simp only [List.map_cons, List.map_nil] at hfields
    simp [decode?, toJson, huntag, hshape, hfields, Json.required, Json.string?_ofString]

theorem ofJson?_toJson {room : Nat} (h : 2 ≤ room) (p : Payload) :
    ofJson? room p.toJson = some p := by
  rw [ofJson?, if_pos (fits_toJson h p), decode?_toJson]

end Payload

namespace Fact

theorem isWhole_toJson (f : Fact) : isWhole f.toJson = true := by
  apply isWhole_record
  intro m hm
  simp only [List.mem_cons, List.not_mem_nil, or_false] at hm
  rcases hm with rfl | rfl | rfl
  · rfl
  · rfl
  · exact f.payload.isWhole_toJson

theorem ofJson?_record {room : Nat} {start length payload : Json} {f : Fact}
    (hs : start.uint32? = some f.start) (hl : length.uint32? = some f.length)
    (hp : Payload.ofJson? (room - 1) payload = some f.payload) :
    ofJson? room (record [("start", start), ("length", length), ("payload", payload)]) =
      some f := by
  have hfields := fields?_record [("start", start), ("length", length), ("payload", payload)]
    (by simp)
  simp only [List.map_cons, List.map_nil] at hfields
  simp [ofJson?, hfields, Json.required, hs, hl, hp]

theorem ofJson?_toJson {room : Nat} (h : 3 ≤ room) (f : Fact) : ofJson? room f.toJson = some f := by
  have hpayload : Payload.ofJson? (room - 1) f.payload.toJson = some f.payload :=
    Payload.ofJson?_toJson (by omega) f.payload
  exact ofJson?_record (Json.uint32?_ofNat f.start) (Json.uint32?_ofNat f.length) hpayload

theorem isWhole_listToJson (facts : List Fact) : isWhole (listToJson facts) = true :=
  isWhole_list isWhole_toJson facts

theorem listOfJson?_listToJson {room : Nat} (h : 4 ≤ room) (facts : List Fact) :
    listOfJson? room (listToJson facts) = some facts := by
  have hroom : 3 ≤ room - 1 := by omega
  exact Json.list?_array (ofJson?_toJson hroom) facts

/-- What is stored of the facts of a file gives these facts back. -/
theorem facts_stored (facts : List Fact) :
    (Json.parse? (listToJson facts).compact).bind (listOfJson? Json.depthLimit) = some facts := by
  rw [Json.parse?_compact _ (isWhole_listToJson facts), Option.bind_some,
    listOfJson?_listToJson (by decide)]

end Fact

namespace SourceFile

theorem isWhole_toJson (file : SourceFile) : isWhole file.toJson = true := by
  apply isWhole_record
  intro m hm
  simp only [List.mem_cons, List.not_mem_nil, or_false] at hm
  rcases hm with rfl | rfl
  · rfl
  · exact Fact.isWhole_listToJson file.facts

theorem ofJson?_toJson {room : Nat} (h : 5 ≤ room) (file : SourceFile) :
    ofJson? room file.toJson = some file := by
  have hroom : 4 ≤ room - 1 := by omega
  have hfacts := Fact.listOfJson?_listToJson hroom file.facts
  have hfields := fields?_record [("text", .ofString file.text),
    ("facts", Fact.listToJson file.facts)] (by simp)
  simp only [List.map_cons, List.map_nil] at hfields
  simp [ofJson?, toJson, hfields, Json.required, Json.optional, Json.string?_ofString, hfacts]

end SourceFile

end CrossRef
