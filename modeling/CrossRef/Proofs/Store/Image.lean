import CrossRef.Proofs.Fact.Roundtrip
import CrossRef.Store.Paged

namespace CrossRef.Store

open Json (isWhole record isWhole_record isWhole_list fields?_record list?_array)

namespace SourceRow

theorem ofJson?_toJson (row : SourceRow) : ofJson? row.toJson = some row := by
  have hfields := fields?_record [("path", .ofString row.path), ("hash", .ofString row.hash),
    ("text", .ofString row.text), ("annotations", .ofString row.annotations)] (by simp)
  simp only [List.map_cons, List.map_nil] at hfields
  simp [ofJson?, toJson, hfields, Json.required, Json.string?_ofString]

end SourceRow

namespace DeclarationRow

theorem isWhole_toJson (row : DeclarationRow) : isWhole row.toJson = true := rfl

theorem ofJson?_toJson (row : DeclarationRow) : ofJson? row.toJson = some row := by
  have hfields := fields?_record [("artifact", .ofString row.artifact),
    ("binding", row.binding.toJson), ("source_file", .ofString row.file),
    ("is_type", .bool row.isType)] (by simp)
  simp only [List.map_cons, List.map_nil] at hfields
  simp [ofJson?, toJson, hfields, Json.required, Json.string?_ofString, Binding.ofJson?_toJson,
    Json.bool?]

end DeclarationRow

namespace ReferenceRow

theorem isWhole_toJson (row : ReferenceRow) : isWhole row.toJson = true := rfl

theorem ofJson?_record {target kind line id : Json} {row : ReferenceRow}
    (ht : Binding.ofJson? target = some row.target)
    (hk : ReferenceKind.ofJson? kind = some row.kind) (hl : line.uint32? = some row.line)
    (hi : id.uint32? = some row.id) :
    ofJson? (record [("target", target), ("kind", kind), ("source_artifact", .ofString row.artifact),
      ("source_file", .ofString row.file), ("line", line), ("source_file_id", id)]) = some row := by
  have hfields := fields?_record [("target", target), ("kind", kind),
    ("source_artifact", .ofString row.artifact), ("source_file", .ofString row.file),
    ("line", line), ("source_file_id", id)] (by simp)
  simp only [List.map_cons, List.map_nil] at hfields
  simp [ofJson?, hfields, Json.required, Json.string?_ofString, ht, hk, hl, hi]

theorem ofJson?_toJson (row : ReferenceRow) : ofJson? row.toJson = some row :=
  ofJson?_record row.target.ofJson?_toJson row.kind.ofJson?_toJson (Json.uint32?_ofNat row.line)
    (Json.uint32?_ofNat row.id)

end ReferenceRow

theorem pairOfJson?_pairToJson (p : String × String) : pairOfJson? (pairToJson p) = some p := rfl

namespace Tables

/-- The lookup numbers are those of the bindings. -/
structure KeyedBy (key : Binding → Int64) (t : Tables) : Prop where
  declarations : ∀ d ∈ t.declarations, d.key = key d.row.binding
  references : ∀ r ∈ t.references, r.key = key r.row.target

def artifactToJson (a : String × Int64) : Json := .array [.ofString a.1, .ofInt a.2.toInt]

def fileToJson (f : String × SourceRow) : Json := .array [.ofString f.1, f.2.toJson]

theorem toJson_eq (t : Tables) :
    t.toJson = record [("schema_version", .ofNat schemaVersion),
      ("artifacts", .array (t.artifacts.map artifactToJson)),
      ("files", .array (t.files.map fileToJson)),
      ("declarations", .array ((t.declarations.map Keyed.row).map DeclarationRow.toJson)),
      ("references", .array ((t.references.map Keyed.row).map ReferenceRow.toJson)),
      ("dependencies", .array (t.dependencies.map pairToJson)),
      ("aliases", .array (t.aliases.map pairToJson))] := by
  simp only [toJson, List.map_map]
  rfl

theorem isWhole_toJson (t : Tables) : isWhole t.toJson = true := by
  rw [toJson_eq]
  apply isWhole_record
  intro m hm
  simp only [List.mem_cons, List.not_mem_nil, or_false] at hm
  rcases hm with rfl | rfl | rfl | rfl | rfl | rfl | rfl
  · rfl
  · exact isWhole_list (fun _ => rfl) t.artifacts
  · exact isWhole_list (fun _ => rfl) t.files
  · exact isWhole_list DeclarationRow.isWhole_toJson _
  · exact isWhole_list ReferenceRow.isWhole_toJson _
  · exact isWhole_list (fun _ => rfl) t.dependencies
  · exact isWhole_list (fun _ => rfl) t.aliases

theorem artifactOfJson?_artifactToJson (a : String × Int64) :
    artifactOfJson? (artifactToJson a) = some a := by
  simp [artifactOfJson?, artifactToJson, Json.string?_ofString, Json.int64?_ofInt]

theorem fileOfJson?_fileToJson (f : String × SourceRow) : fileOfJson? (fileToJson f) = some f := by
  simp [fileOfJson?, fileToJson, Json.string?_ofString, SourceRow.ofJson?_toJson]

theorem map_keyed {ρ : Type} (key : ρ → Int64) {xs : List (Keyed ρ)}
    (h : ∀ x ∈ xs, x.key = key x.row) : (xs.map Keyed.row).map (fun row => ⟨key row, row⟩) = xs := by
  rw [List.map_map]
  refine (List.map_congr_left fun x hx => ?_).trans (List.map_id xs)
  simp [← h x hx]

theorem ofJson?_record {key : Binding → Int64} {t : Tables} {schema : Json}
    {artifacts files declarations references dependencies aliases : Json}
    (hschema : Json.nat? UInt32.size schema = some schemaVersion)
    (hartifacts : Json.list? artifactOfJson? artifacts = some t.artifacts)
    (hfiles : Json.list? fileOfJson? files = some t.files)
    (hdeclarations : Json.list? DeclarationRow.ofJson? declarations =
      some (t.declarations.map Keyed.row))
    (hreferences : Json.list? ReferenceRow.ofJson? references = some (t.references.map Keyed.row))
    (hdependencies : Json.list? pairOfJson? dependencies = some t.dependencies)
    (haliases : Json.list? pairOfJson? aliases = some t.aliases) (hkeyed : t.KeyedBy key) :
    ofJson? key (record [("schema_version", schema), ("artifacts", artifacts), ("files", files),
      ("declarations", declarations), ("references", references), ("dependencies", dependencies),
      ("aliases", aliases)]) = some t := by
  have hfields := fields?_record [("schema_version", schema), ("artifacts", artifacts),
    ("files", files), ("declarations", declarations), ("references", references),
    ("dependencies", dependencies), ("aliases", aliases)] (by simp)
  simp only [List.map_cons, List.map_nil] at hfields
  have hd := map_keyed (fun row : DeclarationRow => key row.binding) hkeyed.declarations
  have hr := map_keyed (fun row : ReferenceRow => key row.target) hkeyed.references
  simp [ofJson?, hfields, Json.required, hschema, hartifacts, hfiles, hdeclarations, hreferences,
    hdependencies, haliases, hd, hr]

theorem ofJson?_toJson {key : Binding → Int64} {t : Tables} (h : t.KeyedBy key) :
    ofJson? key t.toJson = some t := by
  rw [toJson_eq]
  exact ofJson?_record (Json.nat?_ofNat (by decide))
    (list?_array artifactOfJson?_artifactToJson t.artifacts)
    (list?_array fileOfJson?_fileToJson t.files) (list?_array DeclarationRow.ofJson?_toJson _)
    (list?_array ReferenceRow.ofJson?_toJson _) (list?_array pairOfJson?_pairToJson t.dependencies)
    (list?_array pairOfJson?_pairToJson t.aliases) h

end Tables

namespace Image

theorem fromUTF8?_toUTF8 (text : String) : String.fromUTF8? text.toUTF8 = some text := by
  simp only [String.fromUTF8?, String.toUTF8_eq_toByteArray, dif_pos text.isValidUTF8]
  rfl

theorem ofMark?_mark (logged : Bool) : ofMark? (mark logged) = some logged := by
  cases logged <;> rfl

theorem marked_text (b : UInt8) (text : String) :
    let bytes := (⟨#[b]⟩ : ByteArray) ++ text.toUTF8
    bytes[0]? = some b ∧ bytes.extract 1 bytes.size = text.toUTF8 := by
  intro bytes
  have hsize : bytes.size = 1 + text.toUTF8.size := ByteArray.size_append
  constructor
  · have hpos : 0 < bytes.size := by omega
    have hhead : bytes[0] = b := ByteArray.getElem_append_left Nat.zero_lt_one
    rw [getElem?_pos bytes 0 hpos, hhead]
  · exact ByteArray.extract_append_eq_right rfl hsize

theorem compact_ne_empty (j : Json) (h : isWhole j = true) : j.compact.toUTF8.size ≠ 0 := by
  obtain ⟨c, cs, hcs, -⟩ := Json.print_head j h
  rw [Json.compact, hcs]
  intro hsize
  have hempty : String.ofList (c :: cs) = "" := String.utf8ByteSize_eq_zero_iff.1 hsize
  have htoList := congrArg String.toList hempty
  simp at htoList

theorem decode?_encode {key : Binding → Int64} {t : Tables} (h : t.KeyedBy key) (logged : Bool) :
    decode? key (encode ⟨logged, some t⟩) = some ⟨logged, some t⟩ := by
  obtain ⟨hmark, htext⟩ := marked_text (mark logged) t.toJson.compact
  have hparse : Json.parse? t.toJson.compact = some t.toJson :=
    Json.parse?_compact t.toJson t.isWhole_toJson
  have htables : Tables.ofJson? key t.toJson = some t := Tables.ofJson?_toJson h
  obtain ⟨members, hobject⟩ : ∃ members, t.toJson = .object members := ⟨_, rfl⟩
  rw [hobject] at hmark htext hparse htables
  unfold decode? encode
  simp only [Option.elim_some, hobject, hmark, htext, ofMark?_mark, fromUTF8?_toUTF8, hparse,
    htables, Option.bind_eq_bind, Option.bind_some]
  rfl

/-- What a file was made to hold is found in it. -/
theorem ofFile?_encode {key : Binding → Int64} {t : Tables} (h : t.KeyedBy key) (logged : Bool) :
    ofFile? key (encode ⟨logged, some t⟩) = some ⟨logged, some t⟩ := by
  have hsize : (encode ⟨logged, some t⟩).size = 1 + t.toJson.compact.toUTF8.size :=
    ByteArray.size_append
  have htext := compact_ne_empty t.toJson t.isWhole_toJson
  have hblank : isBlank (encode ⟨logged, some t⟩) = false := by
    rw [isBlank, hsize]
    simp only [decide_eq_false_iff_not]
    omega
  rw [ofFile?, hblank, if_neg Bool.false_ne_true, decode?_encode h]
  rfl

end Image

end CrossRef.Store
