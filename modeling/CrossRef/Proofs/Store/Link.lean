import CrossRef.Proofs.Fact.Roundtrip
import CrossRef.Proofs.Markup.Html.Anchors
import CrossRef.Proofs.Text.Percent
import CrossRef.Store.Link

namespace CrossRef

open Markup (inOrder)
open Markup.Html (Splits Tag openings)
open Text.Percent (Coded decode encode)

/-- What stands behind the last `mark`. -/
def Text.behindLast (mark : Char) (cs : List Char) : List Char :=
  (cs.reverse.takeWhile (· ≠ mark)).reverse

theorem Text.behindLast_append {mark : Char} {cs : List Char} (h : mark ∉ cs)
    (front : List Char) : behindLast mark (front ++ mark :: cs) = cs := by
  have hreverse : (front ++ mark :: cs).reverse = cs.reverse ++ mark :: front.reverse := by simp
  have hall : ∀ c ∈ cs.reverse, decide (c ≠ mark) = true := by
    intro c hc
    rw [List.mem_reverse] at hc
    exact decide_eq_true fun he => h (he ▸ hc)
  rw [behindLast, hreverse, List.takeWhile_append_of_pos hall, List.takeWhile_cons_of_neg (by simp),
    List.append_nil, List.reverse_reverse]

/-- The part of a target that names the binding: a fragment, or what is asked for without one. -/
def bindingPart (target : String) : List Char :=
  if '#' ∈ target.toList then Text.behindLast '#' target.toList
  else Text.behindLast '=' target.toList

namespace Store

variable (s : Store) (artifact path : String) (b : Binding)

/-- A target has the fragment of an anchor, in this file or in another one, or is the listing. -/
theorem toList_link :
    (s.link artifact path b).toList = '#' :: (encode b.text).toList ∨
      (∃ front, (s.link artifact path b).toList = '/' :: (front ++ '#' :: (encode b.text).toList)) ∨
      (s.link artifact path b).toList =
        "/references?binding".toList ++ '=' :: (encode b.text).toList := by
  unfold link
  simp only
  split
  case h_1 =>
    right
    right
    simp
  case h_2 d hfound =>
    split
    case isTrue => exact .inl (by simp)
    case isFalse => exact .inr (.inl ⟨d.artifact.toList ++ '/' :: d.file.toList, by simp⟩)

theorem bindingPart_link : bindingPart (s.link artifact path b) = (encode b.text).toList := by
  have hcoded := Text.Percent.coded_encode b.text
  have hsign : '#' ∉ (encode b.text).toList := hcoded.notin (by decide) (by decide)
  have hequals : '=' ∉ (encode b.text).toList := hcoded.notin (by decide) (by decide)
  rw [bindingPart]
  rcases s.toList_link artifact path b with h | ⟨front, h⟩ | h
  · rw [h, if_pos List.mem_cons_self]
    exact Text.behindLast_append hsign []
  · rw [h, if_pos (by simp)]
    exact Text.behindLast_append hsign ('/' :: front)
  · have hnone : '#' ∉ "/references?binding".toList ++ '=' :: (encode b.text).toList := by
      simp [hsign]
    rw [h, if_neg hnone]
    exact Text.behindLast_append hequals _

/-- A target that begins with a number sign has nothing but the binding behind it. -/
theorem fragment_link {fragment : List Char}
    (h : (s.link artifact path b).toList = '#' :: fragment) :
    fragment = (encode b.text).toList := by
  rcases s.toList_link artifact path b with hlink | ⟨front, hlink⟩ | hlink
  · exact (List.cons.inj (h.symm.trans hlink)).2
  · exact absurd (List.cons.inj (h.symm.trans hlink)).1 (by decide)
  · exact absurd (List.cons.inj (h.symm.trans hlink)).1 (by decide)

/-- The links of a file that stay in the file name anchors of declarations. -/
def LinksWithin (file : SourceFile) (html : String) : Prop :=
  ∃ tokens, Splits html.toList tokens ∧
    ∀ r ∈ file.facts, ∀ d ∈ file.facts, ∀ b kind id fragment, r.payload = .reference b kind id →
      d.payload = .declaration b → (s.link artifact path b).toList = '#' :: fragment →
        ∃ t ∈ openings tokens, ∃ u ∈ openings tokens, ∃ anchor,
          t.attributes.lookup "href" = some (s.link artifact path b) ∧
          u.attributes.lookup "id" = some anchor ∧ decode fragment = Text.bytes anchor.toList

end Store

theorem Markup.Html.mem_openings {link : Binding → String} {text html : String} {facts : List Fact}
    (h : render link text facts = .ok html) :
    ∃ tokens, Splits html.toList tokens ∧
      ∀ fact ∈ facts, Tag.ofFact link fact ∈ openings tokens := by
  obtain ⟨tokens, hsplits, helements⟩ := elements_of_render h
  refine ⟨tokens, hsplits, fun fact hfact => ?_⟩
  have hsorted : fact ∈ inOrder facts := List.mem_mergeSort.2 hfact
  have hmem : Tag.ofFact link fact ∈ elements tokens := by
    rw [helements]
    exact List.mem_map_of_mem hsorted
  exact List.mem_of_mem_filter hmem

theorem Store.render_of_renderHtml {s : Store} {artifact path html : String} {file : SourceFile}
    (hfile : s.file artifact path = .ok file) (h : s.renderHtml artifact path = .ok html) :
    Markup.Html.render (s.link artifact path) file.text file.facts = .ok html := by
  rw [← h, renderHtml, hfile]
  rfl

theorem Store.linksWithin_of_render {s : Store} {artifact path html : String} {file : SourceFile}
    (hfile : s.file artifact path = .ok file) (h : s.renderHtml artifact path = .ok html) :
    s.LinksWithin artifact path file html := by
  obtain ⟨tokens, hsplits, hopened⟩ := Markup.Html.mem_openings (render_of_renderHtml hfile h)
  refine ⟨tokens, hsplits, ?_⟩
  intro r hr d hd b kind id fragment hreference hdeclaration hfragment
  have hhref := Markup.Html.lookup_shown (s.link artifact path) r
  have hid := Markup.Html.lookup_shown (s.link artifact path) d
  rw [hreference] at hhref
  rw [hdeclaration] at hid
  refine ⟨_, hopened r hr, _, hopened d hd, b.text, hhref, hid, ?_⟩
  rw [s.fragment_link artifact path b hfragment, Text.Percent.decode_encode]

/-- The targets in a file are equal only for one binding, whichever artifacts and files they lead
to. The part of a target that names the binding is in percent coding and stands for the bytes of the
binding; where a link stays in its file, that is the name of the anchor of the declaration. -/
theorem link_names_binding (s : Store) (artifact path : String) :
    (∀ b c, s.link artifact path b = s.link artifact path c → b = c) ∧
    (∀ b, Coded (bindingPart (s.link artifact path b)) ∧
      decode (bindingPart (s.link artifact path b)) = Text.bytes b.text.toList) ∧
    ∀ file html, s.file artifact path = .ok file → s.renderHtml artifact path = .ok html →
      s.LinksWithin artifact path file html := by
  have hdecode : ∀ b, decode (bindingPart (s.link artifact path b)) = Text.bytes b.text.toList := by
    intro b
    rw [s.bindingPart_link, Text.Percent.decode_encode]
  refine ⟨fun b c h => ?_, fun b => ⟨?_, hdecode b⟩, fun file html => Store.linksWithin_of_render⟩
  · have hbytes : Text.bytes b.text.toList = Text.bytes c.text.toList := by
      rw [← hdecode, h, hdecode]
    exact congrArg Binding.mk (Text.eq_of_bytes_eq hbytes)
  · rw [s.bindingPart_link]
    exact Text.Percent.coded_encode b.text

theorem Store.file_of_found {s : Store} {artifact path : String} {row : SourceRow}
    {file : SourceFile}
    (hfound : (s.tables.files.find? fun f => f.1 = artifact ∧ f.2.path = path) =
      some (artifact, row))
    (htext : row.text = file.text)
    (hfacts : row.annotations = (Fact.listToJson file.facts).compact) :
    s.file artifact path = .ok file := by
  rw [Store.file, hfound]
  simp only [hfacts, Fact.facts_stored, htext]

/-- Number signs in a binding, in an artifact and in a path. -/
theorem link_names_binding_marked :
    let file : SourceFile :=
      ⟨"XX", [⟨0, 1, .declaration ⟨"X#é"⟩⟩, ⟨1, 1, .reference ⟨"X#é"⟩ .cast 0⟩]⟩
    let s : Store := { key := fun _ => 0, tables := {
      files := [("a", ⟨"f", "", file.text, (Fact.listToJson file.facts).compact⟩)]
      declarations := [⟨0, ⟨"a", ⟨"X#é"⟩, "f", false⟩⟩, ⟨0, ⟨"#/?", ⟨"#"⟩, "/#", false⟩⟩] } }
    s.link "a" "f" ⟨"X#é"⟩ = "#X%23%C3%A9" ∧ s.link "a" "f" ⟨"#"⟩ = "/#/?//##%23" ∧
      s.link "a" "f" ⟨"/#"⟩ = "/references?binding=%2F%23" ∧
      ∃ html, s.renderHtml "a" "f" = .ok html ∧ s.LinksWithin "a" "f" file html := by
  intro file s
  have hhere : s.link "a" "f" ⟨"X#é"⟩ = "#X%23%C3%A9" := by decide +kernel
  have hthere : s.link "a" "f" ⟨"#"⟩ = "/#/?//##%23" := by decide +kernel
  have hnowhere : s.link "a" "f" ⟨"/#"⟩ = "/references?binding=%2F%23" := by decide +kernel
  have hfound : (s.tables.files.find? fun f => f.1 = "a" ∧ f.2.path = "f") =
      some ("a", ⟨"f", "", file.text, (Fact.listToJson file.facts).compact⟩) := rfl
  have hfile : s.file "a" "f" = .ok file := Store.file_of_found hfound rfl rfl
  have hsorted : inOrder file.facts = file.facts := List.mergeSort_of_pairwise (by decide)
  have hrender : s.renderHtml "a" "f" = .ok
      ("<a id=\"X#é\" class=\"decl\">" ++
        "<a href=\"#1\" id=\"1\" class=\"line\" data-line=\"1\"></a>X</a>" ++
        "<a href=\"#X%23%C3%A9\" class=\"ref\" data-kind=\"14\" data-ref-id=\"0\">X</a>") := by
    rw [Store.renderHtml, hfile]
    simp only [bind, Except.bind]
    unfold Markup.Html.render Markup.render
    rw [hsorted]
    decide +kernel
  exact ⟨hhere, hthere, hnowhere, _, hrender,
    (link_names_binding s "a" "f").2.2 file _ hfile hrender⟩

end CrossRef
