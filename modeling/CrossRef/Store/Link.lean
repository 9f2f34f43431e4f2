import CrossRef.Markup.Html
import CrossRef.Markup.Tree
import CrossRef.Store
import CrossRef.Text.Percent

namespace CrossRef.Store

/-- The target of a reference in a file: the anchor in this file, the anchor in the file that
declares the binding, or the listing of its references when nothing declares it. -/
def link (s : Store) (artifact path : String) (b : Binding) : String :=
  let anchor := Text.Percent.encode b.text
  match s.resolve? b with
  | none => "/references?binding=" ++ anchor
  | some d =>
    if d.artifact = artifact ∧ d.file = path then "#" ++ anchor
    else "/" ++ d.artifact ++ "/" ++ d.file ++ "#" ++ anchor

def renderHtml (s : Store) (artifact path : String) : Except Fault String := do
  let file ← s.file artifact path
  Markup.Html.render (s.link artifact path) file.text file.facts

def renderTree (s : Store) (artifact path : String) : Except Fault (List Markup.Node) := do
  let file ← s.file artifact path
  Markup.renderTree file.text file.facts

end CrossRef.Store
