import CrossRef.Command.Arguments

namespace CrossRef.Command.Help

/-- An option or operand as it is written, what it does, what the short form notes behind that, and
the lines that the long form adds. -/
structure Item where
  usage : String
  text : String
  notes : String := ""
  more : List String := []

def commands : List Item := [
  ⟨"ingest", "Ingest an artifact dump", "", []⟩,
  ⟨"render", "Render a stored source file", "", []⟩,
  ⟨"refs", "List references to a binding", "", []⟩,
  ⟨"status", "Show what is stored for an artifact", "", []⟩,
  ⟨"help", "Print this message or the help of the given subcommand(s)", "", []⟩]

def operands : Level → List Item
  | .program => []
  | .ingest => [⟨"<DUMP>", "Artifact dump (JSON)", "", []⟩]
  | .render => [⟨"<ARTIFACT>", "Artifact id", "", []⟩,
      ⟨"<PATH>", "Path of the source file within the artifact", "", []⟩]
  | .refs => [⟨"<BINDING>",
      "Canonical binding, e.g. \x60java.util.Map#put(java.lang.Object,java.lang.Object)\x60",
      "", []⟩]
  | .status => [⟨"<ARTIFACT>", "Artifact id", "", []⟩]

def ownOptions : Level → List Item
  | .ingest => [⟨"    --force", "Re-ingest even when the artifact is current", "", []⟩]
  | .render => [⟨"    --format <FORMAT>", "Output format",
      " [default: html] [possible values: html, tree]",
      ["Possible values:", "- html: Hyperlinked HTML fragment",
        "- tree: JSON node tree with byte offsets", "", "[default: html]"]⟩]
  | _ => []

def commonOptions : List Item := [
  ⟨"-v, --verbose", "Increase output verbosity", "", []⟩,
  ⟨"-q, --quiet", "Suppress non-error output", "", []⟩,
  ⟨"    --json", "Output in JSON format", "", []⟩,
  ⟨"    --config <FILE>", "Config file (defaults to ./srcxref.toml when present)", "", []⟩,
  ⟨"    --db <FILE>", "Database file, overriding [store] path", "", []⟩]

def hasLongForm : Level → Bool
  | .refs => false
  | .status => false
  | _ => true

def helpOption (level : Level) (long : Bool) : Item :=
  let hint := if !hasLongForm level then "" else if long then " (see a summary with '-h')"
    else " (see more with '--help')"
  ⟨"-h, --help", "Print help" ++ hint, "", []⟩

def options (level : Level) (long : Bool) : List Item :=
  ownOptions level ++ commonOptions ++ [helpOption level long] ++
    if level = .program then [⟨"-V, --version", "Print version", "", []⟩] else []

def about : Level → String
  | .program => "Ingest resolved source facts and browse declarations and references"
  | .ingest => "Ingest an artifact dump"
  | .render => "Render a stored source file"
  | .refs => "List references to a binding"
  | .status => "Show what is stored for an artifact"

def longAbout : Level → String
  | .program =>
    "srcxref stores, per artifact, the declarations and references a language front end " ++
    "reports, and renders stored source files with those facts attached.\n\n" ++
    "Artifacts are ingested from JSON dumps and superseded wholesale on re-ingestion."
  | .ingest =>
    "Ingest an artifact dump.\n\nThe dump is a JSON document:\n" ++
    "  \x7b\"id\": ..., \"dependencies\": [...], \"aliases\": [...],\n" ++
    "   \"files\": \x7b\"<path>\": \x7b\"text\": ..., \"facts\": [...]\x7d\x7d\x7d\n\n" ++
    "All previous rows of the artifact are replaced in one transaction."
  | level => about level

def usage : Level → String
  | .program => "srcxref [OPTIONS] <COMMAND>"
  | .ingest => "srcxref ingest [OPTIONS] <DUMP>"
  | .render => "srcxref render [OPTIONS] <ARTIFACT> <PATH>"
  | .refs => "srcxref refs [OPTIONS] <BINDING>"
  | .status => "srcxref status [OPTIONS] <ARTIFACT>"

def blanks (n : Nat) : String := String.ofList (List.replicate n ' ')

def column (items : List Item) : List String :=
  let width := (items.map fun i => i.usage.length).foldl max 0
  items.map fun i => "  " ++ i.usage ++ blanks (width - i.usage.length + 2) ++ i.text ++ i.notes

/-- Items with their texts below them and an empty line between two. Every line of a text is
indented, also one that is empty. -/
def below (items : List Item) : List String :=
  let indented := fun lines => lines.map (blanks 10 ++ ·)
  let blocks := items.map fun i =>
    ("  " ++ i.usage) :: (indented [i.text] ++ if i.more = [] then [] else "" :: indented i.more)
  List.flatten (List.intersperse [""] blocks)

def titled (title : String) (lines : List String) : List String :=
  if lines = [] then [] else "" :: title :: lines

def ofLevel (level : Level) (long : Bool) : List String :=
  let long := long && hasLongForm level
  let layout := if long then below else column
  [if long then longAbout level else about level, "", "Usage: " ++ usage level] ++
    (if level = .program then titled "Commands:" (column commands) else []) ++
    titled "Arguments:" (layout (operands level)) ++ titled "Options:" (layout (options level long))

def ofCommand : List String :=
  ["Print this message or the help of the given subcommand(s)", "",
    "Usage: srcxref help [COMMAND]..."] ++
    titled "Arguments:" (column [⟨"[COMMAND]...", "Print help for the subcommand(s)", "", []⟩])

def text (topic : Topic) (long : Bool) : String :=
  let lines := match topic with
    | .level level => ofLevel level long
    | .help => ofCommand
  "\n".intercalate lines ++ "\n"

end CrossRef.Command.Help
