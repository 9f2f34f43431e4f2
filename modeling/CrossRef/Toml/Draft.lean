import CrossRef.Toml.Value

namespace CrossRef.Toml

inductive Origin
  | defined
  | implied
  | dotted
  deriving DecidableEq, Repr

/-- What stands under a key; of several tables under one header the last is open. A table with a
header of its own is closed to dotted keys, one made by dotted keys is closed to headers, and one
that a longer header implies may get its own header once. -/
inductive Draft
  | value (v : Toml)
  | table (origin : Origin) (members : List (String × Draft))
  | tables (earlier : List Draft) (last : Draft)

namespace Draft

def find? (key : String) (members : List (String × Draft)) : Option Draft :=
  (members.find? fun (name, _) => name = key).map Prod.snd

/-- Replaces the entry of a key in its place, or adds one at the end. -/
def set (key : String) (d : Draft) : List (String × Draft) → List (String × Draft)
  | [] => [(key, d)]
  | (name, e) :: rest => if name = key then (name, d) :: rest else (name, e) :: set key d rest

/-- Goes down from a table along `path`, makes the tables that are missing there by way of `how`,
and changes the table at its end. -/
def descend (how : Origin) (change : Draft → Option Draft) : List String → Draft → Option Draft
  | [], d => change d
  | key :: path, .table origin members => do
    let child ← match find? key members with
      | none => descend how change path (.table how [])
      | some (.value _) => none
      | some (.tables earlier last) => (descend how change path last).map (.tables earlier)
      | some (.table origin' members') =>
        if how = .dotted ∧ origin' = .defined then none
        else descend how change path (.table origin' members')
    return .table origin (set key child members)
  | _ :: _, _ => none

/-- Adds a value under a key that is still free; dotted keys fill only tables made by dotted keys,
and plain keys only the others. -/
def insert (isDotted : Bool) (key : String) (v : Toml) : Draft → Option Draft
  | .table origin members =>
    if isDotted = decide (origin = .dotted) ∧ (find? key members).isNone then
      some (.table origin (set key (.value v) members))
    else none
  | _ => none

def assign (path : List String) (key : String) (v : Toml) (d : Draft) : Option Draft :=
  descend .dotted (insert (!path.isEmpty) key v) path d

def openTable (path : List String) (key : String) (d : Draft) : Option Draft :=
  descend .implied (fun
    | .table origin members => match find? key members with
      | none => some (.table origin (set key (.table .defined []) members))
      | some (.table .implied inner) =>
        some (.table origin (set key (.table .defined inner) members))
      | some _ => none
    | _ => none) path d

def appendTable (path : List String) (key : String) (d : Draft) : Option Draft :=
  descend .implied (fun
    | .table origin members => match find? key members with
      | none => some (.table origin (set key (.tables [] (.table .defined [])) members))
      | some (.tables earlier last) =>
        some (.table origin (set key (.tables (earlier ++ [last]) (.table .defined [])) members))
      | some _ => none
    | _ => none) path d

def within (header : List String) (change : Draft → Option Draft) (d : Draft) : Option Draft :=
  descend .implied change header d

mutual

def toToml : Draft → Toml
  | .value v => v
  | .table _ members => .table (membersToToml members)
  | .tables earlier last => .array (listToToml earlier ++ [toToml last])

def listToToml : List Draft → List Toml
  | [] => []
  | d :: rest => toToml d :: listToToml rest

def membersToToml : List (String × Draft) → List (String × Toml)
  | [] => []
  | (key, d) :: rest => (key, toToml d) :: membersToToml rest

end

end Draft

end CrossRef.Toml
