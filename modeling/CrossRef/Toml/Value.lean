namespace CrossRef

/-- No setting is a float or a date-time, so of these only the kind is kept. -/
inductive Toml
  | string (s : String)
  | integer (n : Int)
  | float
  | boolean (b : Bool)
  | dateTime
  | array (items : List Toml)
  | table (members : List (String × Toml))

end CrossRef
