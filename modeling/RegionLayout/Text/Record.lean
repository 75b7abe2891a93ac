/-!
Record notation: the text in which values are shown for diagnosis, `Name \x7b field: value \x7d` for
records, `Name(value)` for wrapped values, brackets for lists and braces for maps.
-/

namespace RegionLayout.Record

def commas (items : List String) : String :=
  ", ".intercalate items

def list (items : List String) : String :=
  "[" ++ commas items ++ "]"

def entry (key value : String) : String :=
  key ++ ": " ++ value

def map (entries : List (String × String)) : String :=
  "\x7b" ++ commas (entries.map fun (key, value) => entry key value) ++ "\x7d"

/-- A record all of whose fields are shown. -/
def full (name : String) (fields : List (String × String)) : String :=
  name ++ " \x7b " ++ commas (fields.map fun (key, value) => entry key value) ++ " \x7d"

/-- A record some of whose fields are left out. -/
def partly (name : String) (fields : List (String × String)) : String :=
  name ++ " \x7b " ++ commas (fields.map (fun (key, value) => entry key value) ++ [".."]) ++ " \x7d"

def wrapped (name value : String) : String :=
  name ++ "(" ++ value ++ ")"

def flag (value : Bool) : String :=
  if value then "true" else "false"

def optional : Option String → String
  | none => "None"
  | some value => wrapped "Some" value

end RegionLayout.Record
