/-!
# Forms

A `Form` is a nested description of a value: a word, a list, a record with named fields, or
a name applied to positional parts. It has two layouts. The plain one is a single line. The
tall one puts each part on a line of its own, four spaces deeper, with a comma after every
part. A list without items and a record without fields are written on one line in both.
-/

namespace DerivationCache.Text

/-- A nested description of a value. -/
inductive Form where
  | word (text : String)
  | list (items : List Form)
  | record (name : String) (fields : List (String × Form))
  | apply (name : String) (parts : List Form)

namespace Form

/-- A truth value as a word. -/
def ofBool (b : Bool) : Form := word (if b then "true" else "false")

/-- A number as a word. -/
def ofNat (n : Nat) : Form := word (Nat.repr n)

mutual

/-- The single line. -/
def plain : Form → String
  | word text => text
  | list items => "[" ++ ", ".intercalate (plainItems items) ++ "]"
  | record name [] => name
  | record name fields => name ++ " \x7b " ++ ", ".intercalate (plainFields fields) ++ " \x7d"
  | apply name [] => name
  | apply name parts => name ++ "(" ++ ", ".intercalate (plainItems parts) ++ ")"

/-- The single line of each item. -/
def plainItems : List Form → List String
  | [] => []
  | item :: rest => plain item :: plainItems rest

/-- The single line of each field, after its name. -/
def plainFields : List (String × Form) → List String
  | [] => []
  | (name, value) :: rest => (name ++ ": " ++ plain value) :: plainFields rest

end

/-- A line break, and the indentation of this depth. -/
def lineBreak (depth : Nat) : String := "\n" ++ String.ofList (List.replicate (4 * depth) ' ')

/-- Parts one to a line, each at this depth, with a comma after every one. -/
def stacked (depth : Nat) (parts : List String) : String :=
  String.join (parts.map fun part => lineBreak depth ++ part ++ ",")

mutual

/-- The layout over several lines, of a form that starts at this depth. -/
def tallAt (depth : Nat) : Form → String
  | word text => text
  | list [] => "[]"
  | list items =>
    "[" ++ stacked (depth + 1) (tallItems (depth + 1) items) ++ lineBreak depth ++ "]"
  | record name [] => name
  | record name fields =>
    name ++ " \x7b" ++ stacked (depth + 1) (tallFields (depth + 1) fields) ++
      lineBreak depth ++ "\x7d"
  | apply name [] => name
  | apply name parts =>
    name ++ "(" ++ stacked (depth + 1) (tallItems (depth + 1) parts) ++ lineBreak depth ++ ")"

/-- The layout of each item. -/
def tallItems (depth : Nat) : List Form → List String
  | [] => []
  | item :: rest => tallAt depth item :: tallItems depth rest

/-- The layout of each field, after its name. -/
def tallFields (depth : Nat) : List (String × Form) → List String
  | [] => []
  | (name, value) :: rest => (name ++ ": " ++ tallAt depth value) :: tallFields depth rest

end

/-- The layout over several lines. -/
def tall (form : Form) : String := tallAt 0 form

/-- One of the two layouts. -/
def render (pretty : Bool) (form : Form) : String := if pretty then form.tall else form.plain

end Form

end DerivationCache.Text
