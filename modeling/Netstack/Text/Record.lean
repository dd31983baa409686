/-
The text of a value that is a record, a tuple or an option, as it appears in
diagnostics. One place fixes the brackets and the marks between the fields, so
that every diagnostic of the library is read the same way.
-/

set_option autoImplicit false

namespace Netstack.Text

/-- A field and the text of its value. -/
def field (name value : String) : String :=
  name ++ ": " ++ value

/-- A record with all its fields shown. -/
def record (name : String) (fields : List String) : String :=
  name ++ " \x7b " ++ ", ".intercalate fields ++ " \x7d"

/-- A record some of whose fields are left out, which two dots say. -/
def recordPart (name : String) (fields : List String) : String :=
  record name (fields ++ [".."])

/-- A constructor applied to one value. -/
def applied (name value : String) : String :=
  name ++ "(" ++ value ++ ")"

/-- An optional value. -/
def optional : Option String → String
  | none => "None"
  | some value => applied "Some" value

/-- A truth value. -/
def bool (b : Bool) : String :=
  if b then "true" else "false"

end Netstack.Text
