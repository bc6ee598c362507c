/-!
# TOML values

The tree of values that a TOML document describes. The entries of a table are in the order in
which their keys first appear.
-/

namespace StackIR.Toml

/-- A value of a TOML document. Dates and times are checked when they are read; which one a value
is makes no difference to its readers, so it is not kept. -/
inductive Value where
  | string (value : String)
  | integer (value : Int)
  | float (value : Float)
  | boolean (value : Bool)
  | dateTime
  /-- An array: of tables that headers opened one by one, or of values in brackets. -/
  | array (isHeaded : Bool) (items : List Value)
  | table (entries : List (String × Value))

end StackIR.Toml
