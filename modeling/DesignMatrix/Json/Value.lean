/-!
# JSON values
-/

namespace DesignMatrix

/--
A JSON value. A number is kept as it is written. A string is `none` when it has half of a surrogate
pair, which stands for no text.
-/
inductive Json where
  | null
  | boolean (value : Bool)
  | number (text : String)
  | string (text : Option String)
  | array (items : List Json)
  /-- The members in the order in which they are written; a key may repeat. -/
  | object (members : List (Option String × Json))

namespace Json

/-- The value of the first member with this key. -/
def member? (key : String) : Json → Option Json
  | .object members => (members.find? fun member => member.1 == some key).map Prod.snd
  | _ => none

end Json

end DesignMatrix
