/-!
# Tables of TOML

Tables are defined by their headers, by keys with dots, or by the headers of tables inside them. A
table is defined once: a header may define a table that was only implied so far, and a key with dots
may add to a table that such keys defined.
-/

namespace DesignMatrix.Toml

/-- A value of a key. Only texts and truth values are kept. -/
inductive Value where
  | text (text : String)
  | truth (value : Bool)
  /-- A number, a date, an array, or a table in braces. -/
  | other
  deriving DecidableEq, Repr

/-- How a table came to be. -/
inductive Origin where
  | header
  /-- By the header of a table inside it. -/
  | implied
  | dotted
  deriving DecidableEq, Repr

/-- What a key of a table stands for. -/
inductive Entry where
  | value (value : Value)
  | table (origin : Origin) (members : List (String × Entry))
  /-- Tables under one name, the last one first. -/
  | tables (items : List (List (String × Entry)))

/-- The keys of a table with their entries, in the order in which they are defined. -/
abbrev Members := List (String × Entry)

namespace Members

/-- The members with another entry for a key. -/
def replace (members : Members) (key : String) (entry : Entry) : Members :=
  members.map fun member => if member.1 = key then (key, entry) else member

/--
Changes the table at a path, of which `origin` is the outermost one. What the path lacks is added. A
path of dots does not lead into tables that have a header.
-/
def modifyAt? (dotted : Bool) (change : Origin → Members → Option Members) :
    Origin → List String → Members → Option Members
  | origin, [], members => change origin members
  | _, key :: path, members =>
    match members.lookup key with
    | none => do
      let origin := if dotted then Origin.dotted else .implied
      some (members ++ [(key, .table origin (← modifyAt? dotted change origin path []))])
    | some (.value _) => none
    | some (.table origin inner) =>
      if dotted && origin = .header then none
      else do
        some (replace members key (.table origin (← modifyAt? dotted change origin path inner)))
    | some (.tables []) => none
    | some (.tables (last :: others)) => do
      some (replace members key (.tables ((← modifyAt? dotted change .header path last) :: others)))

/-- Adds a value under a key, which must be new. -/
def add? (key : String) (value : Value) (members : Members) : Option Members :=
  if (members.lookup key).isSome then none else some (members ++ [(key, .value value)])

/-- Adds a value under a key with dots; the tables on the path must be made by such keys. -/
def addDotted? (path : List String) (key : String) (value : Value) (origin : Origin)
    (members : Members) : Option Members :=
  modifyAt? true (fun origin inner =>
    if (origin == .dotted) == path.isEmpty then none else add? key value inner) origin path members

/-- Adds the table that a header defines. -/
def addTable? (key : String) (members : Members) : Option Members :=
  match members.lookup key with
  | none => some (members ++ [(key, .table .header [])])
  | some (.table .implied inner) => some (replace members key (.table .header inner))
  | _ => none

/-- Adds one more table under a name. -/
def addItem? (key : String) (members : Members) : Option Members :=
  match members.lookup key with
  | none => some (members ++ [(key, .tables [[]])])
  | some (.tables items) => some (replace members key (.tables ([] :: items)))
  | _ => none

end Members

end DesignMatrix.Toml
