import DesignMatrix.Config.StorePath

/-!
# Configuration files

Files and directories, as far as the loading and saving of configurations depends on them. A file
that is not there holds the standard configuration. Saving makes the directories that lead to the
file; those that were made stay, even if the file itself cannot be written.
-/

namespace DesignMatrix

/-- What is found at a place. -/
inductive StoreEntry where
  /-- A file with its text, `none` if its bytes are no text. -/
  | file (text? : Option String)
  | directory
  deriving DecidableEq, Repr

/-- Files and directories. Of two entries at a place the first one counts. -/
structure Store where
  entries : List (Place × StoreEntry)

namespace Store

/-- The store that holds nothing but the directory where relative paths start. -/
def empty : Store := ⟨[(Place.top, .directory), (Place.working, .directory)]⟩

/-- What is at a place. -/
def find? (store : Store) (place : Place) : Option StoreEntry := store.entries.lookup place

/-- The store with an entry at a place. -/
def put (store : Store) (place : Place) (entry : StoreEntry) : Store :=
  ⟨(place, entry) :: store.entries⟩

theorem find?_put (store : Store) (place other : Place) (entry : StoreEntry) :
    (store.put place entry).find? other =
      if other = place then some entry else store.find? other := by
  by_cases h : other = place
  · simp [find?, put, h]
  · simp [find?, put, List.lookup_cons, h, beq_eq_false_iff_ne.mpr h]

/-- Where names lead. Only a directory is walked through. -/
def walk? (store : Store) : Place → List String → Option Place
  | place, [] => some place
  | place, name :: names => do
    guard (store.find? place = some .directory)
    store.walk? (← place.step? name) names

/-- Where a path leads. -/
def reach? (store : Store) (path : StorePath) : Option Place :=
  if StorePath.areWalkable path.names then store.walk? path.start path.names else none

/-- What is at the end of a path. -/
def entry? (store : Store) (path : StorePath) : Option StoreEntry :=
  (store.reach? path).bind store.find?

/-- Makes the directories along names, until one cannot be made. The answer is the store with those
that were made, and the place of the last one if all are there. -/
def makeDirectories (store : Store) (place : Place) : List String → Store × Option Place
  | [] => (store, some place)
  | name :: names =>
    match place.step? name with
    | none => (store, none)
    | some next =>
      match store.find? next with
      | none => (store.put next .directory).makeDirectories next names
      | some .directory => store.makeDirectories next names
      | some (.file _) => (store, none)

/-- Makes the directory at the end of a path. -/
def makeDirectory (store : Store) (path : StorePath) : Store × Except ConfigError Unit :=
  if StorePath.areWalkable path.steps then
    match store.makeDirectories path.start path.steps with
    | (store, some _) => (store, .ok ())
    | (store, none) => (store, .error .storage)
  else (store, .error .storage)

/-- Writes a file, after the directories that lead to it. -/
def write (store : Store) (path : StorePath) (text? : Option String) :
    Store × Except ConfigError Unit :=
  match store.makeDirectory { path with names := path.parents } with
  | (store, .error e) => (store, .error e)
  | (store, .ok _) =>
    match store.reach? path with
    | none => (store, .error .storage)
    | some place =>
      if path.endsInName && store.find? place ≠ some .directory then
        (store.put place (.file text?), .ok ())
      else (store, .error .storage)

/-- The configuration of a file. -/
def load (store : Store) (path : StorePath) : Except ConfigError Config :=
  match store.entry? path with
  | none => .ok Config.standard
  | some (.file (some text)) => Config.read (.ofName path.fileName) text
  | some (.file none) | some .directory => .error .storage

/-- Writes a configuration to a file. -/
def save (store : Store) (path : StorePath) (config : Config) : Store × Except ConfigError Unit :=
  store.write path (some (config.write (.ofName path.fileName)))

end Store

end DesignMatrix
