import TypedSettings.Toml.Basic
import TypedSettings.Toml.Fault

/-!
# Tables under construction

A document fills its tables step by step: key by key, and table by table under headers. A node
remembers how its table came to be, for a table may be opened by one header only, and dotted keys
may add to tables that dotted keys made and to no others. Main statement: an entry that was put can be
looked up, and no other entry has changed (`nodeOf_putEntry`).
-/

namespace TypedSettings.Toml

/-- How a table came to be: under a header or in braces; on the way to the table of a header; or on
the way to a dotted key. -/
inductive Origin where
  | header
  | implied
  | dotted
deriving DecidableEq

/-- What stands under a key while a document is being read: a value, a table, or an array of tables
of which the last can still be added to. -/
inductive Node where
  | leaf (v : Toml)
  | table (origin : Origin) (entries : List (String × Node))
  | tables (elements : List (List (String × Node)))

/-- The entries of a table under construction, in the order of the document. -/
abbrev Entries := List (String × Node)

def nodeOf? (key : String) : Entries → Option Node
  | [] => none
  | e :: es => if e.1 = key then some e.2 else nodeOf? key es

/-- Puts a node under a key, in the place of an earlier one. -/
def putEntry (key : String) (node : Node) : Entries → Entries
  | [] => [(key, node)]
  | e :: es => if e.1 = key then (key, node) :: es else e :: putEntry key node es

/-- Changes the table at the end of a path. Tables that are missing on the way are made; of an array
of tables the last is meant. A dotted path does not lead through a table that has a header. -/
def changeAt (dotted : Bool) (change : Origin → Entries → Except Cause Entries) (origin : Origin)
    (entries : Entries) : List String → Except Cause Entries
  | [] => change origin entries
  | key :: path =>
    match nodeOf? key entries with
    | none => do
      let made := if dotted then Origin.dotted else .implied
      let inner ← changeAt dotted change made [] path
      return putEntry key (.table made inner) entries
    | some (.leaf _) => .error (.notTable key)
    | some (.tables elements) => do
      let inner ← changeAt dotted change .header (elements.getLast?.getD []) path
      return putEntry key (.tables (elements.dropLast ++ [inner])) entries
    | some (.table origin inner) =>
      if dotted ∧ origin = .header then .error (.duplicateKey key)
      else do
        let inner ← changeAt dotted change origin inner path
        return putEntry key (.table origin inner) entries

/-- Puts a value under a key that is new in its table. After a dotted path the table has to be one
of dotted keys, and without one it must not be. -/
def addKey (viaPath : Bool) (key : String) (value : Toml) (origin : Origin) (entries : Entries) :
    Except Cause Entries :=
  if viaPath = true ↔ origin = .dotted then
    if (nodeOf? key entries).isSome then .error (.duplicateKey key)
    else .ok (putEntry key (.leaf value) entries)
  else .error (.duplicateKey key)

def putKey (path : List String) (key : String) (value : Toml) (origin : Origin)
    (entries : Entries) : Except Cause Entries :=
  changeAt true (addKey (!path.isEmpty) key value) origin entries path

/-- Opens the table under a key: it must be new, or have been made only on the way to others. -/
def openTable (key : String) (_ : Origin) (entries : Entries) : Except Cause Entries :=
  match nodeOf? key entries with
  | none => .ok (putEntry key (.table .header []) entries)
  | some (.table .implied inner) => .ok (putEntry key (.table .header inner) entries)
  | some _ => .error (.duplicateKey key)

/-- Opens one more table in the array of tables under a key. -/
def openElement (key : String) (_ : Origin) (entries : Entries) : Except Cause Entries :=
  match nodeOf? key entries with
  | none => .ok (putEntry key (.tables [[]]) entries)
  | some (.tables elements) => .ok (putEntry key (.tables (elements ++ [[]])) entries)
  | some _ => .error (.duplicateKey key)

/-! ## Finished tables -/

mutual

def Node.finish : Node → Toml
  | .leaf v => v
  | .table _ entries => .table (finishEntries entries)
  | .tables elements => .array (finishElements elements)
termination_by structural n => n

def finishEntries : List (String × Node) → Table Toml
  | [] => []
  | (k, n) :: es => Table.insert k n.finish (finishEntries es)
termination_by structural es => es

def finishElements : List (List (String × Node)) → List Toml
  | [] => []
  | es :: rest => .table (finishEntries es) :: finishElements rest
termination_by structural els => els

end

/-! ## Laws -/

theorem nodeOf_putEntry (key : String) (node : Node) (entries : Entries) (other : String) :
    nodeOf? other (putEntry key node entries) =
      if key = other then some node else nodeOf? other entries := by
  induction entries with
  | nil => simp [putEntry, nodeOf?]
  | cons e es ih =>
    unfold putEntry
    split
    · rename_i h
      by_cases hk : key = other <;> simp_all [nodeOf?]
    · rename_i h
      simp only [nodeOf?, ih]
      by_cases hk : key = other
      · subst hk
        simp [h]
      · simp [hk]

end TypedSettings.Toml
