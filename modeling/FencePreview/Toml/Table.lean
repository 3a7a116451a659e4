import FencePreview.Text.Basic

/-! Tables of a configuration document. Where a table comes from decides what may still be added
to it: a table written by a header is closed to dotted keys, one written by dotted keys to
headers, and an inline table to both. -/

namespace FencePreview

namespace Toml

inductive Scalar where
  | text (content : Text)
  | integer (value : Int)
  | float (written : Text)
  | boolean (value : Bool)
  | moment (written : Text)
deriving DecidableEq, Repr

/-- Where a table comes from. -/
inductive Origin where
  /-- Its own header. -/
  | header
  /-- The header of a table inside it. -/
  | implied
  /-- A dotted key. -/
  | dotted
  /-- Braces. -/
  | inline
deriving DecidableEq, Repr

inductive Node where
  | scalar (value : Scalar)
  | array (items : List Node)
  /-- Tables under one repeated header, in order. -/
  | tables (items : List Node)
  | table (origin : Origin) (entries : List (Text × Node))

abbrev Entries := List (Text × Node)

/-- Changes what stands under a key, or adds it at the end. -/
def updateKey (key : Text) (update : Option Node → Option Node) : Entries → Option Entries
  | [] => (update none).map fun node => [(key, node)]
  | (found, node) :: rest =>
      if found = key then (update (some node)).map fun changed => (found, changed) :: rest
      else (updateKey key update rest).map ((found, node) :: ·)

/-- Changes the table at the end of a path, making tables on the way. A dotted path does not enter
a table that has a header, and no path enters an inline table. -/
def modifyAt (dotted : Bool) (update : Origin → Entries → Option (Origin × Entries)) :
    List Text → Origin → Entries → Option (Origin × Entries)
  | [], origin, entries => update origin entries
  | key :: rest, origin, entries =>
      let enter (origin : Origin) (entries : Entries) : Option Node :=
        (modifyAt dotted update rest origin entries).map fun (origin, entries) =>
          .table origin entries
      let step : Option Node → Option Node
        | none => enter (if dotted then .dotted else .implied) []
        | some (.table .inline _) => none
        | some (.table .header entries) => if dotted then none else enter .header entries
        | some (.table origin entries) => enter origin entries
        | some (.tables items) =>
            match items.getLast? with
            | some (.table origin entries) =>
                if dotted then none
                else (enter origin entries).map fun last => .tables (items.dropLast ++ [last])
            | _ => none
        | some _ => none
      (updateKey key step entries).map fun entries => (origin, entries)

/-- Adds a value under a key that is not there yet. -/
def addNew (key : Text) (value : Node) (entries : Entries) : Option Entries :=
  updateKey key (fun found => if found.isSome then none else some value) entries

/-- Adds a value under a dotted key. Its last table is one that dotted keys made. -/
def bind (path : List Text) (key : Text) (value : Node) (origin : Origin) (entries : Entries) :
    Option (Origin × Entries) :=
  modifyAt true
    (fun origin entries =>
      if path.isEmpty = (origin = .dotted) then none
      else (addNew key value entries).map fun entries => (origin, entries))
    path origin entries

/-- Opens the table of a header. -/
def openTable (parents : List Text) (key : Text) (entries : Entries) : Option Entries :=
  let step : Option Node → Option Node
    | none => some (.table .header [])
    | some (.table .implied entries) => some (.table .header entries)
    | some _ => none
  (modifyAt false
    (fun origin entries => (updateKey key step entries).map fun entries => (origin, entries))
    parents .header entries).map Prod.snd

/-- Adds a table under a repeated header. -/
def appendTable (parents : List Text) (key : Text) (entries : Entries) : Option Entries :=
  let step : Option Node → Option Node
    | none => some (.tables [.table .header []])
    | some (.tables items) => some (.tables (items ++ [.table .header []]))
    | some _ => none
  (modifyAt false
    (fun origin entries => (updateKey key step entries).map fun entries => (origin, entries))
    parents .header entries).map Prod.snd

/-- One line of a document. -/
inductive Statement where
  | header (parents : List Text) (key : Text)
  | repeatedHeader (parents : List Text) (key : Text)
  | binding (path : List Text) (key : Text) (value : Node)

/-- Carries out statements in order. `current` is the path of the table that bindings go to. -/
def assemble : List Text → Entries → List Statement → Option Entries
  | _, entries, [] => some entries
  | current, entries, statement :: rest =>
      match statement with
      | .header parents key =>
          match openTable parents key entries with
          | some entries => assemble (parents ++ [key]) entries rest
          | none => none
      | .repeatedHeader parents key =>
          match appendTable parents key entries with
          | some entries => assemble (parents ++ [key]) entries rest
          | none => none
      | .binding path key value =>
          match modifyAt false (bind path key value) current .header entries with
          | some (_, entries) => assemble current entries rest
          | none => none

end Toml

end FencePreview
