import FencePreview.Storage.Error
import FencePreview.Storage.PathName

/-! Files and directories by location. A location is the list of names from the root down; the
root itself is always a directory. -/

namespace FencePreview

abbrev Location := List Text

local instance decidableEqBytes : DecidableEq ByteArray := ByteArray.instDecidableEq

inductive Entry where
  | file (content : ByteArray) (mode : Nat)
  | directory (mode : Nat)
deriving DecidableEq

def Entry.mode : Entry → Nat
  | file _ mode => mode
  | directory mode => mode

def Entry.isDirectory : Entry → Bool
  | file _ _ => false
  | directory _ => true

def Entry.withMode (mode : Nat) : Entry → Entry
  | file content _ => file content mode
  | directory _ => directory mode

structure FileTree where
  entries : List (Location × Entry)
deriving DecidableEq

namespace FileTree

def empty : FileTree := ⟨[]⟩

def directoryMode : Nat := 0o755

def fileMode : Nat := 0o644

def temporaryMode : Nat := 0o600

def get? (tree : FileTree) (location : Location) : Option Entry :=
  if location = [] then some (.directory directoryMode) else tree.entries.lookup location

/-- Puts an entry in place of whatever is at its location. -/
def insert (tree : FileTree) (location : Location) (entry : Entry) : FileTree :=
  ⟨tree.entries.filter (fun binding => binding.1 ≠ location) ++ [(location, entry)]⟩

/-- Removes an entry and everything below it. -/
def erase (tree : FileTree) (location : Location) : FileTree :=
  ⟨tree.entries.filter fun binding => !location.isPrefixOf binding.1⟩

def isDirectory (tree : FileTree) (location : Location) : Bool :=
  match tree.get? location with
  | some (.directory _) => true
  | _ => false

def isFile (tree : FileTree) (location : Location) : Bool :=
  match tree.get? location with
  | some (.file _ _) => true
  | _ => false

/-- The names directly inside a directory. -/
def names (tree : FileTree) (location : Location) : List Text :=
  tree.entries.filterMap fun (place, _) =>
    match place.getLast? with
    | some name => if place = location ++ [name] then some name else none
    | none => none

/-- Everything below a directory, by location seen from there. -/
def below (tree : FileTree) (location : Location) : List (Location × Entry) :=
  tree.entries.filterMap fun (place, entry) =>
    if location.isPrefixOf place && place ≠ location then some (place.drop location.length, entry)
    else none

/-- Takes an entry with everything below it to another location, in place of what is there. -/
def move (tree : FileTree) (origin location : Location) (entry : Entry) : FileTree :=
  (tree.below origin).foldr (fun (place, inner) moved => moved.insert (location ++ place) inner)
    ((tree.erase origin).insert location entry)

/-- Why an entry cannot be moved from `origin` to another location, if something stands in its way. -/
def obstacle? (tree : FileTree) (origin location : Location) (entry : Entry) : Option FileError :=
  if origin.isPrefixOf location then some .invalidArgument
  else if location.isPrefixOf origin then some .directoryNotEmpty
  else
    match entry, tree.get? location with
    | _, none => none
    | .file _ _, some (.file _ _) => none
    | .file _ _, some (.directory _) => some .isADirectory
    | .directory _, some (.file _ _) => some .notADirectory
    | .directory _, some (.directory _) =>
        if (tree.below location).isEmpty then none else some .directoryNotEmpty

theorem lookup_filter_ne {α : Type} (entries : List (Location × α)) (location sought : Location) :
    (entries.filter fun binding => binding.1 ≠ location).lookup sought =
      if sought = location then none else entries.lookup sought := by
  induction entries with
  | nil => simp
  | cons binding rest ih =>
      obtain ⟨place, content⟩ := binding
      by_cases same : place = location
      · subst same
        by_cases wanted : sought = place
        · simpa [wanted] using ih
        · have unequal : (sought == place) = false := by simpa using wanted
          simpa [wanted, List.lookup_cons, unequal] using ih
      · by_cases wanted : sought = place
        · subst wanted
          simp [same]
        · have unequal : (sought == place) = false := by simpa using wanted
          simpa [same, wanted, List.lookup_cons, unequal] using ih

theorem get?_insert (tree : FileTree) (location sought : Location) (entry : Entry)
    (below : location ≠ []) :
    (tree.insert location entry).get? sought =
      if sought = location then some entry else tree.get? sought := by
  by_cases atRoot : sought = []
  · simp [get?, atRoot, Ne.symm below]
  · simp only [get?, atRoot, if_false, insert, List.lookup_append, lookup_filter_ne]
    by_cases wanted : sought = location
    · simp [wanted]
    · have unequal : (sought == location) = false := by simpa using wanted
      simp [wanted, List.lookup_cons, unequal]

theorem get?_erase (tree : FileTree) (location sought : Location) (below : sought ≠ []) :
    (tree.erase location).get? sought =
      if location.isPrefixOf sought then none else tree.get? sought := by
  simp only [get?, below, if_false, erase]
  induction tree.entries with
  | nil => simp
  | cons binding rest ih =>
      obtain ⟨place, content⟩ := binding
      by_cases inside : location.isPrefixOf place
      · by_cases wanted : sought = place
        · subst wanted
          simpa [inside] using ih
        · have unequal : (sought == place) = false := by simpa using wanted
          simpa [inside, List.lookup_cons, unequal] using ih
      · by_cases wanted : sought = place
        · subst wanted
          simp [inside]
        · have unequal : (sought == place) = false := by simpa using wanted
          simpa [inside, List.lookup_cons, unequal] using ih

theorem lookup_below (tree : FileTree) (location place : Location) :
    (tree.below location).lookup place =
      if place = [] then none else tree.entries.lookup (location ++ place) := by
  simp only [below]
  induction tree.entries with
  | nil => simp
  | cons binding rest ih =>
      obtain ⟨spot, content⟩ := binding
      by_cases inside : (location.isPrefixOf spot && spot ≠ location) = true
      · obtain ⟨more, rfl⟩ := List.isPrefixOf_iff_prefix.mp (Bool.and_eq_true_iff.mp inside).1
        have filled : more ≠ [] := by simpa using inside
        rw [List.filterMap_cons_some (b := (more, content)) (by simp [filled])]
        by_cases wanted : place = more
        · simp [wanted, filled]
        · have apart : (place == more) = false := by simpa using wanted
          have unequal : (location ++ place == location ++ more) = false := by simpa using wanted
          simpa [List.lookup_cons, apart, unequal] using ih
      · rw [List.filterMap_cons_none (by simpa using inside), ih]
        split
        · rfl
        · rename_i filled
          have unequal : (location ++ place == spot) = false := by
            refine beq_eq_false_iff_ne.mpr ?_
            rintro rfl
            simp [filled] at inside
          simp [List.lookup_cons, unequal]

theorem get?_foldr_insert (entries : List (Location × Entry)) (tree : FileTree) (location place : Location)
    (filled : location ≠ []) :
    (entries.foldr (fun (place, inner) moved => moved.insert (location ++ place) inner) tree).get?
        (location ++ place) = (entries.lookup place).or (tree.get? (location ++ place)) := by
  induction entries with
  | nil => simp
  | cons binding rest ih =>
      obtain ⟨spot, content⟩ := binding
      rw [List.foldr_cons, get?_insert _ _ _ _ (by simp [filled]), ih]
      by_cases wanted : place = spot
      · simp [wanted]
      · have unequal : (place == spot) = false := by simpa using wanted
        simp [wanted, List.lookup_cons, unequal]

theorem get?_foldr_insert_of_not_prefix (entries : List (Location × Entry)) (tree : FileTree)
    (location sought : Location) (filled : location ≠ []) (outside : ¬location <+: sought) :
    (entries.foldr (fun (place, inner) moved => moved.insert (location ++ place) inner) tree).get? sought =
      tree.get? sought := by
  induction entries with
  | nil => rfl
  | cons binding rest ih =>
      have apart : sought ≠ location ++ binding.1 := by
        rintro rfl
        exact outside (List.prefix_append _ _)
      rw [List.foldr_cons, get?_insert _ _ _ _ (by simp [filled]), if_neg apart, ih]

theorem get?_move_of_not_prefix (tree : FileTree) (origin location sought : Location) (entry : Entry)
    (filled : location ≠ []) (outside : ¬location <+: sought) :
    (tree.move origin location entry).get? sought = (tree.erase origin).get? sought := by
  have apart : sought ≠ location := by
    rintro rfl
    exact outside (List.prefix_refl _)
  rw [move, get?_foldr_insert_of_not_prefix _ _ _ _ filled outside, get?_insert _ _ _ _ filled, if_neg apart]

/-- What was below an entry is below its new location. -/
theorem get?_move (tree : FileTree) (origin location place : Location) (entry : Entry)
    (there : tree.get? origin = some entry) (target : location ≠ [])
    (bare : ∀ more, more ≠ [] → tree.get? (location ++ more) = none) :
    (tree.move origin location entry).get? (location ++ place) = tree.get? (origin ++ place) := by
  rw [move, get?_foldr_insert _ _ _ _ target, lookup_below]
  by_cases top : place = []
  · simp [top, there, get?_insert _ _ _ _ target]
  · have empty : ((tree.erase origin).insert location entry).get? (location ++ place) = none := by
      rw [get?_insert _ _ _ _ target, if_neg (by simpa using top), get?_erase _ _ _ (by simp [top]), bare place top]
      simp
    simp [empty, top, FileTree.get?.eq_def tree]

theorem move_of_below_eq_nil (tree : FileTree) (origin location : Location) (entry : Entry)
    (bare : tree.below origin = []) :
    tree.move origin location entry = (tree.erase origin).insert location entry := by
  simp [move, bare]

end FileTree

end FencePreview
