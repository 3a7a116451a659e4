import FencePreview.Storage.Basic
import FencePreview.Proofs.TextParts
import Mathlib.Data.List.Induction

/-! Where paths lead. The text of a path determines its place; the directories that exist only
decide whether the path can be followed that far. -/

namespace FencePreview

theorem Text.byteSize_append (first second : Text) :
    Text.byteSize (first ++ second) = Text.byteSize first + Text.byteSize second := by
  simp [Text.byteSize]

theorem Text.byteSize_le_of_sublist (part whole : Text) (inside : part.Sublist whole) :
    byteSize part ≤ byteSize whole := by
  have cons : ∀ character (text : Text), byteSize (character :: text) = byteSize [character] + byteSize text :=
    fun character text => byteSize_append [character] text
  induction inside with
  | slnil => exact Nat.le_refl _
  | @cons _ larger character _ ih =>
      have whole := cons character larger
      omega
  | @cons_cons smaller larger character _ ih =>
      have part := cons character smaller
      have whole := cons character larger
      omega

namespace FileTree

/-- Every entry lies in a directory. -/
def Rooted (tree : FileTree) : Prop :=
  ∀ location entry, tree.get? location = some entry → tree.isDirectory location.dropLast = true

def file? (tree : FileTree) (location : Location) : Option ByteArray :=
  match tree.get? location with
  | some (.file content _) => some content
  | _ => none

theorem isDirectory_root (tree : FileTree) : tree.isDirectory [] = true := by
  simp [isDirectory, get?]

theorem isDirectory_eq_true_iff (tree : FileTree) (location : Location) :
    tree.isDirectory location = true ↔ ∃ mode, tree.get? location = some (.directory mode) := by
  simp only [isDirectory]
  split
  · rename_i mode found
    simp [found]
  · rename_i other
    constructor
    · intro impossible
      simp at impossible
    · rintro ⟨mode, found⟩
      exact absurd found (other mode)

theorem file?_eq_some_iff (tree : FileTree) (location : Location) (content : ByteArray) :
    tree.file? location = some content ↔ ∃ mode, tree.get? location = some (.file content mode) := by
  simp only [file?]
  split
  · rename_i inner mode found
    simp [found]
  · rename_i other
    constructor
    · intro impossible
      simp at impossible
    · rintro ⟨mode, found⟩
      exact absurd found (other content mode)

theorem file?_eq_none (tree : FileTree) (directories : ∀ binding ∈ tree.entries, ∃ mode, binding.2 = .directory mode)
    (location : Location) : tree.file? location = none := by
  cases found : tree.file? location with
  | none => rfl
  | some content =>
      obtain ⟨mode, entry⟩ := (file?_eq_some_iff _ _ _).mp found
      by_cases top : location = []
      · simp [get?, top] at entry
      · simp only [get?, if_neg top] at entry
        obtain ⟨front, rest, shape, _⟩ := List.lookup_eq_some_iff.mp entry
        obtain ⟨bits, other⟩ := directories (location, .file content mode) (by simp [shape])
        cases other

theorem file?_empty (location : Location) : empty.file? location = none :=
  file?_eq_none empty (by simp [empty]) location

theorem isDirectory_eq_false_of_file? (tree : FileTree) (location : Location) (content : ByteArray)
    (found : tree.file? location = some content) : tree.isDirectory location = false := by
  obtain ⟨mode, entry⟩ := (file?_eq_some_iff _ _ _).mp found
  simp [isDirectory, entry]

theorem ne_nil_of_not_isDirectory (tree : FileTree) (location : Location)
    (other : tree.isDirectory location = false) : location ≠ [] := by
  rintro rfl
  rw [isDirectory_root] at other
  exact absurd other (by decide)

/-- No directory goes where only something else is replaced. -/
theorem isDirectory_of_others (before after : FileTree) (place : Location)
    (others : ∀ location, location ≠ place → after.get? location = before.get? location)
    (plain : before.isDirectory place = false) (location : Location)
    (there : before.isDirectory location = true) : after.isDirectory location = true := by
  have apart : location ≠ place := by
    rintro rfl
    rw [plain] at there
    exact absurd there (by decide)
  simpa only [isDirectory, others location apart] using there

theorem ne_nil_of_get?_eq_none (tree : FileTree) (location : Location) (free : tree.get? location = none) :
    location ≠ [] := by
  rintro rfl
  simp [get?] at free

namespace Rooted

theorem of_entries (tree : FileTree)
    (inside : ∀ binding ∈ tree.entries, tree.isDirectory binding.1.dropLast = true) : tree.Rooted := by
  intro location entry found
  by_cases top : location = []
  · rw [top]
    exact tree.isDirectory_root
  · simp only [get?, if_neg top] at found
    obtain ⟨front, rest, shape, _⟩ := List.lookup_eq_some_iff.mp found
    exact inside (location, entry) (by simp [shape])

theorem isDirectory_dropLast (tree : FileTree) (rooted : tree.Rooted) (location : Location)
    (directory : tree.isDirectory location = true) : tree.isDirectory location.dropLast = true := by
  obtain ⟨mode, found⟩ := (isDirectory_eq_true_iff _ _).mp directory
  exact rooted location _ found

theorem get?_below (tree : FileTree) (rooted : tree.Rooted) (location : Location)
    (other : tree.isDirectory location = false) (more : List Text) (filled : more ≠ []) :
    tree.get? (location ++ more) = none := by
  induction more using List.reverseRecOn with
  | nil => exact absurd rfl filled
  | append_singleton front last ih =>
      cases found : tree.get? (location ++ (front ++ [last])) with
      | none => rfl
      | some entry =>
          have parent := rooted _ entry found
          rw [← List.append_assoc, List.dropLast_concat] at parent
          by_cases direct : front = []
          · rw [direct, List.append_nil, other] at parent
            exact absurd parent (by decide)
          · obtain ⟨mode, inside⟩ := (isDirectory_eq_true_iff _ _).mp parent
            rw [ih direct] at inside
            exact absurd inside (by simp)

end Rooted

theorem get?_of_below_eq_nil (tree : FileTree) (location : Location) (bare : tree.below location = [])
    (more : List Text) (filled : more ≠ []) : tree.get? (location ++ more) = none := by
  have found := tree.lookup_below location more
  rw [bare, if_neg filled] at found
  simpa [get?, filled] using found.symm

theorem below_eq_nil (tree : FileTree) (location : Location)
    (bare : ∀ more, more ≠ [] → tree.get? (location ++ more) = none) : tree.below location = [] := by
  refine List.eq_nil_iff_forall_not_mem.mpr ?_
  rintro ⟨more, entry⟩ member
  have found := tree.lookup_below location more
  by_cases top : more = []
  · rw [if_pos top, List.lookup_eq_none_iff] at found
    simpa using found _ member
  · have absent := bare more top
    rw [get?, if_neg (by simp [top])] at absent
    rw [if_neg top, absent, List.lookup_eq_none_iff] at found
    simpa using found _ member

/-- Nothing stands in the way of an entry that is to be moved from `origin` to another location. -/
structure Open (tree : FileTree) (origin location : Location) (entry : Entry) : Prop where
  outside : ¬origin <+: location
  beside : ¬location <+: origin
  directory : tree.isDirectory location = true → entry.isDirectory = true ∧ tree.below location = []
  file : tree.file? location ≠ none → entry.isDirectory = false

theorem obstacle?_eq_none_iff (tree : FileTree) (origin location : Location) (entry : Entry) :
    tree.obstacle? origin location entry = none ↔ tree.Open origin location entry := by
  simp only [obstacle?, List.isPrefixOf_iff_prefix]
  constructor
  · intro free
    split at free
    · simp at free
    · rename_i outside
      split at free
      · simp at free
      · rename_i beside
        refine ⟨outside, beside, ?_, ?_⟩
        · intro inside
          obtain ⟨mode, found⟩ := (isDirectory_eq_true_iff _ _).mp inside
          cases entry <;> simp_all [Entry.isDirectory]
        · intro file
          obtain ⟨content, there⟩ := Option.ne_none_iff_exists'.mp file
          obtain ⟨mode, found⟩ := (file?_eq_some_iff _ _ _).mp there
          cases entry <;> simp_all [Entry.isDirectory]
  · rintro ⟨outside, beside, directory, file⟩
    rw [if_neg outside, if_neg beside]
    rcases found : tree.get? location with _ | ⟨_ | _⟩ <;> cases entry <;>
      simp_all [isDirectory, file?, Entry.isDirectory]

namespace Open

variable {tree : FileTree} {origin location : Location} {entry : Entry}

theorem ne_nil (free : tree.Open origin location entry) : location ≠ [] := by
  rintro rfl
  exact free.beside List.nil_prefix

theorem get?_below (free : tree.Open origin location entry) (rooted : tree.Rooted) (more : List Text)
    (filled : more ≠ []) : tree.get? (location ++ more) = none := by
  cases inside : tree.isDirectory location with
  | false => exact rooted.get?_below _ _ inside more filled
  | true => exact tree.get?_of_below_eq_nil _ (free.directory inside).2 more filled

/-- Below its new location an entry has what was below it, and the other entries stay. -/
theorem rooted_move (free : tree.Open origin location entry) (rooted : tree.Rooted)
    (there : tree.get? origin = some entry) (inside : tree.isDirectory location.dropLast = true) :
    (tree.move origin location entry).Rooted := by
  have below := fun place => tree.get?_move origin location place entry there free.ne_nil (free.get?_below rooted)
  -- Above what was not moved nothing was moved either.
  have kept : ∀ sought, ¬origin <+: sought → ¬location <+: sought → tree.isDirectory sought = true →
      (tree.move origin location entry).isDirectory sought = true := by
    intro sought outside beside directory
    by_cases top : sought = []
    · rw [top]
      exact isDirectory_root _
    · simp only [isDirectory, tree.get?_move_of_not_prefix origin location sought entry free.ne_nil beside,
        get?_erase _ _ _ top, List.isPrefixOf_iff_prefix, if_neg outside]
      exact directory
  intro sought other found
  by_cases moved : location <+: sought
  · obtain ⟨place, rfl⟩ := moved
    by_cases top : place = []
    · rw [top, List.append_nil]
      refine kept _ ?_ ?_ inside
      · exact fun above => free.outside (above.trans (List.dropLast_prefix _))
      · intro above
        have shorter := above.length_le
        have filled := List.length_pos_iff.mpr free.ne_nil
        rw [List.length_dropLast] at shorter
        omega
    · rw [below] at found
      have parent := rooted _ other found
      rw [List.dropLast_append_of_ne_nil top] at parent ⊢
      simpa only [isDirectory, below] using parent
  · by_cases top : sought = []
    · rw [top]
      exact isDirectory_root _
    rw [tree.get?_move_of_not_prefix origin location sought entry free.ne_nil moved, get?_erase _ _ _ top] at found
    split at found
    · simp at found
    · rename_i outside
      rw [List.isPrefixOf_iff_prefix] at outside
      refine kept _ ?_ ?_ (rooted sought other found)
      · exact fun above => outside (above.trans (List.dropLast_prefix _))
      · exact fun above => moved (above.trans (List.dropLast_prefix _))

end Open

end FileTree

/-- A piece of a path that stands for an entry of a directory. -/
structure IsName (name : Text) : Prop where
  whole : '/' ∉ name
  named : PathName.isIdle name = false
  down : name ≠ ['.', '.']

namespace PathName

def step (here : Location) (piece : Text) : Location :=
  if isIdle piece then here else if piece = ['.', '.'] then here.dropLast else here ++ [piece]

def descend (here : Location) (pieces : List Text) : Location := pieces.foldl step here

theorem step_name (here : Location) (name : Text) (proper : IsName name) :
    step here name = here ++ [name] := by
  simp [step, proper.named, proper.down]

/-- What stands between a directory and a name that is joined to it. -/
def gap (directory : PathName) : Text :=
  if directory.text = [] || directory.text.getLast? = some '/' then [] else ['/']

/-- The pieces of a directory, without an empty last one. -/
def stem (directory : PathName) : List Text :=
  if directory.text = [] then []
  else if directory.text.getLast? = some '/' then Text.splitAtEach '/' directory.text.dropLast
  else Text.splitAtEach '/' directory.text

theorem isAbsolute_of_whole (piece : Text) (whole : '/' ∉ piece) :
    (⟨piece⟩ : PathName).isAbsolute = false := by
  simp only [isAbsolute, decide_eq_false_iff_not]
  exact fun first => whole (List.mem_of_mem_head? first)

theorem isAbsolute_name (name : Text) (proper : IsName name) : (⟨name⟩ : PathName).isAbsolute = false :=
  isAbsolute_of_whole name proper.whole

theorem text_join_of_relative (directory path : PathName) (relative : path.isAbsolute = false) :
    (directory.join path).text = directory.text ++ (directory.gap ++ path.text) := by
  simp only [join, relative, Bool.false_eq_true, if_false, gap]
  split <;> simp

theorem isAbsolute_join_of_relative (directory path : PathName) (relative : path.isAbsolute = false) :
    (directory.join path).isAbsolute = directory.isAbsolute := by
  have start := text_join_of_relative directory path relative
  simp only [isAbsolute] at relative ⊢
  rw [start]
  cases begins : directory.text with
  | nil => simpa [gap, begins] using relative
  | cons first rest => simp

theorem pieces_join_of_relative (directory path : PathName) (relative : path.isAbsolute = false) :
    Text.splitAtEach '/' (directory.join path).text = directory.stem ++ Text.splitAtEach '/' path.text := by
  rw [text_join_of_relative directory path relative]
  simp only [gap, stem]
  by_cases bare : directory.text = []
  · simp [bare]
  · by_cases ends : directory.text.getLast? = some '/'
    · obtain ⟨front, shape⟩ := List.getLast?_eq_some_iff.mp ends
      rw [shape]
      simp [Text.splitAtEach_append]
    · simp [bare, ends, Text.splitAtEach_append]

theorem text_join (directory : PathName) (name : Text) (proper : IsName name) :
    (directory.join ⟨name⟩).text = directory.text ++ (directory.gap ++ name) :=
  text_join_of_relative directory ⟨name⟩ (isAbsolute_name name proper)

theorem isAbsolute_join (directory : PathName) (name : Text) (proper : IsName name) :
    (directory.join ⟨name⟩).isAbsolute = directory.isAbsolute :=
  isAbsolute_join_of_relative directory ⟨name⟩ (isAbsolute_name name proper)

theorem pieces_join (directory : PathName) (name : Text) (proper : IsName name) :
    Text.splitAtEach '/' (directory.join ⟨name⟩).text = directory.stem ++ [name] := by
  rw [pieces_join_of_relative directory ⟨name⟩ (isAbsolute_name name proper),
    Text.splitAtEach_eq_singleton '/' name proper.whole]

theorem stem_of_whole (piece : Text) (whole : '/' ∉ piece) (filled : piece ≠ []) :
    stem ⟨piece⟩ = [piece] := by
  have open? : piece.getLast? ≠ some '/' := fun last => whole (List.mem_of_getLast? last)
  simp only [stem, if_neg filled, if_neg open?]
  exact Text.splitAtEach_eq_singleton '/' piece whole

theorem stem_join (directory : PathName) (piece : Text) (whole : '/' ∉ piece) :
    (directory.join ⟨piece⟩).stem = directory.stem ++ if piece = [] then [] else [piece] := by
  have relative := isAbsolute_of_whole piece whole
  have text := text_join_of_relative directory ⟨piece⟩ relative
  by_cases empty : piece = []
  · subst empty
    simp only [stem, text, gap, if_true, List.append_nil]
    by_cases bare : directory.text = []
    · simp [bare]
    · by_cases ends : directory.text.getLast? = some '/'
      · simp [bare, ends]
      · simp [bare, ends]
  · have last : (directory.join ⟨piece⟩).text.getLast? = piece.getLast? := by
      obtain ⟨character, ends⟩ := Option.isSome_iff_exists.mp (List.getLast?_isSome.mpr empty)
      simp [text, List.getLast?_append, ends]
    have open? : (directory.join ⟨piece⟩).text.getLast? ≠ some '/' := by
      rw [last]
      exact fun slash => whole (List.mem_of_getLast? slash)
    have filled : (directory.join ⟨piece⟩).text ≠ [] := by simp [text, empty]
    rw [stem, if_neg filled, if_neg open?, pieces_join_of_relative directory ⟨piece⟩ relative,
      Text.splitAtEach_eq_singleton '/' piece whole, if_neg empty]

theorem descend_filter (here : Location) (pieces : List Text) :
    descend here (pieces.filter (· ≠ [])) = descend here pieces := by
  induction pieces generalizing here with
  | nil => rfl
  | cons piece rest ih =>
      by_cases empty : piece = []
      · have idle : step here piece = here := by simp [step, empty, isIdle]
        rw [List.filter_cons_of_neg (by simpa using empty), ih]
        simp [descend, idle]
      · rw [List.filter_cons_of_pos (by simpa using empty)]
        exact ih (step here piece)

theorem descend_dropWhile (here : Location) (pieces : List Text) :
    descend here (pieces.dropWhile (· = ['.'])) = descend here pieces := by
  induction pieces with
  | nil => rfl
  | cons piece rest ih =>
      by_cases dot : piece = ['.']
      · have idle : step here piece = here := by simp [step, dot, isIdle]
        rw [List.dropWhile_cons_of_pos (by simpa using dot), ih]
        simp [descend, idle]
      · rw [List.dropWhile_cons_of_neg (by simpa using dot)]

theorem descend_stem (here : Location) (directory : PathName) :
    descend here directory.stem = descend here (Text.splitAtEach '/' directory.text) := by
  simp only [stem]
  split
  · rename_i bare
    simp [bare, Text.splitAtEach, descend, step, isIdle]
  · split
    · rename_i ends
      obtain ⟨front, shape⟩ := List.getLast?_eq_some_iff.mp ends
      rw [shape, List.dropLast_concat, Text.splitAtEach_append]
      simp [Text.splitAtEach, descend, step, isIdle]
    · rfl

theorem descend_slashes (here : Location) (front tail : Text) (slashes : ∀ character ∈ tail, character = '/') :
    descend here (Text.splitAtEach '/' (front ++ tail)) = descend here (Text.splitAtEach '/' front) := by
  induction tail generalizing front with
  | nil => rw [List.append_nil]
  | cons slash rest ih =>
      obtain rfl := slashes slash (by simp)
      rw [List.append_cons, ih (front ++ ['/']) fun character member =>
        slashes character (List.mem_cons_of_mem _ member), Text.splitAtEach_append]
      simp [descend, step, isIdle, Text.splitAtEach]

theorem trimmed_parts (path : PathName) :
    ∃ tail, (∀ character ∈ tail, character = '/') ∧ path.trimmed.text ++ tail = path.text ∧
      (path.trimmed.text ≠ [] → path.trimmed.isAbsolute = path.isAbsolute) := by
  have whole := Text.trimEndWhile_append_tail (· = '/') path.text
  refine ⟨_, fun character member => ?_, whole, fun filled => ?_⟩
  · simpa using List.mem_takeWhile_imp (List.mem_reverse.mp member)
  · obtain ⟨first, rest, shape⟩ := List.exists_cons_of_ne_nil filled
    have begins : path.text.head? = some first := by
      rw [← whole]
      simp only [trimmed] at shape
      rw [shape]
      rfl
    simp only [isAbsolute, shape, begins, List.head?_cons]

theorem trimmed_eq_self (path : PathName) (open? : path.endsInSlash = false) : path.trimmed = path := by
  have same : Text.trimEndWhile (· = '/') path.text = path.text := by
    rcases path.text.eq_nil_or_concat with empty | ⟨front, last, shape⟩
    · simp [Text.trimEndWhile, empty]
    · have plain : last ≠ '/' := by simpa [endsInSlash, shape] using open?
      rw [shape, List.concat_eq_append, Text.trimEndWhile_eq_self _ front last (by simpa using plain)]
  exact congrArg PathName.mk same

theorem endsInSlash_join (directory : PathName) (name : Text) (proper : IsName name) :
    (directory.join ⟨name⟩).endsInSlash = false := by
  have filled : name ≠ [] := by
    rintro rfl
    simpa [isIdle] using proper.named
  obtain ⟨last, ends⟩ := Option.isSome_iff_exists.mp (List.getLast?_isSome.mpr filled)
  have plain : last ≠ '/' := by
    rintro rfl
    exact proper.whole (List.mem_of_getLast? ends)
  simp [endsInSlash, text_join _ _ proper, List.getLast?_append, ends, plain]

theorem endsInName_join (directory : PathName) (name : Text) (proper : IsName name) :
    (directory.join ⟨name⟩).endsInName = true := by
  rw [endsInName, trimmed_eq_self _ (endsInSlash_join directory name proper), pieces_join _ _ proper]
  simp [proper.named, proper.down]

theorem dropIdleEnd_concat (front : List Text) (name : Text) (whole : isIdle name = false) :
    dropIdleEnd (front ++ [name]) = front ++ [name] := by
  simp [dropIdleEnd, whole]

theorem dropIdleEnd_names (names : List Text) (named : ∀ name ∈ names, IsName name) : dropIdleEnd names = names := by
  cases names using List.reverseRecOn with
  | nil => rfl
  | append_singleton front last => exact dropIdleEnd_concat front last (named last (by simp)).named

theorem dropIdleEnd_isStart (pieces : List Text) : dropIdleEnd pieces <+: pieces := by
  have ends : pieces.reverse.dropWhile isIdle <:+ pieces.reverse := List.dropWhile_suffix _
  rw [← List.reverse_prefix, List.reverse_reverse] at ends
  exact ends

theorem mem_dropIdleEnd (pieces : List Text) (piece : Text) (member : piece ∈ dropIdleEnd pieces) :
    piece ∈ pieces :=
  (dropIdleEnd_isStart pieces).subset member

theorem descend_dropIdleEnd (here : Location) (pieces : List Text) :
    descend here (dropIdleEnd pieces) = descend here pieces := by
  induction pieces using List.reverseRecOn with
  | nil => rfl
  | append_singleton front last ih =>
      by_cases idle : isIdle last = true
      · have shorter : dropIdleEnd (front ++ [last]) = dropIdleEnd front := by simp [dropIdleEnd, idle]
        rw [shorter, ih]
        simp [descend, step, idle]
      · rw [dropIdleEnd_concat front last (Bool.eq_false_iff.mpr idle)]

theorem descend_joinWith (here : Location) (pieces : List Text) (whole : ∀ piece ∈ pieces, '/' ∉ piece) :
    descend here (Text.splitAtEach '/' (Text.joinWith ['/'] pieces)) = descend here pieces := by
  by_cases filled : pieces = []
  · subst filled
    rfl
  · rw [Text.splitAtEach_joinWith_pieces '/' pieces filled whole]

theorem stem_whole (directory : PathName) (piece : Text) (member : piece ∈ directory.stem) :
    '/' ∉ piece := by
  simp only [stem] at member
  split at member
  · simp at member
  · split at member <;> exact Text.not_mem_of_mem_splitAtEach '/' _ piece member

theorem splitAtEach_first_eq_nil_iff (text first : Text) (rest : List Text)
    (pieces : Text.splitAtEach '/' text = first :: rest) :
    first = [] ↔ text = [] ∨ text.head? = some '/' := by
  cases text with
  | nil =>
      simp only [Text.splitAtEach, List.cons.injEq] at pieces
      simp [← pieces.1]
  | cons character more =>
      simp only [Text.splitAtEach] at pieces
      split at pieces
      · rename_i slash
        simp [← (List.cons.inj pieces).1, slash]
      · rename_i other
        split at pieces <;> simp [← (List.cons.inj pieces).1, other]

theorem first_stem_eq_nil_iff (directory : PathName) (first : Text) (rest : List Text)
    (pieces : directory.stem = first :: rest) : first = [] ↔ directory.isAbsolute = true := by
  simp only [stem] at pieces
  simp only [isAbsolute, decide_eq_true_eq]
  split at pieces
  · simp at pieces
  · rename_i filled
    split at pieces
    · rename_i ends
      rw [splitAtEach_first_eq_nil_iff _ _ _ pieces]
      obtain ⟨front, shape⟩ := List.getLast?_eq_some_iff.mp ends
      rw [shape, List.dropLast_concat]
      cases front with
      | nil => simp
      | cons character more => simp
    · rw [splitAtEach_first_eq_nil_iff _ _ _ pieces]
      simp [filled]

theorem descend_write (start : Option Component) (pieces : List Text) (whole : ∀ piece ∈ pieces, '/' ∉ piece)
    (here : Location) :
    descend here (Text.splitAtEach '/' (write start pieces).text) = descend here pieces := by
  have body := descend_joinWith here pieces whole
  simp only [write]
  split
  · simpa [Text.splitAtEach, descend, step, isIdle] using body
  · split
    · rename_i bare
      rw [List.isEmpty_iff.mp bare]
      rfl
    · have parts := Text.splitAtEach_append '/' ['.'] (Text.joinWith ['/'] pieces)
      simp only [List.cons_append, List.nil_append] at parts
      rw [parts]
      exact body
  · exact body

theorem isAbsolute_write_none (pieces : List Text) (whole : ∀ piece ∈ pieces, '/' ∉ piece)
    (first : pieces.head? ≠ some []) : (write none pieces).isAbsolute = false := by
  simp only [write, isAbsolute]
  cases pieces with
  | nil => simp [Text.joinWith]
  | cons piece rest =>
      refine decide_eq_false fun slash => ?_
      have begins : (Text.joinWith ['/'] (piece :: rest)).head? = piece.head? := by
        cases piece with
        | nil => simp at first
        | cons character more => cases rest <;> simp [Text.joinWith]
      rw [begins] at slash
      exact whole piece List.mem_cons_self (List.mem_of_mem_head? slash)

/-- How a path with some text is written. -/
theorem anchor_cases (path : PathName) (filled : path.text ≠ []) :
    (∃ rest, path.isAbsolute = true ∧ Text.splitAtEach '/' path.text = [] :: rest ∧
        path.anchor = (some .root, rest)) ∨
      (∃ rest, path.isAbsolute = false ∧ Text.splitAtEach '/' path.text = ['.'] :: rest ∧
        path.anchor = (some .current, rest)) ∨
      ∃ first rest, path.isAbsolute = false ∧ Text.splitAtEach '/' path.text = first :: rest ∧
        isIdle first = false ∧ path.anchor = (none, first :: rest) := by
  cases pieces : Text.splitAtEach '/' path.text with
  | nil => exact absurd pieces (Text.splitAtEach_ne_nil '/' _)
  | cons first rest =>
      have empty : first = [] ↔ path.isAbsolute = true := by
        rw [splitAtEach_first_eq_nil_iff _ _ _ pieces]
        simp [filled, isAbsolute]
      by_cases absolute : path.isAbsolute = true
      · obtain rfl := empty.mpr absolute
        exact .inl ⟨rest, absolute, rfl, by simp only [anchor, pieces, absolute, if_true]⟩
      · have relative := Bool.eq_false_iff.mpr absolute
        have unempty : first ≠ [] := fun bare => absolute (empty.mp bare)
        by_cases dot : first = ['.']
        · subst dot
          exact .inr (.inl ⟨rest, relative, rfl, by simp [anchor, pieces, relative]⟩)
        · refine .inr (.inr ⟨first, rest, relative, rfl, by simp [isIdle, unempty, dot], ?_⟩)
          simp [anchor, pieces, relative, dot]

theorem anchor_whole (path : PathName) (piece : Text) (member : piece ∈ path.anchor.2) : '/' ∉ piece := by
  refine Text.not_mem_of_mem_splitAtEach '/' path.text piece ?_
  simp only [anchor] at member
  split at member
  · simp at member
  · rename_i first rest pieces
    rw [pieces]
    split at member
    · exact List.mem_cons_of_mem _ member
    · split at member
      · exact List.mem_cons_of_mem _ member
      · exact member

/-- A parent is written from some of the first pieces. -/
theorem write_of_parent? (path parent : PathName) (cut : path.parent? = some parent) :
    parent.text = [] ∨
      ∃ kept more, more ≠ [] ∧ path.anchor.2 = kept ++ more ∧ parent = write path.anchor.1 kept := by
  simp only [parent?] at cut
  split at cut
  · split at cut
    · rw [← Option.some.inj cut]
      exact .inl rfl
    · simp at cut
  · rename_i filled
    obtain ⟨front, last, shape⟩ := (List.eq_nil_or_concat (dropIdleEnd path.anchor.2)).resolve_left filled
    rw [List.concat_eq_append] at shape
    obtain ⟨after, whole⟩ := dropIdleEnd_isStart path.anchor.2
    obtain ⟨idle, inner⟩ := dropIdleEnd_isStart front
    rw [shape, List.dropLast_concat] at cut
    refine .inr ⟨dropIdleEnd front, idle ++ last :: after, by simp, ?_, (Option.some.inj cut).symm⟩
    rw [← whole, shape]
    nth_rewrite 1 [← inner]
    simp

theorem write_isStart (path : PathName) (filled : path.text ≠ []) (kept more : List Text) (left : more ≠ [])
    (parts : path.anchor.2 = kept ++ more) : (write path.anchor.1 kept).text <+: path.text := by
  have written := Text.joinWith_splitAtEach '/' path.text
  have some? : kept ++ more ≠ [] := by simp [left]
  have begun := Text.joinWith_isStart ['/'] kept more
  rcases path.anchor_cases filled with
    ⟨rest, _, pieces, anchor⟩ | ⟨rest, _, pieces, anchor⟩ | ⟨first, rest, _, pieces, _, anchor⟩
  · rw [anchor] at parts ⊢
    obtain rfl := parts
    rw [← written, pieces, Text.joinWith_cons _ _ _ some?]
    exact (List.prefix_cons_inj '/').mpr begun
  · rw [anchor] at parts ⊢
    obtain rfl := parts
    rw [← written, pieces, Text.joinWith_cons _ _ _ some?, write]
    split
    · exact ⟨'/' :: Text.joinWith ['/'] (kept ++ more), rfl⟩
    · exact (List.prefix_append_right_inj ['.', '/']).mpr begun
  · rw [anchor] at parts ⊢
    have shape : first :: rest = kept ++ more := parts
    rw [← written, pieces, shape]
    exact begun

theorem parent?_eq (path : PathName) (start : Option Component) (front : List Text) (name : Text)
    (anchored : path.anchor = (start, front ++ [name])) (named : isIdle name = false) :
    path.parent? = some (write start (dropIdleEnd front)) := by
  simp only [parent?, anchored, dropIdleEnd_concat front name named]
  split
  · rename_i bare
    simp at bare
  · rw [List.dropLast_concat]

/-- Two spellings of a path that lead to one place from everywhere. -/
structure Alike (first second : PathName) : Prop where
  start : first.isAbsolute = second.isAbsolute
  leads : ∀ here, descend here (Text.splitAtEach '/' first.text) =
    descend here (Text.splitAtEach '/' second.text)

/-- The start is written back, and what stands between it and the name leads to the same place. -/
theorem parent?_join_of_anchor (directory : PathName) (name : Text) (proper : IsName name)
    (start : Option Component) (front : List Text)
    (anchored : (directory.join ⟨name⟩).anchor = (start, front ++ [name]))
    (clean : ∀ piece ∈ front, '/' ∉ piece)
    (absolute : (write start (dropIdleEnd front)).isAbsolute = directory.isAbsolute)
    (leads : ∀ here, descend here front = descend here directory.stem) :
    ∃ parent, (directory.join ⟨name⟩).parent? = some parent ∧ parent.Alike directory := by
  refine ⟨_, parent?_eq _ start front name anchored proper.named, absolute, fun here => ?_⟩
  rw [descend_write _ _ fun piece member => clean piece (mem_dropIdleEnd _ _ member), descend_dropIdleEnd,
    leads, descend_stem]

theorem parent?_join (directory : PathName) (name : Text) (proper : IsName name) :
    ∃ parent, (directory.join ⟨name⟩).parent? = some parent ∧ parent.Alike directory := by
  have clean := directory.stem_whole
  have named := proper.named
  simp only [isIdle, Bool.or_eq_false_iff, decide_eq_false_iff_not] at named
  have cut := directory.parent?_join_of_anchor name proper
  have absolute := isAbsolute_join directory name proper
  -- The parent begins with the root, with a dot or with neither, as the directory does.
  cases shape : directory.stem with
  | nil =>
      have bare : directory.text = [] := by
        by_contra filled
        simp only [stem, if_neg filled] at shape
        split at shape <;> exact Text.splitAtEach_ne_nil '/' _ shape
      have relative : directory.isAbsolute = false := by simp [isAbsolute, bare]
      refine cut none [] ?_ (by simp) relative.symm (fun here => by rw [shape])
      simp only [anchor, pieces_join directory name proper, shape, List.nil_append, absolute, relative,
        Bool.false_eq_true, if_false, if_neg named.2]
  | cons first rest =>
      have start := directory.first_stem_eq_nil_iff first rest shape
      rw [shape] at clean
      have later := fun piece member => clean piece (List.mem_cons_of_mem first member)
      have anchored : (directory.join ⟨name⟩).anchor =
          if directory.isAbsolute then (some .root, rest ++ [name])
          else if first = ['.'] then (some .current, rest ++ [name])
          else (none, first :: (rest ++ [name])) := by
        simp only [anchor, pieces_join directory name proper, shape, List.cons_append, absolute]
      by_cases isRoot : directory.isAbsolute = true
      · obtain rfl := start.mpr isRoot
        rw [if_pos isRoot] at anchored
        exact cut _ rest anchored later isRoot.symm fun here => by
          simp [shape, descend, step, isIdle]
      · rw [if_neg isRoot] at anchored
        have relative := Bool.eq_false_iff.mpr isRoot
        by_cases current : first = ['.']
        · subst current
          rw [if_pos rfl] at anchored
          refine cut _ rest anchored later ?_ fun here => by simp [shape, descend, step, isIdle]
          rw [relative]
          simp only [write]
          split <;> rfl
        · rw [if_neg current] at anchored
          refine cut none (first :: rest) anchored clean ?_ fun here => by rw [shape]
          rw [relative]
          refine isAbsolute_write_none _ (fun piece member => clean piece (mem_dropIdleEnd _ _ member)) ?_
          intro head
          obtain ⟨more, inside⟩ := List.head?_eq_some_iff.mp head
          obtain ⟨tail, whole⟩ := dropIdleEnd_isStart (first :: rest)
          rw [inside, List.cons_append] at whole
          exact isRoot (start.mp (List.cons.inj whole).1.symm)

theorem descend_names (here : Location) (names : List Text) (named : ∀ name ∈ names, IsName name) :
    descend here names = here ++ names := by
  induction names generalizing here with
  | nil => simp [descend]
  | cons name rest ih =>
      have later := ih (here ++ [name]) fun other member => named other (List.mem_cons_of_mem _ member)
      simp only [descend, List.foldl_cons, step_name here name (named name List.mem_cons_self)] at later ⊢
      rw [later, List.append_assoc, List.singleton_append]

end PathName

namespace Storage

theorem enter_eq_ok_iff (tree : FileTree) (location : Location) (done : Unit) :
    enter tree location = .ok done ↔ tree.isDirectory location = true := by
  simp only [enter, FileTree.isDirectory]
  split <;> simp_all

theorem follow_cons_eq_ok_iff (tree : FileTree) (here : Location) (piece : Text) (rest : List Text)
    (location : Location) :
    follow tree here (piece :: rest) = .ok location ↔
      tree.isDirectory here = true ∧ Text.byteSize piece ≤ nameLimit ∧
        follow tree (PathName.step here piece) rest = .ok location := by
  rw [follow]
  cases entered : enter tree here with
  | error error =>
      have other : ¬tree.isDirectory here = true := by
        intro directory
        rw [(enter_eq_ok_iff tree here ()).mpr directory] at entered
        exact absurd entered (by simp)
      simp [other]
  | ok done =>
      have directory := (enter_eq_ok_iff tree here done).mp entered
      simp only [directory, true_and, PathName.step]
      by_cases idle : PathName.isIdle piece = true
      · have short : Text.byteSize piece ≤ nameLimit := by
          simp only [PathName.isIdle, Bool.or_eq_true, decide_eq_true_eq] at idle
          rcases idle with rfl | rfl <;> decide
        simp [idle, short]
      · by_cases up : piece = ['.', '.']
        · have short : Text.byteSize ['.', '.'] ≤ nameLimit := by decide
          simp [up, PathName.isIdle, short]
        · by_cases long : nameLimit < Text.byteSize piece
          · have excess : ¬Text.byteSize piece ≤ nameLimit := by omega
            simp [idle, up, long, excess]
          · have fits : Text.byteSize piece ≤ nameLimit := by omega
            simp [idle, up, long, fits]

theorem follow_eq_ok (tree : FileTree) (here : Location) (pieces : List Text) (location : Location)
    (found : follow tree here pieces = .ok location) : location = PathName.descend here pieces := by
  induction pieces generalizing here with
  | nil =>
      simp only [follow, Except.ok.injEq] at found
      exact found.symm
  | cons piece rest ih =>
      obtain ⟨_, _, later⟩ := (follow_cons_eq_ok_iff _ _ _ _ _).mp found
      exact ih (PathName.step here piece) later

theorem follow_mono (first second : FileTree)
    (directories : ∀ location, first.isDirectory location = true → second.isDirectory location = true)
    (here : Location) (pieces : List Text) (location : Location)
    (found : follow first here pieces = .ok location) : follow second here pieces = .ok location := by
  induction pieces generalizing here with
  | nil => exact found
  | cons piece rest ih =>
      obtain ⟨directory, fits, later⟩ := (follow_cons_eq_ok_iff _ _ _ _ _).mp found
      exact (follow_cons_eq_ok_iff _ _ _ _ _).mpr
        ⟨directories here directory, fits, ih (PathName.step here piece) later⟩

theorem follow_append_eq_ok_iff (tree : FileTree) (here : Location) (front back : List Text)
    (location : Location) :
    follow tree here (front ++ back) = .ok location ↔
      ∃ between, follow tree here front = .ok between ∧ follow tree between back = .ok location := by
  induction front generalizing here with
  | nil => simp [follow]
  | cons piece rest ih =>
      rw [List.cons_append, follow_cons_eq_ok_iff, ih]
      simp only [follow_cons_eq_ok_iff]
      constructor
      · rintro ⟨directory, fits, between, reached, last⟩
        exact ⟨between, ⟨directory, fits, reached⟩, last⟩
      · rintro ⟨between, ⟨directory, fits, reached⟩, last⟩
        exact ⟨directory, fits, between, reached, last⟩

theorem follow_concat_eq_ok_iff (tree : FileTree) (here : Location) (front : List Text) (name : Text)
    (proper : IsName name) (location : Location) :
    follow tree here (front ++ [name]) = .ok location ↔
      ∃ above, follow tree here front = .ok above ∧ tree.isDirectory above = true ∧
        Text.byteSize name ≤ nameLimit ∧ location = above ++ [name] := by
  rw [follow_append_eq_ok_iff]
  refine exists_congr fun above => and_congr_right fun _ => ?_
  rw [follow_cons_eq_ok_iff, PathName.step_name above name proper]
  simp only [follow, Except.ok.injEq, eq_comm]

theorem follow_stem (tree : FileTree) (here : Location) (directory : PathName) (location : Location)
    (found : follow tree here (Text.splitAtEach '/' directory.text) = .ok location)
    (filled : directory.text ≠ []) : follow tree here directory.stem = .ok location := by
  simp only [PathName.stem, if_neg filled]
  split
  · rename_i ends
    obtain ⟨front, shape⟩ := List.getLast?_eq_some_iff.mp ends
    rw [shape, Text.splitAtEach_append] at found
    obtain ⟨between, reached, last⟩ := (follow_append_eq_ok_iff _ _ _ _ _).mp found
    have idle := ((follow_cons_eq_ok_iff _ _ _ _ _).mp last).2.2
    simp only [PathName.step, PathName.isIdle, follow, Except.ok.injEq] at idle
    rw [shape, List.dropLast_concat, reached]
    simpa using idle
  · exact found

theorem follow_of_stem (tree : FileTree) (here : Location) (directory : PathName) (location : Location)
    (filled : directory.text ≠ []) (inside : tree.isDirectory location = true)
    (found : follow tree here directory.stem = .ok location) :
    follow tree here (Text.splitAtEach '/' directory.text) = .ok location := by
  simp only [PathName.stem, if_neg filled] at found
  split at found
  · rename_i ends
    obtain ⟨front, shape⟩ := List.getLast?_eq_some_iff.mp ends
    rw [shape, List.dropLast_concat] at found
    rw [shape, Text.splitAtEach_append]
    refine (follow_append_eq_ok_iff _ _ _ _ _).mpr ⟨location, found, ?_⟩
    exact (follow_cons_eq_ok_iff _ _ _ _ _).mpr ⟨inside, by decide, rfl⟩
  · exact found

/-- What a path leads to lies in a directory, whether or not there is something. -/
theorem isDirectory_of_follow (tree : FileTree) (here top : Location) (pieces : List Text)
    (followed : follow tree here pieces = .ok top) (inside : tree.isDirectory top = true) :
    tree.isDirectory here = true := by
  cases pieces with
  | nil =>
      simp only [follow, Except.ok.injEq] at followed
      exact followed ▸ inside
  | cons piece rest => exact ((follow_cons_eq_ok_iff _ _ _ _ _).mp followed).1

/-- The first pieces of a path lead to a directory, where the next one is looked up. -/
theorem follow_kept (tree : FileTree) (path : PathName) (filled : path.text ≠ []) (kept more : List Text)
    (left : more ≠ []) (parts : path.anchor.2 = kept ++ more) (here location : Location)
    (followed : follow tree here (Text.splitAtEach '/' path.text) = .ok location) :
    ∃ between, follow tree here kept = .ok between ∧ tree.isDirectory between = true := by
  have later : follow tree here (kept ++ more) = .ok location := by
    rcases path.anchor_cases filled with
      ⟨rest, _, pieces, anchor⟩ | ⟨rest, _, pieces, anchor⟩ | ⟨first, rest, _, pieces, _, anchor⟩
    · rw [anchor] at parts
      rw [pieces] at followed
      exact parts ▸ ((follow_cons_eq_ok_iff _ _ _ _ _).mp followed).2.2
    · rw [anchor] at parts
      rw [pieces] at followed
      exact parts ▸ ((follow_cons_eq_ok_iff _ _ _ _ _).mp followed).2.2
    · rw [anchor] at parts
      rw [pieces] at followed
      exact parts ▸ followed
  obtain ⟨between, reached, rest⟩ := (follow_append_eq_ok_iff _ _ _ _ _).mp later
  obtain ⟨piece, others, rfl⟩ := List.exists_cons_of_ne_nil left
  exact ⟨between, reached, ((follow_cons_eq_ok_iff _ _ _ _ _).mp rest).1⟩

theorem follow_write (tree : FileTree) (here between : Location) (start : Option Component) (kept : List Text)
    (whole : ∀ piece ∈ kept, '/' ∉ piece) (followed : follow tree here kept = .ok between)
    (inside : tree.isDirectory between = true) :
    follow tree here (Text.splitAtEach '/' (PathName.write start kept).text) = .ok between := by
  have there := isDirectory_of_follow tree here between kept followed inside
  have body : follow tree here (Text.splitAtEach '/' (Text.joinWith ['/'] kept)) = .ok between := by
    by_cases bare : kept = []
    · subst bare
      exact (follow_cons_eq_ok_iff _ _ _ _ _).mpr ⟨there, by decide, followed⟩
    · rwa [Text.splitAtEach_joinWith_pieces '/' kept bare whole]
  simp only [PathName.write]
  split
  · exact (follow_cons_eq_ok_iff _ _ _ _ _).mpr ⟨there, by decide, body⟩
  · split
    · rename_i bare
      rw [List.isEmpty_iff.mp bare] at followed
      exact (follow_cons_eq_ok_iff _ _ _ _ _).mpr ⟨there, by decide, followed⟩
    · exact (follow_cons_eq_ok_iff _ _ _ _ _).mpr ⟨there, by decide, body⟩
  · exact body

theorem isDirectory_dropLast_of_follow (tree : FileTree) (rooted : tree.Rooted) (here : Location)
    (pieces : List Text) (filled : pieces ≠ []) (location : Location)
    (found : follow tree here pieces = .ok location) : tree.isDirectory location.dropLast = true := by
  induction pieces generalizing here with
  | nil => exact absurd rfl filled
  | cons piece rest ih =>
      obtain ⟨directory, _, later⟩ := (follow_cons_eq_ok_iff _ _ _ _ _).mp found
      have above := rooted.isDirectory_dropLast tree here directory
      by_cases last : rest = []
      · subst last
        simp only [follow, Except.ok.injEq, PathName.step] at later
        subst later
        split
        · exact above
        · split
          · exact rooted.isDirectory_dropLast tree _ above
          · rw [List.dropLast_concat]
            exact directory
      · exact ih (PathName.step here piece) last later

def place (storage : Storage) (path : PathName) : Location :=
  PathName.descend (if path.isAbsolute then [] else storage.workingDirectory)
    (Text.splitAtEach '/' path.text)

theorem resolve_eq_ok_iff (storage : Storage) (path : PathName) (location : Location) :
    storage.resolve path = .ok location ↔
      path.text ≠ [] ∧ Char.ofNat 0 ∉ path.text ∧ Text.byteSize path.text < pathLimit ∧
        follow storage.tree (if path.isAbsolute then [] else storage.workingDirectory)
          (Text.splitAtEach '/' path.text) = .ok location := by
  simp only [resolve]
  by_cases bare : path.text = []
  · simp [bare]
  · by_cases null : Char.ofNat 0 ∈ path.text
    · simp [bare, null]
    · by_cases long : pathLimit ≤ Text.byteSize path.text
      · have excess : ¬Text.byteSize path.text < pathLimit := by omega
        simp [bare, null, long, excess]
      · have fits : Text.byteSize path.text < pathLimit := by omega
        simp [bare, null, long, fits]

theorem resolve_eq_ok (storage : Storage) (path : PathName) (location : Location)
    (found : storage.resolve path = .ok location) : location = storage.place path :=
  follow_eq_ok _ _ _ _ ((resolve_eq_ok_iff _ _ _).mp found).2.2.2

theorem place_trimmed (storage : Storage) (path : PathName) (filled : path.trimmed.text ≠ []) :
    storage.place path.trimmed = storage.place path := by
  obtain ⟨tail, slashes, whole, same⟩ := path.trimmed_parts
  have pieces := PathName.descend_slashes (if path.isAbsolute then [] else storage.workingDirectory)
    path.trimmed.text tail slashes
  rw [whole] at pieces
  simp only [place, same filled, pieces]

theorem spot_eq_ok (storage : Storage) (path : PathName) (location : Location)
    (found : storage.spot path = .ok location) :
    location = storage.place path ∧ storage.resolve path.trimmed = .ok location := by
  simp only [spot] at found
  split at found
  · have filled := ((resolve_eq_ok_iff _ _ _).mp found).1
    exact ⟨(resolve_eq_ok _ _ _ found).trans (storage.place_trimmed path filled), found⟩
  · split at found <;> simp at found

theorem spot_join (storage : Storage) (directory : PathName) (name : Text) (proper : IsName name) :
    storage.spot (directory.join ⟨name⟩) = storage.resolve (directory.join ⟨name⟩) := by
  rw [spot, if_pos (directory.endsInName_join name proper),
    PathName.trimmed_eq_self _ (directory.endsInSlash_join name proper)]

theorem resolve_mono (first second : Storage)
    (same : second.workingDirectory = first.workingDirectory)
    (directories : ∀ location, first.tree.isDirectory location = true →
      second.tree.isDirectory location = true)
    (path : PathName) (location : Location) (found : first.resolve path = .ok location) :
    second.resolve path = .ok location := by
  obtain ⟨filled, clean, fits, followed⟩ := (resolve_eq_ok_iff _ _ _).mp found
  refine (resolve_eq_ok_iff _ _ _).mpr ⟨filled, clean, fits, ?_⟩
  rw [same]
  exact follow_mono _ _ directories _ _ _ followed

theorem isDirectory_dropLast_of_resolve (storage : Storage) (rooted : storage.tree.Rooted)
    (path : PathName) (location : Location) (found : storage.resolve path = .ok location) :
    storage.tree.isDirectory location.dropLast = true :=
  isDirectory_dropLast_of_follow _ rooted _ _ (Text.splitAtEach_ne_nil '/' _) _
    ((resolve_eq_ok_iff _ _ _).mp found).2.2.2

theorem isDirectory_eq_true_iff (storage : Storage) (path : PathName) :
    storage.isDirectory path = true ↔
      ∃ location, storage.resolve path = .ok location ∧ storage.tree.isDirectory location = true := by
  simp only [isDirectory, entry?, FileTree.isDirectory]
  cases storage.resolve path with
  | error error => simp
  | ok location =>
      rcases there : storage.tree.get? location with _ | ⟨_ | _⟩ <;> simp [there]

/-- What leads to a place leads through the directory that is its parent. -/
theorem isDirectory_of_parent? (storage : Storage) (path parent : PathName) (location : Location)
    (cut : path.parent? = some parent) (leads : storage.resolve path = .ok location) :
    parent.text = [] ∨ storage.isDirectory parent = true := by
  obtain ⟨filled, clean, short, followed⟩ := (resolve_eq_ok_iff _ _ _).mp leads
  rcases path.write_of_parent? parent cut with bare | ⟨kept, more, left, parts, rfl⟩
  · exact .inl bare
  refine or_iff_not_imp_left.mpr fun unempty => ?_
  have begun := path.write_isStart filled kept more left parts
  obtain ⟨between, reached, inside⟩ := follow_kept storage.tree path filled kept more left parts _ _ followed
  have whole : ∀ piece ∈ kept, '/' ∉ piece := by
    intro piece member
    exact path.anchor_whole piece (parts ▸ List.mem_append_left _ member)
  have same : (PathName.write path.anchor.1 kept).isAbsolute = path.isAbsolute := by
    obtain ⟨rest, shape⟩ := begun
    obtain ⟨first, tail, text⟩ := List.exists_cons_of_ne_nil unempty
    simp only [PathName.isAbsolute, ← shape, text, List.cons_append, List.head?_cons]
  refine (isDirectory_eq_true_iff _ _).mpr ⟨between, (resolve_eq_ok_iff _ _ _).mpr ⟨unempty, ?_, ?_, ?_⟩, inside⟩
  · exact fun member => clean (begun.subset member)
  · exact (Text.byteSize_le_of_sublist _ _ begun.sublist).trans_lt short
  · rw [same]
    exact follow_write storage.tree _ between _ kept whole reached inside

theorem place_congr (first second : Storage)
    (same : second.workingDirectory = first.workingDirectory) (path : PathName) :
    second.place path = first.place path := by
  simp only [place, same]

theorem place_join (storage : Storage) (directory : PathName) (name : Text) (proper : IsName name) :
    storage.place (directory.join ⟨name⟩) = storage.place directory ++ [name] := by
  simp only [place, PathName.isAbsolute_join directory name proper,
    PathName.pieces_join directory name proper, ← PathName.descend_stem _ directory]
  rw [PathName.descend, List.foldl_append]
  exact PathName.step_name _ name proper

theorem place_parent_join (storage : Storage) (directory : PathName) (name : Text) (proper : IsName name) :
    storage.place ((directory.join ⟨name⟩).parent?.getD ⟨['.']⟩) = storage.place directory := by
  obtain ⟨parent, cut, alike⟩ := directory.parent?_join name proper
  simp only [cut, Option.getD_some, place, alike.start, alike.leads]

theorem place_absolute (storage : Storage) (named : ∀ name ∈ storage.workingDirectory, IsName name)
    (path : PathName) : storage.place (storage.absolute path) = storage.place path := by
  cases relative : path.isAbsolute with
  | true => simp only [absolute, PathName.join, relative, if_true]
  | false =>
      have whole : ∀ name ∈ storage.workingDirectory, '/' ∉ name :=
        fun name member => (named name member).whole
      have top := (PathName.descend_write (some .root) storage.workingDirectory whole []).trans
        (PathName.descend_names [] _ named)
      have start : (pathOf storage.workingDirectory).isAbsolute = true := rfl
      simp only [place, absolute, PathName.isAbsolute_join_of_relative _ _ relative,
        PathName.pieces_join_of_relative _ _ relative, start, relative, if_true, Bool.false_eq_true, if_false,
        PathName.descend, List.foldl_append]
      congr 1
      exact (PathName.descend_stem [] _).trans top

/-- Of two names of one size in a directory either both can be followed or none. -/
theorem resolve_join_of_resolve_join (storage : Storage) (directory : PathName) (first second : Text)
    (firstProper : IsName first) (secondProper : IsName second) (clean : Char.ofNat 0 ∉ second)
    (size : Text.byteSize second = Text.byteSize first) (location : Location)
    (found : storage.resolve (directory.join ⟨first⟩) = .ok location) :
    ∃ other, storage.resolve (directory.join ⟨second⟩) = .ok other := by
  obtain ⟨_, firstClean, short, followed⟩ := (resolve_eq_ok_iff _ _ _).mp found
  rw [PathName.isAbsolute_join _ _ firstProper, PathName.pieces_join _ _ firstProper,
    follow_concat_eq_ok_iff _ _ _ _ firstProper] at followed
  obtain ⟨above, reached, directoryThere, fits, _⟩ := followed
  rw [PathName.text_join _ _ firstProper] at firstClean short
  refine ⟨above ++ [second], (resolve_eq_ok_iff _ _ _).mpr ⟨?_, ?_, ?_, ?_⟩⟩
  · rw [PathName.text_join _ _ secondProper]
    intro bare
    have named := secondProper.named
    rw [(List.append_eq_nil_iff.mp (List.append_eq_nil_iff.mp bare).2).2] at named
    exact absurd named (by decide)
  · rw [PathName.text_join _ _ secondProper]
    simp only [List.mem_append, not_or] at firstClean ⊢
    exact ⟨firstClean.1, firstClean.2.1, clean⟩
  · rw [PathName.text_join _ _ secondProper]
    simp only [Text.byteSize_append] at short ⊢
    omega
  · rw [PathName.isAbsolute_join _ _ secondProper, PathName.pieces_join _ _ secondProper,
      follow_concat_eq_ok_iff _ _ _ _ secondProper]
    exact ⟨above, reached, directoryThere, by omega, rfl⟩

/-- In a directory that is there a name can be followed, unless it or the path is too long. -/
theorem resolve_join (storage : Storage) (directory : PathName) (name : Text) (proper : IsName name)
    (clean : Char.ofNat 0 ∉ name) (short : Text.byteSize name ≤ nameLimit)
    (fits : Text.byteSize (directory.join ⟨name⟩).text < pathLimit) (there : storage.isDirectory directory = true) :
    ∃ spot, storage.resolve (directory.join ⟨name⟩) = .ok spot := by
  obtain ⟨above, leads, inside⟩ := (isDirectory_eq_true_iff _ _).mp there
  obtain ⟨bare, clear, _, reached⟩ := (resolve_eq_ok_iff _ _ _).mp leads
  refine ⟨above ++ [name], (resolve_eq_ok_iff _ _ _).mpr ⟨?_, ?_, fits, ?_⟩⟩
  · rw [PathName.text_join _ _ proper]
    simp [bare]
  · rw [PathName.text_join _ _ proper]
    simp only [List.mem_append, not_or, PathName.gap]
    exact ⟨clear, by split <;> simp, clean⟩
  · rw [PathName.isAbsolute_join _ _ proper, PathName.pieces_join _ _ proper,
      follow_concat_eq_ok_iff _ _ _ _ proper]
    exact ⟨above, follow_stem _ _ _ _ reached bare, inside, short, rfl⟩

/-- In a directory that is there a name can be followed that could be followed at some time. -/
theorem resolve_join_of_isDirectory (now other : Storage) (directory : PathName) (name : Text)
    (proper : IsName name) (there : now.isDirectory directory = true) (location : Location)
    (found : other.resolve (directory.join ⟨name⟩) = .ok location) :
    ∃ spot, now.resolve (directory.join ⟨name⟩) = .ok spot := by
  obtain ⟨_, clean, fits, followed⟩ := (resolve_eq_ok_iff _ _ _).mp found
  rw [PathName.isAbsolute_join _ _ proper, PathName.pieces_join _ _ proper,
    follow_concat_eq_ok_iff _ _ _ _ proper] at followed
  obtain ⟨_, _, _, short, _⟩ := followed
  rw [PathName.text_join _ _ proper] at clean
  simp only [List.mem_append, not_or] at clean
  exact resolve_join now directory name proper clean.2.2 short fits there

/-- A name can only be followed in a directory that is there. -/
theorem isDirectory_of_resolve_join (storage : Storage) (directory : PathName) (piece : Text)
    (whole : '/' ∉ piece) (filled : directory.text ≠ []) (location : Location)
    (found : storage.resolve (directory.join ⟨piece⟩) = .ok location) :
    storage.isDirectory directory = true := by
  have relative := PathName.isAbsolute_of_whole piece whole
  obtain ⟨_, clean, short, followed⟩ := (resolve_eq_ok_iff _ _ _).mp found
  rw [PathName.isAbsolute_join_of_relative _ _ relative, PathName.pieces_join_of_relative _ _ relative,
    Text.splitAtEach_eq_singleton '/' piece whole] at followed
  obtain ⟨above, reached, last⟩ := (follow_append_eq_ok_iff _ _ _ _ _).mp followed
  have inside := ((follow_cons_eq_ok_iff _ _ _ _ _).mp last).1
  rw [PathName.text_join_of_relative _ _ relative] at clean short
  simp only [List.mem_append, not_or, Text.byteSize_append] at clean short
  refine (isDirectory_eq_true_iff _ _).mpr ⟨above, (resolve_eq_ok_iff _ _ _).mpr ⟨filled, clean.1, ?_, ?_⟩,
    inside⟩
  · omega
  · exact follow_of_stem _ _ _ _ filled inside reached

end Storage

end FencePreview
