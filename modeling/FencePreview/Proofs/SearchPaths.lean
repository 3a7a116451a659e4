import FencePreview.Document.Sources
import FencePreview.Proofs.Places

/-! How the search for documents comes to a directory, and how the paths that it finds are written: the
pieces of the directory without leading single dots and empty pieces, then the names below it. -/

namespace FencePreview

namespace Sources

/-- The pieces that the paths found below a directory begin with. -/
def front (directory : PathName) : List Text :=
  match directory.anchor with
  | (some .root, pieces) => [] :: pieces.filter (· ≠ [])
  | (_, pieces) => (pieces.dropWhile (· = ['.'])).filter (· ≠ [])

/-- The path under which what lies at `below`, seen from a directory, is found. -/
def spelled (directory : PathName) (below : Location) : PathName :=
  ⟨Text.joinWith ['/'] (front directory ++ below)⟩

/-- Spellings that the search can follow: no leading dot stands right before an empty piece. -/
def Listable (directory : PathName) : Prop :=
  directory.anchor.1 = some .current →
    (directory.anchor.2.dropWhile (· = ['.'])).head? ≠ some []

/-- A leading dot that the paths found do not have. -/
def losesStart (directory : PathName) : Bool :=
  directory.anchor.1 = some .current && directory.anchor.2.any (· ≠ ['.'])

theorem descend_front (here : Location) (directory : PathName) (filled : directory.text ≠ []) :
    PathName.descend here (front directory) =
      PathName.descend here (Text.splitAtEach '/' directory.text) := by
  rcases PathName.anchor_cases directory filled with
    ⟨rest, _, pieces, anchor⟩ | ⟨rest, _, pieces, anchor⟩ | ⟨first, rest, _, pieces, _, anchor⟩
  · rw [pieces]
    simp only [front, anchor]
    exact PathName.descend_filter here rest
  · rw [pieces]
    simp only [front, anchor]
    rw [PathName.descend_filter, PathName.descend_dropWhile]
    rfl
  · simp only [front, anchor]
    rw [PathName.descend_filter, PathName.descend_dropWhile, pieces]

theorem head?_front_eq_nil_iff (directory : PathName) (filled : directory.text ≠ []) :
    (front directory).head? = some [] ↔ directory.isAbsolute = true := by
  have unempty : ∀ pieces : List Text, (pieces.filter (· ≠ [])).head? ≠ some [] := by
    intro pieces first
    simpa using (List.mem_filter.mp (List.mem_of_mem_head? first)).2
  rcases directory.anchor_cases filled with
    ⟨rest, absolute, _, anchor⟩ | ⟨rest, relative, _, anchor⟩ | ⟨first, rest, relative, _, _, anchor⟩
  · simp [front, anchor, absolute]
  · simp only [front, anchor, relative, Bool.false_eq_true, iff_false]
    exact unempty _
  · simp only [front, anchor, relative, Bool.false_eq_true, iff_false]
    exact unempty _

theorem front_whole (directory : PathName) (piece : Text) (member : piece ∈ front directory) :
    '/' ∉ piece := by
  simp only [front] at member
  split at member
  · rename_i pieces anchor
    rcases List.mem_cons.mp member with rfl | later
    · simp
    · exact directory.anchor_whole piece (by rw [anchor]; exact (List.mem_filter.mp later).1)
  · rename_i start pieces anchor
    refine directory.anchor_whole piece ?_
    rw [anchor]
    exact (List.dropWhile_sublist _).subset (List.mem_filter.mp member).1

variable (directory : PathName) (below : Location) (filled : below ≠ [])
  (named : ∀ name ∈ below, IsName name)

include filled named

theorem pieces_spelled :
    Text.splitAtEach '/' (spelled directory below).text = front directory ++ below := by
  refine Text.splitAtEach_joinWith_pieces '/' _ (by simp [filled]) ?_
  intro piece member
  rcases List.mem_append.mp member with inFront | inBelow
  · exact front_whole directory piece inFront
  · exact (named piece inBelow).whole

theorem isAbsolute_spelled (written : directory.text ≠ []) :
    (spelled directory below).isAbsolute = directory.isAbsolute := by
  have pieces := pieces_spelled directory below filled named
  obtain ⟨name, later, rfl⟩ := List.exists_cons_of_ne_nil filled
  have first := (named name List.mem_cons_self).named
  have text : (spelled directory (name :: later)).text ≠ [] := by
    intro bare
    rw [bare] at pieces
    cases begins : front directory with
    | nil =>
        rw [begins] at pieces
        simp [← (List.cons.inj pieces).1, PathName.isIdle] at first
    | cons head tail =>
        rw [begins] at pieces
        simp [Text.splitAtEach] at pieces
  have reads : ∀ head rest, front directory ++ name :: later = head :: rest →
      (head = [] ↔ (spelled directory (name :: later)).isAbsolute = true) := by
    intro head rest parts
    rw [PathName.splitAtEach_first_eq_nil_iff _ _ _ (pieces.trans parts)]
    simp [text, PathName.isAbsolute]
  rw [Bool.eq_iff_iff, ← head?_front_eq_nil_iff directory written]
  cases begins : front directory with
  | nil =>
      rw [← reads name later (by rw [begins]; rfl)]
      simp only [List.head?_nil, reduceCtorEq, iff_false]
      rintro rfl
      exact absurd first (by decide)
  | cons head tail =>
      rw [← reads head _ (by rw [begins]; rfl)]
      simp

theorem place_spelled (storage : Storage) (written : directory.text ≠ []) :
    storage.place (spelled directory below) = storage.place directory ++ below := by
  simp only [Storage.place, isAbsolute_spelled directory below filled named written,
    pieces_spelled directory below filled named, ← descend_front _ directory written]
  rw [PathName.descend, List.foldl_append]
  exact PathName.descend_names _ below named

omit filled named

/-- A path that is neither empty nor the current directory. -/
structure Proper (scope : PathName) : Prop where
  filled : scope.text ≠ []
  other : scope ≠ currentDirectory

/-- The search has come to `scope`, and the paths found begin with `front`. -/
def Leads (scope : PathName) (front : List Text) : Prop :=
  scope = currentDirectory ∧ front = [] ∨ Proper scope ∧ scope.stem = front

theorem Proper.join (scope : PathName) (proper : Proper scope) (piece : Text) (whole : '/' ∉ piece) :
    step scope piece = scope.join ⟨piece⟩ ∧ Proper (scope.join ⟨piece⟩) := by
  have text := PathName.text_join_of_relative scope ⟨piece⟩ (PathName.isAbsolute_of_whole piece whole)
  refine ⟨by simp only [step, if_neg proper.other], ⟨by simp [text, proper.filled], ?_⟩⟩
  intro same
  rw [same] at text
  obtain ⟨first, rest, shape⟩ := List.exists_cons_of_ne_nil proper.filled
  rw [shape, List.cons_append] at text
  obtain ⟨rfl, nothing⟩ := List.cons.inj text
  have bare := List.append_eq_nil_iff.mp nothing.symm
  have alike : scope.text = ['.'] := by rw [shape, bare.1]
  exact proper.other (congrArg PathName.mk alike)

theorem Leads.step (scope : PathName) (front : List Text) (leads : Leads scope front) (name : Text)
    (proper : IsName name) :
    Leads (step scope name) (front ++ [name]) ∧
      Text.splitAtEach '/' (Sources.step scope name).text = front ++ [name] := by
  have named := proper.named
  simp only [PathName.isIdle, Bool.or_eq_false_iff, decide_eq_false_iff_not] at named
  rcases leads with ⟨rfl, rfl⟩ | ⟨inside, rfl⟩
  · have first : Sources.step currentDirectory name = ⟨name⟩ := if_pos rfl
    rw [first]
    refine ⟨.inr ⟨⟨named.1, ?_⟩, PathName.stem_of_whole name proper.whole named.1⟩,
      Text.splitAtEach_eq_singleton '/' name proper.whole⟩
    exact fun same => named.2 (congrArg PathName.text same)
  · obtain ⟨joined, still⟩ := inside.join scope name proper.whole
    rw [joined]
    refine ⟨.inr ⟨still, ?_⟩, PathName.pieces_join scope name proper⟩
    rw [PathName.stem_join scope name proper.whole, if_neg named.1]

theorem Leads.foldl (scope : PathName) (front : List Text) (leads : Leads scope front) (names : List Text)
    (named : ∀ name ∈ names, IsName name) : Leads (names.foldl Sources.step scope) (front ++ names) := by
  induction names generalizing scope front with
  | nil => simpa using leads
  | cons name rest ih =>
      have next := (leads.step scope front name (named name List.mem_cons_self)).1
      have later := ih _ _ next fun other member => named other (List.mem_cons_of_mem _ member)
      rwa [List.append_assoc] at later

theorem foldl_step_eq (scope : PathName) (leads : Leads scope (front directory)) (below : Location)
    (filled : below ≠ []) (named : ∀ name ∈ below, IsName name) :
    below.foldl step scope = spelled directory below := by
  obtain ⟨above, name, rfl⟩ := (List.eq_nil_or_concat below).resolve_left filled
  simp only [List.concat_eq_append] at named ⊢
  have start := leads.foldl scope _ above fun other member => named other (List.mem_append_left _ member)
  have pieces := (start.step _ _ name (named name (by simp))).2
  rw [List.foldl_append, spelled, ← List.append_assoc, ← pieces, List.foldl_cons, List.foldl_nil]
  exact congrArg PathName.mk (Text.joinWith_splitAtEach '/' _).symm

variable (storage : Storage)

theorem reach?_cons_eq_some_iff (scope found : PathName) (piece : Text) (rest : List Text) :
    reach? storage scope (piece :: rest) = some found ↔
      (if piece = ['.'] || piece = ['.', '.'] then storage.isDirectory scope
        else storage.exists? (step scope piece)) = true ∧
      reach? storage (step scope piece) rest = some found := by
  simp only [reach?]
  split <;> simp_all

theorem Proper.reach? (scope found : PathName) (proper : Proper scope) (pieces : List Text)
    (whole : ∀ piece ∈ pieces, '/' ∉ piece) (reached : reach? storage scope pieces = some found) :
    Proper found ∧ found.stem = scope.stem ++ pieces.filter (· ≠ []) := by
  induction pieces generalizing scope with
  | nil =>
      obtain rfl := Option.some.inj reached
      exact ⟨proper, by simp⟩
  | cons piece rest ih =>
      obtain ⟨_, later⟩ := (reach?_cons_eq_some_iff storage _ _ _ _).mp reached
      obtain ⟨joined, next⟩ := proper.join scope piece (whole piece List.mem_cons_self)
      rw [joined] at later
      obtain ⟨still, stem⟩ := ih _ next (fun other member => whole other (List.mem_cons_of_mem _ member)) later
      refine ⟨still, ?_⟩
      rw [stem, PathName.stem_join scope piece (whole piece List.mem_cons_self), List.append_assoc]
      by_cases empty : piece = [] <;> simp [empty]

theorem leads_of_reach?_current (found : PathName) (pieces : List Text)
    (whole : ∀ piece ∈ pieces, '/' ∉ piece) (reached : reach? storage currentDirectory pieces = some found) :
    Leads found ((pieces.dropWhile (· = ['.'])).filter (· ≠ [])) ∧
      (pieces.dropWhile (· = ['.'])).head? ≠ some [] := by
  induction pieces with
  | nil => exact ⟨.inl ⟨(Option.some.inj reached).symm, rfl⟩, by simp⟩
  | cons piece rest ih =>
      obtain ⟨there, later⟩ := (reach?_cons_eq_some_iff storage _ _ _ _).mp reached
      have inRest := fun other member => whole other (List.mem_cons_of_mem piece member)
      have first : step currentDirectory piece = ⟨piece⟩ := if_pos rfl
      rw [first] at there later
      by_cases dot : piece = ['.']
      · subst dot
        rw [List.dropWhile_cons_of_pos (by simp)]
        exact ih inRest later
      · have filled : piece ≠ [] := by
          rintro rfl
          simp [Storage.exists?, Storage.entry?, Storage.resolve] at there
        obtain ⟨proper, stem⟩ := Proper.reach? storage ⟨piece⟩ found
          ⟨filled, fun same => dot (congrArg PathName.text same)⟩ rest inRest later
        rw [List.dropWhile_cons_of_neg (by simpa using dot), List.filter_cons_of_pos (by simpa using filled)]
        refine ⟨.inr ⟨proper, ?_⟩, by simpa using filled⟩
        rw [stem, PathName.stem_of_whole piece (whole piece List.mem_cons_self) filled]
        rfl

/-- The search follows only what it is said to be able to follow. -/
theorem leads_of_reach? (found : PathName) (filled : directory.text ≠ [])
    (reached : reach? storage (start directory).1 (start directory).2 = some found) :
    Leads found (front directory) ∧ Listable directory := by
  have whole := Text.not_mem_of_mem_splitAtEach '/' directory.text
  simp only [Listable]
  rcases PathName.anchor_cases directory filled with
    ⟨rest, absolute, pieces, anchor⟩ | ⟨rest, relative, pieces, anchor⟩ | ⟨first, rest, relative, pieces, _, anchor⟩
  · rw [pieces] at whole
    simp only [start, absolute, pieces, Bool.true_or, if_true, List.tail_cons] at reached
    obtain ⟨proper, stem⟩ := Proper.reach? storage ⟨['/']⟩ found ⟨by simp, by decide⟩ rest
      (fun piece member => whole piece (List.mem_cons_of_mem _ member)) reached
    refine ⟨.inr ⟨proper, ?_⟩, by simp [anchor]⟩
    rw [stem]
    simp only [front, anchor]
    rfl
  · rw [pieces] at whole
    simp only [start, relative, filled, pieces, decide_false, Bool.or_false, Bool.false_eq_true,
      if_false] at reached
    obtain ⟨leads, clear⟩ := leads_of_reach?_current storage found _ whole reached
    rw [List.dropWhile_cons_of_pos (by simp)] at leads clear
    rw [anchor]
    exact ⟨by simpa only [front, anchor] using leads, fun _ => clear⟩
  · rw [pieces] at whole
    simp only [start, relative, filled, pieces, decide_false, Bool.or_false, Bool.false_eq_true,
      if_false] at reached
    obtain ⟨leads, _⟩ := leads_of_reach?_current storage found _ whole reached
    exact ⟨by simpa only [front, anchor] using leads, by simp [anchor]⟩

/-- The search comes to the place of the directory. -/
theorem place_of_leads (scope : PathName) (filled : directory.text ≠ []) (leads : Leads scope (front directory)) :
    storage.place scope = storage.place directory := by
  have absolute := head?_front_eq_nil_iff directory filled
  simp only [Storage.place, ← descend_front _ directory filled]
  rcases leads with ⟨rfl, bare⟩ | ⟨proper, stem⟩
  · have relative : directory.isAbsolute = false := by simpa [bare] using absolute
    rw [bare, relative]
    rfl
  · obtain ⟨first, rest, shape⟩ : ∃ first rest, front directory = first :: rest := by
      rw [← stem]
      refine List.exists_cons_of_ne_nil ?_
      simp only [PathName.stem, if_neg proper.filled]
      split
      · exact Text.splitAtEach_ne_nil '/' _
      · exact Text.splitAtEach_ne_nil '/' _
    have same : scope.isAbsolute = directory.isAbsolute := by
      rw [Bool.eq_iff_iff, ← absolute, ← scope.first_stem_eq_nil_iff first rest (stem.trans shape), shape]
      simp
    rw [← PathName.descend_stem, stem, same]

def ahead (scope : PathName) (pieces : List Text) : Text :=
  scope.text ++ if pieces = [] then [] else scope.gap ++ Text.joinWith ['/'] pieces

theorem ahead_join (scope : PathName) (piece : Text) (whole : '/' ∉ piece) (rest : List Text) :
    (ahead (scope.join ⟨piece⟩) rest).Sublist (ahead scope (piece :: rest)) := by
  have text := PathName.text_join_of_relative scope ⟨piece⟩ (PathName.isAbsolute_of_whole piece whole)
  have between : (scope.join ⟨piece⟩).gap.Sublist ['/'] := by
    simp only [PathName.gap]
    split <;> simp
  cases rest with
  | nil => simp [ahead, text, Text.joinWith]
  | cons second rest =>
      simp only [ahead, text, reduceCtorEq, if_false, Text.joinWith, List.append_assoc]
      refine (List.Sublist.refl _).append ((List.Sublist.refl _).append ((List.Sublist.refl _).append ?_))
      exact between.append (List.Sublist.refl _)

theorem text_join_sublist (scope : PathName) (piece : Text) (whole : '/' ∉ piece) (rest : List Text) :
    (scope.join ⟨piece⟩).text.Sublist (ahead scope (piece :: rest)) :=
  (List.sublist_append_left _ _).trans (ahead_join scope piece whole rest)

variable (tree : FileTree)

theorem exists?_of_isDirectory (path : PathName) (there : storage.isDirectory path = true) :
    storage.exists? path = true := by
  obtain ⟨location, leads, inside⟩ := (Storage.isDirectory_eq_true_iff _ _).mp there
  obtain ⟨mode, found⟩ := (FileTree.isDirectory_eq_true_iff _ _).mp inside
  simp [Storage.exists?, Storage.entry?, leads, found]

/-- A directory that can be followed as a whole is reached piece by piece. -/
theorem Proper.reach?_of_follow (scope : PathName) (proper : Proper scope) (here top : Location)
    (pieces : List Text) (whole : ∀ piece ∈ pieces, '/' ∉ piece) (leads : storage.resolve scope = .ok here)
    (followed : Storage.follow storage.tree here pieces = .ok top)
    (inside : storage.tree.isDirectory top = true) (clean : Char.ofNat 0 ∉ ahead scope pieces)
    (short : Text.byteSize (ahead scope pieces) < Storage.pathLimit) :
    ∃ found, Sources.reach? storage scope pieces = some found ∧ storage.resolve found = .ok top := by
  induction pieces generalizing scope here with
  | nil =>
      simp only [Storage.follow, Except.ok.injEq] at followed
      exact ⟨scope, rfl, followed ▸ leads⟩
  | cons piece rest ih =>
      obtain ⟨directory, fits, later⟩ := (Storage.follow_cons_eq_ok_iff _ _ _ _ _).mp followed
      have unslashed := whole piece List.mem_cons_self
      have relative := PathName.isAbsolute_of_whole piece unslashed
      obtain ⟨joined, next⟩ := proper.join scope piece unslashed
      have nextInside := Storage.isDirectory_of_follow storage.tree _ _ _ later inside
      have part := text_join_sublist scope piece unslashed rest
      have reached := ((Storage.resolve_eq_ok_iff _ _ _).mp leads).2.2.2
      have nextLeads : storage.resolve (scope.join ⟨piece⟩) = .ok (PathName.step here piece) := by
        refine (Storage.resolve_eq_ok_iff _ _ _).mpr ⟨next.filled, fun member => clean (part.subset member),
          (Text.byteSize_le_of_sublist _ _ part).trans_lt short, ?_⟩
        rw [PathName.isAbsolute_join_of_relative _ _ relative, PathName.pieces_join_of_relative _ _ relative,
          Text.splitAtEach_eq_singleton '/' piece unslashed, Storage.follow_append_eq_ok_iff]
        exact ⟨here, Storage.follow_stem _ _ _ _ reached proper.filled,
          (Storage.follow_cons_eq_ok_iff _ _ _ _ _).mpr ⟨directory, fits, rfl⟩⟩
      have rests := ahead_join scope piece unslashed rest
      obtain ⟨found, ends, last⟩ := ih (scope.join ⟨piece⟩) next _
        (fun other member => whole other (List.mem_cons_of_mem _ member)) nextLeads later
        (fun member => clean (rests.subset member)) ((Text.byteSize_le_of_sublist _ _ rests).trans_lt short)
      refine ⟨found, (reach?_cons_eq_some_iff storage _ _ _ _).mpr ⟨?_, by rwa [joined]⟩, last⟩
      split
      · exact (Storage.isDirectory_eq_true_iff _ _).mpr ⟨here, leads, directory⟩
      · rw [joined]
        exact exists?_of_isDirectory storage _
          ((Storage.isDirectory_eq_true_iff _ _).mpr ⟨_, nextLeads, nextInside⟩)

theorem resolve_currentDirectory (there : storage.tree.isDirectory storage.workingDirectory = true) :
    storage.resolve currentDirectory = .ok storage.workingDirectory := by
  refine (Storage.resolve_eq_ok_iff _ _ _).mpr ⟨by decide, by decide, by decide, ?_⟩
  exact (Storage.follow_cons_eq_ok_iff _ _ _ _ _).mpr ⟨there, by decide, rfl⟩

/-- A first piece other than a dot stands for the path itself. -/
theorem reach?_current_of_name (top : Location) (piece : Text) (rest : List Text)
    (whole : ∀ other ∈ piece :: rest, '/' ∉ other) (filled : piece ≠ []) (named : piece ≠ ['.'])
    (followed : Storage.follow storage.tree storage.workingDirectory (piece :: rest) = .ok top)
    (inside : storage.tree.isDirectory top = true) (clean : Char.ofNat 0 ∉ Text.joinWith ['/'] (piece :: rest))
    (short : Text.byteSize (Text.joinWith ['/'] (piece :: rest)) < Storage.pathLimit) :
    ∃ found, reach? storage currentDirectory (piece :: rest) = some found ∧
      storage.resolve found = .ok top := by
  obtain ⟨directory, fits, later⟩ := (Storage.follow_cons_eq_ok_iff _ _ _ _ _).mp followed
  have first : step currentDirectory piece = ⟨piece⟩ := if_pos rfl
  have unslashed := whole piece List.mem_cons_self
  have proper : Proper ⟨piece⟩ := ⟨filled, fun same => named (congrArg PathName.text same)⟩
  have last : piece.getLast? ≠ some '/' := fun ends => unslashed (List.mem_of_getLast? ends)
  have same : ahead ⟨piece⟩ rest = Text.joinWith ['/'] (piece :: rest) := by
    cases rest with
    | nil => simp [ahead, Text.joinWith]
    | cons second rest => simp [ahead, Text.joinWith, PathName.gap, filled, last]
  rw [← same] at clean short
  have part : piece.Sublist (ahead ⟨piece⟩ rest) := List.sublist_append_left _ _
  have leads : storage.resolve ⟨piece⟩ = .ok (PathName.step storage.workingDirectory piece) := by
    refine (Storage.resolve_eq_ok_iff _ _ _).mpr ⟨filled, fun member => clean (part.subset member),
      (Text.byteSize_le_of_sublist _ _ part).trans_lt short, ?_⟩
    simp only [PathName.isAbsolute_of_whole piece unslashed, Bool.false_eq_true, if_false,
      Text.splitAtEach_eq_singleton '/' piece unslashed]
    exact (Storage.follow_cons_eq_ok_iff _ _ _ _ _).mpr ⟨directory, fits, rfl⟩
  obtain ⟨found, reached, ends⟩ := proper.reach?_of_follow storage ⟨piece⟩ _ top rest
    (fun other member => whole other (List.mem_cons_of_mem piece member)) leads later inside clean short
  refine ⟨found, (reach?_cons_eq_some_iff storage _ _ _ _).mpr ⟨?_, by rw [first]; exact reached⟩, ends⟩
  split
  · exact (Storage.isDirectory_eq_true_iff _ _).mpr ⟨_, resolve_currentDirectory storage directory, directory⟩
  · rw [first]
    exact exists?_of_isDirectory storage _ ((Storage.isDirectory_eq_true_iff _ _).mpr
      ⟨_, leads, Storage.isDirectory_of_follow storage.tree _ _ _ later inside⟩)

theorem reach?_current_of_follow (top : Location) (pieces : List Text)
    (whole : ∀ piece ∈ pieces, '/' ∉ piece) (filled : pieces ≠ [])
    (listable : (pieces.dropWhile (· = ['.'])).head? ≠ some [])
    (followed : Storage.follow storage.tree storage.workingDirectory pieces = .ok top)
    (inside : storage.tree.isDirectory top = true) (clean : Char.ofNat 0 ∉ Text.joinWith ['/'] pieces)
    (short : Text.byteSize (Text.joinWith ['/'] pieces) < Storage.pathLimit) :
    ∃ found, reach? storage currentDirectory pieces = some found ∧ storage.resolve found = .ok top := by
  induction pieces with
  | nil => exact absurd rfl filled
  | cons piece rest ih =>
      obtain ⟨directory, fits, later⟩ := (Storage.follow_cons_eq_ok_iff _ _ _ _ _).mp followed
      have start := resolve_currentDirectory storage directory
      have inRest := fun other member => whole other (List.mem_cons_of_mem piece member)
      by_cases dot : piece = ['.']
      · subst dot
        have found : ∃ found, reach? storage currentDirectory rest = some found ∧
            storage.resolve found = .ok top := by
          by_cases last : rest = []
          · subst last
            simp only [Storage.follow, Except.ok.injEq] at later
            exact ⟨currentDirectory, rfl, later ▸ start⟩
          · obtain ⟨second, more, rfl⟩ := List.exists_cons_of_ne_nil last
            have tail : (Text.joinWith ['/'] (second :: more)).Sublist
                (Text.joinWith ['/'] (['.'] :: second :: more)) := List.sublist_append_right _ _
            rw [List.dropWhile_cons_of_pos (by simp)] at listable
            exact ih inRest last listable later (fun member => clean (tail.subset member))
              ((Text.byteSize_le_of_sublist _ _ tail).trans_lt short)
        obtain ⟨found, reached, leads⟩ := found
        refine ⟨found, (reach?_cons_eq_some_iff storage _ _ _ _).mpr ⟨?_, reached⟩, leads⟩
        rw [if_pos (by simp)]
        exact (Storage.isDirectory_eq_true_iff _ _).mpr ⟨_, start, directory⟩
      · rw [List.dropWhile_cons_of_neg (by simpa using dot)] at listable
        exact reach?_current_of_name storage top piece rest whole (fun empty => listable (by rw [empty]; rfl)) dot
          followed inside clean short

theorem reach?_of_isDirectory (listable : Listable directory)
    (there : storage.isDirectory directory = true) :
    ∃ found, reach? storage (start directory).1 (start directory).2 = some found ∧
      storage.resolve found = .ok (storage.place directory) := by
  obtain ⟨top, leads, inside⟩ := (Storage.isDirectory_eq_true_iff _ _).mp there
  obtain ⟨filled, clean, short, followed⟩ := (Storage.resolve_eq_ok_iff _ _ _).mp leads
  obtain rfl := Storage.resolve_eq_ok _ _ _ leads
  have whole := Text.not_mem_of_mem_splitAtEach '/' directory.text
  have written := Text.joinWith_splitAtEach '/' directory.text
  have current : directory.isAbsolute = false →
      ((Text.splitAtEach '/' directory.text).dropWhile (· = ['.'])).head? ≠ some [] →
      ∃ found, reach? storage (start directory).1 (start directory).2 = some found ∧
        storage.resolve found = .ok (storage.place directory) := by
    intro relative clear
    simp only [start, relative, filled, decide_false, Bool.or_false, Bool.false_eq_true, if_false] at followed ⊢
    refine reach?_current_of_follow storage _ _ whole (Text.splitAtEach_ne_nil '/' _) clear followed inside ?_ ?_
    · rwa [written]
    · rwa [written]
  -- From the root, from the current directory with a leading dot, and from there without one.
  rcases PathName.anchor_cases directory filled with
    ⟨rest, absolute, pieces, anchor⟩ | ⟨rest, relative, pieces, anchor⟩ |
      ⟨first, rest, relative, pieces, named, anchor⟩
  · rw [pieces] at whole written
    rw [pieces, if_pos absolute] at followed
    simp only [start, absolute, pieces, Bool.true_or, if_true, List.tail_cons]
    obtain ⟨_, _, later⟩ := (Storage.follow_cons_eq_ok_iff _ _ _ _ _).mp followed
    have root : storage.resolve ⟨['/']⟩ = .ok [] := by
      refine (Storage.resolve_eq_ok_iff _ _ _).mpr ⟨by decide, by decide, by decide, ?_⟩
      refine (Storage.follow_cons_eq_ok_iff _ _ _ _ _).mpr ⟨storage.tree.isDirectory_root, by decide, ?_⟩
      exact (Storage.follow_cons_eq_ok_iff _ _ _ _ _).mpr ⟨storage.tree.isDirectory_root, by decide, rfl⟩
    have part : (ahead ⟨['/']⟩ rest).Sublist directory.text := by
      rw [← written]
      cases rest with
      | nil => exact absurd written.symm filled
      | cons second rest => exact List.Sublist.refl _
    exact Proper.reach?_of_follow storage ⟨['/']⟩ ⟨by simp, by decide⟩ [] _ rest
      (fun piece member => whole piece (List.mem_cons_of_mem _ member)) root later inside
      (fun member => clean (part.subset member)) ((Text.byteSize_le_of_sublist _ _ part).trans_lt short)
  · have clear := listable (by rw [anchor])
    rw [anchor] at clear
    refine current relative ?_
    rwa [pieces, List.dropWhile_cons_of_pos (by simp)]
  · simp only [PathName.isIdle, Bool.or_eq_false_iff, decide_eq_false_iff_not] at named
    refine current relative ?_
    rw [pieces, List.dropWhile_cons_of_neg (by simpa using named.2)]
    simpa using named.1

/-- Where directories stay, the search comes to the same path. -/
theorem reach?_mono (first second : Storage) (same : second.workingDirectory = first.workingDirectory)
    (directories : ∀ location, first.tree.isDirectory location = true →
      second.tree.isDirectory location = true)
    (scope found : PathName) (filled : scope.text ≠ []) (pieces : List Text)
    (whole : ∀ piece ∈ pieces, '/' ∉ piece) (reached : reach? first scope pieces = some found)
    (there : first.isDirectory found = true) :
    first.isDirectory scope = true ∧ reach? second scope pieces = some found := by
  have mono : ∀ path, first.isDirectory path = true → second.isDirectory path = true := by
    intro path isThere
    obtain ⟨location, leads, inside⟩ := (Storage.isDirectory_eq_true_iff _ _).mp isThere
    exact (Storage.isDirectory_eq_true_iff _ _).mpr
      ⟨location, Storage.resolve_mono _ _ same directories _ _ leads, directories _ inside⟩
  induction pieces generalizing scope with
  | nil => exact ⟨Option.some.inj reached ▸ there, reached⟩
  | cons piece rest ih =>
      obtain ⟨exist, later⟩ := (reach?_cons_eq_some_iff first _ _ _ _).mp reached
      have unslashed := whole piece List.mem_cons_self
      have relative := PathName.isAbsolute_of_whole piece unslashed
      have nextFilled : (step scope piece).text ≠ [] := by
        by_cases current : scope = currentDirectory
        · simp only [step, if_pos current]
          rintro rfl
          simp [step, current, Storage.exists?, Storage.entry?, Storage.resolve] at exist
        · simp [step, current, PathName.text_join_of_relative _ _ relative, filled]
      obtain ⟨inside, continued⟩ := ih (step scope piece) nextFilled
        (fun other member => whole other (List.mem_cons_of_mem _ member)) later
      have above : first.isDirectory scope = true := by
        obtain ⟨location, leads, _⟩ := (Storage.isDirectory_eq_true_iff _ _).mp inside
        by_cases current : scope = currentDirectory
        · subst current
          simp only [step, if_pos] at leads
          obtain ⟨_, _, _, followed⟩ := (Storage.resolve_eq_ok_iff _ _ _).mp leads
          simp only [relative, Bool.false_eq_true, if_false,
            Text.splitAtEach_eq_singleton '/' piece unslashed] at followed
          have start := ((Storage.follow_cons_eq_ok_iff _ _ _ _ _).mp followed).1
          exact (Storage.isDirectory_eq_true_iff _ _).mpr ⟨_, resolve_currentDirectory first start, start⟩
        · simp only [step, if_neg current] at leads
          exact first.isDirectory_of_resolve_join scope piece unslashed filled location leads
      refine ⟨above, (reach?_cons_eq_some_iff second _ _ _ _).mpr ⟨?_, continued⟩⟩
      split
      · exact mono scope above
      · exact exists?_of_isDirectory second _ (mono _ inside)

end Sources

end FencePreview
