import FencePreview.Proofs.MarkdownPaths
import FencePreview.Proofs.SearchPaths

/-! Which documents are listed: each Markdown file below a directory, once. -/

namespace FencePreview

def FileTree.Single (tree : FileTree) : Prop := (tree.entries.map Prod.fst).Nodup

def FileTree.Named (tree : FileTree) : Prop :=
  ∀ location, tree.get? location ≠ none → ∀ name ∈ location, IsName name

theorem FileTree.Named.of_entries (tree : FileTree)
    (proper : ∀ binding ∈ tree.entries, ∀ name ∈ binding.1, IsName name) : tree.Named := by
  intro location there name member
  by_cases top : location = []
  · simp [top] at member
  · rw [get?, if_neg top, ne_eq, List.lookup_eq_none_iff] at there
    push Not at there
    obtain ⟨binding, inside, same⟩ := there
    have spot : location = binding.1 := by simpa using same
    exact proper binding inside name (spot ▸ member)

theorem FileTree.lookup_of_mem (tree : FileTree) (single : tree.Single) (location : Location) (entry : Entry)
    (member : (location, entry) ∈ tree.entries) : tree.entries.lookup location = some entry := by
  obtain ⟨front, back, shape⟩ := List.append_of_mem member
  refine List.lookup_eq_some_iff.mpr ⟨front, back, shape, ?_⟩
  intro binding inside
  rw [FileTree.Single, shape, List.map_append, List.nodup_append] at single
  have apart := single.2.2 binding.1 (List.mem_map_of_mem inside) location (by simp)
  simpa using apart.symm

theorem FileTree.mem_below_iff (tree : FileTree) (single : tree.Single) (top below : Location) (entry : Entry) :
    (below, entry) ∈ tree.below top ↔ below ≠ [] ∧ tree.get? (top ++ below) = some entry := by
  simp only [FileTree.below, List.mem_filterMap, Prod.exists]
  constructor
  · rintro ⟨place, other, member, chosen⟩
    split at chosen
    · rename_i inside
      simp only [Bool.and_eq_true, decide_eq_true_eq, List.isPrefixOf_iff_prefix] at inside
      obtain ⟨⟨rest, rfl⟩, apart⟩ := inside
      simp only [List.drop_left, Option.some.injEq, Prod.mk.injEq] at chosen
      obtain ⟨rfl, rfl⟩ := chosen
      have filled : rest ≠ [] := fun empty => apart (by simp [empty])
      refine ⟨filled, ?_⟩
      rw [get?, if_neg (by simp [filled])]
      exact tree.lookup_of_mem single _ _ member
    · simp at chosen
  · rintro ⟨filled, found⟩
    rw [get?, if_neg (by simp [filled])] at found
    obtain ⟨front, back, shape, _⟩ := List.lookup_eq_some_iff.mp found
    refine ⟨top ++ below, entry, by simp [shape], ?_⟩
    simp [filled, List.isPrefixOf_iff_prefix]

theorem FileTree.nodup_below (tree : FileTree) (single : tree.Single) (top : Location) :
    ((tree.below top).map Prod.fst).Nodup := by
  rw [List.Nodup, List.pairwise_map, FileTree.below, List.pairwise_filterMap]
  rw [FileTree.Single, List.Nodup, List.pairwise_map] at single
  refine single.imp ?_
  rintro ⟨first, firstEntry⟩ ⟨second, secondEntry⟩ apart ⟨_, _⟩ firstFound ⟨_, _⟩ secondFound same
  simp only [Option.ite_none_right_eq_some, Bool.and_eq_true, decide_eq_true_eq,
    List.isPrefixOf_iff_prefix, Option.some.injEq, Prod.mk.injEq] at firstFound secondFound
  obtain ⟨⟨⟨_, rfl⟩, _⟩, here, _⟩ := firstFound
  obtain ⟨⟨⟨_, rfl⟩, _⟩, there, _⟩ := secondFound
  simp only [List.drop_left] at here there
  exact apart (congrArg (top ++ ·) (here.trans (same.trans there.symm)))

namespace Sources

/-- The Markdown files below a place, by their locations seen from there. -/
def below (tree : FileTree) (top : Location) : List Location :=
  (tree.below top).filterMap fun (location, entry) =>
    match entry, location.getLast? with
    | .file _ _, some name => if (Text.stripEnd? suffix name).isSome then some location else none
    | _, _ => none

theorem file_of_mem_below (tree : FileTree) (top location : Location) (member : location ∈ below tree top) :
    IsMarkdown location ∧ ∃ content mode, (location, .file content mode) ∈ tree.below top := by
  obtain ⟨⟨other, entry⟩, inside, chosen⟩ := List.mem_filterMap.mp member
  simp only at chosen
  split at chosen
  · rename_i content mode name last
    obtain ⟨above, rfl⟩ := List.getLast?_eq_some_iff.mp last
    split at chosen
    · rename_i named
      obtain rfl := Option.some.inj chosen
      obtain ⟨stem, stripped⟩ := Option.isSome_iff_exists.mp named
      have ending : suffix <:+ name := ⟨stem, ((Text.stripEnd?_eq_some_iff _ _ _).mp stripped).symm⟩
      exact ⟨⟨above, name, rfl, ending⟩, content, mode, inside⟩
    · simp at chosen
  · simp at chosen

theorem mem_below_iff (tree : FileTree) (single : tree.Single) (top location : Location) :
    location ∈ below tree top ↔ IsMarkdown location ∧ tree.file? (top ++ location) ≠ none := by
  constructor
  · intro member
    obtain ⟨markdown, content, mode, inside⟩ := file_of_mem_below tree top location member
    have found := ((tree.mem_below_iff single _ _ _).mp inside).2
    exact ⟨markdown, by simp [FileTree.file?, found]⟩
  · rintro ⟨⟨above, name, rfl, stem, rfl⟩, file⟩
    obtain ⟨content, there⟩ := Option.ne_none_iff_exists'.mp file
    obtain ⟨mode, found⟩ := (FileTree.file?_eq_some_iff _ _ _).mp there
    have stripped : Text.stripEnd? suffix (stem ++ suffix) = some stem :=
      (Text.stripEnd?_eq_some_iff _ _ _).mpr rfl
    refine List.mem_filterMap.mpr ⟨_, (tree.mem_below_iff single _ _ _).mpr ⟨by simp, found⟩, ?_⟩
    simp [stripped]

theorem nodup_below (tree : FileTree) (single : tree.Single) (top : Location) : (below tree top).Nodup := by
  have whole := tree.nodup_below single top
  rw [List.Nodup, List.pairwise_map] at whole
  rw [List.Nodup, below, List.pairwise_filterMap]
  have kept : ∀ (location : Location) (entry : Entry) (chosen : Location), (match entry, location.getLast? with
      | .file _ _, some name => if (Text.stripEnd? suffix name).isSome then some location else none
      | _, _ => none) = some chosen → location = chosen := by
    intro location entry chosen found
    split at found
    · split at found
      · exact Option.some.inj found
      · simp at found
    · simp at found
  refine whole.imp ?_
  rintro ⟨first, firstEntry⟩ ⟨second, secondEntry⟩ apart _ firstKept _ secondKept same
  exact apart ((kept _ _ _ firstKept).trans (same.trans (kept _ _ _ secondKept).symm))

theorem inside_eq (storage : Storage) (scope : PathName) (top : Location)
    (leads : storage.resolve scope = .ok top) :
    inside storage scope = (below storage.tree top).map fun location => location.foldl step scope := by
  simp only [inside, leads, below, List.map_filterMap]
  congr 1
  funext ⟨location, entry⟩
  cases entry with
  | directory mode => rfl
  | file content mode =>
      cases last : location.getLast? with
      | none => simp
      | some name =>
          by_cases named : (Text.stripEnd? suffix name).isSome = true
          · simp [named]
          · simp [named]

theorem spelled_injective (directory : PathName) (first second : Location)
    (firstFilled : first ≠ []) (firstNamed : ∀ name ∈ first, IsName name) (secondFilled : second ≠ [])
    (secondNamed : ∀ name ∈ second, IsName name)
    (same : spelled directory first = spelled directory second) : first = second := by
  have pieces := pieces_spelled directory first firstFilled firstNamed
  rw [same, pieces_spelled directory second secondFilled secondNamed] at pieces
  exact (List.append_cancel_left pieces).symm

/-- What is listed once the directory is reached: each Markdown file below it, once. -/
theorem markdownFiles_perm_of_reach? (storage : Storage) (directory scope : PathName) (top : Location)
    (filled : directory.text ≠ [])
    (named : ∀ location ∈ below storage.tree top, ∀ name ∈ location, IsName name)
    (reached : reach? storage (start directory).1 (start directory).2 = some scope)
    (leads : storage.resolve scope = .ok top) :
    (markdownFiles storage directory).Perm ((below storage.tree top).map (spelled directory)) := by
  obtain ⟨written, _⟩ := leads_of_reach? directory storage scope filled reached
  have same : inside storage scope = (below storage.tree top).map (spelled directory) := by
    rw [inside_eq storage scope top leads]
    refine List.map_congr_left fun location member => ?_
    obtain ⟨⟨above, name, rfl, _⟩, _⟩ := file_of_mem_below storage.tree top location member
    exact foldl_step_eq directory scope written _ (by simp) (named _ member)
  simp only [markdownFiles, reached, same]
  exact List.mergeSort_perm _ _

theorem proper_of_mem_below (tree : FileTree) (single : tree.Single) (named : tree.Named) (top location : Location)
    (member : location ∈ below tree top) : location ≠ [] ∧ ∀ name ∈ location, IsName name := by
  obtain ⟨markdown, file⟩ := (mem_below_iff tree single top location).mp member
  refine ⟨markdown.ne_nil, fun name inside => ?_⟩
  refine named (top ++ location) ?_ name (List.mem_append_right _ inside)
  intro absent
  simp [FileTree.file?, absent] at file

/-- A directory is listed in full: each Markdown file below it, once. -/
theorem markdownFiles_perm (storage : Storage) (single : storage.tree.Single) (named : storage.tree.Named)
    (directory : PathName) (listable : Listable directory) (there : storage.isDirectory directory = true) :
    (markdownFiles storage directory).Perm
      ((below storage.tree (storage.place directory)).map (spelled directory)) := by
  obtain ⟨location, leads, _⟩ := (Storage.isDirectory_eq_true_iff _ _).mp there
  obtain ⟨scope, reached, found⟩ := reach?_of_isDirectory directory storage listable there
  exact markdownFiles_perm_of_reach? storage directory scope _ ((Storage.resolve_eq_ok_iff _ _ _).mp leads).1
    (fun below member => (proper_of_mem_below storage.tree single named _ below member).2) reached found

theorem markdownFiles_perm_of_ne_nil (storage : Storage) (rooted : storage.tree.Rooted)
    (single : storage.tree.Single) (named : storage.tree.Named) (directory : PathName)
    (filled : directory.text ≠ []) (some? : markdownFiles storage directory ≠ []) :
    Listable directory ∧ ∃ scope, reach? storage (start directory).1 (start directory).2 = some scope ∧
      storage.resolve scope = .ok (storage.place directory) ∧
      storage.tree.isDirectory (storage.place directory) = true ∧
      (markdownFiles storage directory).Perm
        ((below storage.tree (storage.place directory)).map (spelled directory)) := by
  cases reached : reach? storage (start directory).1 (start directory).2 with
  | none => exact absurd (by simp only [markdownFiles, reached]) some?
  | some scope =>
      cases leads : storage.resolve scope with
      | error cause => exact absurd (by simp [markdownFiles, reached, inside, leads]) some?
      | ok location =>
          obtain ⟨follows, listable⟩ := leads_of_reach? directory storage scope filled reached
          have spot := Storage.resolve_eq_ok _ _ _ leads
          rw [place_of_leads directory storage scope filled follows] at spot
          subst spot
          have perm := markdownFiles_perm_of_reach? storage directory scope _ filled
            (fun below member => (proper_of_mem_below storage.tree single named _ below member).2) reached leads
          refine ⟨listable, scope, rfl, leads, ?_, perm⟩
          -- Something lies below the place, so it is a directory.
          obtain ⟨path, member⟩ := List.exists_mem_of_ne_nil _ some?
          obtain ⟨location, inside, _⟩ := List.mem_map.mp (perm.mem_iff.mp member)
          obtain ⟨⟨above, name, rfl, _⟩, file⟩ := (mem_below_iff storage.tree single _ location).mp inside
          by_contra other
          refine file ?_
          simp [FileTree.file?, rooted.get?_below _ _ (Bool.eq_false_iff.mpr other) (above ++ [name])
            (by simp)]

end Sources

end FencePreview
