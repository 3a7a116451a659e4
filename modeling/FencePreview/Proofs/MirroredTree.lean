import FencePreview.Proofs.DocumentListing
import FencePreview.Proofs.KeptFiles
import Mathlib.Data.List.Perm.Basic

/-! Where the documents below a directory go. A document found at some names below the directory goes to the
same names below the output, unless the directory is written with a leading dot that the paths found do
not have: its whole path goes below the output then. -/

namespace FencePreview

namespace PathName

theorem dropWhile_isIdle (pieces : List Text) (first : ∀ piece ∈ pieces.head?, isIdle piece = false) :
    pieces.dropWhile isIdle = pieces := by
  cases pieces with
  | nil => rfl
  | cons piece rest => exact List.dropWhile_cons_of_neg (by simp [first piece (by simp)])

/-- The steps of a path are removed from its own pieces, written without the empty ones. -/
theorem stripPieces?_filter (pieces below : List Text) (first : ∀ piece ∈ below.head?, isIdle piece = false) :
    stripPieces? ((pieces.filter fun piece => !isIdle piece).map componentOf)
      (pieces.filter (· ≠ []) ++ below) = some below := by
  induction pieces with
  | nil => simp [stripPieces?, dropWhile_isIdle below first]
  | cons piece rest ih =>
      by_cases empty : piece = []
      · simpa [empty, isIdle] using ih
      · by_cases idle : isIdle piece = true
        · have skipped : ∀ expected, stripPieces? expected (piece :: (rest.filter (· ≠ []) ++ below)) =
              stripPieces? expected (rest.filter (· ≠ []) ++ below) := by
            intro expected
            cases expected <;> simp only [stripPieces?, List.dropWhile_cons_of_pos idle]
          rw [List.filter_cons_of_neg (by simp [idle]), List.filter_cons_of_pos (by simp [empty]),
            List.cons_append, skipped]
          exact ih
        · rw [List.filter_cons_of_pos (by simp [idle]), List.filter_cons_of_pos (by simp [empty])]
          simp only [List.map_cons, List.cons_append, stripPieces?, List.dropWhile_cons_of_neg idle, if_true]
          exact ih

theorem stripPieces?_current (rest : List Component) (pieces : List Text) :
    stripPieces? (.current :: rest) pieces = none := by
  simp only [stripPieces?]
  split
  · rfl
  · exact if_neg (by simp only [componentOf]; split <;> simp)

end PathName

theorem Storage.place_join_of_relative (storage : Storage) (directory path : PathName)
    (relative : path.isAbsolute = false) :
    storage.place (directory.join path) =
      PathName.descend (storage.place directory) (Text.splitAtEach '/' path.text) := by
  simp only [place, PathName.isAbsolute_join_of_relative directory path relative,
    PathName.pieces_join_of_relative directory path relative, ← PathName.descend_stem _ directory]
  exact List.foldl_append

namespace Sources

/-- Where the document goes that is found at `below`, seen from `documents`. -/
def destination (documents output : PathName) (below : Location) : PathName :=
  output.join (if losesStart documents then spelled documents below else ⟨Text.joinWith ['/'] below⟩)

/-- The place that documents go below. -/
def destinationTop (storage : Storage) (documents output : PathName) : Location :=
  if losesStart documents then PathName.descend (storage.place output) (front documents)
  else storage.place output

variable (documents output : PathName) (below : Location) (filled : below ≠ [])
  (named : ∀ name ∈ below, IsName name)

theorem anchor_of_pieces (path : PathName) (relative : path.isAbsolute = false) (pieces : List Text)
    (written : Text.splitAtEach '/' path.text = pieces) (first : ∀ piece ∈ pieces.head?, piece ≠ ['.']) :
    path.anchor = (none, pieces) := by
  cases pieces with
  | nil => exact absurd written (Text.splitAtEach_ne_nil '/' _)
  | cons piece rest =>
      simp only [PathName.anchor, written, relative, Bool.false_eq_true, if_false]
      exact if_neg (first piece (by simp))

include filled named

omit filled in
theorem isIdle_head : ∀ name ∈ below.head?, PathName.isIdle name = false :=
  fun name first => (named name (List.mem_of_mem_head? first)).named

theorem write_names : PathName.write none (PathName.dropIdleEnd below) = ⟨Text.joinWith ['/'] below⟩ := by
  obtain ⟨above, name, rfl⟩ := (List.eq_nil_or_concat below).resolve_left filled
  rw [PathName.dropIdleEnd_names _ named, List.concat_eq_append]
  rfl

theorem relativeTo?_of_root (written : documents.text ≠ []) (rooted : documents.isAbsolute = true)
    (rest : List Text) (anchor : documents.anchor = (some .root, rest)) :
    (spelled documents below).relativeTo? documents = some ⟨Text.joinWith ['/'] below⟩ := by
  have pieces := pieces_spelled documents below filled named
  have absolute := isAbsolute_spelled documents below filled named written
  have begins : front documents = [] :: rest.filter (· ≠ []) := by simp only [front, anchor]
  have found : (spelled documents below).anchor = (some .root, rest.filter (· ≠ []) ++ below) := by
    rw [begins] at pieces
    simp only [PathName.anchor, pieces, absolute, rooted, if_true, List.cons_append]
  simp only [PathName.relativeTo?, PathName.components, anchor, found, Option.toList_some,
    List.singleton_append, if_true, PathName.stripPieces?_filter rest below (isIdle_head below named),
    Option.map_some, write_names below filled named]

omit filled in
/-- The paths found below a leading dot begin with another piece. -/
theorem head?_spelled_of_current (listable : Listable documents) (rest : List Text)
    (anchor : documents.anchor = (some .current, rest)) :
    ∀ piece ∈ (front documents ++ below).head?, piece ≠ ['.'] := by
  have clear := listable (by rw [anchor])
  rw [anchor] at clear
  have begins : front documents = (rest.dropWhile (· = ['.'])).filter (· ≠ []) := by simp only [front, anchor]
  intro piece member
  cases shape : rest.dropWhile (· = ['.']) with
  | nil =>
      rw [begins, shape] at member
      intro dot
      have named := isIdle_head below named piece (by simpa using member)
      simp [PathName.isIdle, dot] at named
  | cons head tail =>
      have undotted : head ≠ ['.'] := by
        simpa using eq_false_of_head?_dropWhile (· = ['.']) rest head (by rw [shape]; rfl)
      rw [shape] at clear
      have filledHead : head ≠ [] := by simpa using clear
      rw [begins, shape, List.filter_cons_of_pos (by simpa using filledHead)] at member
      simp only [List.cons_append, List.head?_cons, Option.mem_def, Option.some.injEq] at member
      exact member ▸ undotted

theorem relativeTo?_of_current (written : documents.text ≠ []) (relative : documents.isAbsolute = false)
    (listable : Listable documents) (rest : List Text) (anchor : documents.anchor = (some .current, rest)) :
    (spelled documents below).relativeTo? documents = none := by
  have found := anchor_of_pieces _ ((isAbsolute_spelled documents below filled named written).trans relative) _
    (pieces_spelled documents below filled named)
    (head?_spelled_of_current documents below named listable rest anchor)
  simp [PathName.relativeTo?, PathName.components, anchor, found, PathName.stripPieces?_current]

theorem relativeTo?_of_name (written : documents.text ≠ []) (relative : documents.isAbsolute = false)
    (first : Text) (rest : List Text) (proper : PathName.isIdle first = false)
    (anchor : documents.anchor = (none, first :: rest)) :
    (spelled documents below).relativeTo? documents = some ⟨Text.joinWith ['/'] below⟩ := by
  simp only [PathName.isIdle, Bool.or_eq_false_iff, decide_eq_false_iff_not] at proper
  have begins : front documents = (first :: rest).filter (· ≠ []) := by
    simp only [front, anchor]
    rw [List.dropWhile_cons_of_neg (by simpa using proper.2)]
  have found := anchor_of_pieces _ ((isAbsolute_spelled documents below filled named written).trans relative) _
    (pieces_spelled documents below filled named) (by simpa [begins, proper.1] using proper.2)
  have steps : documents.components =
      ((first :: rest).filter fun piece => !PathName.isIdle piece).map PathName.componentOf := by
    simp [PathName.components, anchor]
  have stripped := PathName.stripPieces?_filter (first :: rest) below (isIdle_head below named)
  rw [List.filter_cons_of_pos (by simp [PathName.isIdle, proper]), List.map_cons] at steps stripped
  simp only [PathName.relativeTo?, steps, found, begins, stripped, Option.map_some,
    write_names below filled named]

theorem targetOf_spelled (written : documents.text ≠ []) (listable : Listable documents) :
    targetOf documents output (spelled documents below) = destination documents output below := by
  rcases PathName.anchor_cases documents written with
    ⟨rest, rooted, _, anchor⟩ | ⟨rest, relative, _, anchor⟩ | ⟨first, rest, relative, _, proper, anchor⟩
  · have kept := relativeTo?_of_root documents below filled named written rooted rest anchor
    simp [targetOf, destination, kept, losesStart, anchor]
  · have kept := relativeTo?_of_current documents below filled named written relative listable rest anchor
    simp only [targetOf, destination, kept, Option.getD_none]
    split
    · rfl
    · rename_i keeps
      have dots : ∀ piece ∈ rest, piece = ['.'] := by simpa [losesStart, anchor] using keeps
      have bare : front documents = [] := by
        simp only [front, anchor]
        rw [List.dropWhile_eq_nil_iff.mpr (by simpa using dots)]
        rfl
      rw [spelled, bare, List.nil_append]
  · have kept := relativeTo?_of_name documents below filled named written relative first rest proper anchor
    simp [targetOf, destination, kept, losesStart, anchor]

theorem place_destination (storage : Storage) (written : documents.text ≠ []) :
    storage.place (destination documents output below) =
      destinationTop storage documents output ++ below := by
  have idle := isIdle_head below named
  simp only [destination, destinationTop]
  split
  · rename_i loses
    have dotted : documents.anchor.1 = some .current := by
      simp only [losesStart, Bool.and_eq_true, decide_eq_true_eq] at loses
      exact loses.1
    have relative : documents.isAbsolute = false := by
      rcases PathName.anchor_cases documents written with
        ⟨rest, _, _, anchor⟩ | ⟨rest, relative, _⟩ | ⟨first, rest, relative, _⟩
      · simp [anchor] at dotted
      · exact relative
      · exact relative
    rw [storage.place_join_of_relative output _
        ((isAbsolute_spelled documents below filled named written).trans relative),
      pieces_spelled documents below filled named, PathName.descend, List.foldl_append]
    exact PathName.descend_names _ below named
  · have pieces := Text.splitAtEach_joinWith_pieces '/' below filled fun name member => (named name member).whole
    have relative : (⟨Text.joinWith ['/'] below⟩ : PathName).isAbsolute = false :=
      PathName.isAbsolute_write_none below (fun name member => (named name member).whole) fun empty => by
        simpa [PathName.isIdle] using idle [] (by simp [empty])
    rw [storage.place_join_of_relative output _ relative, pieces]
    exact PathName.descend_names _ below named

end Sources

namespace Formatter

/-- Every document found below `documents` is processed or fails, once. `done` and `failed` are their
locations seen from `documents`. -/
structure Mirrored (documents output : PathName) (start after : Storage) (report : CollectionReport)
    (done failed : List Location) : Prop where
  once : (done ++ failed).Nodup
  all : ∀ below, below ∈ done ++ failed ↔
    IsMarkdown below ∧ start.tree.file? (start.place documents ++ below) ≠ none
  processed : report.processed.map Prod.fst = done.map (Sources.destination documents output)
  failures : report.failures.map Prod.fst = failed.map (Sources.spelled documents)
  found : ∀ below ∈ done ++ failed,
    start.place (Sources.spelled documents below) = start.place documents ++ below
  reached : ∀ below ∈ done ++ failed, start.place (Sources.destination documents output below) =
    Sources.destinationTop start documents output ++ below
  apart : ∀ first ∈ done ++ failed, ∀ second ∈ done ++ failed,
    start.place (Sources.destination documents output first) =
      start.place (Sources.destination documents output second) → first = second
  /-- A source stays as it is unless it lies where another document goes. -/
  unchanged : ∀ source ∈ done ++ failed,
    (∀ below ∈ done ++ failed,
      start.place (Sources.destination documents output below) ≠ start.place documents ++ source) →
    after.tree.file? (start.place documents ++ source) = start.tree.file? (start.place documents ++ source)

variable (formatter : Formatter) (documents output : PathName)

/-- Every document of a run is in one of the two parts of the report. -/
theorem processMembers_split (paths : List PathName) (before : Workspace) :
    let report := (formatter.processMembers documents output paths before).1
    ∃ done failed, (done ++ failed).Perm paths ∧
      report.processed.map Prod.fst = done.map (targetOf documents output) ∧
      report.failures.map Prod.fst = failed := by
  intro report
  induction paths generalizing before with
  | nil => exact ⟨[], [], .refl _, rfl, rfl⟩
  | cons path rest ih =>
      simp only [report, processMembers_cons, processMember]
      cases result : formatter.processFile path (targetOf documents output path) before with
      | ok document after =>
          obtain ⟨done, failed, perm, processed, failures⟩ := ih after
          refine ⟨path :: done, failed, perm.cons path, ?_, ?_⟩
          · simp only [CollectionReport.append, List.singleton_append, List.map_cons, processed]
          · simpa [CollectionReport.append] using failures
      | error error after =>
          obtain ⟨done, failed, perm, processed, failures⟩ := ih after
          refine ⟨done, path :: failed, List.perm_middle.trans (perm.cons path), ?_, ?_⟩
          · simpa [CollectionReport.append] using processed
          · simp only [CollectionReport.append, List.singleton_append, List.map_cons, failures]

/-- The documents below a directory go to the same places below the output. With a leading dot that the
paths found do not have, they go below the directory's own path there. -/
theorem processCollection_mirrored (confined : formatter.compiler.OnlyOutput) (start : Workspace)
    (rooted : start.storage.tree.Rooted) (single : start.storage.tree.Single)
    (named : start.storage.tree.Named) (listable : Sources.Listable documents)
    (there : start.storage.isDirectory documents = true) :
    let report := (formatter.processCollection documents output start).1
    let after := (formatter.processCollection documents output start).2
    let top := start.storage.place documents
    let into := start.storage.place output
    ∃ done failed, Mirrored documents output start.storage after.storage report done failed ∧
      (Sources.losesStart documents = false → ¬top <+: into → ∀ source ∈ done ++ failed,
        (∀ above, top = into ++ above → above ++ source ∉ done ++ failed) →
        after.storage.tree.file? (top ++ source) = start.storage.tree.file? (top ++ source)) := by
  intro report after top into
  obtain ⟨location, leads, _⟩ := (Storage.isDirectory_eq_true_iff _ _).mp there
  have written := ((Storage.resolve_eq_ok_iff _ _ _).mp leads).1
  have listed := Sources.markdownFiles_perm start.storage single named documents listable there
  obtain ⟨doneAt, failedAt, parts, processed, failures⟩ :=
    formatter.processMembers_split documents output (markdownFiles start.storage documents) start
  obtain ⟨order, shape, perm⟩ :=
    (congrFun (congrFun (List.eq_map_comp_perm (Sources.spelled documents)) _) _).mpr (parts.trans listed)
  obtain ⟨done, failed, rfl, rfl, rfl⟩ := List.append_eq_map_iff.mp shape
  have all : ∀ below, below ∈ done ++ failed ↔ _ := fun below =>
    perm.mem_iff.trans (Sources.mem_below_iff start.storage.tree single top below)
  have proper : ∀ below ∈ done ++ failed, below ≠ [] ∧ ∀ name ∈ below, IsName name := fun below member =>
    Sources.proper_of_mem_below _ single named top below (perm.mem_iff.mp member)
  have target : ∀ below ∈ done ++ failed, targetOf documents output (Sources.spelled documents below) =
      Sources.destination documents output below := fun below member =>
    Sources.targetOf_spelled documents output below (proper below member).1 (proper below member).2 written listable
  have reached : ∀ below ∈ done ++ failed, start.storage.place (Sources.destination documents output below) =
      Sources.destinationTop start.storage documents output ++ below := fun below member =>
    Sources.place_destination documents output below (proper below member).1 (proper below member).2 _ written
  have grown := formatter.grown_processMembers documents output confined
    (markdownFiles start.storage documents) start rooted
  have unchanged : ∀ source ∈ done ++ failed, (∀ below ∈ done ++ failed,
        start.storage.place (Sources.destination documents output below) ≠ top ++ source) →
      after.storage.tree.file? (top ++ source) = start.storage.tree.file? (top ++ source) := by
    intro source member free
    refine grown.documents _ (((all source).mp member).1.append top) ?_
    rintro ⟨path, inside, same⟩
    obtain ⟨below, other, rfl⟩ := List.mem_map.mp (listed.mem_iff.mp inside)
    have other := perm.mem_iff.mpr other
    exact free below other (by rw [← target below other, ← same])
  refine ⟨done, failed, ⟨?_, all, ?_, failures, ?_, reached, ?_, unchanged⟩, ?_⟩
  · exact perm.nodup_iff.mpr (Sources.nodup_below _ single top)
  · refine processed.trans ?_
    rw [List.map_map]
    exact List.map_congr_left fun below member => target below (List.mem_append_left _ member)
  · exact fun below member => Sources.place_spelled documents below (proper below member).1
      (proper below member).2 start.storage written
  · intro first here second elsewhere same
    rw [reached first here, reached second elsewhere] at same
    exact List.append_cancel_left same
  · intro keeps outside source member free
    refine unchanged source member fun below other same => ?_
    rw [reached below other, Sources.destinationTop, keeps, if_neg (by simp)] at same
    -- One of the two directories lies above the other.
    rcases List.append_eq_append_iff.mp same with ⟨above, above?, below?⟩ | ⟨above, above?, _⟩
    · exact free above above? (below? ▸ other)
    · exact outside ⟨above, above?.symm⟩

theorem named_sampleStart (files : List (Text × Text)) (named : ∀ file ∈ files, IsName file.1) :
    (sampleStart files).storage.tree.Named := by
  refine FileTree.Named.of_entries _ ?_
  have top : IsName "docs".toList := ⟨by decide, by decide, by decide⟩
  intro binding member
  rcases List.mem_cons.mp member with rfl | file
  · simpa using top
  · obtain ⟨⟨name, text⟩, inside, rfl⟩ := List.mem_map.mp file
    simpa using ⟨top, named _ inside⟩

/-- One document, once with a leading dot before its directory and once without. -/
theorem processCollection_mirrored_dotted :
    let formatter := Formatter.small (.writing fun _ => ByteArray.empty)
    let dotted := PathName.ofString "./docs"
    let plain := PathName.ofString "docs"
    let output := PathName.ofString "out"
    let start := sampleStart [("a.md".toList, "a\n".toList)]
    let report := fun documents => (formatter.processCollection documents output start).1
    let after := fun documents => (formatter.processCollection documents output start).2
    (∀ documents ∈ [dotted, plain], ∃ done failed,
      Mirrored documents output start.storage (after documents).storage (report documents) done failed) ∧
      (report dotted).processed.map Prod.fst = [.ofString "out/docs/a.md"] ∧
      (report plain).processed.map Prod.fst = [.ofString "out/a.md"] := by
  intro formatter dotted plain output start report after
  have named : start.storage.tree.Named := named_sampleStart _ (by simp; constructor <;> decide)
  have ready : ∀ documents ∈ [dotted, plain],
      Sources.Listable documents ∧ start.storage.isDirectory documents = true := by
    unfold Sources.Listable
    decide +kernel
  have mirrored : ∀ documents ∈ [dotted, plain], ∃ done failed,
      Mirrored documents output start.storage (after documents).storage (report documents) done failed := by
    intro documents member
    obtain ⟨listable, there⟩ := ready documents member
    obtain ⟨done, failed, whole, _⟩ := formatter.processCollection_mirrored documents output
      (Compiler.onlyOutput_writing _) start (rooted_sampleStart _) (by unfold FileTree.Single; decide +kernel)
      named listable there
    exact ⟨done, failed, whole⟩
  have files : ∀ documents ∈ [dotted, plain], markdownFiles start.storage documents = [.ofString "docs/a.md"] := by
    intro documents member
    have steps : documents = dotted ∨ documents = plain := by simpa using member
    rcases steps with rfl | rfl <;>
      exact markdownFiles_eq _ _ Sources.currentDirectory (.ofString "docs") _ _ rfl (by decide +kernel)
        (by decide +kernel) (by decide +kernel)
  have runs : ∀ documents ∈ [dotted, plain], report documents =
      (formatter.processMembers documents output [.ofString "docs/a.md"] start).1 := by
    intro documents member
    rw [← files documents member]
    rfl
  refine ⟨mirrored, ?_, ?_⟩
  · rw [runs dotted (by simp)]
    decide +kernel
  · rw [runs plain (by simp)]
    decide +kernel

end Formatter

end FencePreview
