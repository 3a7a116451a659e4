import FencePreview.Document.Collection
import FencePreview.Proofs.FileChanges

/-! Names of documents and of their targets. Both end in `.md`, so that neither is the name of an image
or of a temporary file. -/

namespace FencePreview

def IsMarkdown (location : Location) : Prop :=
  ∃ above name, location = above ++ [name] ∧ Sources.suffix <:+ name

namespace IsMarkdown

theorem ne_nil (location : Location) (markdown : IsMarkdown location) : location ≠ [] := by
  obtain ⟨above, name, rfl, _⟩ := markdown
  simp

theorem append (above location : Location) (markdown : IsMarkdown location) : IsMarkdown (above ++ location) := by
  obtain ⟨front, name, rfl, ending⟩ := markdown
  exact ⟨above ++ front, name, (List.append_assoc _ _ _).symm, ending⟩

theorem getLast?_eq (above : Location) (name : Text) (markdown : IsMarkdown (above ++ [name])) :
    name.getLast? = some 'd' := by
  obtain ⟨other, _, same, stem, rfl⟩ := markdown
  rw [List.singleton_inj.mp (List.append_inj_right' same rfl), List.getLast?_append]
  rfl

theorem not_hidden (location : Location) (markdown : IsMarkdown location) : ¬Hidden location := by
  rintro ⟨above, number, rfl⟩
  have last := markdown.getLast?_eq above _
  simp only [Storage.temporaryName, List.getLast?_append] at last
  exact absurd (show some 'g' = some 'd' from last) (by decide)

theorem ne_image (location : Location) (markdown : IsMarkdown location) (above : Location)
    (variant : Variant) (name : Text) : location ≠ above ++ [variant.fileName name] := by
  rintro rfl
  have last := markdown.getLast?_eq above _
  cases variant <;>
    simp only [Variant.fileName, List.getLast?_append] at last <;>
    exact absurd (show some 'g' = some 'd' from last) (by decide)

end IsMarkdown

theorem splitAtEach_of_suffix (text : Text) (ends : Sources.suffix <:+ text) :
    ∃ front name, Text.splitAtEach '/' text = front ++ [name] ∧ Sources.suffix <:+ name := by
  obtain ⟨stem, rfl⟩ := ends
  have pieces := (List.dropLast_concat_getLast (Text.splitAtEach_ne_nil '/' stem)).symm
  have single : Text.splitAtEach '/' Sources.suffix = [Sources.suffix] := by decide
  exact ⟨_, _, Text.splitAtEach_append_parts '/' stem Sources.suffix _ [] _ _ pieces single,
    List.suffix_append _ _⟩

theorem named_of_suffix (name : Text) (ends : Sources.suffix <:+ name) :
    PathName.isIdle name = false ∧ name ≠ ['.', '.'] := by
  obtain ⟨stem, rfl⟩ := ends
  have long : 3 ≤ (stem ++ Sources.suffix).length := by simp [Sources.suffix]
  constructor
  · simp only [PathName.isIdle, Bool.or_eq_false_iff, decide_eq_false_iff_not]
    constructor
    · intro same
      simp [same] at long
    · intro same
      simp [same] at long
  · intro same
    simp [same] at long

theorem isMarkdown_place (storage : Storage) (path : PathName) (ends : Sources.suffix <:+ path.text) :
    IsMarkdown (storage.place path) := by
  obtain ⟨front, name, pieces, named⟩ := splitAtEach_of_suffix path.text ends
  obtain ⟨whole, down⟩ := named_of_suffix name named
  refine ⟨PathName.descend (if path.isAbsolute then [] else storage.workingDirectory) front, name, ?_,
    named⟩
  simp only [Storage.place, pieces, PathName.descend, List.foldl_append, List.foldl_cons, List.foldl_nil]
  simp [PathName.step, whole, down]

namespace PathName

theorem suffix_join (directory path : PathName) : path.text <:+ (directory.join path).text := by
  simp only [join]
  split
  · exact List.suffix_refl _
  · split
    · exact List.suffix_append _ _
    · exact ⟨directory.text ++ ['/'], by simp⟩

theorem stripPieces?_suffix (expected : List Component) (pieces kept : List Text)
    (found : stripPieces? expected pieces = some kept) : kept <:+ pieces := by
  induction expected generalizing pieces with
  | nil =>
      simp only [stripPieces?, Option.some.injEq] at found
      exact found ▸ List.dropWhile_suffix _
  | cons component rest ih =>
      simp only [stripPieces?] at found
      split at found
      · simp at found
      · rename_i piece more shape
        split at found
        · exact (ih more found).trans ((List.suffix_cons piece more).trans
            (shape ▸ List.dropWhile_suffix _))
        · simp at found

theorem suffix_write (start : Option Component) (front : List Text) (name : Text) :
    name <:+ (write start (front ++ [name])).text := by
  have body : name <:+ Text.joinWith ['/'] (front ++ [name]) := by
    rw [Text.joinWith_concat]
    exact List.suffix_append _ _
  simp only [write]
  split
  · exact body.trans (List.suffix_cons _ _)
  · have filled : (front ++ [name]).isEmpty = false := by simp
    rw [filled]
    exact body.trans ⟨['.', '/'], rfl⟩
  · exact body

/-- The last piece of a path that ends in `.md` is never part of its start. -/
theorem anchor_of_suffix (path : PathName) (ends : Sources.suffix <:+ path.text) :
    ∃ front name, path.anchor.2 = front ++ [name] ∧ Sources.suffix <:+ name := by
  obtain ⟨front, name, pieces, named⟩ := splitAtEach_of_suffix path.text ends
  obtain ⟨whole, _⟩ := named_of_suffix name named
  simp only [isIdle, Bool.or_eq_false_iff, decide_eq_false_iff_not] at whole
  simp only [anchor, pieces]
  cases front with
  | nil =>
      have relative : path.isAbsolute = false := by
        rw [Bool.eq_false_iff]
        intro absolute
        simp only [isAbsolute, decide_eq_true_eq] at absolute
        obtain ⟨rest, shape⟩ := List.head?_eq_some_iff.mp absolute
        rw [shape, Text.splitAtEach, if_pos rfl] at pieces
        exact whole.1 (List.cons.inj pieces).1.symm
      exact ⟨[], name, by simp [relative, whole.2], named⟩
  | cons first rest =>
      simp only [List.cons_append]
      split
      · exact ⟨rest, name, rfl, named⟩
      · split
        · exact ⟨rest, name, rfl, named⟩
        · exact ⟨first :: rest, name, rfl, named⟩

theorem suffix_relativeTo? (path base relative : PathName) (ends : Sources.suffix <:+ path.text)
    (found : path.relativeTo? base = some relative) :
    relative.text = [] ∨ Sources.suffix <:+ relative.text := by
  obtain ⟨front, name, pieces, named⟩ := path.anchor_of_suffix ends
  obtain ⟨whole, _⟩ := named_of_suffix name named
  -- What is kept of the pieces is nothing, or ends with the last one.
  have last : ∀ kept, kept <:+ front ++ [name] →
      (write none (dropIdleEnd kept)).text = [] ∨ Sources.suffix <:+ (write none (dropIdleEnd kept)).text := by
    intro kept inside
    rcases List.eq_nil_or_concat kept with rfl | ⟨rest, other, shape⟩
    · exact .inl rfl
    · rw [List.concat_eq_append] at shape
      subst shape
      have same : other = name := by
        obtain ⟨before, shape⟩ := inside
        rw [← List.append_assoc] at shape
        exact List.singleton_inj.mp (List.append_inj_right' shape rfl)
      subst same
      rw [dropIdleEnd_concat _ _ whole]
      exact .inr (named.trans (suffix_write none rest other))
  simp only [relativeTo?, pieces] at found
  split at found
  · simp only [Option.some.injEq] at found
    rw [← found, dropIdleEnd_concat _ _ whole]
    exact .inr (named.trans (suffix_write _ front name))
  · split at found
    · split at found
      · obtain ⟨kept, stripped, rfl⟩ := Option.map_eq_some_iff.mp found
        exact last kept (stripPieces?_suffix _ _ _ stripped)
      · simp at found
    · obtain ⟨kept, stripped, rfl⟩ := Option.map_eq_some_iff.mp found
      exact last kept (stripPieces?_suffix _ _ _ stripped)

end PathName

/-- Nothing can be written to a path that ends with a slash or has no text. -/
theorem Storage.write_join_nil_ne_ok (before after : Storage) (directory : PathName)
    (content : ByteArray) : before.write (directory.join ⟨[]⟩) content ≠ .ok after := by
  intro written
  obtain ⟨_, leads, other, _⟩ := write_eq_ok _ _ _ _ written
  obtain ⟨filled, _, _, followed⟩ := (resolve_eq_ok_iff _ _ _).mp leads
  have shape : ∃ front, (directory.join ⟨[]⟩).text = front ++ ['/'] := by
    simp only [PathName.join, PathName.isAbsolute, List.head?_nil] at filled ⊢
    by_cases bare : directory.text = []
    · simp [bare] at filled
    · by_cases closed : directory.text.getLast? = some '/'
      · obtain ⟨front, shape⟩ := List.getLast?_eq_some_iff.mp closed
        exact ⟨front, by simp [shape]⟩
      · exact ⟨directory.text, by simp [bare, closed]⟩
  obtain ⟨front, shape⟩ := shape
  rw [shape, Text.splitAtEach_append, follow_append_eq_ok_iff] at followed
  obtain ⟨between, _, last⟩ := followed
  obtain ⟨there, _, here⟩ := (follow_cons_eq_ok_iff _ _ _ _ _).mp last
  simp only [PathName.step, PathName.isIdle, follow, Except.ok.injEq] at here
  simp only [decide_true, Bool.true_or, if_true] at here
  rw [← here, there] at other
  exact absurd other (by decide)

theorem isMarkdown_target (documents output path : PathName) (ends : Sources.suffix <:+ path.text)
    (before after : Storage) (content : ByteArray)
    (written : before.write (targetOf documents output path) content = .ok after) :
    IsMarkdown (before.place (targetOf documents output path)) := by
  apply isMarkdown_place
  simp only [targetOf] at written ⊢
  cases found : path.relativeTo? documents with
  | none =>
      simp only [Option.getD_none]
      exact ends.trans (PathName.suffix_join output path)
  | some relative =>
      simp only [found, Option.getD_some] at written ⊢
      rcases path.suffix_relativeTo? documents relative ends found with bare | named
      · obtain ⟨text⟩ := relative
        simp only at bare
        subst bare
        exact absurd written (before.write_join_nil_ne_ok after output content)
      · exact named.trans (PathName.suffix_join output relative)

theorem suffix_of_mem_markdownFiles (storage : Storage) (directory path : PathName)
    (member : path ∈ markdownFiles storage directory) : Sources.suffix <:+ path.text := by
  simp only [markdownFiles] at member
  split at member
  · rename_i scope _
    rw [List.mem_mergeSort, Sources.inside] at member
    split at member
    · simp at member
    · obtain ⟨⟨location, entry⟩, _, chosen⟩ := List.mem_filterMap.mp member
      simp only at chosen
      split at chosen
      · rename_i _ _ content mode name last _
        obtain ⟨front, rfl⟩ := List.getLast?_eq_some_iff.mp last
        split at chosen
        · rename_i named
          obtain ⟨stem, stripped⟩ := Option.isSome_iff_exists.mp named
          have ending : Sources.suffix <:+ name :=
            ⟨stem, ((Text.stripEnd?_eq_some_iff _ _ _).mp stripped).symm⟩
          rw [← Option.some.inj chosen, List.foldl_append, List.foldl_cons, List.foldl_nil, Sources.step]
          split
          · exact ending
          · exact ending.trans (PathName.suffix_join _ ⟨name⟩)
        · simp at chosen
      · simp at chosen
  · simp at member

end FencePreview
