import FencePreview.Document.Process
import FencePreview.Proofs.Jobs
import FencePreview.Proofs.NestedBlocks

/-! The second pass over a scanned document. It may lose step with the panels, in a block that an
author opened or in a source that its closing line does not end. Then the preview of the next
panel opens inside that block and the document fails. -/

namespace FencePreview

/-- `Walkable content kept`: the second pass copies the lines `kept` out of `content` and renders
the preview blocks between them, or fails. -/
inductive Walkable : List Text → List Text → Prop
  | nil : Walkable [] []
  | line (content : Text) (rest kept : List Text) (inert : Inert content) (later : Walkable rest kept) :
      Walkable (content :: rest) (content :: kept)
  | block (opening closing : Text) (fence : CodeFence) (body rest kept : List Text)
      (opens : CodeFence.parse? opening = some fence) (preview : fence.isPreview = true)
      (continues : ∀ line ∈ body, fence.closes line = false) (closed : fence.closes closing = true)
      (silent : ∀ line ∈ body, opensPreview line = false) (later : Walkable rest kept) :
      Walkable (opening :: (body ++ closing :: rest)) kept
  /-- A block of another kind that nothing ends before a preview opens in it. -/
  | barred (opening inner : Text) (fence : CodeFence) (between rest kept : List Text)
      (opens : CodeFence.parse? opening = some fence) (foreign : fence.isPreview = false)
      (unclosed : ∀ line ∈ opening :: between, isClosable line = false)
      (hidden : opensPreview inner = true) :
      Walkable (opening :: (between ++ inner :: rest)) kept

theorem firstPreview?_eq_none_iff (line : Nat) (content : List Text) :
    Segment.firstPreview? line content = none ↔ ∀ other ∈ content, opensPreview other = false := by
  induction content generalizing line with
  | nil => simp [Segment.firstPreview?]
  | cons first rest ih =>
      simp only [Segment.firstPreview?]
      split
      · rename_i opens
        simp [opens]
      · rename_i silent
        rw [ih]
        simp [Bool.eq_false_iff.mpr silent]

theorem mem_of_append_eq (front rest body after : List Text) (inner closing : Text)
    (parts : front ++ inner :: rest = body ++ closing :: after) (absent : closing ∉ front)
    (different : closing ≠ inner) : inner ∈ body := by
  induction front generalizing body with
  | nil =>
      cases body with
      | nil => exact absurd (List.cons.inj parts).1.symm different
      | cons first more => exact List.mem_cons.mpr (.inl (List.cons.inj parts).1)
  | cons first more ih =>
      cases body with
      | nil => exact absurd (List.mem_cons.mpr (.inl (List.cons.inj parts).1.symm)) absent
      | cons other body =>
          have later := ih body (List.cons.inj parts).2 fun member => absent (List.mem_cons_of_mem _ member)
          exact List.mem_cons_of_mem _ later

/-- A block that nothing ends before a preview opens has the opening of that preview in its body. -/
theorem mem_body_of_barrier (closes : Text → Bool) (between rest body after : List Text)
    (inner closing : Text) (closable : ∀ line, closes line = true → isClosable line = true)
    (unclosed : ∀ line ∈ between, isClosable line = false) (hidden : opensPreview inner = true)
    (found : Segment.splitAtClosing? closes (between ++ inner :: rest) = some (body, closing, after)) :
    inner ∈ body := by
  obtain ⟨parts, _, ends⟩ := Segment.splitAtClosing?_parts _ _ _ _ _ found
  refine mem_of_append_eq _ _ _ _ _ _ parts ?_ ?_
  · intro member
    have shut := unclosed closing member
    rw [closable closing ends] at shut
    exact absurd shut (by decide)
  · rintro rfl
    rw [opensPreview_eq_false_of_isClosable closing (closable closing ends)] at hidden
    exact absurd hidden (by decide)

namespace Walkable

theorem append_inert (front rest kept : List Text) (inert : ∀ line ∈ front, Inert line)
    (later : Walkable rest kept) : Walkable (front ++ rest) (front ++ kept) := by
  induction front with
  | nil => exact later
  | cons first more ih =>
      exact .line first _ _ (inert first (by simp))
        (ih fun line member => inert line (List.mem_cons_of_mem _ member))

theorem kept_of_silent (content kept : List Text) (walkable : Walkable content kept)
    (silent : ∀ line ∈ content, opensPreview line = false) :
    kept = content ∧ ∀ line ∈ content, Inert line := by
  induction walkable with
  | nil => exact ⟨rfl, by simp⟩
  | line content rest kept inert later ih =>
      obtain ⟨same, all⟩ := ih fun line member => silent line (List.mem_cons_of_mem _ member)
      refine ⟨by rw [same], ?_⟩
      intro line member
      rcases List.mem_cons.mp member with rfl | inside
      · exact inert
      · exact all line inside
  | block opening closing fence body rest kept opens preview =>
      have quiet := silent opening (by simp)
      simp [opensPreview, opens, preview] at quiet
  | barred opening inner fence between rest kept opens foreign unclosed hidden =>
      have quiet := silent inner (by simp)
      rw [hidden] at quiet
      exact absurd quiet (by decide)

/-- A block of another kind that holds no preview opening ends where the walk can go on. -/
theorem after_block (content kept body after : List Text) (closing : Text) (closes : Text → Bool)
    (walkable : Walkable content kept)
    (closable : ∀ line, closes line = true → isClosable line = true)
    (found : Segment.splitAtClosing? closes content = some (body, closing, after))
    (silent : ∀ line ∈ body, opensPreview line = false) :
    ∃ later, kept = body ++ closing :: later ∧ Walkable after later ∧
      ∀ line ∈ body ++ [closing], Inert line := by
  induction walkable generalizing body with
  | nil => simp [Segment.splitAtClosing?] at found
  | line content rest kept inert later ih =>
      simp only [Segment.splitAtClosing?] at found
      split at found
      · simp only [Option.some.injEq, Prod.mk.injEq] at found
        obtain ⟨rfl, rfl, rfl⟩ := found
        exact ⟨kept, rfl, later, by simpa using inert⟩
      · split at found
        · rename_i inner last tail split
          simp only [Option.some.injEq, Prod.mk.injEq] at found
          obtain ⟨rfl, rfl, rfl⟩ := found
          obtain ⟨remaining, same, goesOn, all⟩ :=
            ih inner split fun line member => silent line (List.mem_cons_of_mem _ member)
          refine ⟨remaining, by rw [same, List.cons_append], goesOn, ?_⟩
          intro line member
          rcases List.mem_cons.mp member with rfl | inside
          · exact inert
          · exact all line inside
        · simp at found
  | block opening closed fence inner rest kept opens preview =>
      have stays : closes opening = false := by
        rw [Bool.eq_false_iff]
        intro ends
        have quiet := opensPreview_eq_false_of_isClosable opening (closable opening ends)
        simp [opensPreview, opens, preview] at quiet
      have first : opening ∈ body := by
        simp only [Segment.splitAtClosing?, stays, Bool.false_eq_true, if_false] at found
        split at found
        · simp only [Option.some.injEq, Prod.mk.injEq] at found
          simp [← found.1]
        · simp at found
      have quiet := silent opening first
      simp [opensPreview, opens, preview] at quiet
  | barred opening inner fence between rest kept opens foreign unclosed hidden =>
      have inside := mem_body_of_barrier closes (opening :: between) rest body after inner closing closable
        unclosed hidden found
      have quiet := silent inner inside
      rw [hidden] at quiet
      exact absurd quiet (by decide)

variable (opening closing : Text) (rest kept body after : List Text) (fence : CodeFence)
  (walkable : Walkable (opening :: rest) kept) (opens : CodeFence.parse? opening = some fence)

include walkable opens

/-- Behind the block of a preview the walk goes on with the same lines to be kept. -/
theorem after_preview (preview : fence.isPreview = true)
    (found : Segment.splitAtClosing? fence.closes rest = some (body, closing, after)) :
    Walkable after kept ∧ ∀ line ∈ body, opensPreview line = false := by
  cases walkable with
  | line content rest kept inert later =>
      have silent := inert.1
      simp [opensPreview, opens, preview] at silent
  | barred opening inner other between rest kept opened foreign =>
      rw [opens, Option.some.injEq] at opened
      subst opened
      rw [preview] at foreign
      exact absurd foreign (by decide)
  | block opening last other inner rest kept opened _ continues closed silent later =>
      rw [opens, Option.some.injEq] at opened
      subst opened
      rw [Segment.splitAtClosing?_append _ _ _ _ continues closed] at found
      simp only [Option.some.injEq, Prod.mk.injEq] at found
      obtain ⟨rfl, rfl, rfl⟩ := found
      exact ⟨later, silent⟩

/-- Behind any other block it goes on once the lines of the block are kept. -/
theorem after_opening (found : Segment.splitAtClosing? fence.closes rest = some (body, closing, after))
    (silent : ∀ line ∈ opening :: body ++ [closing], opensPreview line = false) :
    ∃ more, kept = (opening :: body ++ [closing]) ++ more ∧ Walkable after more ∧
      ∀ line ∈ opening :: body ++ [closing], Inert line := by
  have closable := fun line => CodeFence.isClosable_of_closes opening line fence opens
  have quietBody : ∀ line ∈ body, opensPreview line = false := fun line member => silent line (by simp [member])
  have foreign := silent opening (by simp)
  cases walkable with
  | line content rest kept inert walkable =>
      obtain ⟨more, rfl, goesOn, all⟩ := walkable.after_block _ _ _ _ _ fence.closes closable found quietBody
      refine ⟨more, by simp, goesOn, ?_⟩
      intro line member
      rcases List.mem_cons.mp member with rfl | inside
      · exact inert
      · exact all line inside
  | block opening last other inner rest kept opened preview =>
      simp [opensPreview, opened, preview] at foreign
  | barred opening inner other between rest kept opened _ unclosed hidden =>
      have inside := mem_body_of_barrier fence.closes between rest body after inner closing closable
        (fun line member => unclosed line (List.mem_cons_of_mem _ member)) hidden found
      have shown := quietBody inner inside
      rw [hidden] at shown
      exact absurd shown (by decide)

end Walkable

namespace Segment

variable (line : Nat) (opening : Text) (rest : List Text) (fence : CodeFence)

theorem cut_plain (plain : CodeFence.parse? opening = none) :
    cut line (opening :: rest) = copied [opening] :: cut (line + 1) rest := by
  rw [cut]
  simp only [plain]

theorem cut_unclosed (opens : CodeFence.parse? opening = some fence)
    (missing : splitAtClosing? fence.closes rest = none) :
    cut line (opening :: rest) =
      match firstPreview? line (opening :: rest) with
      | some inner => [enclosed inner]
      | none => [copied (opening :: rest)] := by
  rw [cut]
  simp only [opens]
  split
  · rfl
  · rename_i found
    simp [missing] at found

variable (body after : List Text) (closing : Text)

theorem cut_closed (opens : CodeFence.parse? opening = some fence)
    (found : splitAtClosing? fence.closes rest = some (body, closing, after)) :
    cut line (opening :: rest) =
      if fence.isPreview then preview line fence body :: cut (line + body.length + 2) after
      else
        match firstPreview? (line + 1) body with
        | some inner => [enclosed inner]
        | none => copied (opening :: body ++ [closing]) :: cut (line + body.length + 2) after := by
  rw [cut]
  simp only [opens]
  split
  · rename_i missing
    simp [found] at missing
  · rename_i other
    simp only [found, Option.some.injEq, Prod.mk.injEq] at other
    obtain ⟨rfl, rfl, rfl⟩ := other
    rfl

theorem cut_preview (opens : CodeFence.parse? opening = some fence)
    (found : splitAtClosing? fence.closes rest = some (body, closing, after))
    (isPreview : fence.isPreview = true) :
    cut line (opening :: rest) = preview line fence body :: cut (line + body.length + 2) after := by
  rw [cut_closed line opening rest fence body after closing opens found, if_pos isPreview]

/-- A preview block that runs on past its first lines, to wherever it is closed behind them. -/
theorem cut_preview_append (opens : CodeFence.parse? opening = some fence) (isPreview : fence.isPreview = true)
    (continues : ∀ other ∈ body, fence.closes other = false) :
    cut line (opening :: (body ++ after)) =
      match splitAtClosing? fence.closes after with
      | some (more, _, beyond) => preview line fence (body ++ more) :: cut (line + (body ++ more).length + 2) beyond
      | none => [enclosed line] := by
  have split := splitAtClosing?_append_of_continues fence.closes body after continues
  cases found : splitAtClosing? fence.closes after with
  | none =>
      have opensHere : opensPreview opening = true := by simpa [opensPreview, opens] using isPreview
      rw [cut_unclosed line opening _ fence opens (by rw [split, found]; rfl), firstPreview?, if_pos opensHere]
  | some parts =>
      obtain ⟨more, last, beyond⟩ := parts
      exact cut_preview line opening _ fence _ beyond last opens (by rw [split, found]; rfl) isPreview

theorem cut_block (opens : CodeFence.parse? opening = some fence)
    (found : splitAtClosing? fence.closes rest = some (body, closing, after))
    (foreign : ¬fence.isPreview = true) :
    cut line (opening :: rest) =
      match firstPreview? (line + 1) body with
      | some inner => [enclosed inner]
      | none => copied (opening :: body ++ [closing]) :: cut (line + body.length + 2) after := by
  rw [cut_closed line opening rest fence body after closing opens found, if_neg foreign]

end Segment

inductive Published : List Segment → Publication → Prop
  | nil : Published [] .empty
  | copied (lines : List Text) (rest : List Segment) (later : Publication)
      (finished : Published rest later) :
      Published (.copied lines :: rest) (Publication.append ⟨lines, 0, 0⟩ later)
  | preview (line : Nat) (fence : CodeFence) (body : List Text) (rendered : RenderedPreview)
      (rest : List Segment) (later : Publication) (finished : Published rest later) :
      Published (.preview line fence body :: rest)
        (Publication.append ⟨[fence.lead ++ rendered.markup], 1, if rendered.compiled then 1 else 0⟩ later)

theorem published_of_ok (formatter : Formatter) (segments : List Segment) (before after : Workspace)
    (publication : Publication)
    (finished : formatter.publishSegments segments before = .ok publication after) :
    Published segments publication := by
  induction segments generalizing before publication with
  | nil =>
      simp only [Formatter.publishSegments] at finished
      obtain ⟨rfl, _⟩ := (Job.pure_eq_ok_iff _ _ _ _).mp finished
      exact .nil
  | cons segment rest ih =>
      simp only [Formatter.publishSegments] at finished
      obtain ⟨first, between, published, finished⟩ := (Job.bind_eq_ok_iff _ _ _ _ _).mp finished
      obtain ⟨later, last, continued, finished⟩ := (Job.bind_eq_ok_iff _ _ _ _ _).mp finished
      obtain ⟨rfl, rfl⟩ := (Job.pure_eq_ok_iff _ _ _ _).mp finished
      have tail := ih between later continued
      cases segment with
      | copied lines =>
          obtain ⟨rfl, _⟩ := (Job.pure_eq_ok_iff _ _ _ _).mp published
          exact .copied lines rest later tail
      | enclosed line => exact absurd published (Job.throw_ne_ok _ _ _ _)
      | preview line fence body =>
          obtain ⟨rendered, middle, _, counted⟩ := (Job.bind_eq_ok_iff _ _ _ _ _).mp published
          obtain ⟨rfl, _⟩ := (Job.pure_eq_ok_iff _ _ _ _).mp counted
          exact .preview line fence body rendered rest later tail

/-- What a published document is put together from: lines outside blocks, blocks without previews, the
last of them perhaps unclosed, and rendered previews. -/
inductive Printed : List Text → Publication → Prop
  | nil : Printed [] .empty
  | line (content : Text) (rest : List Text) (later : Publication)
      (plain : CodeFence.parse? content = none) (finished : Printed rest later) :
      Printed (content :: rest) (.append ⟨[content], 0, 0⟩ later)
  | unclosed (opening : Text) (rest : List Text) (fence : CodeFence)
      (opens : CodeFence.parse? opening = some fence)
      (silent : ∀ line ∈ opening :: rest, opensPreview line = false) :
      Printed (opening :: rest) ⟨opening :: rest, 0, 0⟩
  | preview (opening : Text) (rest : List Text) (fence : CodeFence) (body after : List Text)
      (closing : Text) (rendered : RenderedPreview) (later : Publication)
      (opens : CodeFence.parse? opening = some fence)
      (found : Segment.splitAtClosing? fence.closes rest = some (body, closing, after))
      (preview : fence.isPreview = true) (finished : Printed after later) :
      Printed (opening :: rest)
        (.append ⟨[fence.lead ++ rendered.markup], 1, if rendered.compiled then 1 else 0⟩ later)
  | block (opening : Text) (rest : List Text) (fence : CodeFence) (body after : List Text)
      (closing : Text) (later : Publication) (opens : CodeFence.parse? opening = some fence)
      (found : Segment.splitAtClosing? fence.closes rest = some (body, closing, after))
      (silent : ∀ line ∈ opening :: body ++ [closing], opensPreview line = false)
      (finished : Printed after later) :
      Printed (opening :: rest) (.append ⟨opening :: body ++ [closing], 0, 0⟩ later)

theorem printed_of_published (line : Nat) (content : List Text) (publication : Publication)
    (published : Published (Segment.cut line content) publication) : Printed content publication := by
  induction line, content using Segment.cut.induct generalizing publication with
  | case1 line =>
      rw [Segment.cut] at published
      cases published with
      | nil => exact .nil
  | case2 line opening rest plain ih =>
      rw [Segment.cut_plain _ _ _ plain] at published
      cases published with
      | copied lines segments later finished => exact .line opening rest later plain (ih later finished)
  | case3 line opening rest fence opens missing inner hidden =>
      rw [Segment.cut_unclosed _ _ _ _ opens missing, hidden] at published
      cases published
  | case4 line opening rest fence opens missing silent =>
      rw [Segment.cut_unclosed _ _ _ _ opens missing, silent] at published
      cases published with
      | copied lines segments later finished =>
          cases finished with
          | nil =>
              have whole := Printed.unclosed opening rest fence opens ((firstPreview?_eq_none_iff _ _).mp silent)
              simpa [Publication.append, Publication.empty] using whole
  | case5 line opening rest fence opens body closing after found preview ih =>
      rw [Segment.cut_preview _ _ _ _ _ _ _ opens found preview] at published
      cases published with
      | preview number opened inner rendered segments later finished =>
          exact .preview opening rest fence body after closing rendered later opens found preview
            (ih later finished)
  | case6 line opening rest fence opens body closing after found foreign inner hidden =>
      rw [Segment.cut_block _ _ _ _ _ _ _ opens found foreign, hidden] at published
      cases published
  | case7 line opening rest fence opens body closing after found foreign silent ih =>
      rw [Segment.cut_block _ _ _ _ _ _ _ opens found foreign, silent] at published
      have ends := (Segment.splitAtClosing?_parts _ _ _ _ _ found).2.2
      have quiet : ∀ other ∈ opening :: body ++ [closing], opensPreview other = false := by
        simp only [List.cons_append, List.mem_cons, List.mem_append, List.not_mem_nil, or_false]
        rintro other (rfl | inside | rfl)
        · simpa [opensPreview, opens] using foreign
        · exact (firstPreview?_eq_none_iff _ _).mp silent other inside
        · exact opensPreview_eq_false_of_isClosable _
            (CodeFence.isClosable_of_closes opening _ fence opens ends)
      cases published with
      | copied lines segments later finished =>
          exact .block opening rest fence body after closing later opens found quiet (ih later finished)

/-- A line that was published: copied, or the image of a preview. -/
def IsPublished (line : Text) : Prop :=
  Inert line ∨
    ∃ (lead : Text) (rendered : RenderedPreview),
      (∀ character ∈ lead, isLead character = true) ∧ line = lead ++ rendered.markup

/-- A publication that renders each preview that opens in `content` and copies the lines `kept`. -/
structure Faithful (content kept : List Text) (publication : Publication) : Prop where
  counted : publication.previews = content.countP opensPreview
  copies : ∀ line ∈ kept, line ∈ publication.lines
  published : ∀ line ∈ publication.lines, IsPublished line

namespace Faithful

variable (rest kept : List Text) (later : Publication) (faithful : Faithful rest kept later)

include faithful

theorem copied (front : List Text) (inert : ∀ line ∈ front, Inert line) :
    Faithful (front ++ rest) (front ++ kept) (.append ⟨front, 0, 0⟩ later) := by
  have silent : front.countP opensPreview = 0 :=
    List.countP_eq_zero.mpr fun line member => by simp [(inert line member).1]
  refine ⟨?_, ?_, ?_⟩
  · simp [Publication.append, faithful.counted, List.countP_append, silent]
  · intro line member
    rcases List.mem_append.mp member with inside | inside
    · exact List.mem_append_left _ inside
    · exact List.mem_append_right _ (faithful.copies line inside)
  · intro line member
    rcases List.mem_append.mp member with inside | inside
    · exact .inl (inert line inside)
    · exact faithful.published line inside

theorem rendered (opening closing : Text) (fence : CodeFence) (body : List Text)
    (rendered : RenderedPreview) (opens : CodeFence.parse? opening = some fence)
    (preview : fence.isPreview = true) (silent : ∀ line ∈ body, opensPreview line = false)
    (closed : fence.closes closing = true) :
    Faithful (opening :: (body ++ closing :: rest)) kept
      (.append ⟨[fence.lead ++ rendered.markup], 1, if rendered.compiled then 1 else 0⟩ later) := by
  have first : opensPreview opening = true := by simp [opensPreview, opens, preview]
  have last : opensPreview closing = false :=
    opensPreview_eq_false_of_isClosable _ (CodeFence.isClosable_of_closes opening _ fence opens closed)
  have between : body.countP opensPreview = 0 :=
    List.countP_eq_zero.mpr fun line member => by simp [silent line member]
  refine ⟨?_, ?_, ?_⟩
  · simp [Publication.append, faithful.counted, List.countP_append, first, last, between, Nat.add_comm]
  · intro line member
    exact List.mem_append_right _ (faithful.copies line member)
  · intro line member
    rcases List.mem_cons.mp member with rfl | inside
    · exact .inr ⟨fence.lead, rendered, (CodeFence.parse?_parts opening fence opens).1, rfl⟩
    · exact faithful.published line inside

end Faithful

/-- If a walkable document is published, every preview that opens in it is rendered and every line to
be kept is copied. -/
theorem printed_walkable (content kept : List Text) (publication : Publication)
    (walkable : Walkable content kept) (printed : Printed content publication) :
    Faithful content kept publication := by
  induction printed generalizing kept with
  | nil =>
      cases walkable with
      | nil => exact ⟨rfl, by simp, by simp [Publication.empty]⟩
  | line opening rest later plain finished ih =>
      cases walkable with
      | line content rest kept inert walkable =>
          exact (ih kept walkable).copied _ _ _ [opening] (by simpa using inert)
      | block opening closing fence body rest kept opens => simp [plain] at opens
      | barred opening inner fence between rest kept opens => simp [plain] at opens
  | unclosed opening rest fence opens quiet =>
      obtain ⟨rfl, inert⟩ := walkable.kept_of_silent _ _ quiet
      refine ⟨?_, fun line member => member, fun line member => .inl (inert line member)⟩
      rw [List.countP_eq_zero.mpr fun line member => by simp [quiet line member]]
  | preview opening rest fence body after closing rendered later opens found preview finished ih =>
      obtain ⟨parts, _, closed⟩ := Segment.splitAtClosing?_parts _ _ _ _ _ found
      obtain ⟨goesOn, silent⟩ := walkable.after_preview _ _ _ _ _ _ fence opens preview found
      rw [parts]
      exact (ih kept goesOn).rendered _ _ _ opening closing fence body rendered opens preview silent closed
  | block opening rest fence body after closing later opens found quiet finished ih =>
      obtain ⟨more, rfl, goesOn, inert⟩ := walkable.after_opening _ _ _ _ _ _ fence opens found quiet
      have parts : opening :: rest = (opening :: body ++ [closing]) ++ after := by
        rw [(Segment.splitAtClosing?_parts _ _ _ _ _ found).1]
        simp
      rw [parts]
      exact (ih more goesOn).copied _ _ _ _ inert

end FencePreview
