import FencePreview.Proofs.Layout

/-! What a panel takes in after its source. The lines up to the last numbered item belong to it, blank
lines between them included, and the number that is recorded for it counts them all. -/

namespace FencePreview

namespace PanelSource

/-- A panel among lines, the first of them numbered `line`, with everything that belongs to it. -/
structure Among (source : PanelSource) (line : Nat) (content : List Text) : Prop where
  place : ∃ above below, content = above ++ ((Passage.panel source).own ++ below) ∧
    source.line = line + above.length ∧ ∀ next ∈ below.head?, attaches source.fence.lead next = false
  sound : source.Sound
  numbered : ∀ last ∈ source.items.getLast?, isNumberedItem source.fence.lead last = true
  blank : ∀ line ∈ source.trailing, isBlankLine line = true

theorem own_gather (fence : DirectiveFence) (line : Nat) (opening closing : Text)
    (body attached : List Text) :
    (Passage.panel (gather fence line opening body closing attached)).own =
      opening :: (body ++ closing :: attached) := by
  simp [Passage.own, gather, copied, List.rdropWhile_append_rtakeWhile]

theorem numbered_gather (fence : DirectiveFence) (line : Nat) (opening closing : Text)
    (body attached : List Text) :
    ∀ last ∈ (gather fence line opening body closing attached).items.getLast?,
      isNumberedItem fence.lead last = true := by
  intro last ends
  obtain ⟨filled, rfl⟩ := List.mem_getLast?_eq_getLast ends
  have stops := List.rdropWhile_last_not (fun line => !isNumberedItem fence.lead line) attached filled
  rw [Bool.not_eq_true, Bool.not_eq_false'] at stops
  exact stops

theorem blank_gather (fence : DirectiveFence) (line : Nat) (opening closing : Text)
    (body attached : List Text) (all : ∀ held ∈ attached, attaches fence.lead held = true) :
    ∀ held ∈ (gather fence line opening body closing attached).trailing, isBlankLine held = true := by
  intro held member
  have unnumbered : isNumberedItem fence.lead held = false := by
    simpa using List.mem_rtakeWhile_imp member
  simpa [attaches, unnumbered] using all held ((List.rtakeWhile_suffix _ _).subset member)

theorem Among.further (source : PanelSource) (line : Nat) (front content : List Text)
    (among : source.Among (line + front.length) content) : source.Among line (front ++ content) := by
  obtain ⟨⟨above, below, parts, place, stops⟩, sound, numbered, blank⟩ := among
  refine ⟨⟨front ++ above, below, by rw [parts, List.append_assoc], ?_, stops⟩, sound, numbered, blank⟩
  rw [place, List.length_append, Nat.add_assoc]

end PanelSource

theorem Layout.read_among (line : Nat) (content : List Text) (source : PanelSource)
    (member : source ∈ (read line content).panels) : source.Among line content := by
  induction line, content using read.induct with
  | case1 line => simp [read, panels] at member
  | case2 line opening rest plain ih =>
      rw [read_plain _ _ _ plain] at member
      exact PanelSource.Among.further source line [opening] rest (ih member)
  | case3 line opening rest fence opens missing =>
      rw [read_unterminated _ _ _ _ opens missing] at member
      simp [panels] at member
  | case4 line opening rest fence opens body closing after found attached ih =>
      rw [read_panel _ _ _ _ _ _ _ opens found] at member
      obtain ⟨parts, continues, closed⟩ := Segment.splitAtClosing?_parts _ _ _ _ _ found
      let own := (Passage.panel (.gather fence line opening body closing attached)).own
      have whole : opening :: rest = own ++ after.dropWhile (attaches fence.lead) := by
        have later : after = attached ++ after.dropWhile (attaches fence.lead) :=
          List.takeWhile_append_dropWhile.symm
        simp only [own, PanelSource.own_gather]
        rw [List.cons_append, List.append_assoc, List.cons_append, ← later, parts]
      have all : ∀ line ∈ attached, attaches fence.lead line = true := fun _ => List.mem_takeWhile_imp
      rcases List.mem_cons.mp member with rfl | later
      · refine ⟨⟨[], _, whole, rfl, eq_false_of_head?_dropWhile (attaches fence.lead) after⟩,
          ⟨opens, continues, closed, ?_⟩,
          PanelSource.numbered_gather fence line opening closing body attached,
          PanelSource.blank_gather fence line opening closing body attached all⟩
        simpa only [PanelSource.gather, List.rdropWhile_append_rtakeWhile] using all
      · rw [whole]
        apply PanelSource.Among.further
        have size : own.length = body.length + 2 + attached.length := by
          simp only [own, PanelSource.own_gather, List.length_cons, List.length_append]
          omega
        rw [size, ← Nat.add_assoc, ← Nat.add_assoc]
        exact ih later

namespace PanelSource

variable (source : PanelSource)

/-- Items, and the blank lines before the last of them. -/
theorem length_items (sound : source.Sound) :
    source.items.length =
      source.items.countP (isNumberedItem source.fence.lead) + source.items.countP isBlankLine := by
  rw [List.length_eq_countP_add_countP isBlankLine, Nat.add_comm]
  congr 1
  refine List.countP_congr fun line member => ?_
  have attached := sound.attached line (List.mem_append_left _ member)
  by_cases blank : isBlankLine line = true
  · simp [blank, isNumberedItem_eq_false_of_blank source.fence.lead line blank]
  · simpa [attaches, blank] using attached

theorem countP_absorbed (blank : ∀ line ∈ source.trailing, isBlankLine line = true) :
    (source.items ++ source.trailing).countP (isNumberedItem source.fence.lead) =
      source.items.countP (isNumberedItem source.fence.lead) := by
  rw [List.countP_append, Nat.add_eq_left, List.countP_eq_zero]
  intro line member
  simp [isNumberedItem_eq_false_of_blank source.fence.lead line (blank line member)]

end PanelSource

/-- The number recorded for a panel is that of its items and of the blank lines before and between them;
it is that of the items alone only where no such blank line is. -/
theorem Scanner.scanLines_items (warnings : List ScanWarning) (previews : List PreviewBlock)
    (content out : List Text) (done : Scanner)
    (finished : scanLines ⟨.outside, none, warnings, previews⟩ content = (done, .ok out)) :
    let sources := (Layout.read 1 content).panels
    done.previews = previews ++ sources.map PanelSource.record ∧
      ∀ source ∈ sources, source.Among 1 content ∧
        let numbered := (source.items ++ source.trailing).countP (isNumberedItem source.fence.lead)
        source.record.items = numbered + source.items.countP isBlankLine ∧
          (source.record.items = numbered ↔ ∀ line ∈ source.items, isBlankLine line = false) := by
  intro sources
  rw [scanLines_eq_ofLayout] at finished
  obtain ⟨rfl, _⟩ := Prod.mk.inj finished
  refine ⟨rfl, fun source member => ?_⟩
  have among := Layout.read_among 1 content source member
  have counted := source.length_items among.sound
  refine ⟨among, ?_⟩
  intro numbered
  have absorbed : numbered = source.items.countP (isNumberedItem source.fence.lead) :=
    source.countP_absorbed among.blank
  have recorded : source.record.items = source.items.length := rfl
  rw [absorbed, recorded, ← counted]
  refine ⟨rfl, ?_⟩
  rw [counted, Nat.add_eq_left, List.countP_eq_zero]
  simp only [Bool.not_eq_true]

/-- Two items with a blank line before each of them are recorded as four. -/
theorem Scanner.scanLines_items_gaps :
    let content : List Text := ["```typst +preview".toList, "x".toList, "```".toList, [], "1. a".toList, [],
      "2. b".toList, [], "text".toList]
    ∃ done out, ∃ source : PanelSource, new.scanLines content = (done, .ok out) ∧
      done.previews = [source.record] ∧ source.Among 1 content ∧ source.record.items = 4 ∧
      (source.items ++ source.trailing).countP (isNumberedItem source.fence.lead) = 2 := by
  intro content
  have succeeds : (new.scanLines content).2.toOption.isSome = true := by decide +kernel
  have gaps : ((Layout.read 1 content).panels.map fun source => source.items.countP isBlankLine) = [2] ∧
      ((Layout.read 1 content).panels.map fun source => source.record.items) = [4] := by decide +kernel
  obtain ⟨out, finished⟩ := exists_scanLines_eq_ok new content succeeds
  obtain ⟨recorded, found⟩ := scanLines_items [] [] content out _ finished
  obtain ⟨source, alone, blanks⟩ := List.map_eq_singleton_iff.mp gaps.1
  rw [alone] at recorded found gaps
  obtain ⟨among, counted, _⟩ := found source (by simp)
  have four : source.record.items = 4 := by simpa using gaps.2
  exact ⟨_, out, source, finished, recorded, among, four, by omega⟩

end FencePreview
