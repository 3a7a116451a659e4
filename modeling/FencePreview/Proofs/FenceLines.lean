import FencePreview.Fence.Code
import FencePreview.Fence.Directive
import FencePreview.Proofs.TextParts

/-! What makes a line open or close a fenced block, for lines put together from their parts. -/

namespace FencePreview

theorem isMark_not_isLead (mark : Char) (marks : isMark mark = true) : isLead mark = false := by
  simp only [isMark, Bool.or_eq_true, decide_eq_true_eq] at marks
  rcases marks with rfl | rfl <;> decide

theorem isMark_not_isIndent (mark : Char) (marks : isMark mark = true) : Text.isIndent mark = false := by
  simp only [isMark, Bool.or_eq_true, decide_eq_true_eq] at marks
  rcases marks with rfl | rfl <;> decide

def IsMarker (marker : Text) : Prop :=
  ∃ mark count, isMark mark = true ∧ 3 ≤ count ∧ marker = List.replicate count mark

namespace IsMarker

theorem head (marker : Text) (shape : IsMarker marker) :
    ∃ mark, isMark mark = true ∧ marker.head? = some mark ∧ ∀ character ∈ marker, character = mark := by
  obtain ⟨mark, count, marks, enough, rfl⟩ := shape
  refine ⟨mark, marks, ?_, ?_⟩
  · rw [List.head?_replicate, if_neg (by omega)]
  · exact fun character member => List.eq_of_mem_replicate member

theorem isMark_of_mem (marker : Text) (shape : IsMarker marker) (character : Char)
    (member : character ∈ marker) : isMark character = true := by
  obtain ⟨mark, marks, _, all⟩ := head marker shape
  rw [all character member]
  exact marks

theorem not_isLead (marker rest : Text) (shape : IsMarker marker) :
    ∀ character ∈ (marker ++ rest).head?, isLead character = false := by
  obtain ⟨mark, marks, first, _⟩ := shape.head
  intro character begins
  rw [List.head?_append, first] at begins
  simp only [Option.some_or, Option.mem_def, Option.some.injEq] at begins
  exact begins ▸ isMark_not_isLead mark marks

end IsMarker

/-- A run of marks is cut off where another character follows it. -/
theorem markerRun?_append (marker rest : Text) (shape : IsMarker marker)
    (stops : rest.head? ≠ marker.head?) : markerRun? (marker ++ rest) = some (marker, rest) := by
  obtain ⟨mark, count, marks, enough, rfl⟩ := shape
  obtain ⟨less, rfl⟩ : ∃ less, count = less + 1 := ⟨count - 1, by omega⟩
  have other : ∀ character ∈ rest.head?, decide (character = mark) = false := by
    intro character first
    rw [decide_eq_false_iff_not]
    rintro rfl
    exact stops (by simpa [List.replicate_succ] using first)
  have run := Text.takeWhile_append_stop (fun character => decide (character = mark))
    (List.replicate (less + 1) mark) rest (by simp) other
  have tail := Text.dropWhile_append_stop (fun character => decide (character = mark))
    (List.replicate (less + 1) mark) rest (by simp) other
  rw [List.replicate_succ, List.cons_append] at run tail ⊢
  simp only [markerRun?]
  rw [run, tail]
  simp [marks, enough]

theorem markerRun?_parts (text marker rest : Text) (found : markerRun? text = some (marker, rest)) :
    IsMarker marker ∧ rest.head? ≠ marker.head? ∧ text = marker ++ rest := by
  have parts := markerRun?_eq_append text marker rest found
  cases text with
  | nil => simp [markerRun?] at found
  | cons mark text =>
      simp only [markerRun?] at found
      split at found
      · rename_i accepted
        simp only [Option.some.injEq, Prod.mk.injEq] at found
        obtain ⟨run, left⟩ := found
        simp only [Bool.and_eq_true, decide_eq_true_eq, run] at accepted
        obtain ⟨marks, enough⟩ := accepted
        have repeated : marker = List.replicate marker.length mark := by
          refine List.eq_replicate_iff.mpr ⟨rfl, fun character member => ?_⟩
          rw [← run] at member
          simpa using List.mem_takeWhile_imp member
        have other : ∀ character ∈ rest.head?, character ≠ mark := by
          intro character begins
          rw [← left] at begins
          simpa using eq_false_of_head?_dropWhile _ _ _ begins
        refine ⟨⟨mark, marker.length, marks, enough, repeated⟩, ?_, parts⟩
        intro same
        have first : marker.head? = some mark := by rw [← run]; simp
        exact other mark (by rw [same, first]; rfl) rfl
      · simp at found

theorem leadOf_append (lead rest : Text) (leads : ∀ character ∈ lead, isLead character = true)
    (stops : ∀ character ∈ rest.head?, isLead character = false) : leadOf (lead ++ rest) = lead :=
  Text.takeWhile_append_stop isLead lead rest leads stops

theorem withoutLead_append (lead rest : Text) (leads : ∀ character ∈ lead, isLead character = true)
    (stops : ∀ character ∈ rest.head?, isLead character = false) : withoutLead (lead ++ rest) = rest :=
  Text.dropWhile_append_stop isLead lead rest leads stops

theorem isLead_of_mem_leadOf (line : Text) (character : Char) (member : character ∈ leadOf line) :
    isLead character = true := List.mem_takeWhile_imp member

/-- A line with no run of marks after its quote characters. -/
def isUnfenced (line : Text) : Bool := (markerRun? (withoutLead line)).isNone

/-- A line of quote characters, a run of marks and blanks, as the closing line of a block is. -/
def isClosable (line : Text) : Bool :=
  (markerRun? (withoutLead line)).any fun run => run.2.all Text.isIndent

theorem isUnfenced_append (lead rest : Text) (first : Char)
    (leads : ∀ character ∈ lead, isLead character = true) (notLead : isLead first = false)
    (notMark : isMark first = false) : isUnfenced (lead ++ first :: rest) = true := by
  rw [isUnfenced, withoutLead_append lead (first :: rest) leads (by simpa using notLead)]
  simp [markerRun?, notMark]

theorem isUnfenced_of_head? (line : Text) (first : Char) (begins : line.head? = some first)
    (notLead : isLead first = false) (notMark : isMark first = false) : isUnfenced line = true := by
  cases line with
  | nil => simp at begins
  | cons other rest =>
      rw [List.head?_cons, Option.some.injEq] at begins
      subst begins
      exact isUnfenced_append [] rest other (by simp) notLead notMark

theorem isUnfenced_of_no_mark (line : Text) (none : ∀ character ∈ line, isMark character = false) :
    isUnfenced line = true := by
  cases rest : withoutLead line with
  | nil => simp [isUnfenced, rest, markerRun?]
  | cons first tail =>
      have inside : first ∈ line :=
        (List.dropWhile_sublist isLead).subset (by rw [← withoutLead, rest]; simp)
      simp [isUnfenced, rest, markerRun?, none first inside]

namespace CodeFence

theorem parse?_of_isUnfenced (line : Text) (unfenced : isUnfenced line = true) : parse? line = none := by
  simp only [isUnfenced, Option.isNone_iff_eq_none] at unfenced
  simp [parse?, unfenced]

theorem parse?_append (lead marker rest : Text) (leads : ∀ character ∈ lead, isLead character = true)
    (shape : IsMarker marker) (stops : rest.head? ≠ marker.head?)
    (oneLine : '\n' ∉ lead ++ (marker ++ rest)) :
    parse? (lead ++ (marker ++ rest)) =
      if marker.head? = some backtick ∧ backtick ∈ Text.trimEnd (rest.dropWhile Text.isIndent) then none
      else some { lead, marker, info := Text.trimEnd (rest.dropWhile Text.isIndent) } := by
  have notLead := shape.not_isLead marker rest
  rw [parse?, if_neg oneLine, withoutLead_append lead _ leads notLead,
    markerRun?_append marker rest shape stops, leadOf_append lead _ leads notLead]

theorem parse?_parts (line : Text) (fence : CodeFence) (opens : parse? line = some fence) :
    (∀ character ∈ fence.lead, isLead character = true) ∧ IsMarker fence.marker ∧
      ∃ rest, rest.head? ≠ fence.marker.head? ∧ line = fence.lead ++ (fence.marker ++ rest) ∧
        fence.info = Text.trimEnd (rest.dropWhile Text.isIndent) := by
  simp only [parse?] at opens
  split at opens
  · simp at opens
  · split at opens
    · simp at opens
    · rename_i marker rest run
      obtain ⟨shape, stops, parts⟩ := markerRun?_parts _ _ _ run
      split at opens
      · simp at opens
      · simp only [Option.some.injEq] at opens
        subst opens
        refine ⟨isLead_of_mem_leadOf line, shape, rest, stops, ?_, rfl⟩
        rw [← parts, leadOf_append_withoutLead]

theorem isPreview_eq_false_of_info_nil (fence : CodeFence) (bare : fence.info = []) :
    fence.isPreview = false := by
  simp [isPreview, bare, Text.firstWord?]

end CodeFence

theorem isClosable_append (lead marker rest : Text) (leads : ∀ character ∈ lead, isLead character = true)
    (shape : IsMarker marker) (stops : rest.head? ≠ marker.head?) :
    isClosable (lead ++ (marker ++ rest)) = rest.all Text.isIndent := by
  rw [isClosable, withoutLead_append lead _ leads (shape.not_isLead marker rest),
    markerRun?_append marker rest shape stops]
  rfl

theorem head?_ne_of_all_isIndent (marker rest : Text) (shape : IsMarker marker)
    (blank : ∀ character ∈ rest, Text.isIndent character = true) : rest.head? ≠ marker.head? := by
  obtain ⟨mark, marks, first, _⟩ := shape.head
  intro same
  rw [first] at same
  have indent := blank mark (List.mem_of_mem_head? same)
  rw [isMark_not_isIndent mark marks] at indent
  exact Bool.false_ne_true indent

namespace CodeFence

theorem isClosable_of_closes (opening line : Text) (fence : CodeFence)
    (opens : parse? opening = some fence) (closing : fence.closes line = true) :
    isClosable line = true := by
  obtain ⟨leads, shape, _⟩ := parse?_parts opening fence opens
  simp only [closes] at closing
  split at closing
  · rename_i tail found
    have blank := List.all_eq_true.mp closing
    obtain ⟨inner, stripped, run⟩ := Option.bind_eq_some_iff.mp found
    have lineParts := (Text.stripStart?_eq_some_iff _ _ _).mp stripped
    simp only [afterClosingRun?] at run
    split at run
    · have innerParts := (Text.stripStart?_eq_some_iff _ _ _).mp run
      rw [lineParts, innerParts, isClosable_append _ _ _ leads shape
        (head?_ne_of_all_isIndent _ _ shape blank)]
      exact closing
    · split at run
      · rename_i long
        obtain ⟨mark, count, marks, enough, same⟩ := shape
        have headMark : fence.marker.headD backtick = mark := by
          rw [same]
          obtain ⟨less, rfl⟩ : ∃ less, count = less + 1 := ⟨count - 1, by omega⟩
          rfl
        rw [headMark] at run long
        simp only [Option.some.injEq] at run
        subst run
        have longer : IsMarker (inner.takeWhile fun character => decide (character = mark)) := by
          refine ⟨mark, _, marks, ?_, List.eq_replicate_iff.mpr
            ⟨rfl, fun character member => by simpa using List.mem_takeWhile_imp member⟩⟩
          rw [same, List.length_replicate] at long
          omega
        rw [lineParts, ← List.takeWhile_append_dropWhile (p := fun character => decide (character = mark))
          (l := inner), isClosable_append _ _ _ leads longer (head?_ne_of_all_isIndent _ _ longer blank)]
        exact closing
      · simp at run
  · simp at closing

end CodeFence

theorem opensPreview_eq_false_of_isClosable (line : Text) (closable : isClosable line = true) :
    opensPreview line = false := by
  cases opens : CodeFence.parse? line with
  | none => simp [opensPreview, opens]
  | some fence =>
      obtain ⟨leads, shape, rest, stops, parts, info⟩ := CodeFence.parse?_parts line fence opens
      rw [parts, isClosable_append _ _ _ leads shape stops] at closable
      have blank : rest.dropWhile Text.isIndent = [] :=
        List.dropWhile_eq_nil_iff.mpr (List.all_eq_true.mp closable)
      have bare : fence.info = [] := by rw [info, blank]; rfl
      simp [opensPreview, opens, CodeFence.isPreview_eq_false_of_info_nil fence bare]

theorem isClosable_eq_false_of_parse?_eq_none (line : Text) (oneLine : '\n' ∉ line)
    (plain : CodeFence.parse? line = none) : isClosable line = false := by
  rw [Bool.eq_false_iff]
  intro closable
  simp only [isClosable, Option.any_eq_true] at closable
  obtain ⟨run, found, blank⟩ := closable
  have bare : Text.trimEnd (run.2.dropWhile Text.isIndent) = [] := by
    rw [List.dropWhile_eq_nil_iff.mpr (List.all_eq_true.mp blank)]
    rfl
  simp [CodeFence.parse?, oneLine, found, bare] at plain

theorem opensPreview_eq_false_of_isUnfenced (line : Text) (unfenced : isUnfenced line = true) :
    opensPreview line = false := by
  simp [opensPreview, CodeFence.parse?_of_isUnfenced line unfenced]

theorem isClosable_eq_false_of_isUnfenced (line : Text) (unfenced : isUnfenced line = true) :
    isClosable line = false := by
  simp only [isUnfenced, Option.isNone_iff_eq_none] at unfenced
  simp [isClosable, unfenced]

end FencePreview
