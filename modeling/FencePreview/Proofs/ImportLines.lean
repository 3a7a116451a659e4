import FencePreview.Proofs.StoredImages
import FencePreview.Proofs.TextParts

/-! Sources without their import lines. A source is cut behind each line feed, and the pieces that
begin with the import keyword are left out, with their line feeds. What is left is cut as before, so
nothing new begins a line. -/

namespace FencePreview

inductive Cut : Text → List Text → Prop
  | empty : Cut [] []
  | unended (line : Text) (filled : line ≠ []) (feedless : '\n' ∉ line) : Cut line [line]
  | ended (line rest : Text) (more : List Text) (feedless : '\n' ∉ line) (later : Cut rest more) :
      Cut (line ++ '\n' :: rest) ((line ++ ['\n']) :: more)

/-- The pieces of a text that end with a line feed, and the unterminated last one. -/
def pieces : Text → List Text
  | [] => []
  | '\n' :: rest => ['\n'] :: pieces rest
  | character :: rest =>
      match pieces rest with
      | [] => [[character]]
      | first :: more => (character :: first) :: more

def isImport (piece : Text) : Bool := (Text.stripStart? importKeyword piece).isSome

theorem Cut.flatten_eq (text : Text) (parts : List Text) (cut : Cut text parts) : parts.flatten = text := by
  induction cut with
  | empty => rfl
  | unended line filled feedless => simp
  | ended line rest more feedless later ih => simp [ih]

theorem cut_pieces (text : Text) : Cut text (pieces text) := by
  induction text with
  | nil => exact .empty
  | cons character rest ih =>
      by_cases feed : character = '\n'
      · subst feed
        exact .ended [] rest _ (by simp) ih
      · rw [pieces.eq_3 character rest feed]
        generalize pieces rest = parts at ih
        cases ih with
        | empty => exact .unended [character] (by simp) (by simpa [eq_comm] using feed)
        | unended _ filled feedless => exact .unended _ (by simp) (by simp [Ne.symm feed, feedless])
        | ended line rest more feedless later =>
            exact .ended (character :: line) rest more (by simp [Ne.symm feed, feedless]) later

theorem isImport_append_feed (line rest : Text) : isImport (line ++ '\n' :: rest) = isImport line := by
  rw [Bool.eq_iff_iff, isImport, isImport, Text.stripStart?_isSome_iff, Text.stripStart?_isSome_iff]
  constructor
  · intro begins
    rcases List.prefix_or_prefix_of_prefix begins (List.prefix_append line _) with within | ⟨beyond, whole⟩
    · exact within
    · -- A keyword that went on behind the line would hold its line feed.
      cases beyond with
      | nil => simp [← whole]
      | cons next beyond =>
          rw [← whole, List.prefix_append_right_inj] at begins
          obtain rfl := (List.cons_prefix_cons.mp begins).1
          have member : '\n' ∈ importKeyword := by simp [← whole]
          exact absurd member (by decide)
  · exact fun begins => begins.trans (List.prefix_append _ _)

section Stripping

variable (line tail : Text)

theorem stripFrom_passing (feedless : '\n' ∉ line) :
    stripFrom true false (line ++ tail) = stripFrom true false tail := by
  induction line with
  | nil => rfl
  | cons character rest ih =>
      rw [List.mem_cons, not_or] at feedless
      rw [List.cons_append, stripFrom.eq_3 _ _ _ _ (Ne.symm feedless.1), if_pos rfl, ih feedless.2]

theorem stripFrom_copying (feedless : '\n' ∉ line) :
    stripFrom false false (line ++ tail) = line ++ stripFrom false false tail := by
  induction line with
  | nil => rfl
  | cons character rest ih =>
      rw [List.mem_cons, not_or] at feedless
      rw [List.cons_append, stripFrom.eq_3 _ _ _ _ (Ne.symm feedless.1), ih feedless.2]
      simp

theorem stripImports_append (feedless : '\n' ∉ line) (filled : line ≠ [])
    (alone : isImport (line ++ tail) = isImport line) :
    stripImports (line ++ tail) =
      if isImport line then stripFrom true false tail else line ++ stripFrom false false tail := by
  obtain ⟨first, rest, rfl⟩ := List.exists_cons_of_ne_nil filled
  rw [List.mem_cons, not_or] at feedless
  have decided : isImport (first :: (rest ++ tail)) = isImport (first :: rest) := alone
  rw [← decided, List.cons_append, stripImports, stripFrom.eq_3 _ _ _ _ (Ne.symm feedless.1), isImport]
  simp only [Bool.false_eq_true, if_false, Bool.true_and]
  split
  · exact stripFrom_passing rest tail feedless.2
  · rw [stripFrom_copying rest tail feedless.2]
    rfl

end Stripping

theorem stripImports_unended (line : Text) (feedless : '\n' ∉ line) :
    stripImports line = if isImport line then [] else line := by
  cases line with
  | nil => rfl
  | cons first rest =>
      have whole := stripImports_append (first :: rest) [] feedless (by simp) (by simp)
      simpa [stripFrom] using whole

theorem stripImports_ended (line rest : Text) (feedless : '\n' ∉ line) :
    stripImports (line ++ '\n' :: rest) =
      if isImport line then stripImports rest else line ++ '\n' :: stripImports rest := by
  cases line with
  | nil => rfl
  | cons first more =>
      exact stripImports_append (first :: more) ('\n' :: rest) feedless (by simp) (isImport_append_feed _ _)

/-- The pieces that are left are the pieces of what is left. -/
theorem Cut.stripImports (text : Text) (parts : List Text) (cut : Cut text parts) :
    Cut (FencePreview.stripImports text) (parts.filter fun piece => !isImport piece) := by
  induction cut with
  | empty => exact .empty
  | unended line filled feedless =>
      rw [stripImports_unended line feedless]
      cases keyword : isImport line with
      | true => simpa [keyword] using Cut.empty
      | false => simpa [keyword] using Cut.unended line filled feedless
  | ended line rest more feedless later ih =>
      have same : isImport (line ++ ['\n']) = isImport line := isImport_append_feed line []
      rw [stripImports_ended line rest feedless]
      cases keyword : isImport line with
      | true => simpa [same, keyword] using ih
      | false => simpa [same, keyword] using Cut.ended line _ _ feedless ih

theorem stripImports_eq (source : Text) :
    stripImports source = ((pieces source).filter fun piece => !isImport piece).flatten :=
  ((cut_pieces source).stripImports source _).flatten_eq.symm

theorem stripImports_idempotent (source : Text) : stripImports (stripImports source) = stripImports source := by
  have once := (cut_pieces source).stripImports source _
  have twice := once.stripImports (stripImports source) _
  calc
    stripImports (stripImports source)
      = (((pieces source).filter fun piece => !isImport piece).filter fun piece => !isImport piece).flatten :=
        twice.flatten_eq.symm
    _ = ((pieces source).filter fun piece => !isImport piece).flatten := by
        rw [List.filter_filter]
        simp only [Bool.and_self]
    _ = stripImports source := once.flatten_eq

namespace Attributes

def without (attributes : Attributes) (key : Text) : Attributes :=
  ⟨attributes.bindings.filter fun binding => binding.1 ≠ key⟩

theorem get?_without (attributes : Attributes) (key sought : Text) :
    (attributes.without key).get? sought = if sought = key then none else attributes.get? sought :=
  lookup_filter_key attributes.bindings key sought

end Attributes

def fakeKey : Text := "fake".toList

namespace PreviewSettings

theorem dropImports_eq (attributes : Attributes) (settings : PreviewSettings)
    (accepted : ofAttributes attributes = .ok settings) : settings.dropImports = attributes.has fakeKey := by
  rw [ofAttributes] at accepted
  cases chosen : chooseMode attributes with
  | error error =>
      rw [chosen] at accepted
      cases accepted
  | ok mode =>
      rw [chosen] at accepted
      cases accepted
      rfl

theorem ofAttributes_without_fake (attributes : Attributes) :
    ofAttributes (attributes.without fakeKey) =
      (ofAttributes attributes).map fun settings => { settings with dropImports := false } := by
  have fake : (attributes.without fakeKey).has fakeKey = false := by
    rw [Attributes.has, Attributes.get?_without, if_pos rfl]
    rfl
  have chosen : chooseMode (attributes.without fakeKey) = chooseMode attributes := by
    have mode : (attributes.without fakeKey).get? "mode".toList = attributes.get? "mode".toList :=
      attributes.get?_without fakeKey _
    have lang : (attributes.without fakeKey).get? "lang".toList = attributes.get? "lang".toList :=
      attributes.get?_without fakeKey _
    rw [chooseMode, chooseMode, mode, lang]
  rw [fakeKey] at fake chosen
  rw [fakeKey, ofAttributes, ofAttributes, fake, chosen]
  cases chooseMode attributes <;> rfl

end PreviewSettings

/-- A source is stripped by leaving out those of its pieces that are import lines; the others stay
pieces, and stripping again does nothing. Rendering with the attribute `fake` is rendering the stripped
source with the other attributes: from any workspace it ends in the same way, with the same compiler
calls, files and log. -/
theorem Formatter.render_fake (formatter : Formatter) (source : Text) (attributes : Attributes) :
    Cut source (pieces source) ∧
    stripImports source = ((pieces source).filter fun piece => !isImport piece).flatten ∧
    Cut (stripImports source) ((pieces source).filter fun piece => !isImport piece) ∧
    stripImports (stripImports source) = stripImports source ∧
    (attributes.has fakeKey = true → ∀ workspace,
      formatter.render source attributes workspace =
        formatter.render (stripImports source) (attributes.without fakeKey) workspace) := by
  refine ⟨cut_pieces source, stripImports_eq source, (cut_pieces source).stripImports source _,
    stripImports_idempotent source, fun fake workspace => ?_⟩
  have bare := PreviewSettings.ofAttributes_without_fake attributes
  cases accepted : PreviewSettings.ofAttributes attributes with
  | error error =>
      rw [accepted] at bare
      simp only [render, accepted, bare, Except.map]
  | ok settings =>
      have drops : settings.dropImports = true := (PreviewSettings.dropImports_eq _ _ accepted).trans fake
      rw [accepted] at bare
      have same : formatter.document settings source =
          formatter.document { settings with dropImports := false } (stripImports source) := by
        funext variant
        simp [document, drops]
      cases hasSite : formatter.sitePath with
      | none => simp only [render, accepted, bare, Except.map, hasSite]
      | some site => simp only [render, accepted, bare, Except.map, hasSite, same]

/-- An import line with a carriage return, text, and an import line without an end. -/
theorem Formatter.render_fake_returns :
    let compiler := Compiler.writing fun _ => ByteArray.empty
    let source : Text := "#import \"a\"\r\nx\n#import b".toList
    let attributes := (Attributes.ofInfo "typst-preview fake mode=basic".toList).2
    attributes.has fakeKey = true ∧ stripImports source = "x\n".toList ∧
      ∀ workspace, (small compiler).render source attributes workspace =
        (small compiler).render "x\n".toList .basic workspace := by
  intro compiler source attributes
  have fake : attributes.has fakeKey = true := by decide
  obtain ⟨_, _, _, _, same⟩ := render_fake (small compiler) source attributes
  have stripped : stripImports source = "x\n".toList := by decide
  have others : attributes.without fakeKey = .basic := by decide
  refine ⟨fake, stripped, fun workspace => ?_⟩
  rw [same fake workspace, stripped, others]

end FencePreview
