import FencePreview.Panel.Options
import FencePreview.Proofs.Quoting
import Mathlib.Algebra.Group.Nat.Even
import Mathlib.Data.List.Perm.Basic

/-! Options as they are written. The tokens stand in order with separators between them; which
separators, how many, and whether some come before and after, is free. Reading gives the tokens
back, so options depend on nothing else in the text. -/

namespace FencePreview

namespace Text

theorem quotedAfter_eq_false_iff (quoted : Bool) (text : Text) :
    quotedAfter quoted text = false ↔ (Even (text.count '"') ↔ quoted = false) := by
  induction text generalizing quoted with
  | nil => simp [quotedAfter]
  | cons character rest ih =>
      by_cases quote : character = '"'
      · subst quote
        simp only [quotedAfter, if_true, ih, List.count_cons_self, Nat.even_add_one]
        cases quoted <;> simp
      · simp only [quotedAfter, quote, if_false, ih, List.count_cons_of_ne quote]

theorem quotedAfter_false_iff (text : Text) : quotedAfter false text = false ↔ Even (text.count '"') := by
  simp [quotedAfter_eq_false_iff]

theorem mem_outsideQuotes_iff (quoted : Bool) (text : Text) (character : Char) :
    character ∈ outsideQuotes quoted text ↔
      character ≠ '"' ∧ ∃ before after, text = before ++ character :: after ∧
        quotedAfter quoted before = false := by
  induction text generalizing quoted with
  | nil => simp [outsideQuotes]
  | cons first rest ih =>
      have later : (∃ before after, first :: rest = before ++ character :: after ∧
            quotedAfter quoted before = false) ↔
          (first = character ∧ quoted = false) ∨ ∃ before after, rest = before ++ character :: after ∧
            quotedAfter (quotedAfter quoted [first]) before = false := by
        constructor
        · rintro ⟨before, after, parts, closed⟩
          cases before with
          | nil => exact .inl ⟨(List.cons.inj parts).1, closed⟩
          | cons head before =>
              obtain ⟨rfl, tail⟩ := List.cons.inj parts
              exact .inr ⟨before, after, tail, closed⟩
        · rintro (⟨rfl, closed⟩ | ⟨before, after, rfl, closed⟩)
          · exact ⟨[], rest, rfl, closed⟩
          · exact ⟨first :: before, after, rfl, closed⟩
      rw [later, outsideQuotes_cons, List.mem_append, ih, and_or_left]
      refine or_congr ?_ Iff.rfl
      by_cases quote : first = '"'
      · simp only [outsideQuotes, quote, if_true, List.not_mem_nil, false_iff]
        rintro ⟨other, same, _⟩
        exact other same.symm
      · cases quoted with
        | true => simp [outsideQuotes, quote]
        | false =>
            simp only [outsideQuotes, quote, if_false, Bool.false_eq_true, List.mem_singleton, and_true]
            constructor
            · rintro rfl
              exact ⟨quote, rfl⟩
            · exact fun both => both.2.symm

end Text

namespace PanelOptions

def IsGap (gap : Text) : Prop := ∀ character ∈ gap, separates character = true

/-- A token that stays whole among others. Outside its quotes is what an even number of them
precedes. -/
structure IsOption (token : Text) : Prop where
  filled : token ≠ []
  closed : Even (token.count '"')
  solid : ∀ before character after, token = before ++ character :: after →
    Even (before.count '"') → separates character = false

/-- The texts in which given tokens are written in order. -/
inductive Spells : List Text → Text → Prop
  | none (gap : Text) (blank : IsGap gap) : Spells [] gap
  | last (lead token tail : Text) (before : IsGap lead) (behind : IsGap tail) :
      Spells [token] (lead ++ token ++ tail)
  | more (lead token gap : Text) (tokens : List Text) (text : Text) (before : IsGap lead)
      (between : IsGap gap) (apart : gap ≠ []) (later : Spells tokens text) :
      Spells (token :: tokens) (lead ++ token ++ gap ++ text)

/-- Tokens that are no flags of the panel. -/
def passes (token : Text) : Bool := token ≠ verticalFlag && token ≠ legacyFlag

theorem isOption_iff (token : Text) :
    IsOption token ↔ token ≠ [] ∧ Text.quotedAfter false token = false ∧
      ∀ character ∈ Text.outsideQuotes false token, separates character = false := by
  rw [Text.quotedAfter_false_iff]
  constructor
  · rintro ⟨filled, closed, solid⟩
    refine ⟨filled, closed, fun character outside => ?_⟩
    obtain ⟨_, before, after, parts, even⟩ := (Text.mem_outsideQuotes_iff _ _ _).mp outside
    exact solid before character after parts ((Text.quotedAfter_false_iff _).mp even)
  · rintro ⟨filled, closed, solid⟩
    refine ⟨filled, closed, fun before character after parts even => ?_⟩
    by_cases quote : character = '"'
    · rw [quote]
      decide
    · exact solid character ((Text.mem_outsideQuotes_iff _ _ _).mpr
        ⟨quote, before, after, parts, (Text.quotedAfter_false_iff _).mpr even⟩)

theorem separates_ne_quote (character : Char) (separator : separates character = true) : character ≠ '"' := by
  rintro rfl
  exact absurd separator (by decide)

theorem tokens_gap_append (gap text : Text) (blank : IsGap gap) :
    Text.tokens separates (gap ++ text) = Text.tokens separates text := by
  induction gap with
  | nil => rfl
  | cons first rest ih =>
      have separator := blank first (by simp)
      have cut := Text.tokensFrom_append_separator separates first separator (separates_ne_quote _ separator)
        false [] [] (rest ++ text) rfl
      rw [← ih fun character member => blank character (List.mem_cons_of_mem _ member)]
      exact cut

theorem tokens_option (token : Text) (option : IsOption token) : Text.tokens separates token = [token] := by
  obtain ⟨filled, _, solid⟩ := (isOption_iff token).mp option
  rw [Text.tokens, Text.tokensFrom_whole separates false [] token solid, List.nil_append, Text.tokensFrom_nil]
  simp [filled]

theorem tokens_option_append (token gap text : Text) (option : IsOption token) (blank : IsGap gap)
    (apart : gap ≠ []) :
    Text.tokens separates (token ++ gap ++ text) = token :: Text.tokens separates text := by
  obtain ⟨first, rest, rfl⟩ := List.exists_cons_of_ne_nil apart
  have separator := blank first (by simp)
  have cut := Text.tokensFrom_append_separator separates first separator (separates_ne_quote _ separator)
    false [] token (rest ++ text) ((isOption_iff token).mp option).2.1
  have spaced := tokens_gap_append rest text fun character member => blank character (List.mem_cons_of_mem _ member)
  have single := tokens_option token option
  rw [Text.tokens] at single spaced
  rw [Text.tokens, List.append_assoc, List.cons_append, cut, single, spaced]
  rfl

/-- Reading gives back the tokens that were written. -/
theorem Spells.tokens_eq (tokens : List Text) (text : Text) (options : ∀ token ∈ tokens, IsOption token)
    (spelled : Spells tokens text) : Text.tokens separates text = tokens := by
  induction spelled with
  | none gap blank =>
      have alone := tokens_gap_append gap [] blank
      rwa [List.append_nil] at alone
  | last lead token tail before behind =>
      have option := options token (by simp)
      rw [List.append_assoc, tokens_gap_append lead _ before]
      by_cases ends : tail = []
      · rw [ends, List.append_nil, tokens_option token option]
      · have alone := tokens_option_append token tail [] option behind ends
        rwa [List.append_nil] at alone
  | more lead token gap tokens text before between apart later ih =>
      rw [List.append_assoc lead, List.append_assoc lead, tokens_gap_append lead _ before,
        tokens_option_append token gap text (options token (by simp)) between apart,
        ih fun other member => options other (List.mem_cons_of_mem _ member)]

theorem Spells.gap_append (gap text : Text) (tokens : List Text) (blank : IsGap gap)
    (spelled : Spells tokens text) : Spells tokens (gap ++ text) := by
  have wider : ∀ lead, IsGap lead → IsGap (gap ++ lead) := fun lead before character member =>
    (List.mem_append.mp member).elim (blank character) (before character)
  cases spelled with
  | none _ behind => exact .none _ (wider _ behind)
  | last lead token tail before behind =>
      rw [← List.append_assoc, ← List.append_assoc]
      exact .last _ token tail (wider lead before) behind
  | more lead token between tokens text before separated apart later =>
      rw [← List.append_assoc, ← List.append_assoc, ← List.append_assoc]
      exact .more _ token between tokens text (wider lead before) separated apart later

theorem spells_tokensFrom (quoted : Bool) (current text : Text) (state : Text.quotedAfter false current = quoted)
    (solid : ∀ character ∈ Text.outsideQuotes false current, separates character = false)
    (closed : Text.quotedAfter quoted text = false) :
    Spells (Text.tokensFrom separates quoted current text) (current ++ text) ∧
      ∀ token ∈ Text.tokensFrom separates quoted current text, IsOption token := by
  induction text generalizing quoted current with
  | nil =>
      rw [Text.tokensFrom_nil, List.append_nil]
      cases current with
      | nil => exact ⟨.none [] (by simp [IsGap]), by simp⟩
      | cons first rest =>
          have ends : Text.quotedAfter false (first :: rest) = false := state.trans closed
          have option := (isOption_iff (first :: rest)).mpr ⟨by simp, ends, solid⟩
          have written := Spells.last [] (first :: rest) [] (by simp [IsGap]) (by simp [IsGap])
          simp only [List.nil_append, List.append_nil] at written
          exact ⟨written, by simpa using option⟩
  | cons character rest ih =>
      have later : Text.quotedAfter (Text.quotedAfter quoted [character]) rest = false := closed
      rcases Text.tokensFrom_step separates quoted current character with
        ⟨rfl, separator, _, unquoted, cut⟩ | ⟨kept, extended⟩
      · rw [unquoted] at later
        obtain ⟨written, options⟩ := ih false [] rfl (by simp [Text.outsideQuotes]) later
        rw [cut, Text.tokensFrom_nil]
        have blank : IsGap [character] := by simpa [IsGap] using separator
        cases current with
        | nil => exact ⟨written.gap_append [character] _ _ blank, by simpa using options⟩
        | cons first more =>
            have option := (isOption_iff (first :: more)).mpr ⟨by simp, state, solid⟩
            have joined := Spells.more [] (first :: more) [character] _ _ (by simp [IsGap]) blank (by simp) written
            rw [List.nil_append, List.append_assoc] at joined
            exact ⟨joined, by simpa using ⟨option, options⟩⟩
      · rw [extended]
        have grown := ih _ (current ++ [character]) (Text.quotedAfter_concat quoted current character state)
          (fun outside member => by
            rw [Text.outsideQuotes_append, state, List.mem_append] at member
            exact member.elim (solid outside) (kept outside)) later
        rwa [List.append_assoc, List.singleton_append] at grown

/-- A text whose quotes are closed is read as the one list of tokens that it spells. -/
theorem tokens_eq_iff (tokens : List Text) (text : Text) (closed : Even (text.count '"')) :
    Text.tokens separates text = tokens ↔ Spells tokens text ∧ ∀ token ∈ tokens, IsOption token := by
  constructor
  · rintro rfl
    exact spells_tokensFrom false [] text rfl (by simp [Text.outsideQuotes])
      ((Text.quotedAfter_false_iff text).mpr closed)
  · rintro ⟨spelled, options⟩
    exact spelled.tokens_eq tokens text options

/-- Options are known by their tokens. The flags count wherever they stand, and the other tokens are
passed on unchanged and in order. So nothing changes with other separators, nor when flags are moved:
that is when the tokens are reordered with those passed on left in order. -/
theorem parse_spelled (tokens : List Text) (text : Text) (options : ∀ token ∈ tokens, IsOption token)
    (spelled : Spells tokens text) :
    ((parse text).vertical = true ↔ verticalFlag ∈ tokens) ∧
    ((parse text).legacy = true ↔ legacyFlag ∈ tokens) ∧
    (parse text).passthrough = tokens.filter passes ∧
    ∀ reordered other, reordered.Perm tokens → reordered.filter passes = tokens.filter passes →
      Spells reordered other → parse other = parse text := by
  have read := spelled.tokens_eq tokens text options
  refine ⟨?_, ?_, ?_, fun reordered other moved inOrder written => ?_⟩
  · simp only [parse, read, List.contains_iff_mem]
  · simp only [parse, read, List.contains_iff_mem]
  · simp only [parse, read]
    rfl
  · have again := written.tokens_eq reordered other fun token member => options token (moved.subset member)
    have flagged : ∀ flag : Text, reordered.contains flag = tokens.contains flag := fun flag => by
      rw [Bool.eq_iff_iff, List.contains_iff_mem, List.contains_iff_mem, moved.mem_iff]
    simp only [parse, read, again, flagged, PanelOptions.mk.injEq, true_and]
    exact inOrder

/-- A flag that moves behind a quoted value, among other separators. -/
theorem parse_spelled_title :
    let title : Text := "title=\"Two, words\"".toList
    let text : Text := " vertical,mode=code\ttitle=\"Two, words\"".toList
    let other : Text := "mode=code , title=\"Two, words\"  vertical,".toList
    IsOption title ∧ (parse text).vertical = true ∧
      (parse text).passthrough = ["mode=code".toList, title] ∧ parse other = parse text := by
  intro title text other
  have solid (token : Text) (filled : token ≠ []) (closed : Text.quotedAfter false token = false)
      (outside : (Text.outsideQuotes false token).all fun character => !separates character) : IsOption token :=
    (isOption_iff token).mpr ⟨filled, closed, by simpa using outside⟩
  have gap (text : Text) (blank : text.all separates = true) : IsGap text := by simpa [IsGap] using blank
  have titled : IsOption title := solid _ (by decide) (by decide) (by decide)
  have options : ∀ token ∈ [verticalFlag, "mode=code".toList, title], IsOption token := by
    simp only [List.forall_mem_cons]
    exact ⟨solid _ (by decide) (by decide) (by decide), solid _ (by decide) (by decide) (by decide), titled,
      by simp⟩
  have spelled : Spells [verticalFlag, "mode=code".toList, title] text :=
    .more [' '] verticalFlag [','] _ _ (gap _ (by decide)) (gap _ (by decide)) (by decide)
      (.more [] "mode=code".toList ['\t'] _ _ (gap _ (by decide)) (gap _ (by decide)) (by decide)
        (.last [] title [] (gap _ (by decide)) (gap _ (by decide))))
  have moved : Spells ["mode=code".toList, title, verticalFlag] other :=
    .more [] "mode=code".toList " , ".toList _ _ (gap _ (by decide)) (gap _ (by decide)) (by decide)
      (.more [] title "  ".toList _ _ (gap _ (by decide)) (gap _ (by decide)) (by decide)
        (.last [] verticalFlag [','] (gap _ (by decide)) (gap _ (by decide))))
  obtain ⟨vertical, _, passed, unmoved⟩ := parse_spelled _ text options spelled
  refine ⟨titled, vertical.mpr (by simp), passed, unmoved _ other ?_ (by decide) moved⟩
  decide

end PanelOptions

end FencePreview
