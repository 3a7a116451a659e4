import FencePreview.Config.Expansion
import FencePreview.Proofs.TextParts

/-! Values as references to variables with text between them, in two styles: with names in braces as the only
references, and as a shell reads them. In each style a value has one reading. -/

namespace FencePreview

namespace Expansion

def defaultMark : Text := [':', '-']

/-- Whether names count as references with braces only, or without them as well. -/
inductive Style where
  | braces
  | shell
deriving DecidableEq, Repr

inductive Piece where
  | kept (character : Char)
  | braced (name : Text) (fallback : Option Text)
  | bare (name : Text)
  /-- Two dollar signs, for one that begins no reference. -/
  | doubled
deriving DecidableEq, Repr

def inner (name : Text) (fallback : Option Text) : Text :=
  match fallback with
  | none => name
  | some fallback => name ++ (defaultMark ++ fallback)

namespace Piece

def written : Piece → Text
  | kept character => [character]
  | braced name fallback => '$' :: '\x7b' :: (inner name fallback ++ ['\x7d'])
  | bare name => '$' :: name
  | doubled => ['$', '$']

def isShell : Piece → Bool
  | bare _ => true
  | doubled => true
  | _ => false

end Piece

/-- Whether a brace opens right here and is closed somewhere. -/
def opensBraces (rest : Text) : Bool := rest.head? = some '\x7b' && '\x7d' ∈ rest

/-- The first default mark ends the name. At the start it is part of a name without a default. -/
def Divided (name : Text) : Option Text → Prop
  | none => defaultMark <:+: name → defaultMark <+: name
  | some _ => name ≠ [] ∧ ¬defaultMark <:+: name

/-- Name and default as they are read up to the first closing brace. -/
structure IsReference (name : Text) (fallback : Option Text) : Prop where
  inside : '\x7d' ∉ inner name fallback
  divided : Divided name fallback

/-- Whether a piece is what a reader of this style takes before `rest`. -/
def Piece.Fits (style : Style) (rest : Text) : Piece → Prop
  | kept character => character = '$' → opensBraces rest = false ∧
      (style = .shell → ∀ next ∈ rest.head?, next ≠ '$' ∧ Text.isWord next = false)
  | braced name fallback => IsReference name fallback
  | bare name => style = .shell ∧ name ≠ [] ∧ (∀ character ∈ name, Text.isWord character = true) ∧
      ∀ next ∈ rest.head?, Text.isWord next = false
  | doubled => style = .shell

def Proper (style : Style) : List Piece → Prop
  | [] => True
  | piece :: pieces => piece.Fits style (pieces.flatMap Piece.written) ∧ Proper style pieces

/-- The pieces of a value, from left to right. -/
structure Reads (style : Style) (value : Text) (pieces : List Piece) : Prop where
  whole : pieces.flatMap Piece.written = value
  proper : Proper style pieces

theorem splitDefault_eq (text : Text) :
    splitDefault text =
      match Text.splitFirst? defaultMark text with
      | some ([], _) => (text, none)
      | some (name, fallback) => (name, some fallback)
      | none => (text, none) := rfl

theorem splitFirst?_defaultMark (name fallback : Text) (absent : ¬defaultMark <:+: name) :
    Text.splitFirst? defaultMark (name ++ (defaultMark ++ fallback)) = some (name, fallback) := by
  induction name with
  | nil => simp [Text.splitFirst?, defaultMark, Text.stripStart?]
  | cons character name ih =>
      rw [List.infix_cons_iff, not_or] at absent
      have other : ¬defaultMark <+: character :: (name ++ (defaultMark ++ fallback)) := by
        intro begins
        cases name with
        | nil => simp [defaultMark] at begins
        | cons second name =>
            apply absent.1
            simp only [defaultMark, List.cons_append, List.cons_prefix_cons] at begins ⊢
            exact ⟨begins.1, begins.2.1, List.nil_prefix⟩
      rw [← Text.stripStart?_isSome_iff, Option.not_isSome_iff_eq_none] at other
      simp [Text.splitFirst?, other, ih absent.2]

theorem splitDefault_inner (name : Text) (fallback : Option Text) (shape : IsReference name fallback) :
    splitDefault (inner name fallback) = (name, fallback) := by
  obtain ⟨_, divided⟩ := shape
  rw [splitDefault_eq]
  cases fallback with
  | none =>
      simp only [inner]
      cases found : Text.splitFirst? defaultMark name with
      | none => rfl
      | some parts =>
          obtain ⟨before, after⟩ := parts
          have there : defaultMark <:+: name := by
            rw [← Text.splitFirst?_isSome_iff defaultMark name (by decide), found]
            rfl
          obtain ⟨rest, rfl⟩ := divided there
          obtain ⟨rfl, _⟩ : [] = before ∧ rest = after := by
            simpa [Text.splitFirst?, defaultMark, Text.stripStart?] using found
          rfl
  | some fallback =>
      obtain ⟨filled, absent⟩ := divided
      obtain ⟨first, more, rfl⟩ := List.exists_cons_of_ne_nil filled
      rw [inner, splitFirst?_defaultMark _ fallback absent]

theorem inner_splitDefault (text : Text) :
    inner (splitDefault text).1 (splitDefault text).2 = text ∧
      Divided (splitDefault text).1 (splitDefault text).2 := by
  cases found : Text.splitFirst? defaultMark text with
  | none =>
      have absent : ¬defaultMark <:+: text := by
        rw [← Text.splitFirst?_isSome_iff defaultMark text (by decide), found]
        exact Bool.false_ne_true
      rw [splitDefault_eq, found]
      exact ⟨rfl, fun there => absurd there absent⟩
  | some parts =>
      obtain ⟨before, after⟩ := parts
      have parts := Text.splitFirst?_eq_append defaultMark text before after found
      have absent := Text.not_infix_of_splitFirst? defaultMark text before after (by decide) found
      cases before with
      | nil =>
          rw [splitDefault_eq, found]
          exact ⟨rfl, fun _ => ⟨after, parts.symm⟩⟩
      | cons first before =>
          rw [splitDefault_eq, found]
          exact ⟨by rw [parts, inner, List.append_assoc], List.cons_ne_nil _ _, absent⟩

/-- The piece that a reader of this style takes first. -/
def next? (style : Style) : Text → Option Piece
  | [] => none
  | character :: rest =>
      if character = '$' then
        if opensBraces rest then
          let (name, fallback) := splitDefault (rest.tail.takeWhile (· ≠ '\x7d'))
          some (.braced name fallback)
        else if style = .shell ∧ rest.head? = some '$' then some .doubled
        else if style = .shell ∧ rest.head?.any Text.isWord then some (.bare (rest.takeWhile Text.isWord))
        else some (.kept '$')
      else some (.kept character)

theorem opensBraces_cons (first : Char) (rest : Text) :
    opensBraces (first :: rest) = (first = '\x7b' && '\x7d' ∈ rest) := by
  by_cases brace : first = '\x7b'
  · subst brace
    simp [opensBraces]
  · simp [opensBraces, brace]

theorem takeWhile_closing (front rest : Text) (absent : '\x7d' ∉ front) :
    (front ++ '\x7d' :: rest).takeWhile (fun character => !decide (character = '\x7d')) = front := by
  refine Text.takeWhile_append_stop _ front _ (fun character member => ?_) (by simp)
  simp only [Bool.not_eq_true', decide_eq_false_iff_not]
  rintro rfl
  exact absent member

/-- What is read depends on the text alone. -/
theorem next?_of_fits (style : Style) (piece : Piece) (rest : Text) (fits : piece.Fits style rest) :
    next? style (piece.written ++ rest) = some piece := by
  cases piece with
  | kept character =>
      by_cases dollar : character = '$'
      · subst dollar
        obtain ⟨unbraced, follows⟩ := fits rfl
        cases style with
        | braces => simp [Piece.written, next?, unbraced]
        | shell =>
            have plain : rest.head? ≠ some '$' ∧ rest.head?.any Text.isWord = false := by
              cases rest with
              | nil => simp
              | cons first rest => simpa using follows rfl first rfl
            simp [Piece.written, next?, unbraced, plain]
      · simp [Piece.written, next?, dollar]
  | braced name fallback =>
      have shape : IsReference name fallback := fits
      simp [Piece.written, next?, opensBraces_cons, takeWhile_closing _ rest shape.inside,
        splitDefault_inner name fallback shape]
  | bare name =>
      obtain ⟨rfl, filled, word, stops⟩ := fits
      obtain ⟨first, more, rfl⟩ := List.exists_cons_of_ne_nil filled
      have firstWord := word first List.mem_cons_self
      have other : first ≠ '$' ∧ first ≠ '\x7b' := by
        constructor <;> rintro rfl <;> exact absurd firstWord (by decide)
      have taken := Text.takeWhile_append_stop Text.isWord (first :: more) rest word stops
      rw [List.cons_append] at taken
      simp [Piece.written, next?, opensBraces_cons, other, firstWord, taken]
  | doubled =>
      have shell : style = .shell := fits
      simp [Piece.written, next?, opensBraces_cons, shell]

/-- Something can be read before the end of a text. -/
theorem exists_fits (style : Style) (character : Char) (text : Text) :
    ∃ piece : Piece, ∃ rest, character :: text = piece.written ++ rest ∧ piece.Fits style rest := by
  by_cases dollar : character = '$'
  · subst dollar
    by_cases braced : opensBraces text = true
    · cases text with
      | nil => simp [opensBraces] at braced
      | cons first text =>
          simp only [opensBraces_cons, Bool.and_eq_true, decide_eq_true_eq] at braced
          obtain ⟨rfl, closed⟩ := braced
          obtain ⟨front, rest, rfl, absent⟩ := List.eq_append_cons_of_mem closed
          obtain ⟨whole, divided⟩ := inner_splitDefault front
          refine ⟨.braced (splitDefault front).1 (splitDefault front).2, rest, ?_, ⟨?_, divided⟩⟩
          · simp [Piece.written, whole]
          · rwa [whole]
    · have unbraced : opensBraces text = false := by simpa using braced
      cases style with
      | braces => exact ⟨.kept '$', text, rfl, fun _ => ⟨unbraced, fun shell => nomatch shell⟩⟩
      | shell =>
          cases text with
          | nil => exact ⟨.kept '$', [], rfl, fun _ => ⟨unbraced, by simp⟩⟩
          | cons first rest =>
              by_cases again : first = '$'
              · subst again
                exact ⟨.doubled, rest, rfl, rfl⟩
              · by_cases word : Text.isWord first = true
                · refine ⟨.bare ((first :: rest).takeWhile Text.isWord), (first :: rest).dropWhile Text.isWord, ?_,
                    rfl, ?_, fun _ => List.mem_takeWhile_imp,
                    eq_false_of_head?_dropWhile Text.isWord (first :: rest)⟩
                  · rw [Piece.written, List.cons_append, List.takeWhile_append_dropWhile]
                  · simp [List.takeWhile_cons_of_pos word]
                · refine ⟨.kept '$', first :: rest, rfl, fun _ => ⟨unbraced, fun _ next begins => ?_⟩⟩
                  obtain rfl : first = next := by simpa using begins
                  exact ⟨again, by simpa using word⟩
  · exact ⟨.kept character, text, rfl, fun equal => absurd equal dollar⟩

theorem written_ne_nil (piece : Piece) : piece.written ≠ [] := by
  cases piece <;> exact List.cons_ne_nil _ _

theorem exists_reads (style : Style) (value : Text) : ∃ pieces, Reads style value pieces := by
  generalize size : value.length = bound
  induction bound using Nat.strongRecOn generalizing value with
  | ind bound ih =>
      cases value with
      | nil => exact ⟨[], rfl, trivial⟩
      | cons character text =>
          obtain ⟨piece, rest, parts, fits⟩ := exists_fits style character text
          have shorter : rest.length < bound := by
            have filled := List.length_pos_iff.mpr (written_ne_nil piece)
            rw [← size, parts, List.length_append]
            omega
          obtain ⟨pieces, whole, proper⟩ := ih rest.length shorter rest rfl
          exact ⟨piece :: pieces, by rw [List.flatMap_cons, whole, parts], by rwa [whole], proper⟩

theorem eq_of_proper (style : Style) (pieces others : List Piece) (proper : Proper style pieces)
    (properOthers : Proper style others)
    (same : pieces.flatMap Piece.written = others.flatMap Piece.written) : pieces = others := by
  induction pieces generalizing others with
  | nil =>
      cases others with
      | nil => rfl
      | cons other others => simp [written_ne_nil] at same
  | cons piece pieces ih =>
      cases others with
      | nil => simp [written_ne_nil] at same
      | cons other others =>
          rw [List.flatMap_cons, List.flatMap_cons] at same
          have first := next?_of_fits style piece _ proper.1
          rw [same, next?_of_fits style other _ properOthers.1, Option.some.injEq] at first
          obtain rfl := first
          rw [ih others proper.2 properOthers.2 (List.append_cancel_left same)]

theorem Reads.eq (style : Style) (value : Text) (pieces others : List Piece) (first : Reads style value pieces)
    (second : Reads style value others) : others = pieces :=
  eq_of_proper style others pieces second.proper first.proper (second.whole.trans first.whole.symm)

theorem fits_braces (piece : Piece) (rest : Text) (fits : piece.Fits .shell rest) (plain : piece.isShell = false) :
    piece.Fits .braces rest := by
  cases piece with
  | kept character => exact fun dollar => ⟨(fits dollar).1, fun shell => nomatch shell⟩
  | braced name fallback => exact fits
  | bare name => cases plain
  | doubled => cases plain

/-- Where no name stands without braces and no dollar sign is doubled, both styles read the same. -/
theorem proper_braces (pieces : List Piece) (proper : Proper .shell pieces)
    (plain : ∀ piece ∈ pieces, piece.isShell = false) : Proper .braces pieces := by
  induction pieces with
  | nil => trivial
  | cons piece pieces ih =>
      exact ⟨fits_braces piece _ proper.1 (plain piece List.mem_cons_self),
        ih proper.2 fun other member => plain other (List.mem_cons_of_mem _ member)⟩

end Expansion

end FencePreview
