import FencePreview.Text.Tokens
import Mathlib.Data.List.Basic

/-! Double quotes in a list of tokens. A separator splits where an even number of quotes precedes
it, so a token stays whole exactly where its quotes are closed and no separator stands outside
them. -/

namespace FencePreview

namespace Text

/-- Whether a quote is open at the end of a text, `quoted` telling whether one is at its start. -/
def quotedAfter (quoted : Bool) : Text → Bool
  | [] => quoted
  | character :: rest => quotedAfter (if character = '"' then !quoted else quoted) rest

/-- The characters of a text that stand outside its quotes. -/
def outsideQuotes (quoted : Bool) : Text → Text
  | [] => []
  | character :: rest =>
      if character = '"' then outsideQuotes (!quoted) rest
      else if quoted then outsideQuotes quoted rest
      else character :: outsideQuotes quoted rest

theorem quotedAfter_append (quoted : Bool) (front back : Text) :
    quotedAfter quoted (front ++ back) = quotedAfter (quotedAfter quoted front) back := by
  induction front generalizing quoted with
  | nil => rfl
  | cons character rest ih => simp only [List.cons_append, quotedAfter, ih]

theorem outsideQuotes_append (quoted : Bool) (front back : Text) :
    outsideQuotes quoted (front ++ back) =
      outsideQuotes quoted front ++ outsideQuotes (quotedAfter quoted front) back := by
  induction front generalizing quoted with
  | nil => rfl
  | cons character rest ih =>
      simp only [List.cons_append, outsideQuotes, quotedAfter]
      split
      · exact ih _
      · split
        · exact ih _
        · rw [ih]
          rfl

theorem quotedAfter_concat (quoted : Bool) (current : Text) (character : Char)
    (state : quotedAfter false current = quoted) :
    quotedAfter false (current ++ [character]) = quotedAfter quoted [character] := by
  rw [quotedAfter_append, state]

theorem outsideQuotes_cons (quoted : Bool) (character : Char) (rest : Text) :
    outsideQuotes quoted (character :: rest) =
      outsideQuotes quoted [character] ++ outsideQuotes (quotedAfter quoted [character]) rest :=
  outsideQuotes_append quoted [character] rest

theorem tokensFrom_step (separates : Char → Bool) (quoted : Bool) (current : Text) (character : Char) :
    (quoted = false ∧ separates character = true ∧ outsideQuotes false [character] = [character] ∧
        quotedAfter false [character] = false ∧
        ∀ rest, tokensFrom separates quoted current (character :: rest) =
          tokensFrom separates false current [] ++ tokensFrom separates false [] rest) ∨
      ((∀ outside ∈ outsideQuotes quoted [character], separates outside = false) ∧
        ∀ rest, tokensFrom separates quoted current (character :: rest) =
          tokensFrom separates (quotedAfter quoted [character]) (current ++ [character]) rest) := by
  by_cases quote : character = '"'
  · right
    simp [tokensFrom, quote, outsideQuotes, quotedAfter]
  · cases quoted with
    | true =>
        right
        simp [tokensFrom, quote, outsideQuotes, quotedAfter]
    | false =>
        cases cut : separates character with
        | true =>
            left
            by_cases empty : current = []
            · simp [tokensFrom, quote, outsideQuotes, quotedAfter, cut, empty]
            · simp [tokensFrom, quote, outsideQuotes, quotedAfter, cut, empty]
        | false =>
            right
            simp [tokensFrom, quote, outsideQuotes, quotedAfter, cut]

theorem tokensFrom_nil (separates : Char → Bool) (quoted : Bool) (current : Text) :
    tokensFrom separates quoted current [] = if current.isEmpty then [] else [current] := rfl

theorem mem_of_mem_tokensFrom (separates : Char → Bool) (quoted : Bool) (current text token : Text)
    (found : token ∈ tokensFrom separates quoted current text) (character : Char)
    (member : character ∈ token) : character ∈ current ∨ character ∈ text := by
  induction text generalizing quoted current with
  | nil =>
      rw [tokensFrom_nil] at found
      split at found
      · simp at found
      · rw [List.mem_singleton] at found
        exact .inl (found ▸ member)
  | cons first rest ih =>
      rcases tokensFrom_step separates quoted current first with ⟨_, _, _, _, cut⟩ | ⟨_, extended⟩
      · rw [cut, List.mem_append, tokensFrom_nil] at found
        rcases found with finished | later
        · split at finished
          · simp at finished
          · rw [List.mem_singleton] at finished
            exact .inl (finished ▸ member)
        · have inside := ih false [] later
          exact .inr (List.mem_cons_of_mem _ (inside.resolve_left (List.not_mem_nil)))
      · rw [extended] at found
        have inside := ih _ _ found
        simp only [List.mem_append, List.mem_cons] at inside ⊢
        tauto

/-- Outside quotes the tokens hold everything but the separators, in order. -/
theorem outsideQuotes_tokensFrom (separates : Char → Bool) (quoted : Bool) (current text : Text)
    (state : quotedAfter false current = quoted) :
    (tokensFrom separates quoted current text).flatMap (outsideQuotes false) =
      outsideQuotes false current ++
        (outsideQuotes quoted text).filter fun character => !separates character := by
  induction text generalizing quoted current with
  | nil =>
      rw [tokensFrom_nil]
      split
      · rename_i empty
        simp [List.isEmpty_iff.mp empty, outsideQuotes]
      · simp [outsideQuotes]
  | cons character rest ih =>
      rw [outsideQuotes_cons, List.filter_append]
      rcases tokensFrom_step separates quoted current character with
        ⟨rfl, separator, outside, closed, cut⟩ | ⟨kept, extended⟩
      · have finished : (tokensFrom separates false current []).flatMap (outsideQuotes false) =
            outsideQuotes false current := by
          rw [tokensFrom_nil]
          split
          · rename_i empty
            simp [List.isEmpty_iff.mp empty, outsideQuotes]
          · simp
        rw [cut, List.flatMap_append, finished, ih false [] rfl, outside, closed]
        simp [separator, outsideQuotes]
      · have all : (outsideQuotes quoted [character]).filter (fun outside => !separates outside) =
            outsideQuotes quoted [character] :=
          List.filter_eq_self.mpr fun outside member => by simp [kept outside member]
        rw [extended, ih _ _ (quotedAfter_concat quoted current character state),
          outsideQuotes_append, state, all, List.append_assoc]

/-- Every token has its quotes closed exactly when the text has. -/
theorem quotedAfter_tokensFrom (separates : Char → Bool) (quoted : Bool) (current text : Text)
    (state : quotedAfter false current = quoted) :
    (∀ token ∈ tokensFrom separates quoted current text, quotedAfter false token = false) ↔
      quotedAfter quoted text = false := by
  induction text generalizing quoted current with
  | nil =>
      rw [tokensFrom_nil]
      split
      · rename_i empty
        rw [List.isEmpty_iff.mp empty] at state
        simp [quotedAfter, ← state]
      · simp [quotedAfter, state]
  | cons character rest ih =>
      have split : quotedAfter quoted (character :: rest) =
          quotedAfter (quotedAfter quoted [character]) rest := rfl
      rcases tokensFrom_step separates quoted current character with
        ⟨rfl, _, _, closed, cut⟩ | ⟨_, extended⟩
      · rw [cut, split, closed, ← ih false [] rfl, tokensFrom_nil]
        constructor
        · exact fun all token member => all token (List.mem_append_right _ member)
        · intro all token member
          rcases List.mem_append.mp member with finished | later
          · split at finished
            · simp at finished
            · rw [List.mem_singleton] at finished
              exact finished ▸ state
          · exact all token later
      · rw [extended, split]
        exact ih _ _ (quotedAfter_concat quoted current character state)

theorem quotedAfter_of_mem_dropLast (separates : Char → Bool) (quoted : Bool) (current text : Text)
    (state : quotedAfter false current = quoted) (token : Text)
    (member : token ∈ (tokensFrom separates quoted current text).dropLast) :
    quotedAfter false token = false := by
  induction text generalizing quoted current with
  | nil =>
      rw [tokensFrom_nil] at member
      split at member <;> simp at member
  | cons character rest ih =>
      rcases tokensFrom_step separates quoted current character with
        ⟨rfl, _, _, _, cut⟩ | ⟨_, extended⟩
      · rw [cut, tokensFrom_nil] at member
        have finished : token ∈ (if current.isEmpty then [] else [current]) →
            quotedAfter false token = false := by
          intro inside
          split at inside
          · simp at inside
          · rw [List.mem_singleton] at inside
            exact inside ▸ state
        cases later : tokensFrom separates false [] rest with
        | nil =>
            rw [later, List.append_nil] at member
            exact finished (List.dropLast_subset _ member)
        | cons next more =>
            rw [later, List.dropLast_append_of_ne_nil (by simp), List.mem_append] at member
            rcases member with early | late
            · exact finished early
            · exact ih false [] rfl (by rw [later]; exact late)
      · rw [extended] at member
        exact ih _ _ (quotedAfter_concat quoted current character state) member

theorem tokensFrom_append_separator (separates : Char → Bool) (separator : Char)
    (separated : separates separator = true) (notQuote : separator ≠ '"') (quoted : Bool)
    (current front back : Text) (closed : quotedAfter quoted front = false) :
    tokensFrom separates quoted current (front ++ separator :: back) =
      tokensFrom separates quoted current front ++ tokensFrom separates false [] back := by
  induction front generalizing quoted current with
  | nil =>
      simp only [quotedAfter] at closed
      subst closed
      simp only [List.nil_append, tokensFrom, notQuote, if_false, separated]
      by_cases empty : current = []
      · simp [empty]
      · simp [empty]
  | cons character rest ih =>
      have state : quotedAfter (quotedAfter quoted [character]) rest = false := closed
      rw [List.cons_append]
      rcases tokensFrom_step separates quoted current character with
        ⟨rfl, _, _, unquoted, cut⟩ | ⟨_, extended⟩
      · rw [unquoted] at state
        rw [cut, cut, ih false [] state, List.append_assoc]
      · rw [extended, extended, ih _ _ state]

theorem tokensFrom_whole (separates : Char → Bool) (quoted : Bool) (current text : Text)
    (whole : ∀ character ∈ outsideQuotes quoted text, separates character = false) :
    tokensFrom separates quoted current text = tokensFrom separates false (current ++ text) [] := by
  induction text generalizing quoted current with
  | nil => simp [tokensFrom_nil]
  | cons character rest ih =>
      rw [outsideQuotes_cons] at whole
      rcases tokensFrom_step separates quoted current character with
        ⟨rfl, cutting, outside, _, _⟩ | ⟨_, extended⟩
      · have passes := whole character (by simp [outside])
        simp [cutting] at passes
      · rw [extended, ih _ _ fun inside member => whole inside (List.mem_append_right _ member),
          List.append_assoc, List.singleton_append]

end Text

end FencePreview
