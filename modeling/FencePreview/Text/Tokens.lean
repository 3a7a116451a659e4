import FencePreview.Text.Basic

/-! Tokens of an option list. Separators count only outside double quotes, and the quotes stay
part of the token they stand in. -/

namespace FencePreview

namespace Text

/-- The tokens of a text read after the characters `current` of an unfinished token. -/
def tokensFrom (separates : Char → Bool) (quoted : Bool) (current : Text) : Text → List Text
  | [] => if current.isEmpty then [] else [current]
  | character :: rest =>
      if character = '"' then tokensFrom separates (!quoted) (current ++ [character]) rest
      else if separates character && !quoted then
        if current.isEmpty then tokensFrom separates quoted [] rest
        else current :: tokensFrom separates quoted [] rest
      else tokensFrom separates quoted (current ++ [character]) rest

def tokens (separates : Char → Bool) (text : Text) : List Text := tokensFrom separates false [] text

theorem tokensFrom_ne_nil (separates : Char → Bool) (quoted : Bool) (current text token : Text)
    (found : token ∈ tokensFrom separates quoted current text) : token ≠ [] := by
  induction text generalizing quoted current with
  | nil =>
      simp only [tokensFrom] at found
      split at found
      · simp at found
      · rename_i filled
        simp only [List.mem_singleton] at found
        subst found
        simpa using filled
  | cons character rest ih =>
      simp only [tokensFrom] at found
      split at found
      · exact ih _ _ found
      · split at found
        · split at found
          · exact ih _ _ found
          · rename_i filled
            rcases List.mem_cons.mp found with rfl | later
            · simpa using filled
            · exact ih _ _ later
        · exact ih _ _ found

end Text

end FencePreview
