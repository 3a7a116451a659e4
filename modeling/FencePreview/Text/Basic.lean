/-! A text is a list of characters. The module holds the cuts that every reader of lines
needs: what follows a known opening, what is left without a known ending, and the lemmas that
say nothing is lost by either. -/

namespace FencePreview

abbrev Text := List Char

namespace Text

def stripStart? (opening text : Text) : Option Text :=
  match opening, text with
  | [], rest => some rest
  | _ :: _, [] => none
  | expected :: opening, found :: rest => if expected = found then stripStart? opening rest else none

def stripEnd? (ending text : Text) : Option Text :=
  (stripStart? ending.reverse text.reverse).map List.reverse

/-- A text without the longest run at its end whose characters satisfy `drop`. -/
def trimEndWhile (drop : Char → Bool) (text : Text) : Text :=
  (text.reverse.dropWhile drop).reverse

/-- A text without the runs at both ends whose characters satisfy `drop`. -/
def trimWhile (drop : Char → Bool) (text : Text) : Text :=
  trimEndWhile drop (text.dropWhile drop)

def joinWith (separator : Text) : List Text → Text
  | [] => []
  | [last] => last
  | first :: second :: rest => first ++ separator ++ joinWith separator (second :: rest)

def ofNat (value : Nat) : Text := Nat.toDigits 10 value

theorem stripStart?_eq_some_iff (opening text rest : Text) :
    stripStart? opening text = some rest ↔ text = opening ++ rest := by
  induction opening generalizing text with
  | nil => simp [stripStart?]
  | cons expected opening ih =>
      cases text with
      | nil => simp [stripStart?]
      | cons found text =>
          by_cases same : expected = found
          · subst same
            simp [stripStart?, ih]
          · have different : ¬found = expected := fun equal => same equal.symm
            simp [stripStart?, same, different]

theorem stripStart?_append (opening rest : Text) : stripStart? opening (opening ++ rest) = some rest :=
  (stripStart?_eq_some_iff _ _ _).mpr rfl

theorem stripEnd?_eq_some_iff (ending text front : Text) :
    stripEnd? ending text = some front ↔ text = front ++ ending := by
  simp only [stripEnd?, Option.map_eq_some_iff, stripStart?_eq_some_iff]
  constructor
  · rintro ⟨reversed, found, rfl⟩
    simpa using congrArg List.reverse found
  · rintro rfl
    exact ⟨front.reverse, by simp, by simp⟩

theorem trimEndWhile_append_tail (drop : Char → Bool) (text : Text) :
    trimEndWhile drop text ++ (text.reverse.takeWhile drop).reverse = text := by
  rw [trimEndWhile, ← List.reverse_append, List.takeWhile_append_dropWhile, List.reverse_reverse]

end Text

end FencePreview
