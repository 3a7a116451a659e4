import FencePreview.Text.Blank
import FencePreview.Text.Lines
import FencePreview.Text.Search
import Mathlib.Data.List.TakeWhile

/-! How the cuts of a text act on one that is put together from parts. -/

namespace FencePreview

theorem eq_false_of_head?_dropWhile {α : Type} (drop : α → Bool) (content : List α) (next : α)
    (begins : next ∈ (content.dropWhile drop).head?) : drop next = false := by
  have stopped := List.head?_dropWhile_not drop content
  rw [Option.mem_def.mp begins] at stopped
  simpa using stopped

namespace Text

theorem trimEndWhile_append_dropped (drop : Char → Bool) (front back : Text)
    (dropped : ∀ character ∈ back, drop character = true) :
    trimEndWhile drop (front ++ back) = trimEndWhile drop front := by
  simp only [trimEndWhile, List.reverse_append]
  rw [List.dropWhile_append_of_pos (by simpa using dropped)]

theorem trimEndWhile_eq_self (drop : Char → Bool) (front : Text) (last : Char)
    (keeps : drop last = false) : trimEndWhile drop (front ++ [last]) = front ++ [last] := by
  simp [trimEndWhile, keeps]

theorem trimEndWhile_eq_nil (drop : Char → Bool) (text : Text)
    (all : ∀ character ∈ text, drop character = true) : trimEndWhile drop text = [] := by
  simp only [trimEndWhile, List.reverse_eq_nil_iff, List.dropWhile_eq_nil_iff, List.mem_reverse]
  exact all

theorem mem_of_mem_trimEndWhile (drop : Char → Bool) (text : Text) (character : Char)
    (member : character ∈ trimEndWhile drop text) : character ∈ text := by
  rw [← trimEndWhile_append_tail drop text]
  exact List.mem_append_left _ member

theorem takeWhile_append_stop (keep : Char → Bool) (front back : Text)
    (all : ∀ character ∈ front, keep character = true)
    (stops : ∀ character ∈ back.head?, keep character = false) :
    (front ++ back).takeWhile keep = front := by
  rw [List.takeWhile_append_of_pos all]
  cases back with
  | nil => simp
  | cons character rest => simp [stops character (by simp)]

theorem dropWhile_append_stop (drop : Char → Bool) (front back : Text)
    (all : ∀ character ∈ front, drop character = true)
    (stops : ∀ character ∈ back.head?, drop character = false) :
    (front ++ back).dropWhile drop = back := by
  rw [List.dropWhile_append_of_pos all]
  cases back with
  | nil => simp
  | cons character rest => simp [stops character (by simp)]

theorem firstWord?_append_white (text tail : Text) (white : ∀ character ∈ tail, isWhite character = true) :
    firstWord? (text ++ tail) = firstWord? text := by
  have gone : tail.dropWhile isWhite = [] := List.dropWhile_eq_nil_iff.mpr white
  have stopped : tail.takeWhile (fun character => !isWhite character) = [] := by
    cases tail with
    | nil => rfl
    | cons first rest => simp [white first (by simp)]
  simp only [firstWord?, List.dropWhile_append, List.isEmpty_iff]
  cases word : text.dropWhile isWhite with
  | nil => simp [gone]
  | cons first rest =>
      simp only [reduceCtorEq, if_false, List.cons_append]
      rw [← List.cons_append, List.takeWhile_append]
      split
      · rename_i whole
        rw [stopped, List.append_nil, (List.takeWhile_sublist _).eq_of_length whole]
      · rfl

theorem firstWord?_trimEnd (text : Text) : firstWord? (trimEnd text) = firstWord? text := by
  have white : ∀ character ∈ (text.reverse.takeWhile isWhite).reverse, isWhite character = true :=
    fun character member => List.mem_takeWhile_imp (List.mem_reverse.mp member)
  calc
    firstWord? (trimEnd text)
      = firstWord? (trimEnd text ++ (text.reverse.takeWhile isWhite).reverse) :=
        (firstWord?_append_white _ _ white).symm
    _ = firstWord? text := congrArg firstWord? (trimEndWhile_append_tail isWhite text)

theorem firstWord?_append (word rest : Text) (blank : Char) (filled : word ≠ [])
    (solid : ∀ character ∈ word, isWhite character = false) (white : isWhite blank = true) :
    firstWord? (word ++ blank :: rest) = some word := by
  have kept : (word ++ blank :: rest).dropWhile isWhite = word ++ blank :: rest := by
    cases word with
    | nil => exact absurd rfl filled
    | cons first more => simp [solid first (by simp)]
  have taken := takeWhile_append_stop (fun character => !isWhite character) word (blank :: rest)
    (fun character member => by simp [solid character member]) (by simp [white])
  cases word with
  | nil => exact absurd rfl filled
  | cons first more =>
      simp only [List.cons_append] at kept taken ⊢
      simp only [firstWord?, kept, taken]

theorem splitFirst?_singleton_append (needle : Char) (front back : Text) (absent : needle ∉ front) :
    splitFirst? [needle] (front ++ needle :: back) = some (front, back) := by
  induction front with
  | nil => simp [splitFirst?, stripStart?]
  | cons character rest ih =>
      have different : needle ≠ character := fun equal => absent (by simp [equal])
      have later := ih fun member => absent (List.mem_cons_of_mem _ member)
      simp [splitFirst?, stripStart?, different, later]

theorem splitFirst?_singleton_of_absent (needle : Char) (text : Text) (absent : needle ∉ text) :
    splitFirst? [needle] text = none := by
  induction text with
  | nil => rfl
  | cons character rest ih =>
      have different : needle ≠ character := fun equal => absent (by simp [equal])
      have later := ih fun member => absent (List.mem_cons_of_mem _ member)
      simp [splitFirst?, stripStart?, different, later]

theorem joinWith_concat (separator : Text) (front : List Text) (last : Text) :
    joinWith separator (front ++ [last]) =
      (front.flatMap fun part => part ++ separator) ++ last := by
  induction front with
  | nil => simp [joinWith]
  | cons first rest ih =>
      cases rest with
      | nil => simp [joinWith]
      | cons second rest =>
          simp only [List.cons_append, joinWith, List.flatMap_cons] at ih ⊢
          rw [ih]
          simp

theorem replaceFrom_front (needle replacement front text : Text) (start : Char)
    (starts : needle.head? = some start) (absent : start ∉ front) :
    replaceFrom needle replacement 0 (front ++ text) =
      front ++ replaceFrom needle replacement 0 text := by
  induction front with
  | nil => simp
  | cons character rest ih =>
      have missing : stripStart? needle (character :: (rest ++ text)) = none := by
        cases needle with
        | nil => simp at starts
        | cons first needle =>
            simp only [List.head?_cons, Option.some.injEq] at starts
            subst starts
            have different : first ≠ character := fun equal => absent (by simp [equal])
            simp [stripStart?, different]
      have later := ih (fun member => absent (List.mem_cons_of_mem _ member))
      simp only [List.cons_append, replaceFrom, missing, later]

theorem mem_of_mem_replaceFrom (needle : Text) (skip : Nat) (text : Text) (character : Char)
    (member : character ∈ replaceFrom needle [] skip text) : character ∈ text := by
  induction text generalizing skip with
  | nil => simp [replaceFrom] at member
  | cons first rest ih =>
      cases skip with
      | succ skip =>
          simp only [replaceFrom] at member
          exact List.mem_cons_of_mem _ (ih skip member)
      | zero =>
          simp only [replaceFrom] at member
          split at member
          · exact List.mem_cons_of_mem _ (ih _ (by simpa using member))
          · rcases List.mem_cons.mp member with rfl | later
            · simp
            · exact List.mem_cons_of_mem _ (ih 0 later)

theorem splitAtEach_ne_nil (separator : Char) (text : Text) : splitAtEach separator text ≠ [] := by
  cases text with
  | nil => simp [splitAtEach]
  | cons character rest =>
      simp only [splitAtEach]
      split
      · simp
      · split <;> simp

theorem splitAtEach_append (separator : Char) (front back : Text) :
    splitAtEach separator (front ++ separator :: back) =
      splitAtEach separator front ++ splitAtEach separator back := by
  induction front with
  | nil => simp [splitAtEach]
  | cons character rest ih =>
      by_cases same : character = separator
      · simp [splitAtEach, same, ih]
      · simp only [List.cons_append, splitAtEach, same, if_false, ih]
        cases pieces : splitAtEach separator rest with
        | nil => exact absurd pieces (splitAtEach_ne_nil separator rest)
        | cons first more => simp

theorem splitAtEach_append_parts (separator : Char) (front back : Text) (before after : List Text)
    (last first : Text) (frontPieces : splitAtEach separator front = before ++ [last])
    (backPieces : splitAtEach separator back = first :: after) :
    splitAtEach separator (front ++ back) = before ++ (last ++ first) :: after := by
  induction front generalizing before last with
  | nil =>
      cases before with
      | nil =>
          simp only [splitAtEach, List.nil_append, List.cons.injEq, and_true] at frontPieces
          simp [← frontPieces, backPieces]
      | cons piece before => simp [splitAtEach] at frontPieces
  | cons character rest ih =>
      by_cases same : character = separator
      · simp only [splitAtEach, same, if_true] at frontPieces
        cases before with
        | nil =>
            have empty := (List.cons.inj frontPieces).2
            exact absurd empty (splitAtEach_ne_nil separator rest)
        | cons piece before =>
            obtain ⟨rfl, later⟩ := List.cons.inj frontPieces
            simp only [List.cons_append, splitAtEach, same, if_true, ih before last later]
      · cases pieces : splitAtEach separator rest with
        | nil => exact absurd pieces (splitAtEach_ne_nil separator rest)
        | cons head more =>
            simp only [splitAtEach, same, if_false, pieces] at frontPieces
            cases before with
            | nil =>
                obtain ⟨rfl, rfl⟩ := List.cons.inj frontPieces
                have later := ih [] head pieces
                simp [splitAtEach, same, later]
            | cons piece before =>
                obtain ⟨rfl, rfl⟩ := List.cons.inj frontPieces
                have later := ih (head :: before) last (by rw [pieces]; rfl)
                simp [splitAtEach, same, later]

theorem mem_splitAtEach_append (separator : Char) (front back piece : Text)
    (member : piece ∈ splitAtEach separator (front ++ back)) :
    piece ∈ splitAtEach separator front ∨ piece ∈ splitAtEach separator back ∨
      ∃ last ∈ splitAtEach separator front, ∃ first ∈ splitAtEach separator back,
        piece = last ++ first := by
  have frontPieces := (List.dropLast_concat_getLast (splitAtEach_ne_nil separator front)).symm
  cases backPieces : splitAtEach separator back with
  | nil => exact absurd backPieces (splitAtEach_ne_nil separator back)
  | cons first after =>
      rw [splitAtEach_append_parts separator front back _ after _ first frontPieces backPieces,
        List.mem_append, List.mem_cons] at member
      rcases member with early | joined | late
      · exact .inl (List.dropLast_subset _ early)
      · exact .inr (.inr ⟨_, List.getLast_mem _, first, by simp, joined⟩)
      · exact .inr (.inl (List.mem_cons_of_mem _ late))

theorem splitAtEach_eq_singleton (separator : Char) (text : Text) (absent : separator ∉ text) :
    splitAtEach separator text = [text] := by
  induction text with
  | nil => rfl
  | cons character rest ih =>
      have different : ¬character = separator := fun equal => absent (by simp [equal])
      have later := ih (fun member => absent (List.mem_cons_of_mem _ member))
      simp [splitAtEach, different, later]

theorem not_mem_of_mem_splitAtEach (separator : Char) (text piece : Text)
    (member : piece ∈ splitAtEach separator text) : separator ∉ piece := by
  induction text generalizing piece with
  | nil =>
      simp only [splitAtEach, List.mem_singleton] at member
      simp [member]
  | cons character rest ih =>
      simp only [splitAtEach] at member
      split at member
      · rcases List.mem_cons.mp member with rfl | later
        · simp
        · exact ih piece later
      · rename_i different
        split at member
        · rename_i none
          exact absurd none (splitAtEach_ne_nil separator rest)
        · rename_i first more pieces
          rcases List.mem_cons.mp member with rfl | later
          · have front := ih first (by simp [pieces])
            simp only [List.mem_cons, not_or]
            exact ⟨fun equal => different equal.symm, front⟩
          · exact ih piece (by simp [pieces, later])

theorem mem_of_mem_piece (separator : Char) (text piece : Text)
    (member : piece ∈ splitAtEach separator text) (character : Char) (inside : character ∈ piece) :
    character ∈ text := by
  induction text generalizing piece with
  | nil =>
      simp only [splitAtEach, List.mem_singleton] at member
      simp [member] at inside
  | cons first rest ih =>
      simp only [splitAtEach] at member
      split at member
      · rcases List.mem_cons.mp member with rfl | later
        · simp at inside
        · exact List.mem_cons_of_mem _ (ih piece later inside)
      · split at member
        · rename_i none
          exact absurd none (splitAtEach_ne_nil separator rest)
        · rename_i head more pieces
          rcases List.mem_cons.mp member with rfl | later
          · rcases List.mem_cons.mp inside with rfl | inHead
            · simp
            · exact List.mem_cons_of_mem _ (ih head (by simp [pieces]) inHead)
          · exact List.mem_cons_of_mem _ (ih piece (by simp [pieces, later]) inside)

/-- A line without the carriage return that stands before its line feed. -/
def chomp (piece : Text) : Text := if piece.getLast? = some '\r' then piece.dropLast else piece

theorem chomp_cons (character : Char) (piece : Text) (kept : character = '\r' → piece ≠ []) :
    chomp (character :: piece) = character :: chomp piece := by
  cases piece with
  | nil =>
      have other : ¬character = '\r' := fun equal => kept equal rfl
      simp [chomp, other]
  | cons second rest =>
      simp only [chomp, List.getLast?_cons_cons, List.dropLast_cons_cons]
      split <;> rfl

theorem chomp_cases (piece : Text) : piece = chomp piece ∨ piece = chomp piece ++ ['\r'] := by
  simp only [chomp]
  split
  · rename_i ends
    right
    obtain ⟨front, rfl⟩ := List.getLast?_eq_some_iff.mp ends
    simp
  · exact .inl rfl

theorem lines_return_feed (rest : Text) : lines ('\r' :: '\n' :: rest) = lines ('\n' :: rest) := by
  simp only [lines]

theorem lines_cons (character : Char) (rest : Text) (notFeed : character ≠ '\n')
    (notReturn : character = '\r' → rest.head? ≠ some '\n') :
    lines (character :: rest) =
      match lines rest with
      | [] => [[character]]
      | first :: more => (character :: first) :: more := by
  have apart : ∀ tail, character = '\r' → rest = '\n' :: tail → False := by
    intro tail isReturn begins
    exact notReturn isReturn (by simp [begins])
  exact lines.eq_4 character rest notFeed apart

/-- Induction along the way in which a text is cut into lines. -/
theorem lines_induction {motive : Text → Prop} (nil : motive [])
    (feed : ∀ rest, motive rest → motive ('\n' :: rest))
    (returnFeed : ∀ rest, motive rest → motive ('\r' :: '\n' :: rest))
    (other : ∀ character rest, character ≠ '\n' → (character = '\r' → rest.head? ≠ some '\n') →
      motive rest → motive (character :: rest))
    (text : Text) : motive text := by
  have apart : ∀ (character : Char) (rest : Text),
      (∀ tail, character = '\r' → rest = '\n' :: tail → False) →
        character = '\r' → rest.head? ≠ some '\n' := by
    intro character rest none isReturn begins
    obtain ⟨tail, whole⟩ := List.head?_eq_some_iff.mp begins
    exact none tail isReturn whole
  induction text using lines.induct with
  | case1 => exact nil
  | case2 rest ih => exact feed rest ih
  | case3 rest ih => exact returnFeed rest ih
  | case4 character rest notFeed none _ ih | case5 character rest notFeed none _ _ _ ih =>
      exact other character rest notFeed (apart character rest none) ih

/-- Lines are the pieces between line feeds; an empty piece after the last one is no line. -/
theorem lines_eq (text : Text) :
    lines text =
      (splitAtEach '\n' text).dropLast.map chomp ++
        (if (splitAtEach '\n' text).getLast? = some [] then []
          else (splitAtEach '\n' text).getLast?.toList) := by
  induction text using lines_induction with
  | nil => simp [lines, splitAtEach]
  | feed rest ih =>
      obtain ⟨first, more, pieces⟩ := List.exists_cons_of_ne_nil (splitAtEach_ne_nil '\n' rest)
      simp [lines, splitAtEach, ih, pieces, chomp]
  | returnFeed rest ih =>
      obtain ⟨first, more, pieces⟩ := List.exists_cons_of_ne_nil (splitAtEach_ne_nil '\n' rest)
      simp [lines, splitAtEach, ih, pieces, chomp]
  | other character rest notFeed notReturn ih =>
      obtain ⟨first, more, pieces⟩ := List.exists_cons_of_ne_nil (splitAtEach_ne_nil '\n' rest)
      rw [lines_cons _ _ notFeed notReturn, ih]
      simp only [splitAtEach, notFeed, if_false, pieces]
      cases more with
      | nil => cases first <;> simp
      | cons next more =>
          have kept : character = '\r' → first ≠ [] := by
            intro isReturn empty
            subst empty
            cases rest with
            | nil => simp [splitAtEach] at pieces
            | cons head tail =>
                by_cases begins : head = '\n'
                · exact notReturn isReturn (by simp [begins])
                · simp only [splitAtEach, begins, if_false] at pieces
                  split at pieces <;> simp at pieces
          simp [chomp_cons _ _ kept]

theorem mem_lines (text line : Text) (member : line ∈ lines text) :
    ∃ piece ∈ splitAtEach '\n' text, piece = line ∨ piece = line ++ ['\r'] := by
  rw [lines_eq, List.mem_append, List.mem_map] at member
  rcases member with ⟨piece, inside, rfl⟩ | last
  · exact ⟨piece, List.dropLast_subset _ inside, chomp_cases piece⟩
  · split at last
    · simp at last
    · exact ⟨line, List.mem_of_getLast? (by simpa using last), .inl rfl⟩

theorem newline_not_mem_of_mem_lines (text line : Text) (member : line ∈ lines text) : '\n' ∉ line := by
  obtain ⟨piece, inside, shape⟩ := mem_lines text line member
  have absent := not_mem_of_mem_splitAtEach '\n' text piece inside
  rcases shape with rfl | rfl
  · exact absent
  · exact fun found => absent (List.mem_append_left _ found)

theorem mem_lines_of_piece (text piece : Text) (member : piece ∈ splitAtEach '\n' text)
    (filled : piece ≠ []) (plain : piece.getLast? ≠ some '\r') : piece ∈ lines text := by
  rw [lines_eq, List.mem_append, List.mem_map]
  have parts := List.dropLast_concat_getLast (splitAtEach_ne_nil '\n' text)
  rw [← parts, List.mem_append, List.mem_singleton] at member
  rcases member with inside | last
  · exact .inl ⟨piece, inside, by simp [chomp, plain]⟩
  · right
    rw [List.getLast?_eq_some_getLast (splitAtEach_ne_nil '\n' text), ← last]
    simp [filled]

theorem joinWith_isStart (separator : Text) (front back : List Text) :
    joinWith separator front <+: joinWith separator (front ++ back) := by
  induction front with
  | nil => exact List.nil_prefix
  | cons first rest ih =>
      cases rest with
      | nil =>
          cases back with
          | nil => exact List.prefix_refl _
          | cons second back => exact ⟨separator ++ joinWith separator (second :: back), by simp [joinWith]⟩
      | cons second rest => exact (List.prefix_append_right_inj _).mpr ih

theorem joinWith_cons (separator first : Text) (rest : List Text) (filled : rest ≠ []) :
    joinWith separator (first :: rest) = first ++ separator ++ joinWith separator rest := by
  obtain ⟨second, more, rfl⟩ := List.exists_cons_of_ne_nil filled
  rfl

theorem joinWith_splitAtEach (separator : Char) (text : Text) :
    joinWith [separator] (splitAtEach separator text) = text := by
  induction text with
  | nil => rfl
  | cons character rest ih =>
      cases pieces : splitAtEach separator rest with
      | nil => exact absurd pieces (splitAtEach_ne_nil separator rest)
      | cons first more =>
          rw [pieces] at ih
          by_cases same : character = separator
          · simp only [splitAtEach, same, if_true, pieces, joinWith, List.nil_append, ih]
            rfl
          · simp only [splitAtEach, same, if_false, pieces]
            cases more with
            | nil => rw [joinWith, ← ih, joinWith]
            | cons second more =>
                rw [joinWith] at ih ⊢
                rw [← ih]
                rfl

theorem splitAtEach_joinWith (separator : Char) (content : List Text) (filled : content ≠ []) :
    splitAtEach separator (joinWith [separator] content) = content.flatMap (splitAtEach separator) := by
  induction content with
  | nil => exact absurd rfl filled
  | cons first rest ih =>
      cases rest with
      | nil => simp [joinWith]
      | cons second rest =>
          have later := ih (by simp)
          simp only [joinWith, List.append_assoc, List.singleton_append, splitAtEach_append, later]
          simp

theorem splitAtEach_joinWith_pieces (separator : Char) (pieces : List Text) (filled : pieces ≠ [])
    (absent : ∀ piece ∈ pieces, separator ∉ piece) :
    splitAtEach separator (joinWith [separator] pieces) = pieces := by
  have single : ∀ piece ∈ pieces, splitAtEach separator piece = [piece] :=
    fun piece member => splitAtEach_eq_singleton separator piece (absent piece member)
  rw [splitAtEach_joinWith separator pieces filled, List.flatMap_def, List.map_congr_left single,
    ← List.flatMap_def, List.flatMap_singleton']

theorem splitAtEach_joinLines (content : List Text) (filled : content ≠ []) :
    splitAtEach '\n' (joinLines content) = content.flatMap (splitAtEach '\n') :=
  splitAtEach_joinWith '\n' content filled

theorem mem_splitAtEach_assemble (source : Text) (content : List Text) (piece : Text)
    (filled : piece ≠ []) :
    piece ∈ splitAtEach '\n' (assemble source content) ↔
      ∃ original ∈ content, piece ∈ splitAtEach '\n' original := by
  have joined : piece ∈ splitAtEach '\n' (joinLines content) ↔
      ∃ original ∈ content, piece ∈ splitAtEach '\n' original := by
    by_cases empty : content = []
    · simp [empty, joinLines, joinWith, splitAtEach, filled]
    · rw [splitAtEach_joinLines content empty, List.mem_flatMap]
  simp only [assemble, finalNewline]
  split
  · rw [splitAtEach_append, List.mem_append, joined]
    simp [splitAtEach, filled]
  · rw [List.append_nil, joined]

theorem stripStart?_isSome_iff (opening text : Text) :
    (stripStart? opening text).isSome = true ↔ opening <+: text := by
  simp only [Option.isSome_iff_exists, stripStart?_eq_some_iff]
  exact exists_congr fun after => eq_comm

theorem splitLast?_isSome_iff (needle text : Text) (filled : needle ≠ []) :
    (splitLast? needle text).isSome = true ↔ needle <:+: text := by
  induction text with
  | nil => simp [splitLast?, filled]
  | cons character rest ih =>
      rw [List.infix_cons_iff, ← stripStart?_isSome_iff, ← ih, splitLast?]
      cases splitLast? needle rest with
      | none => simp
      | some split => simp

theorem splitFirst?_isSome_iff (needle text : Text) (filled : needle ≠ []) :
    (splitFirst? needle text).isSome = true ↔ needle <:+: text := by
  induction text with
  | nil => simp [splitFirst?, filled]
  | cons character rest ih =>
      rw [List.infix_cons_iff, ← stripStart?_isSome_iff, ← ih, splitFirst?]
      cases stripStart? needle (character :: rest) with
      | none => simp
      | some after => simp

theorem not_infix_of_splitFirst? (needle text before after : Text) (filled : needle ≠ [])
    (found : splitFirst? needle text = some (before, after)) : ¬needle <:+: before := by
  induction text generalizing before with
  | nil => simp [splitFirst?] at found
  | cons character rest ih =>
      simp only [splitFirst?] at found
      split at found
      · simp only [Option.some.injEq, Prod.mk.injEq] at found
        simp [← found.1, filled]
      · rename_i other
        simp only [Option.map_eq_some_iff, Prod.mk.injEq, Prod.exists] at found
        obtain ⟨front, tail, inner, rfl, rfl⟩ := found
        rw [List.infix_cons_iff]
        rintro (begins | inside)
        · have whole := splitFirst?_eq_append needle rest front tail inner
          have there : (stripStart? needle (character :: rest)).isSome = true := by
            rw [stripStart?_isSome_iff, whole, List.append_assoc]
            exact begins.trans (List.prefix_append (character :: front) _)
          rw [other] at there
          cases there
        · exact ih front inner inside

/-- A text that begins with a character of its own lies within no part that lacks it. -/
theorem infix_append_iff_of_absent (needle front back : Text) (start : Char)
    (starts : needle.head? = some start) (absent : start ∉ front) :
    needle <:+: front ++ back ↔ needle <:+: back := by
  induction front with
  | nil => simp
  | cons character rest ih =>
      have different : start ≠ character := fun same => absent (by simp [same])
      rw [List.cons_append, List.infix_cons_iff, ih fun member => absent (List.mem_cons_of_mem _ member)]
      refine or_iff_right ?_
      rintro ⟨after, whole⟩
      cases needle with
      | nil => simp at starts
      | cons first needle =>
          simp only [List.head?_cons, Option.some.injEq] at starts
          exact different (starts.symm.trans (List.cons.inj whole).1)

theorem replaceFrom_skip (needle replacement passed text : Text) :
    replaceFrom needle replacement passed.length (passed ++ text) = replaceFrom needle replacement 0 text := by
  induction passed with
  | nil => rfl
  | cons character rest ih => exact ih

theorem replaceFrom_needle (needle replacement text : Text) (filled : needle ≠ []) :
    replaceFrom needle replacement 0 (needle ++ text) =
      replacement ++ replaceFrom needle replacement 0 text := by
  obtain ⟨first, rest, rfl⟩ := List.exists_cons_of_ne_nil filled
  have found := stripStart?_append (first :: rest) text
  rw [List.cons_append] at found ⊢
  simp only [replaceFrom, found, List.length_cons, Nat.add_sub_cancel, replaceFrom_skip]

/-- Taking a text out leaves the pieces between its copies, in which there is none. -/
theorem replaceAll_pieces (needle text : Text) (filled : needle ≠ []) :
    ∃ first rest, text = joinWith needle (first :: rest) ∧
      replaceAll needle [] text = (first :: rest).flatten ∧
      ∀ piece ∈ first :: rest, ¬needle <:+: piece := by
  rw [replaceAll]
  -- On the length, since a copy is passed over at once.
  induction length : text.length using Nat.strongRecOn generalizing text with
  | ind size ih =>
      cases text with
      | nil => exact ⟨[], [], rfl, rfl, by simpa using filled⟩
      | cons character tail =>
          cases found : stripStart? needle (character :: tail) with
          | some after =>
              have parts := (stripStart?_eq_some_iff _ _ _).mp found
              have shorter : after.length < size := by
                have whole := congrArg List.length parts
                have some? := List.length_pos_iff.mpr filled
                rw [length, List.length_append] at whole
                omega
              obtain ⟨first, rest, whole, kept, copyless⟩ := ih after.length shorter after rfl
              refine ⟨[], first :: rest, ?_, ?_, ?_⟩
              · rw [parts, whole]
                rfl
              · rw [parts, replaceFrom_needle _ _ _ filled, kept]
                rfl
              · exact List.forall_mem_cons.mpr ⟨by simpa using filled, copyless⟩
          | none =>
              obtain ⟨first, rest, whole, kept, copyless⟩ :=
                ih tail.length (by rw [← length]; exact Nat.lt_succ_self _) tail rfl
              have joined : character :: tail = joinWith needle ((character :: first) :: rest) := by
                rw [whole]
                cases rest <;> rfl
              refine ⟨character :: first, rest, joined, ?_, ?_⟩
              · rw [replaceFrom, found]
                exact congrArg (character :: ·) kept
              · obtain ⟨firstCopyless, restCopyless⟩ := List.forall_mem_cons.mp copyless
                refine List.forall_mem_cons.mpr ⟨?_, restCopyless⟩
                rw [List.infix_cons_iff, not_or]
                refine ⟨fun starts => ?_, firstCopyless⟩
                obtain ⟨more, begun⟩ := starts.trans (joinWith_isStart needle [character :: first] rest)
                rw [List.singleton_append, ← joined] at begun
                rw [(stripStart?_eq_some_iff _ _ _).mpr begun.symm] at found
                simp at found

end Text

end FencePreview
