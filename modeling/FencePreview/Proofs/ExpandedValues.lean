import FencePreview.Proofs.ReferencePieces

/-! Values with their references replaced. What is meant are names in braces, and every other dollar sign is
text. A value with a brace after a dollar sign is read as a shell reads it, so there a name without
braces is a reference too, and of two dollar signs one is dropped. -/

namespace FencePreview

namespace Expansion

namespace Piece

def value (environment : Environment) : Piece → Text
  | kept character => [character]
  | braced name fallback => ((environment.lookup name).or fallback).getD []
  | bare name => (environment.lookup name).getD []
  | doubled => ['$']

/-- The variable that a piece needs and that is not set. -/
def unset? (environment : Environment) : Piece → Option Text
  | braced name none => if (environment.lookup name).isNone then some name else none
  | bare name => if (environment.lookup name).isNone then some name else none
  | _ => none

end Piece

/-- The pieces with their values in place of them. It fails with the first variable that is not set. -/
def evaluate (environment : Environment) (pieces : List Piece) : Except Text Text :=
  match pieces.findSome? (Piece.unset? environment) with
  | some name => .error name
  | none => .ok (pieces.flatMap (Piece.value environment))

theorem evaluate_cons (environment : Environment) (piece : Piece) (pieces : List Piece) :
    evaluate environment (piece :: pieces) =
      match piece.unset? environment with
      | some name => .error name
      | none => (evaluate environment pieces).map (piece.value environment ++ ·) := by
  simp only [evaluate, List.findSome?_cons, List.flatMap_cons]
  cases piece.unset? environment with
  | some name => rfl
  | none => cases pieces.findSome? (Piece.unset? environment) <;> rfl

section Steps

variable (environment : Environment) (text name rest : Text)

theorem replaceReferences_literal (kept : Text) (reads : reference text = .literal kept rest) :
    replaceReferences environment ('$' :: text) = (replaceReferences environment rest).map (kept ++ ·) := by
  rw [replaceReferences, reads]
  rfl

theorem replaceReferences_named (fallback : Option Text) (reads : reference text = .named name fallback rest) :
    replaceReferences environment ('$' :: text) =
      match (Piece.braced name fallback).unset? environment with
      | some name => .error name
      | none => (replaceReferences environment rest).map ((Piece.braced name fallback).value environment ++ ·) := by
  rw [replaceReferences, reads]
  cases set : environment.lookup name <;> cases fallback <;>
    simp [Reference.value, Reference.rest, Piece.unset?, Piece.value, set]

theorem replaceReferences_other (character : Char) (other : character ≠ '$') :
    replaceReferences environment (character :: text) =
      (replaceReferences environment text).map (character :: ·) := by
  rw [replaceReferences]
  exact other

/-- A dollar sign that begins no reference is kept, also before a brace that is never closed. -/
theorem replaceReferences_kept (unbraced : opensBraces rest = false)
    (follows : ∀ next ∈ rest.head?, next ≠ '$' ∧ Text.isWord next = false) :
    replaceReferences environment ('$' :: rest) = (replaceReferences environment rest).map ('$' :: ·) := by
  cases rest with
  | nil => exact replaceReferences_literal environment [] [] ['$'] rfl
  | cons first rest =>
      obtain ⟨single, blank⟩ := follows first rfl
      by_cases brace : first = '\x7b'
      · subst brace
        have absent : '\x7d' ∉ rest := by simpa [opensBraces_cons] using unbraced
        have unclosed : reference ('\x7b' :: rest) = .literal braceOpening rest := by
          simp only [reference, Text.splitFirst?_singleton_of_absent '\x7d' rest absent]
        rw [replaceReferences_literal environment _ rest braceOpening unclosed,
          replaceReferences_other environment rest '\x7b' (by decide)]
        cases replaceReferences environment rest <;> rfl
      · have literal : reference (first :: rest) = .literal ['$'] (first :: rest) := by
          simp [reference, blank]
        exact replaceReferences_literal environment _ _ ['$'] literal

end Steps

theorem replaceReferences_piece (environment : Environment) (piece : Piece) (rest : Text)
    (fits : piece.Fits .shell rest) :
    replaceReferences environment (piece.written ++ rest) =
      match piece.unset? environment with
      | some name => .error name
      | none => (replaceReferences environment rest).map (piece.value environment ++ ·) := by
  cases piece with
  | kept character =>
      by_cases dollar : character = '$'
      · subst dollar
        obtain ⟨unbraced, follows⟩ := fits rfl
        exact replaceReferences_kept environment rest unbraced (follows rfl)
      · exact replaceReferences_other environment rest character dollar
  | braced name fallback =>
      have shape : IsReference name fallback := fits
      have reads : reference ('\x7b' :: (inner name fallback ++ '\x7d' :: rest)) = .named name fallback rest := by
        simp only [reference, Text.splitFirst?_singleton_append '\x7d' (inner name fallback) rest shape.inside,
          splitDefault_inner name fallback shape]
      have whole : (Piece.braced name fallback).written ++ rest =
          '$' :: '\x7b' :: (inner name fallback ++ '\x7d' :: rest) := by
        simp [Piece.written]
      rw [whole]
      exact replaceReferences_named environment _ name rest fallback reads
  | bare name =>
      obtain ⟨_, filled, word, stops⟩ := fits
      have reads : reference (name ++ rest) = .named name none rest := by
        obtain ⟨first, more, rfl⟩ := List.exists_cons_of_ne_nil filled
        have firstWord := word first List.mem_cons_self
        have taken := Text.takeWhile_append_stop Text.isWord (first :: more) rest word stops
        have dropped := Text.dropWhile_append_stop Text.isWord (first :: more) rest word stops
        rw [List.cons_append] at taken dropped ⊢
        rw [reference, if_pos firstWord, taken, dropped]
        · rintro rfl
          exact absurd firstWord (by decide)
        · rintro rfl
          exact absurd firstWord (by decide)
      have stands : (Piece.braced name none).value environment = (Piece.bare name).value environment := by
        rw [Piece.value, Option.or_none]
        rfl
      have replaced := replaceReferences_named environment (name ++ rest) name rest none reads
      rw [stands] at replaced
      exact replaced
  | doubled => exact replaceReferences_literal environment _ rest ['$'] rfl

theorem replaceReferences_eq (environment : Environment) (pieces : List Piece) (proper : Proper .shell pieces) :
    replaceReferences environment (pieces.flatMap Piece.written) = evaluate environment pieces := by
  induction pieces with
  | nil =>
      rw [List.flatMap_nil, replaceReferences]
      rfl
  | cons piece pieces ih =>
      rw [List.flatMap_cons, replaceReferences_piece environment piece _ proper.1, evaluate_cons, ih proper.2]

theorem expand_of_reads (environment : Environment) (value : Text) (pieces : List Piece)
    (reads : Reads .shell value pieces) (references : braceOpening <:+: value) :
    expand environment value = evaluate environment pieces := by
  have there : Text.contains braceOpening value = true :=
    (Text.splitFirst?_isSome_iff braceOpening value (by decide)).mpr references
  rw [expand, if_pos there, ← reads.whole]
  exact replaceReferences_eq environment pieces reads.proper

theorem expand_of_absent (environment : Environment) (value : Text) (absent : ¬braceOpening <:+: value) :
    expand environment value = .ok value := by
  rw [← Text.splitFirst?_isSome_iff braceOpening value (by decide)] at absent
  exact if_neg absent

/-- Without a brace after a dollar sign there is nothing to replace in a value. -/
theorem evaluate_of_absent (environment : Environment) (pieces : List Piece) (proper : Proper .braces pieces)
    (absent : ¬braceOpening <:+: pieces.flatMap Piece.written) :
    evaluate environment pieces = .ok (pieces.flatMap Piece.written) := by
  induction pieces with
  | nil => rfl
  | cons piece pieces ih =>
      rw [List.flatMap_cons] at absent ⊢
      have later : ¬braceOpening <:+: pieces.flatMap Piece.written := fun inside =>
        absent (inside.trans (List.suffix_append _ _).isInfix)
      rw [evaluate_cons, ih proper.2 later]
      cases piece with
      | kept character => rfl
      | braced name fallback =>
          have begins : braceOpening <+: (Piece.braced name fallback).written := ⟨_, rfl⟩
          exact absurd (begins.trans (List.prefix_append _ _)).isInfix absent
      | bare name => exact nomatch proper.1.1
      | doubled => exact nomatch proper.1

namespace Piece

def name? : Piece → Option Text
  | braced name _ => some name
  | bare name => some name
  | _ => none

/-- What a piece stands for where each variable holds one letter. -/
def sample : Piece → Text
  | kept character => [character]
  | braced _ _ => ['a']
  | bare _ => ['a']
  | doubled => ['$']

end Piece

def sampleEnvironment (pieces : List Piece) : Environment :=
  (pieces.filterMap Piece.name?).map fun name => (name, ['a'])

theorem lookup_sampleEnvironment (pieces : List Piece) (piece : Piece) (name : Text) (member : piece ∈ pieces)
    (named : piece.name? = some name) : (sampleEnvironment pieces).lookup name = some ['a'] := by
  have there : name ∈ pieces.filterMap Piece.name? := List.mem_filterMap.mpr ⟨piece, member, named⟩
  rw [sampleEnvironment]
  generalize pieces.filterMap Piece.name? = names at there
  induction names with
  | nil => cases there
  | cons first names ih =>
      rw [List.map_cons, List.lookup_cons]
      by_cases same : name = first
      · simp [same]
      · rw [beq_eq_false_iff_ne.mpr same]
        exact ih ((List.mem_cons.mp there).resolve_left same)

theorem evaluate_sample (all pieces : List Piece) (among : pieces ⊆ all) :
    evaluate (sampleEnvironment all) pieces = .ok (pieces.flatMap Piece.sample) := by
  induction pieces with
  | nil => rfl
  | cons piece pieces ih =>
      have later := ih fun other member => among (List.mem_cons_of_mem _ member)
      have set := lookup_sampleEnvironment all piece
      have member := among List.mem_cons_self
      rw [evaluate_cons, later, List.flatMap_cons]
      cases piece with
      | kept character => rfl
      | braced name fallback =>
          cases fallback <;> simp [Piece.unset?, Piece.value, Piece.sample, set name member rfl, Except.map]
      | bare name => simp [Piece.unset?, Piece.value, Piece.sample, set name member rfl, Except.map]
      | doubled => rfl

/-- The first piece that is meant, by the characters that it begins with. -/
theorem first_braces (pieces : List Piece) (proper : Proper .braces pieces) (character : Char) (text : Text)
    (whole : pieces.flatMap Piece.written = character :: text) :
    ∃ piece rest, pieces = piece :: rest ∧ Proper .braces rest ∧ next? .braces (character :: text) = some piece ∧
      piece.written ++ rest.flatMap Piece.written = character :: text := by
  cases pieces with
  | nil => cases whole
  | cons piece rest =>
      rw [List.flatMap_cons] at whole
      exact ⟨piece, rest, rfl, proper.2, by rw [← whole]; exact next?_of_fits .braces piece _ proper.1, whole⟩

theorem kept_dollar (pieces : List Piece) (proper : Proper .braces pieces) (text : Text)
    (whole : pieces.flatMap Piece.written = '$' :: text) (unbraced : opensBraces text = false) :
    ∃ rest, pieces = .kept '$' :: rest ∧ Proper .braces rest ∧ rest.flatMap Piece.written = text := by
  obtain ⟨piece, rest, rfl, later, first, parts⟩ := first_braces pieces proper '$' text whole
  obtain rfl : Piece.kept '$' = piece := by simpa [next?, unbraced] using first
  exact ⟨rest, rfl, later, (List.cons.inj parts).2⟩

theorem head?_sample (pieces : List Piece) (proper : Proper .braces pieces) (text : Text)
    (whole : pieces.flatMap Piece.written = '$' :: text) (surplus : Nat) :
    (List.replicate surplus '$' ++ pieces.flatMap Piece.sample).head? = some '$' ∨
      (List.replicate surplus '$' ++ pieces.flatMap Piece.sample).head? = some 'a' ∧ text.head? = some '\x7b' := by
  cases surplus with
  | succ surplus => exact .inl rfl
  | zero =>
      by_cases braced : opensBraces text = true
      · obtain ⟨piece, rest, rfl, _, first, _⟩ := first_braces pieces proper '$' text whole
        have begins : text.head? = some '\x7b' := by
          simp only [opensBraces, Bool.and_eq_true, decide_eq_true_eq] at braced
          exact braced.1
        simp only [next?, if_pos, braced, Option.some.injEq] at first
        rw [← first]
        exact .inr ⟨rfl, begins⟩
      · obtain ⟨rest, rfl, _⟩ := kept_dollar pieces proper text whole (by simpa using braced)
        exact .inl rfl

theorem replicate_append_dollar (surplus : Nat) (text : Text) :
    List.replicate surplus '$' ++ '$' :: text = '$' :: (List.replicate surplus '$' ++ text) := by
  rw [List.append_cons, ← List.replicate_succ', List.replicate_succ, List.cons_append]

/-- Once a shell has dropped a dollar sign the two readings do not come together again: the other one
is a dollar sign behind, and has at least as many more in its result. -/
theorem sample_ne_of_dropped (pieces meant : List Piece) (proper : Proper .shell pieces)
    (properMeant : Proper .braces meant) (surplus : Nat)
    (behind : meant.flatMap Piece.written = '$' :: pieces.flatMap Piece.written) :
    pieces.flatMap Piece.sample ≠ List.replicate surplus '$' ++ meant.flatMap Piece.sample := by
  have heads := head?_sample meant properMeant _ behind surplus
  have dollar : ∀ text, opensBraces ('$' :: text) = false := fun text => by simp [opensBraces_cons]
  -- `behind` is kept: each step takes as much from both readings, so the other one stays a sign behind.
  induction pieces generalizing meant surplus with
  | nil =>
      intro same
      rw [← same] at heads
      rcases heads with begins | ⟨begins, _⟩ <;> cases begins
  | cons piece pieces ih =>
      rw [List.flatMap_cons] at behind ⊢
      intro same
      rw [← same] at heads
      cases piece with
      | kept character =>
          by_cases again : character = '$'
          · subst again
            obtain ⟨rest, rfl, later, aligned⟩ := kept_dollar meant properMeant _ behind (dollar _)
            rw [List.flatMap_cons, Piece.sample, List.singleton_append, List.singleton_append,
              replicate_append_dollar] at same
            exact ih rest proper.2 later surplus aligned (head?_sample rest later _ aligned surplus)
              (List.cons.inj same).2
          · rcases heads with begins | ⟨begins, brace⟩
            · exact again (Option.some.inj begins)
            · have first : character = 'a' := Option.some.inj begins
              rw [first] at brace
              exact absurd (Option.some.inj brace) (by decide)
      | braced name fallback =>
          rcases heads with begins | ⟨_, brace⟩
          · exact absurd (Option.some.inj begins) (by decide)
          · exact absurd (Option.some.inj brace) (by decide)
      | bare name =>
          rcases heads with begins | ⟨_, brace⟩
          · exact absurd (Option.some.inj begins) (by decide)
          · exact absurd (Option.some.inj brace) (by decide)
      | doubled =>
          -- Here two signs stand for one, there each of them is kept: the surplus grows.
          obtain ⟨_, rfl, middle, aligned⟩ := kept_dollar meant properMeant _ behind (dollar _)
          obtain ⟨rest, rfl, later, aligned⟩ := kept_dollar _ middle _ aligned (dollar _)
          rw [List.flatMap_cons, List.flatMap_cons, Piece.sample, Piece.sample, List.singleton_append,
            List.singleton_append, List.singleton_append, replicate_append_dollar, replicate_append_dollar] at same
          exact ih rest proper.2 later (surplus + 1) aligned (head?_sample rest later _ aligned (surplus + 1))
            (List.cons.inj same).2

/-- A name without braces, or a dropped dollar sign, shows where the variables hold other text. -/
theorem sample_ne_of_isShell (pieces meant : List Piece) (proper : Proper .shell pieces)
    (properMeant : Proper .braces meant)
    (same : meant.flatMap Piece.written = pieces.flatMap Piece.written)
    (shell : ∃ piece ∈ pieces, piece.isShell = true) :
    pieces.flatMap Piece.sample ≠ meant.flatMap Piece.sample := by
  -- Up to the first piece that only a shell reads so, both readings consist of the same pieces.
  induction pieces generalizing meant with
  | nil => simp at shell
  | cons piece pieces ih =>
      rw [List.flatMap_cons] at same ⊢
      cases kind : piece.isShell with
      | false =>
          have fits := fits_braces piece _ proper.1 kind
          cases meant with
          | nil => simp [written_ne_nil] at same
          | cons first rest =>
              rw [List.flatMap_cons] at same ⊢
              have read := next?_of_fits .braces first _ properMeant.1
              rw [same, next?_of_fits .braces piece _ fits, Option.some.injEq] at read
              obtain rfl := read
              have later : ∃ other ∈ pieces, other.isShell = true := by simpa [kind] using shell
              intro equal
              exact ih rest proper.2 properMeant.2 (List.append_cancel_left same) later
                (List.append_cancel_left equal)
      | true =>
          cases piece with
          | kept character => cases kind
          | braced name fallback => cases kind
          | bare name =>
              obtain ⟨_, filled, word, _⟩ := proper.1
              obtain ⟨first, more, rfl⟩ := List.exists_cons_of_ne_nil filled
              have unbraced : opensBraces (first :: (more ++ pieces.flatMap Piece.written)) = false := by
                have other : first ≠ '\x7b' := by
                  rintro rfl
                  exact absurd (word _ List.mem_cons_self) (by decide)
                simp [opensBraces_cons, other]
              obtain ⟨rest, rfl, _⟩ := kept_dollar meant properMeant _ same unbraced
              simp [Piece.sample]
          | doubled =>
              obtain ⟨rest, rfl, later, aligned⟩ :=
                kept_dollar meant properMeant _ same (by simp [opensBraces_cons])
              intro equal
              exact sample_ne_of_dropped pieces rest proper.2 later 0 aligned (List.cons.inj equal).2

/-- A value is expanded as meant, with names in braces replaced and all else kept, unless it holds a brace
after a dollar sign and is then read with a name without braces or two dollar signs in a row. Such a
value has another result in some environment. -/
theorem expand_exact (value : Text) :
    ∃ pieces meant : List Piece,
      (∀ other, Reads .shell value other ↔ other = pieces) ∧
      (∀ other, Reads .braces value other ↔ other = meant) ∧
      (braceOpening <:+: value → ∀ environment, expand environment value = evaluate environment pieces) ∧
      (¬braceOpening <:+: value → ∀ environment, expand environment value = .ok value) ∧
      ((∀ environment, expand environment value = evaluate environment meant) ↔
        (braceOpening <:+: value → ∀ piece ∈ pieces, piece.isShell = false)) := by
  obtain ⟨pieces, reads⟩ := exists_reads .shell value
  obtain ⟨meant, readsMeant⟩ := exists_reads .braces value
  refine ⟨pieces, meant, fun other => ⟨Reads.eq .shell value pieces other reads, fun same => same ▸ reads⟩,
    fun other => ⟨Reads.eq .braces value meant other readsMeant, fun same => same ▸ readsMeant⟩,
    fun references environment => expand_of_reads environment value pieces reads references,
    fun absent environment => expand_of_absent environment value absent, ?_⟩
  constructor
  · intro law references piece member
    rw [Bool.eq_false_iff]
    intro shell
    let environment := sampleEnvironment (pieces ++ meant)
    have taken := law environment
    rw [expand_of_reads environment value pieces reads references,
      evaluate_sample _ pieces (List.subset_append_left _ _),
      evaluate_sample _ meant (List.subset_append_right _ _), Except.ok.injEq] at taken
    exact sample_ne_of_isShell pieces meant reads.proper readsMeant.proper
      (readsMeant.whole.trans reads.whole.symm) ⟨piece, member, shell⟩ taken
  · intro plain environment
    by_cases references : braceOpening <:+: value
    · have both : Reads .braces value pieces :=
        ⟨reads.whole, proper_braces pieces reads.proper (plain references)⟩
      rw [expand_of_reads environment value pieces reads references,
        Reads.eq .braces value pieces meant both readsMeant]
    · have unchanged := evaluate_of_absent environment meant readsMeant.proper (by rwa [readsMeant.whole])
      rw [expand_of_absent environment value references, unchanged, readsMeant.whole]

example : expand [] "/$\x7ba:-x\x7d/$b".toList = .error "b".toList := by decide +kernel

example : expand [] "/$\x7ba:-x\x7d/$$".toList = .ok "/x/$".toList := by decide +kernel

end Expansion

end FencePreview
