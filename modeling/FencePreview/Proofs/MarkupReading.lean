import FencePreview.Preview.Render

/-! Image markup as it is read back. The reader knows start tags with quoted values and the text between
them, and refuses everything else. A value ends at the quote that opened it, and nowhere else: escaped text
has no quote, so an address stays within its value whatever it holds. -/

namespace FencePreview

namespace Markup

/-- Escaped text read back, in one pass from left to right. -/
def decode : Text → Text
  | '&' :: 'a' :: 'm' :: 'p' :: ';' :: rest => '&' :: decode rest
  | '&' :: 'l' :: 't' :: ';' :: rest => '<' :: decode rest
  | '&' :: 'g' :: 't' :: ';' :: rest => '>' :: decode rest
  | '&' :: 'q' :: 'u' :: 'o' :: 't' :: ';' :: rest => '"' :: decode rest
  | '&' :: '#' :: 'x' :: '2' :: '7' :: ';' :: rest => '\'' :: decode rest
  | character :: rest => character :: decode rest
  | [] => []

/-- A tag with its values as they stand between their quotes. -/
structure Element where
  name : Text
  attributes : List (Text × Text)
deriving DecidableEq, Repr

inductive Node where
  | character (value : Char)
  | element (value : Element)
deriving DecidableEq, Repr

/-- Where the reader is. -/
inductive Place where
  | between
  | name (read : Text)
  /-- Behind a name or a value, where the tag may end. -/
  | inside (element : Element)
  | key (element : Element) (read : Text)
  /-- Behind an equals sign. -/
  | equals (element : Element) (key : Text)
  | value (element : Element) (key : Text) (quote : Char) (read : Text)
deriving DecidableEq, Repr

/-- Reads one character: the nodes that it completes, and the next place. -/
def step : Place → Char → Option (List Node × Place)
  | .between, character =>
      if character = '<' then some ([], .name []) else some ([.character character], .between)
  | .name read, character =>
      if character = ' ' then some ([], .inside ⟨read, []⟩)
      else if character = '>' then some ([.element ⟨read, []⟩], .between)
      else if character.isAlpha then some ([], .name (read ++ [character]))
      else none
  | .inside element, character =>
      if character = ' ' then some ([], .inside element)
      else if character = '>' then some ([.element element], .between)
      else if character.isAlpha then some ([], .key element [character])
      else none
  | .key element read, character =>
      if character = '=' then some ([], .equals element read)
      else if character.isAlpha then some ([], .key element (read ++ [character]))
      else none
  | .equals element key, character =>
      if character = '"' || character = '\'' then some ([], .value element key character [])
      else none
  | .value element key quote read, character =>
      if character = quote then
        some ([], .inside { element with attributes := element.attributes ++ [(key, read)] })
      else some ([], .value element key quote (read ++ [character]))

/-- The nodes of a text read from a place on, and the place at its end. -/
def walk (place : Place) : Text → Option (List Node × Place)
  | [] => some ([], place)
  | character :: rest =>
      match step place character with
      | none => none
      | some (nodes, next) => (walk next rest).map fun later => (nodes ++ later.1, later.2)

/-- The nodes of a text that ends outside tags. -/
def nodes? (text : Text) : Option (List Node) :=
  match walk .between text with
  | some (nodes, .between) => some nodes
  | _ => none

def writeAttribute (binding : Text × Text) : Text :=
  ' ' :: (binding.1 ++ '=' :: '"' :: (binding.2 ++ ['"']))

def Element.written (element : Element) : Text :=
  '<' :: (element.name ++ (element.attributes.flatMap writeAttribute ++ ['>']))

/-- An attribute that can be written with double quotes. -/
structure Writable (binding : Text × Text) : Prop where
  named : binding.1 ≠ []
  letters : ∀ character ∈ binding.1, character.isAlpha = true
  free : '"' ∉ binding.2

section Walks

variable (place next : Place) (front back : Text) (nodes : List Node)

theorem walk_append (walked : walk place front = some (nodes, next)) :
    walk place (front ++ back) = (walk next back).map fun later => (nodes ++ later.1, later.2) := by
  induction front generalizing place nodes with
  | nil =>
      cases walked
      simp
  | cons character rest ih =>
      simp only [walk] at walked
      cases stepped : step place character with
      | none => simp [stepped] at walked
      | some result =>
          simp only [stepped, Option.map_eq_some_iff, Prod.mk.injEq] at walked
          obtain ⟨⟨later, _⟩, onward, rfl, rfl⟩ := walked
          simp [walk, stepped, ih _ later onward, Function.comp_def]

theorem walk_append_silent (walked : walk place front = some ([], next)) :
    walk place (front ++ back) = walk next back := by
  simp [walk_append place next front back [] walked]

theorem walk_cons_silent (character : Char) (rest : Text) (stepped : step place character = some ([], next)) :
    walk place (character :: rest) = walk next rest := by
  simp [walk, stepped]

end Walks

theorem isAlpha_ne (character mark : Char) (letter : character.isAlpha = true) (other : mark.isAlpha = false) :
    character ≠ mark := by
  rintro rfl
  simp [other] at letter

theorem walk_name (read text : Text) (letters : ∀ character ∈ text, character.isAlpha = true) :
    walk (.name read) text = some ([], .name (read ++ text)) := by
  induction text generalizing read with
  | nil => simp [walk]
  | cons character rest ih =>
      obtain ⟨letter, others⟩ := List.forall_mem_cons.mp letters
      have goes : step (.name read) character = some ([], .name (read ++ [character])) := by
        simp [step, letter, isAlpha_ne character ' ' letter (by decide), isAlpha_ne character '>' letter (by decide)]
      rw [walk_cons_silent _ _ _ _ goes, ih (read ++ [character]) others, List.append_assoc]
      rfl

theorem walk_key (element : Element) (read text : Text)
    (letters : ∀ character ∈ text, character.isAlpha = true) :
    walk (.key element read) text = some ([], .key element (read ++ text)) := by
  induction text generalizing read with
  | nil => simp [walk]
  | cons character rest ih =>
      obtain ⟨letter, others⟩ := List.forall_mem_cons.mp letters
      have goes : step (.key element read) character = some ([], .key element (read ++ [character])) := by
        simp [step, letter, isAlpha_ne character '=' letter (by decide)]
      rw [walk_cons_silent _ _ _ _ goes, ih (read ++ [character]) others, List.append_assoc]
      rfl

/-- A value goes on up to the next quote of its kind. -/
theorem walk_value (element : Element) (key : Text) (quote : Char) (read text : Text) (free : quote ∉ text) :
    walk (.value element key quote read) (text ++ [quote]) =
      some ([], .inside { element with attributes := element.attributes ++ [(key, read ++ text)] }) := by
  induction text generalizing read with
  | nil => simp [walk, step]
  | cons character rest ih =>
      rw [List.mem_cons, not_or] at free
      have goes : step (.value element key quote read) character =
          some ([], .value element key quote (read ++ [character])) := if_neg (Ne.symm free.1)
      rw [List.cons_append, walk_cons_silent _ _ _ _ goes, ih (read ++ [character]) free.2, List.append_assoc]
      rfl

theorem walk_attribute (element : Element) (binding : Text × Text) (writable : Writable binding) :
    walk (.inside element) (writeAttribute binding) =
      some ([], .inside { element with attributes := element.attributes ++ [binding] }) := by
  obtain ⟨key, value⟩ := binding
  obtain ⟨named, letters, free⟩ := writable
  obtain ⟨first, rest, rfl⟩ := List.exists_cons_of_ne_nil named
  obtain ⟨letter, others⟩ := List.forall_mem_cons.mp letters
  have begins : step (.inside element) first = some ([], .key element [first]) := by
    simp [step, letter, isAlpha_ne first ' ' letter (by decide), isAlpha_ne first '>' letter (by decide)]
  calc
    walk (.inside element) (writeAttribute (first :: rest, value))
      = walk (.inside element) (first :: (rest ++ '=' :: '"' :: (value ++ ['"']))) :=
        walk_cons_silent _ _ _ _ rfl
    _ = walk (.key element (first :: rest)) ('=' :: '"' :: (value ++ ['"'])) := by
        rw [walk_cons_silent _ _ _ _ begins, walk_append_silent _ _ _ _ (walk_key element [first] rest others)]
        rfl
    _ = walk (.value element (first :: rest) '"' []) (value ++ ['"']) := by
        rw [walk_cons_silent _ _ _ _ rfl, walk_cons_silent _ _ _ _ rfl]
    _ = _ := walk_value element (first :: rest) '"' [] value free

theorem walk_attributes (element : Element) (attributes : List (Text × Text))
    (writable : ∀ binding ∈ attributes, Writable binding) :
    walk (.inside element) (attributes.flatMap writeAttribute) =
      some ([], .inside { element with attributes := element.attributes ++ attributes }) := by
  induction attributes generalizing element with
  | nil => simp [walk]
  | cons binding rest ih =>
      obtain ⟨first, others⟩ := List.forall_mem_cons.mp writable
      rw [List.flatMap_cons, walk_append_silent _ _ _ _ (walk_attribute element binding first), ih _ others,
        List.append_assoc]
      rfl

/-- An element with values free of double quotes is read back as it was written. -/
theorem walk_written (element : Element) (letters : ∀ character ∈ element.name, character.isAlpha = true)
    (named : element.attributes ≠ []) (writable : ∀ binding ∈ element.attributes, Writable binding) :
    walk .between element.written = some ([.element element], .between) := by
  obtain ⟨name, attributes⟩ := element
  obtain ⟨first, rest, rfl⟩ := List.exists_cons_of_ne_nil named
  have spaced : walk (.name name) ((first :: rest).flatMap writeAttribute) =
      walk (.inside ⟨name, []⟩) ((first :: rest).flatMap writeAttribute) := rfl
  have filled := (spaced.trans (walk_attributes ⟨name, []⟩ (first :: rest) writable))
  rw [Element.written, walk_cons_silent _ _ _ _ rfl, walk_append_silent _ _ _ _ (walk_name [] name letters)]
  exact walk_append_silent _ _ _ _ filled

theorem escapeCharacter_cases (character : Char) :
    character ∈ ['&', '<', '>', '"', '\''] ∨
      escapeCharacter character = [character] ∧ character ∉ ['&', '<', '>', '"', '\''] := by
  by_cases special : character ∈ ['&', '<', '>', '"', '\'']
  · exact .inl special
  · refine .inr ⟨?_, special⟩
    simp only [List.mem_cons, List.not_mem_nil, or_false, not_or] at special
    obtain ⟨ampersand, less, greater, double, single⟩ := special
    unfold escapeCharacter
    split
    · exact absurd rfl ampersand
    · exact absurd rfl less
    · exact absurd rfl greater
    · exact absurd rfl double
    · exact absurd rfl single
    · rfl

theorem not_mem_escape (text : Text) (mark : Char) (marks : mark ∈ ['<', '>', '"', '\'']) :
    mark ∉ escape text := by
  intro member
  obtain ⟨character, _, inside⟩ := List.mem_flatMap.mp member
  rcases escapeCharacter_cases character with special | ⟨same, plain⟩
  · have free : (['&', '<', '>', '"', '\''].all fun other => ['<', '>', '"', '\''].all fun mark =>
        !List.elem mark (escapeCharacter other)) = true := by decide
    have absent := List.all_eq_true.mp (List.all_eq_true.mp free character special) mark marks
    rw [List.elem_iff.mpr inside] at absent
    exact Bool.false_ne_true absent
  · rw [same, List.mem_singleton] at inside
    subst inside
    exact plain (List.mem_cons_of_mem _ marks)

theorem decode_escapeCharacter (character : Char) (rest : Text) :
    decode (escapeCharacter character ++ rest) = character :: decode rest := by
  rcases escapeCharacter_cases character with special | ⟨same, plain⟩
  · simp only [List.mem_cons, List.not_mem_nil, or_false] at special
    rcases special with rfl | rfl | rfl | rfl | rfl <;> rfl
  · have other : character ≠ '&' := fun ampersand => plain (by simp [ampersand])
    rw [same, List.singleton_append]
    exact decode.eq_6 character rest (fun _ begins _ => other begins) (fun _ begins _ => other begins)
      (fun _ begins _ => other begins) (fun _ begins _ => other begins) (fun _ begins _ => other begins)

theorem decode_escape (text : Text) : decode (escape text) = text := by
  induction text with
  | nil => rfl
  | cons character rest ih =>
      have split : escape (character :: rest) = escapeCharacter character ++ escape rest := List.flatMap_cons
      rw [split, decode_escapeCharacter, ih]

def shown (url : Text) : Element :=
  { name := "img".toList
    attributes := [("src".toList, escape url), ("alt".toList, "Preview".toList), ("loading".toList, "lazy".toList)] }

def Element.source? (element : Element) : Option Text := (element.attributes.lookup "src".toList).map decode

theorem source?_shown (url : Text) : (shown url).source? = some url := by
  have found : (shown url).attributes.lookup "src".toList = some (escape url) := rfl
  rw [Element.source?, found, Option.map_some, decode_escape]

theorem image_eq (url : Text) : image url = (shown url).written := by
  have opens : "<img src=\"".toList = '<' :: ("img".toList ++ ' ' :: ("src".toList ++ ['=', '"'])) := by decide
  have closes : "\" alt=\"Preview\" loading=\"lazy\">".toList =
      '"' :: (writeAttribute ("alt".toList, "Preview".toList) ++
        (writeAttribute ("loading".toList, "lazy".toList) ++ ['>'])) := by decide
  have joined : ∀ opening closing, opening = '<' :: ("img".toList ++ ' ' :: ("src".toList ++ ['=', '"'])) →
      closing = '"' :: (writeAttribute ("alt".toList, "Preview".toList) ++
        (writeAttribute ("loading".toList, "lazy".toList) ++ ['>'])) →
      opening ++ escape url ++ closing = (shown url).written := by
    rintro _ _ rfl rfl
    simp only [Element.written, shown, writeAttribute, List.flatMap_cons, List.flatMap_nil, List.append_assoc,
      List.cons_append, List.nil_append]
  exact joined _ _ opens closes

theorem walk_image (url : Text) : walk .between (image url) = some ([.element (shown url)], .between) := by
  have plain (key value : Text) (named : key ≠ []) (letters : key.all Char.isAlpha) (free : '"' ∉ value) :
      Writable (key, value) := ⟨named, by simpa using letters, free⟩
  rw [image_eq]
  have name : "img".toList.all Char.isAlpha = true := by decide
  refine walk_written (shown url) (List.all_eq_true.mp name) (by simp [shown]) ?_
  simp only [shown, List.forall_mem_cons]
  exact ⟨plain _ _ (by decide) (by decide) (not_mem_escape url '"' (by decide)),
    plain _ _ (by decide) (by decide) (by decide), plain _ _ (by decide) (by decide) (by decide), by simp⟩

end Markup

open Markup in
/-- Escaped text holds no bracket and no quote, and decodes to the text. So the markup of a preview is read as
exactly two images, also with other markup behind it; their addresses end at their own quotes and decode to
the two addresses of the preview. -/
theorem RenderedPreview.nodes?_markup :
    (∀ text, '<' ∉ escape text ∧ '>' ∉ escape text ∧ '"' ∉ escape text ∧ '\'' ∉ escape text) ∧
    (∀ text, decode (escape text) = text) ∧
    Function.Injective escape ∧
    ∀ preview : RenderedPreview,
      let images := [Node.element (shown preview.lightUrl), Node.element (shown preview.darkUrl)]
      nodes? preview.markup = some images ∧
        (shown preview.lightUrl).source? = some preview.lightUrl ∧
        (shown preview.darkUrl).source? = some preview.darkUrl ∧
        ∀ after, nodes? (preview.markup ++ after) = (nodes? after).map (images ++ ·) := by
  refine ⟨fun text => ?_, decode_escape, Function.LeftInverse.injective decode_escape, fun preview => ?_⟩
  · have free := not_mem_escape text
    exact ⟨free _ (by decide), free _ (by decide), free _ (by decide), free _ (by decide)⟩
  · intro images
    have walked : walk .between preview.markup = some (images, .between) := by
      rw [markup, imagePair, walk_append _ _ _ _ _ (walk_image preview.lightUrl), walk_image]
      rfl
    refine ⟨?_, source?_shown _, source?_shown _, fun after => ?_⟩
    · rw [nodes?, walked]
    · rw [nodes?, walk_append _ _ _ _ _ walked, nodes?]
      cases walk .between after with
      | none => rfl
      | some result =>
          obtain ⟨nodes, final⟩ := result
          cases final <;> rfl

/-- Markup inside an address is part of the address. -/
example : Markup.nodes? (Markup.image "/\"><b>&lt;".toList) =
    some [.element ⟨"img".toList, [("src".toList, "/&quot;&gt;&lt;b&gt;&amp;lt;".toList),
      ("alt".toList, "Preview".toList), ("loading".toList, "lazy".toList)]⟩] := by
  decide +kernel

end FencePreview
