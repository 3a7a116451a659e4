import FencePreview.Fence.Attributes
import FencePreview.Preview.Mode
import FencePreview.Proofs.PanelLines
import FencePreview.Proofs.Quoting

/-! What becomes of the options of a fence between the panel and the reader of the nested
opening. The panel splits them at commas, spaces and tabs and writes them one space apart; the
reader splits at any white space. Both keep what stands between quotes. -/

namespace FencePreview

namespace Attributes

theorem ofToken_append (key value : Text) (absent : '=' ∉ key) :
    ofToken (key ++ '=' :: value) = (key, unquoteValue value) := by
  simp [ofToken, Text.splitFirst?_singleton_append '=' key value absent]

theorem ofToken_of_absent (token : Text) (absent : '=' ∉ token) : ofToken token = (token, []) := by
  simp [ofToken, Text.splitFirst?_singleton_of_absent '=' token absent]

theorem unquoteValue_cases (value : Text) :
    unquoteValue value = value ∨ value = '"' :: (unquoteValue value ++ ['"']) := by
  simp only [unquoteValue]
  cases found : (Text.stripStart? ['"'] value).bind (Text.stripEnd? ['"']) with
  | none => exact .inl rfl
  | some inner =>
      right
      obtain ⟨tail, opened, closed⟩ := Option.bind_eq_some_iff.mp found
      rw [(Text.stripStart?_eq_some_iff _ _ _).mp opened, (Text.stripEnd?_eq_some_iff _ _ _).mp closed]
      rfl

theorem unquoteValue_quoted (inner : Text) : unquoteValue ('"' :: (inner ++ ['"'])) = inner := by
  have opened : Text.stripStart? ['"'] ('"' :: (inner ++ ['"'])) = some (inner ++ ['"']) :=
    Text.stripStart?_append ['"'] _
  have closed : Text.stripEnd? ['"'] (inner ++ ['"']) = some inner :=
    (Text.stripEnd?_eq_some_iff _ _ _).mpr rfl
  simp [unquoteValue, opened, closed]

theorem unquoteValue_length (value : Text) :
    (unquoteValue value).length ≤ value.length ∧ value.length ≤ (unquoteValue value).length + 2 := by
  rcases unquoteValue_cases value with bare | quoted
  · rw [bare]
    omega
  · have size := congrArg List.length quoted
    simp only [List.length_cons, List.length_append, List.length_nil] at size
    omega

theorem ofList_concat (bindings : List (Text × Text)) (last : Text × Text) :
    ofList (bindings ++ [last]) = (ofList bindings).insert last.1 last.2 := by
  simp [ofList]

theorem mem_of_get?_ofList (bindings : List (Text × Text)) (key value : Text)
    (found : (ofList bindings).get? key = some value) : (key, value) ∈ bindings := by
  induction bindings using List.reverseRecOn with
  | nil => simp [ofList, empty, get?] at found
  | append_singleton front last ih =>
      rw [ofList_concat, get?_insert] at found
      split at found
      · rename_i same
        simp only [Option.some.injEq] at found
        simp [same, ← found]
      · exact List.mem_append_left _ (ih found)

end Attributes

namespace PanelOptions

def languageToken (language : Text) : Text := "lang=\"".toList ++ language ++ ['"']

theorem attributes_eq (options : PanelOptions) (language : Text) :
    options.attributes language =
      (options.passthrough.flatMap fun token => token ++ [' ']) ++ languageToken language :=
  Text.joinWith_concat [' '] options.passthrough (languageToken language)

theorem languageToken_eq (language : Text) :
    languageToken language = "lang".toList ++ '=' :: '"' :: (language ++ ['"']) := rfl

theorem languageToken_ne_nil (language : Text) : languageToken language ≠ [] := by
  rw [languageToken_eq]
  exact List.append_ne_nil_of_right_ne_nil _ (List.cons_ne_nil _ _)

theorem ofToken_languageToken (language : Text) :
    Attributes.ofToken (languageToken language) = ("lang".toList, language) := by
  rw [languageToken_eq, Attributes.ofToken_append _ _ (by decide), Attributes.unquoteValue_quoted]

theorem mem_passthrough (text token : Text) :
    token ∈ (parse text).passthrough ↔
      token ∈ Text.tokens separates text ∧ token ≠ verticalFlag ∧ token ≠ legacyFlag := by
  simp [parse]

theorem passthrough_ne_nil (text token : Text) (member : token ∈ (parse text).passthrough) :
    token ≠ [] :=
  Text.tokensFrom_ne_nil _ _ _ _ _ ((mem_passthrough text token).mp member).1

end PanelOptions

namespace DirectiveFence

def panelOptions (fence : DirectiveFence) : PanelOptions := PanelOptions.parse fence.options

def effectiveLanguage (fence : DirectiveFence) : Text :=
  fence.panelOptions.effectiveLanguage fence.language

def nestedInfo (fence : DirectiveFence) : Text :=
  previewTag ++ ' ' :: fence.panelOptions.attributes fence.effectiveLanguage

def QuotesClosed (fence : DirectiveFence) : Prop := Text.quotedAfter false fence.options = false

/-- Outside quotes no other white space than that between options. -/
def PlainSpaced (fence : DirectiveFence) : Prop :=
  ∀ character ∈ Text.outsideQuotes false fence.options,
    Text.isWhite character = true → Text.isIndent character = true

theorem plainSpaced_of_all (fence : DirectiveFence)
    (plain : (Text.outsideQuotes false fence.options).all fun character =>
      !Text.isWhite character || Text.isIndent character) : fence.PlainSpaced := by
  intro character member white
  simpa [white] using List.all_eq_true.mp plain character member

/-- What the author of a fence asks for: each passed option, a later one winning, and last the
language. -/
def declared (fence : DirectiveFence) : Attributes :=
  (Attributes.ofList (fence.panelOptions.passthrough.map Attributes.ofToken)).insert "lang".toList
    fence.effectiveLanguage

/-- The mode that the language tag and the legacy flag stand for. -/
def tagMode (fence : DirectiveFence) : RenderMode :=
  if fence.panelOptions.legacy then .legacy
  else if fence.language = codeTag then .code
  else .embedded

/-- A token is whole for the reader if its quotes are closed and no white space stands outside. -/
def Whole (token : Text) : Prop :=
  Text.quotedAfter false token = false ∧
    ∀ character ∈ Text.outsideQuotes false token, Text.isWhite character = false

theorem whole_of_all (token : Text) (closed : Text.quotedAfter false token = false)
    (solid : (Text.outsideQuotes false token).all fun character => !Text.isWhite character) :
    Whole token :=
  ⟨closed, by simpa using solid⟩

theorem whole_flag (token : Text)
    (flag : token = PanelOptions.verticalFlag ∨ token = PanelOptions.legacyFlag) : Whole token := by
  rcases flag with rfl | rfl <;> exact whole_of_all _ (by decide) (by decide)

theorem spaced_passthrough (fence : DirectiveFence) (spaced : fence.PlainSpaced) (token : Text)
    (passed : token ∈ fence.panelOptions.passthrough) :
    ∀ character ∈ Text.outsideQuotes false token, Text.isWhite character = false := by
  intro character stands
  have found := ((PanelOptions.mem_passthrough _ _).mp passed).1
  have outside := Text.outsideQuotes_tokensFrom PanelOptions.separates false [] fence.options rfl
  have inside : character ∈ (Text.tokens PanelOptions.separates fence.options).flatMap
      (Text.outsideQuotes false) := List.mem_flatMap.mpr ⟨token, found, stands⟩
  simp only [Text.outsideQuotes, List.nil_append] at outside
  rw [Text.tokens, outside, List.mem_filter] at inside
  by_contra white
  have indent := spaced character inside.1 (by simpa using white)
  simp [PanelOptions.separates, indent] at inside

theorem whole_passthrough_iff (fence : DirectiveFence) :
    (∀ token ∈ fence.panelOptions.passthrough, Whole token) ↔ fence.QuotesClosed ∧ fence.PlainSpaced := by
  have outside := Text.outsideQuotes_tokensFrom PanelOptions.separates false [] fence.options rfl
  have closed := Text.quotedAfter_tokensFrom PanelOptions.separates false [] fence.options rfl
  simp only [Text.outsideQuotes, List.nil_append] at outside
  constructor
  · intro passed
    have all : ∀ token ∈ Text.tokens PanelOptions.separates fence.options, Whole token := by
      intro token member
      by_cases flag : token = PanelOptions.verticalFlag ∨ token = PanelOptions.legacyFlag
      · exact whole_flag token flag
      · rw [not_or] at flag
        exact passed token ((PanelOptions.mem_passthrough _ _).mpr ⟨member, flag⟩)
    refine ⟨closed.mp fun token member => (all token member).1, ?_⟩
    intro character member white
    by_contra notIndent
    have comma : PanelOptions.separates character = false := by
      have notComma : character ≠ ',' := by
        rintro rfl
        exact absurd white (by decide)
      simp [PanelOptions.separates, notComma, Bool.eq_false_iff.mpr notIndent]
    have inside : character ∈ (Text.outsideQuotes false fence.options).filter
        fun character => !PanelOptions.separates character := by
      simp [member, comma]
    rw [← outside, List.mem_flatMap] at inside
    obtain ⟨token, found, stands⟩ := inside
    have notWhite := (all token found).2 character stands
    rw [white] at notWhite
    exact Bool.false_ne_true notWhite.symm
  · rintro ⟨quotes, spaced⟩ token passed
    have found := ((PanelOptions.mem_passthrough _ _).mp passed).1
    exact ⟨closed.mpr quotes token found, spaced_passthrough fence spaced token passed⟩

theorem tokens_of_whole (token : Text) (whole : Whole token) (filled : token ≠ []) :
    Text.tokens Text.isWhite token = [token] := by
  rw [Text.tokens, Text.tokensFrom_whole Text.isWhite false [] token whole.2, Text.tokensFrom_nil]
  simp [filled]

theorem effectiveLanguage_known (fence : DirectiveFence)
    (known : fence.language = codeTag ∨ fence.language = markupTag) :
    fence.effectiveLanguage = legacyTag ∨ fence.effectiveLanguage = codeTag ∨
      fence.effectiveLanguage = markupTag := by
  simp only [effectiveLanguage, PanelOptions.effectiveLanguage]
  split
  · exact .inl rfl
  · exact .inr known

theorem whole_languageToken (fence : DirectiveFence)
    (known : fence.language = codeTag ∨ fence.language = markupTag) :
    Whole (PanelOptions.languageToken fence.effectiveLanguage) := by
  rcases effectiveLanguage_known fence known with tag | tag | tag <;> rw [tag] <;>
    exact whole_of_all _ (by decide) (by decide)

theorem tokens_concat (tokens : List Text) (last : Text)
    (closed : ∀ token ∈ tokens, Text.quotedAfter false token = false) :
    Text.tokens Text.isWhite ((tokens.flatMap fun token => token ++ [' ']) ++ last) =
      tokens.flatMap (Text.tokens Text.isWhite) ++ Text.tokens Text.isWhite last := by
  induction tokens with
  | nil => rfl
  | cons token rest ih =>
      have later := ih fun other member => closed other (List.mem_cons_of_mem _ member)
      simp only [List.flatMap_cons, List.append_assoc, List.cons_append, List.nil_append]
      rw [Text.tokens, Text.tokensFrom_append_separator Text.isWhite ' ' (by decide) (by decide) false []
        token _ (closed token (by simp)), ← Text.tokens, ← Text.tokens, later]

theorem flatMap_tokens_of_whole (tokens : List Text) (whole : ∀ token ∈ tokens, Whole token)
    (filled : ∀ token ∈ tokens, token ≠ []) : tokens.flatMap (Text.tokens Text.isWhite) = tokens := by
  rw [List.flatMap_congr fun token member =>
    tokens_of_whole token (whole token member) (filled token member)]
  simp

theorem tokens_previewTag (rest : Text) :
    Text.tokens Text.isWhite (previewTag ++ ' ' :: rest) = previewTag :: Text.tokens Text.isWhite rest := by
  have tag : Text.tokens Text.isWhite previewTag = [previewTag] := by decide
  rw [Text.tokens, Text.tokensFrom_append_separator Text.isWhite ' ' (by decide) (by decide) false []
    previewTag _ (by decide), ← Text.tokens, ← Text.tokens, tag]
  rfl

theorem closed_passthrough (fence : DirectiveFence) (quotes : fence.QuotesClosed) (token : Text)
    (passed : token ∈ fence.panelOptions.passthrough) : Text.quotedAfter false token = false :=
  (Text.quotedAfter_tokensFrom PanelOptions.separates false [] fence.options rfl).mpr quotes token
    ((PanelOptions.mem_passthrough _ _).mp passed).1

theorem tokens_nestedInfo (fence : DirectiveFence)
    (known : fence.language = codeTag ∨ fence.language = markupTag) (quotes : fence.QuotesClosed) :
    Text.tokens Text.isWhite fence.nestedInfo =
      previewTag :: fence.panelOptions.passthrough.flatMap (Text.tokens Text.isWhite) ++
        [PanelOptions.languageToken fence.effectiveLanguage] := by
  have language := tokens_of_whole _ (whole_languageToken fence known)
    (PanelOptions.languageToken_ne_nil _)
  rw [nestedInfo, tokens_previewTag, PanelOptions.attributes_eq,
    tokens_concat _ _ (closed_passthrough fence quotes), language]
  rfl

/-- The reader finds the passed options and the language as they were written exactly when the
quotes of the options are closed and no other white space separates them. -/
theorem tokens_nestedInfo_eq_iff (fence : DirectiveFence)
    (known : fence.language = codeTag ∨ fence.language = markupTag) :
    Text.tokens Text.isWhite fence.nestedInfo =
        previewTag :: fence.panelOptions.passthrough ++
          [PanelOptions.languageToken fence.effectiveLanguage] ↔
      fence.QuotesClosed ∧ fence.PlainSpaced := by
  rw [← whole_passthrough_iff]
  constructor
  · intro same token passed
    have member : token ∈ Text.tokens Text.isWhite fence.nestedInfo := by
      rw [same]
      simp [passed]
    have early : token ∈ (Text.tokens Text.isWhite fence.nestedInfo).dropLast := by
      rw [same, List.dropLast_concat]
      exact List.mem_cons_of_mem _ passed
    refine ⟨Text.quotedAfter_of_mem_dropLast Text.isWhite false [] fence.nestedInfo rfl token early, ?_⟩
    intro character stands
    have outside := Text.outsideQuotes_tokensFrom Text.isWhite false [] fence.nestedInfo rfl
    have inside : character ∈ (Text.tokens Text.isWhite fence.nestedInfo).flatMap
        (Text.outsideQuotes false) := List.mem_flatMap.mpr ⟨token, member, stands⟩
    rw [Text.tokens, outside] at inside
    simp only [Text.outsideQuotes, List.nil_append, List.mem_filter] at inside
    simpa using inside.2
  · intro whole
    have quotes := (whole_passthrough_iff fence).mp whole
    rw [tokens_nestedInfo fence known quotes.1,
      flatMap_tokens_of_whole _ whole fun token => PanelOptions.passthrough_ne_nil _ token]

/-- A quote that is never closed leaves the last passed option open. -/
theorem open_passthrough (fence : DirectiveFence) (unclosed : ¬fence.QuotesClosed) :
    ∃ front token, fence.panelOptions.passthrough = front ++ [token] ∧
      Text.quotedAfter false token = true ∧
      ∀ other ∈ front, Text.quotedAfter false other = false := by
  have closed := Text.quotedAfter_tokensFrom PanelOptions.separates false [] fence.options rfl
  have early := Text.quotedAfter_of_mem_dropLast PanelOptions.separates false [] fence.options rfl
  rw [← Text.tokens] at closed early
  have some_open : ∃ token ∈ Text.tokens PanelOptions.separates fence.options,
      Text.quotedAfter false token = true := by
    by_contra none_open
    refine unclosed (closed.mp fun token member => ?_)
    rw [← Bool.not_eq_true]
    exact fun stands => none_open ⟨token, member, stands⟩
  obtain ⟨token, member, stands⟩ := some_open
  have parts := List.dropLast_concat_getLast (List.ne_nil_of_mem member)
  have last : token = (Text.tokens PanelOptions.separates fence.options).getLast
      (List.ne_nil_of_mem member) := by
    rw [← parts, List.mem_append, List.mem_singleton] at member
    refine member.resolve_left fun inside => ?_
    rw [early token inside] at stands
    exact Bool.false_ne_true stands
  have unflagged : token ≠ PanelOptions.verticalFlag ∧ token ≠ PanelOptions.legacyFlag := by
    rw [← not_or]
    intro flag
    rw [(whole_flag token flag).1] at stands
    exact Bool.false_ne_true stands
  let passes := fun other : Text =>
    decide (other ≠ PanelOptions.verticalFlag) && decide (other ≠ PanelOptions.legacyFlag)
  have kept : passes token = true := by simp [passes, unflagged]
  rw [← last] at parts
  refine ⟨(Text.tokens PanelOptions.separates fence.options).dropLast.filter passes, token, ?_,
    stands, fun other inside => early other (List.mem_filter.mp inside).1⟩
  calc
    fence.panelOptions.passthrough
      = (Text.tokens PanelOptions.separates fence.options).filter passes := rfl
    _ = _ := by
        rw [← parts, List.filter_append, List.dropLast_concat, List.filter_singleton, kept]
        rfl

/-- The open option takes the language with it. -/
theorem tokens_nestedInfo_open (fence : DirectiveFence) (front : List Text) (token : Text)
    (known : fence.language = codeTag ∨ fence.language = markupTag) (spaced : fence.PlainSpaced)
    (parts : fence.panelOptions.passthrough = front ++ [token])
    (stands : Text.quotedAfter false token = true)
    (closed : ∀ other ∈ front, Text.quotedAfter false other = false) :
    Text.tokens Text.isWhite fence.nestedInfo =
      previewTag :: front ++ [token ++ ' ' :: PanelOptions.languageToken fence.effectiveLanguage] := by
  have passed : ∀ other ∈ front ++ [token], other ∈ fence.panelOptions.passthrough := by
    intro other member
    rw [parts]
    exact member
  have whole : ∀ other ∈ front, Whole other := fun other member =>
    ⟨closed other member, spaced_passthrough fence spaced other (passed other (by simp [member]))⟩
  have filled : ∀ other ∈ front, other ≠ [] := fun other member =>
    PanelOptions.passthrough_ne_nil _ other (passed other (by simp [member]))
  have swallowed : ∀ character ∈ Text.outsideQuotes false
      (token ++ ' ' :: PanelOptions.languageToken fence.effectiveLanguage),
      Text.isWhite character = false := by
    intro character member
    rw [Text.outsideQuotes_append, stands, List.mem_append] at member
    rcases member with own | language
    · exact spaced_passthrough fence spaced token (passed token (by simp)) character own
    · have solid : (Text.outsideQuotes true (' ' :: PanelOptions.languageToken
          fence.effectiveLanguage)).all fun character => !Text.isWhite character := by
        rcases effectiveLanguage_known fence known with tag | tag | tag <;> rw [tag] <;> decide
      simpa using List.all_eq_true.mp solid character language
  have merged : Text.tokens Text.isWhite
      (token ++ ' ' :: PanelOptions.languageToken fence.effectiveLanguage) =
        [token ++ ' ' :: PanelOptions.languageToken fence.effectiveLanguage] := by
    rw [Text.tokens, Text.tokensFrom_whole Text.isWhite false [] _ swallowed, Text.tokensFrom_nil]
    simp
  have options : fence.panelOptions.attributes fence.effectiveLanguage =
      (front.flatMap fun token => token ++ [' ']) ++
        (token ++ ' ' :: PanelOptions.languageToken fence.effectiveLanguage) := by
    rw [PanelOptions.attributes_eq, parts]
    simp
  rw [nestedInfo, tokens_previewTag, options, tokens_concat _ _ closed,
    flatMap_tokens_of_whole front whole filled, merged]
  rfl

theorem ofToken_open (token language : Text) (absent : '=' ∉ token) :
    Attributes.ofToken (token ++ ' ' :: PanelOptions.languageToken language) =
      (token ++ " lang".toList, language) := by
  have apart : token ++ ' ' :: PanelOptions.languageToken language =
      (token ++ " lang".toList) ++ '=' :: '"' :: (language ++ ['"']) := by
    rw [PanelOptions.languageToken_eq, List.append_assoc]
    rfl
  have keyAbsent : '=' ∉ token ++ " lang".toList := by
    rw [List.mem_append, not_or]
    exact ⟨absent, by decide⟩
  rw [apart, Attributes.ofToken_append _ _ keyAbsent, Attributes.unquoteValue_quoted]

/-- With closed quotes every passed option is read, cut further at any white space it holds outside
quotes, and the language after all of them. -/
theorem ofInfo_nestedInfo_closed (fence : DirectiveFence)
    (known : fence.language = codeTag ∨ fence.language = markupTag) (quotes : fence.QuotesClosed) :
    (Attributes.ofInfo fence.nestedInfo).2 =
      (Attributes.ofList ((fence.panelOptions.passthrough.flatMap (Text.tokens Text.isWhite)).map
        Attributes.ofToken)).insert "lang".toList fence.effectiveLanguage := by
  simp only [Attributes.ofInfo, tokens_nestedInfo fence known quotes, List.cons_append, List.map_append,
    List.map_cons, List.map_nil, PanelOptions.ofToken_languageToken, Attributes.ofList_concat]

theorem ofInfo_nestedInfo_declared (fence : DirectiveFence)
    (known : fence.language = codeTag ∨ fence.language = markupTag) (quotes : fence.QuotesClosed)
    (spaced : fence.PlainSpaced) : (Attributes.ofInfo fence.nestedInfo).2 = fence.declared := by
  have whole := (whole_passthrough_iff fence).mpr ⟨quotes, spaced⟩
  rw [ofInfo_nestedInfo_closed fence known quotes,
    flatMap_tokens_of_whole _ whole fun token => PanelOptions.passthrough_ne_nil _ token, declared]

theorem chooseMode_of_language (fence : DirectiveFence) (attributes : Attributes)
    (known : fence.language = codeTag ∨ fence.language = markupTag)
    (language : attributes.get? "lang".toList = some fence.effectiveLanguage)
    (unset : attributes.get? "mode".toList = none) :
    PreviewSettings.chooseMode attributes = .ok fence.tagMode := by
  have tag : RenderMode.ofTag? fence.effectiveLanguage = some fence.tagMode := by
    simp only [effectiveLanguage, PanelOptions.effectiveLanguage, tagMode]
    split
    · decide
    · rcases known with code | markup
      · rw [code]
        decide
      · rw [markup]
        decide
  simp only [PreviewSettings.chooseMode, unset, language, tag]

/-- An open option of some key hands the reader a value that is longer than what was declared. -/
theorem get?_open_ne_declared (fence : DirectiveFence) (front : List Text) (key value : Text)
    (known : fence.language = codeTag ∨ fence.language = markupTag) (spaced : fence.PlainSpaced)
    (absent : '=' ∉ key)
    (parts : fence.panelOptions.passthrough = front ++ [key ++ '=' :: value])
    (stands : Text.quotedAfter false (key ++ '=' :: value) = true)
    (closed : ∀ other ∈ front, Text.quotedAfter false other = false) :
    (Attributes.ofInfo fence.nestedInfo).2.get? key ≠ fence.declared.get? key := by
  let language := PanelOptions.languageToken fence.effectiveLanguage
  have size : language.length = fence.effectiveLanguage.length + 7 := by
    simp only [language, PanelOptions.languageToken_eq, List.length_append, List.length_cons,
      List.length_nil, String.length_toList]
    rw [show "lang".length = 4 from rfl]
    omega
  have read : (Attributes.ofInfo fence.nestedInfo).2.get? key =
      some (Attributes.unquoteValue (value ++ ' ' :: language)) := by
    have merged := tokens_nestedInfo_open fence front _ known spaced parts stands closed
    simp only [Attributes.ofInfo, merged, List.cons_append, List.map_append, List.map_cons, List.map_nil,
      Attributes.ofList_concat, Attributes.get?_insert, List.append_assoc]
    rw [Attributes.ofToken_append key _ absent]
    simp [language]
  have wanted : fence.declared.get? key =
      some (if key = "lang".toList then fence.effectiveLanguage else Attributes.unquoteValue value) := by
    rw [declared, Attributes.get?_insert, parts, List.map_append, List.map_singleton,
      Attributes.ofList_concat, Attributes.get?_insert, Attributes.ofToken_append key _ absent]
    split <;> simp
  rw [read, wanted]
  intro same
  have long := Attributes.unquoteValue_length (value ++ ' ' :: language)
  have short := Attributes.unquoteValue_length value
  have lengths := congrArg List.length (Option.some.inj same)
  simp only [List.length_append, List.length_cons, size] at long
  split at lengths <;> omega

/-- An open option without a key is not read under its own text. -/
theorem get?_open_ne_declared_of_absent (fence : DirectiveFence) (front : List Text) (token : Text)
    (known : fence.language = codeTag ∨ fence.language = markupTag) (spaced : fence.PlainSpaced)
    (absent : '=' ∉ token)
    (parts : fence.panelOptions.passthrough = front ++ [token])
    (stands : Text.quotedAfter false token = true)
    (closed : ∀ other ∈ front, Text.quotedAfter false other = false) :
    (Attributes.ofInfo fence.nestedInfo).2.get? token ≠ fence.declared.get? token := by
  have merged := tokens_nestedInfo_open fence front token known spaced parts stands closed
  have binding := ofToken_open token fence.effectiveLanguage absent
  have notLanguage : token ≠ "lang".toList := by
    rintro rfl
    exact absurd stands (by decide)
  have wanted : fence.declared.get? token = some [] := by
    rw [declared, Attributes.get?_insert, if_neg notLanguage, parts, List.map_append, List.map_singleton,
      Attributes.ofList_concat, Attributes.get?_insert, Attributes.ofToken_of_absent token absent,
      if_pos rfl]
  have longer : token ≠ token ++ " lang".toList := by
    intro same
    have lengths := congrArg List.length same
    simp at lengths
  rw [wanted]
  intro read
  simp only [Attributes.ofInfo, merged, List.cons_append, List.map_append, List.map_cons, List.map_nil,
    Attributes.ofList_concat, binding, Attributes.get?_insert, if_neg longer] at read
  obtain ⟨other, member, same⟩ := List.mem_map.mp (Attributes.mem_of_get?_ofList _ _ _ read)
  -- An earlier option with the key `token` would have to close the quote in its value, which is empty.
  have unquoted := closed other member
  by_cases equals : '=' ∈ other
  · obtain ⟨key, value, rfl, keyAbsent⟩ := List.eq_append_cons_of_mem equals
    rw [Attributes.ofToken_append key value keyAbsent, Prod.mk.injEq] at same
    obtain ⟨rfl, empty⟩ := same
    rw [Text.quotedAfter_append, stands] at unquoted
    rcases Attributes.unquoteValue_cases value with bare | quoted
    · rw [← bare, empty] at unquoted
      exact absurd unquoted (by decide)
    · rw [quoted, empty] at unquoted
      exact absurd unquoted (by decide)
  · rw [Attributes.ofToken_of_absent other equals, Prod.mk.injEq] at same
    rw [same.1, stands] at unquoted
    exact absurd unquoted (by decide)

/-- An open option leaves the language unread, unless another option names it. -/
theorem get?_language_open (fence : DirectiveFence)
    (known : fence.language = codeTag ∨ fence.language = markupTag) (spaced : fence.PlainSpaced)
    (unclosed : ¬fence.QuotesClosed)
    (unnamed : ∀ token ∈ fence.panelOptions.passthrough, (Attributes.ofToken token).1 ≠ "lang".toList) :
    (Attributes.ofInfo fence.nestedInfo).2.get? "lang".toList = none := by
  obtain ⟨front, token, parts, stands, closed⟩ := open_passthrough fence unclosed
  have merged := tokens_nestedInfo_open fence front token known spaced parts stands closed
  have key : "lang".toList ≠
      (Attributes.ofToken (token ++ ' ' :: PanelOptions.languageToken fence.effectiveLanguage)).1 := by
    have other := unnamed token (by rw [parts]; simp)
    by_cases equals : '=' ∈ token
    · obtain ⟨key, value, rfl, absent⟩ := List.eq_append_cons_of_mem equals
      rw [Attributes.ofToken_append key value absent] at other
      rw [List.append_assoc, List.cons_append, Attributes.ofToken_append key _ absent]
      exact other.symm
    · rw [ofToken_open token _ equals]
      intro same
      have space : ' ' ∈ "lang".toList := by
        rw [same]
        simp
      exact absurd space (by decide)
  simp only [Attributes.ofInfo, merged, List.cons_append, List.map_append, List.map_cons, List.map_nil,
    Attributes.ofList_concat, Attributes.get?_insert, if_neg key]
  by_contra present
  obtain ⟨value, found⟩ := Option.ne_none_iff_exists'.mp present
  obtain ⟨other, member, same⟩ := List.mem_map.mp (Attributes.mem_of_get?_ofList _ _ _ found)
  exact unnamed other (by rw [parts]; simp [member]) (by rw [same])

/-- The nested opening of every fence reads back as a preview. Its tokens are the passed options and
the language exactly when quotes are closed and white space is plain. Closed quotes alone let
the reader find the language, and with it the mode of the fence's tag. Where white space is
plain, the attributes are the declared ones exactly when quotes are closed, and so is the
language unless an option names it. -/
theorem ofInfo_nestedInfo (line : Text) (fence : DirectiveFence)
    (found : DirectiveFence.parse? line = some fence) :
    (Attributes.ofInfo fence.nestedInfo).1 = previewTag ∧
      (Text.tokens Text.isWhite fence.nestedInfo =
          previewTag :: fence.panelOptions.passthrough ++
            [PanelOptions.languageToken fence.effectiveLanguage] ↔
        fence.QuotesClosed ∧ fence.PlainSpaced) ∧
      (fence.QuotesClosed →
        (Attributes.ofInfo fence.nestedInfo).2 =
            (Attributes.ofList ((fence.panelOptions.passthrough.flatMap
              (Text.tokens Text.isWhite)).map Attributes.ofToken)).insert "lang".toList
                fence.effectiveLanguage ∧
          (Attributes.ofInfo fence.nestedInfo).2.get? "lang".toList = some fence.effectiveLanguage ∧
          ((Attributes.ofInfo fence.nestedInfo).2.get? "mode".toList = none →
            PreviewSettings.chooseMode (Attributes.ofInfo fence.nestedInfo).2 = .ok fence.tagMode)) ∧
      (fence.QuotesClosed → fence.PlainSpaced →
        (Attributes.ofInfo fence.nestedInfo).2 = fence.declared) ∧
      (fence.PlainSpaced →
        ((∀ key, (Attributes.ofInfo fence.nestedInfo).2.get? key = fence.declared.get? key) ↔
          fence.QuotesClosed)) ∧
      (fence.PlainSpaced →
        (∀ token ∈ fence.panelOptions.passthrough, (Attributes.ofToken token).1 ≠ "lang".toList) →
        ((Attributes.ofInfo fence.nestedInfo).2.get? "lang".toList = some fence.effectiveLanguage ↔
          fence.QuotesClosed)) := by
  obtain ⟨_, _, known, _⟩ := parse?_parts line fence found
  have language : fence.QuotesClosed →
      (Attributes.ofInfo fence.nestedInfo).2.get? "lang".toList = some fence.effectiveLanguage := by
    intro quotes
    rw [ofInfo_nestedInfo_closed fence known quotes, Attributes.get?_insert, if_pos rfl]
  have survive := ofInfo_nestedInfo_declared fence known
  refine ⟨?_, tokens_nestedInfo_eq_iff fence known, ?_, survive, ?_, ?_⟩
  · rw [Attributes.ofInfo, nestedInfo, tokens_previewTag]
  · intro quotes
    exact ⟨ofInfo_nestedInfo_closed fence known quotes, language quotes,
      chooseMode_of_language fence _ known (language quotes)⟩
  · intro spaced
    constructor
    · intro same
      by_contra unclosed
      obtain ⟨front, token, parts, stands, closed⟩ := open_passthrough fence unclosed
      by_cases equals : '=' ∈ token
      · obtain ⟨key, value, rfl, absent⟩ := List.eq_append_cons_of_mem equals
        exact get?_open_ne_declared fence front key value known spaced absent parts stands closed (same key)
      · exact get?_open_ne_declared_of_absent fence front token known spaced equals parts stands closed
          (same token)
    · intro quotes key
      rw [survive quotes spaced]
  · intro spaced unnamed
    refine ⟨?_, language⟩
    intro read
    by_contra unclosed
    rw [get?_language_open fence known spaced unclosed unnamed] at read
    simp at read

/-- Options end at the first closing parenthesis, here inside the title, and the quote they cut
open keeps the language from the reader. -/
theorem ofInfo_nestedInfo_cut_title :
    let fence : DirectiveFence :=
      { lead := []
        marker := "```".toList
        language := codeTag
        directive := "+preview(title=\"f(x)".toList
        options := "title=\"f(x".toList }
    parse? "```typst-code +preview(title=\"f(x)\")".toList = some fence ∧
      (Attributes.ofInfo fence.nestedInfo).2.get? "lang".toList ≠ some codeTag := by
  intro fence
  have found : parse? "```typst-code +preview(title=\"f(x)\")".toList = some fence := by decide
  have spaced : fence.PlainSpaced := plainSpaced_of_all fence (by decide)
  have unnamed : ∀ token ∈ fence.panelOptions.passthrough,
      (Attributes.ofToken token).1 ≠ "lang".toList := by decide
  refine ⟨found, fun read => ?_⟩
  have quotes := ((ofInfo_nestedInfo _ fence found).2.2.2.2.2 spaced unnamed).mp read
  exact absurd quotes (by unfold QuotesClosed; decide)

end DirectiveFence

end FencePreview
