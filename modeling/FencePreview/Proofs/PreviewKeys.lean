import FencePreview.Proofs.CacheSoundness
import Mathlib.Data.List.Nodup

/-! What the name of an image tells about the documents behind it. Only the light document is
digested, but header and body of a document are apart: two previews share their dark document exactly
when they share the light one. A body gives its source back as long as the mode is known, and with the
usual imports the modes surround a source with different amounts of text. -/

namespace FencePreview

namespace Text

theorem eq_of_encode_toList_eq (first second : Text)
    (same : (encode first).toList = (encode second).toList) : first = second := by
  simp only [ByteArray.toList, toList_loop_eq, List.reverse_nil, List.nil_append, List.drop_zero] at same
  exact encode_injective _ _ (ByteArray.ext (Array.ext' same))

end Text

namespace Templates

theorem body_injective (templates : Templates) (mode : RenderMode) :
    Function.Injective (templates.body mode) := by
  intro source other same
  cases mode with
  | code =>
      simp only [body, List.append_assoc, List.append_cancel_left_eq] at same
      exact List.append_cancel_right same
  | embedded => exact List.append_cancel_left same
  | legacy => exact List.append_cancel_left same
  | basic => exact same

/-- How much a mode adds to a source. -/
def overhead (templates : Templates) (mode : RenderMode) : Nat := (templates.body mode []).length

theorem length_body (templates : Templates) (mode : RenderMode) (source : Text) :
    (templates.body mode source).length = templates.overhead mode + source.length := by
  cases mode with
  | code =>
      simp only [overhead, body, List.length_append, List.length_nil]
      omega
  | embedded => simp [overhead, body]
  | legacy => simp [overhead, body]
  | basic => simp [overhead, body]

theorem overhead_default_injective : Function.Injective default.overhead := by
  have distinct : (RenderMode.all.map default.overhead).Nodup := by decide +kernel
  have complete : ∀ mode : RenderMode, mode ∈ RenderMode.all := by
    intro mode
    cases mode <;> decide
  intro mode other same
  exact List.inj_on_of_nodup_map distinct (complete mode) (complete other) same

end Templates

/-- What one preview is made of. -/
structure Page where
  templates : Templates
  mode : RenderMode
  source : Text

namespace Page

def body (page : Page) : Text := page.templates.body page.mode page.source

def document (page : Page) (variant : Variant) : Text :=
  page.templates.render page.mode variant page.source

def message (page : Page) : List UInt8 := (Text.encode (page.document .light)).toList

def key (page : Page) : Text := fingerprint (page.document .light)

/-- A page with the imports that are used when none are configured. -/
def standard (mode : RenderMode) (source : Text) : Page := ⟨.default, mode, source⟩

variable (first second : Page)

theorem document_eq_iff (variant : Variant) :
    first.document variant = second.document variant ↔ first.body = second.body :=
  Templates.render_eq_iff ..

theorem message_eq_iff : first.message = second.message ↔ first.body = second.body := by
  rw [← document_eq_iff first second .light]
  constructor
  · exact Text.eq_of_encode_toList_eq _ _
  · intro same
    rw [message, message, same]

/-- Where the digest does not collide, a key stands for one body. -/
theorem key_eq_iff (pages : Set Page)
    (collisionFree : Set.InjOn Sha224.hex {message | ∃ page ∈ pages, message = page.message})
    (firstIn : first ∈ pages) (secondIn : second ∈ pages) :
    first.key = second.key ↔ first.body = second.body := by
  rw [← message_eq_iff]
  exact collisionFree.eq_iff ⟨first, firstIn, rfl⟩ ⟨second, secondIn, rfl⟩

theorem body_ne_of_source (templates : Templates) (mode : RenderMode) (source other : Text)
    (apart : source ≠ other) : (mk templates mode source).body ≠ (mk templates mode other).body :=
  (templates.body_injective mode).ne apart

theorem body_ne_of_mode (mode other : RenderMode) (source : Text) (apart : mode ≠ other) :
    (standard mode source).body ≠ (standard other source).body := by
  intro same
  have lengths := congrArg List.length same
  simp only [standard, body, Templates.length_body] at lengths
  exact apart (Templates.overhead_default_injective (by omega))

/-- A render that succeeds reports the key of its page, and had the compiler run on the documents of
that page if on any. -/
theorem key_of_render (call : Call) (before after : Workspace) (rendered : RenderedPreview)
    (finished : call.job before = .ok rendered after) :
    ∃ page : Page, call.Uses page.document ∧ rendered.fingerprint = page.key ∧
      after.compiled = before.compiled ++
        if rendered.compiled then [page.document .light, page.document .dark] else [] := by
  obtain ⟨settings, site, accepted, hasSite⟩ :=
    call.formatter.accepted_of_render_eq_ok _ _ _ _ _ finished
  obtain ⟨ran, rfl, undisturbed⟩ := (Formatter.render_eq_ok_iff call.formatter call.source site
    call.attributes settings accepted hasSite _ _ _).mp finished
  obtain ⟨_, compiled⟩ := undisturbed.compiled_eq
  refine ⟨⟨call.formatter.templates, settings.mode,
    if settings.dropImports then stripImports call.source else call.source⟩, ?_, rfl, ?_⟩
  · exact ⟨settings, accepted, rfl⟩
  · rw [compiled]
    simp only [Formatter.calls, List.append_nil]
    rfl

/-- Two previews share their light document exactly when they share the dark one. Where the digest
does not collide, they share their key exactly when they share both; then a preview with another
source, or with the usual imports in another mode, has another key. The key is what a render
reports. -/
theorem key_sound_and_sensitive (pages : Set Page)
    (collisionFree : Set.InjOn Sha224.hex {message | ∃ page ∈ pages, message = page.message}) :
    (∀ first second : Page,
      first.document .light = second.document .light ↔ first.document .dark = second.document .dark) ∧
    (∀ first ∈ pages, ∀ second ∈ pages,
      first.key = second.key ↔ ∀ variant, first.document variant = second.document variant) ∧
    (∀ (templates : Templates) (mode : RenderMode) (source other : Text), source ≠ other →
      let first : Page := ⟨templates, mode, source⟩
      let second : Page := ⟨templates, mode, other⟩
      first.document .light ≠ second.document .light ∧
        (first ∈ pages → second ∈ pages → first.key ≠ second.key)) ∧
    (∀ (source : Text) (mode other : RenderMode), mode ≠ other →
      let first := standard mode source
      let second := standard other source
      first.document .light ≠ second.document .light ∧
        (first ∈ pages → second ∈ pages → first.key ≠ second.key)) ∧
    ∀ (call : Call) (before after : Workspace) (rendered : RenderedPreview),
      call.job before = .ok rendered after →
        ∃ page : Page, call.Uses page.document ∧ rendered.fingerprint = page.key ∧
          after.compiled = before.compiled ++
            if rendered.compiled then [page.document .light, page.document .dark] else [] := by
  have apart : ∀ first second : Page, first.body ≠ second.body →
      first.document .light ≠ second.document .light ∧
        (first ∈ pages → second ∈ pages → first.key ≠ second.key) := by
    intro first second bodies
    refine ⟨(document_eq_iff first second .light).not.mpr bodies, ?_⟩
    intro firstIn secondIn
    exact (key_eq_iff first second pages collisionFree firstIn secondIn).not.mpr bodies
  refine ⟨?_, ?_, ?_, ?_, key_of_render⟩
  · intro first second
    rw [document_eq_iff, document_eq_iff]
  · intro first firstIn second secondIn
    rw [key_eq_iff first second pages collisionFree firstIn secondIn]
    constructor
    · exact fun same variant => (document_eq_iff first second variant).mpr same
    · exact fun same => (document_eq_iff first second .light).mp (same .light)
  · intro templates mode source other sources
    exact apart _ _ (body_ne_of_source templates mode source other sources)
  · intro source mode other modes
    exact apart _ _ (body_ne_of_mode mode other source modes)

/-- Markup whose imports are empty is the page of the same source in the mode without imports, and
shares its key; another source has another key. -/
theorem key_sound_and_sensitive_letters :
    let pages : Set Page := {page | page.body = ['x'] ∨ page.body = ['y']}
    let bare : Page := ⟨⟨[], []⟩, .embedded, ['x']⟩
    let small := standard .basic ['x']
    let other := standard .basic ['y']
    Set.InjOn Sha224.hex {message | ∃ page ∈ pages, message = page.message} ∧
      bare.key = small.key ∧ bare.document .dark = small.document .dark ∧ bare.key ≠ other.key := by
  intro pages bare small other
  have smallDigest : Sha224.hex small.message = smallFingerprint :=
    fingerprint_small (.writing fun _ => .empty)
  have otherDigest : Sha224.hex other.message = otherFingerprint :=
    fingerprint_other (.writing fun _ => .empty)
  have apart : Sha224.hex small.message ≠ Sha224.hex other.message := by
    rw [smallDigest, otherDigest]
    decide
  have digests : ∀ page ∈ pages, page.message = small.message ∨ page.message = other.message := by
    rintro page (same | same)
    · exact .inl ((message_eq_iff _ _).mpr same)
    · exact .inr ((message_eq_iff _ _).mpr same)
  have collisionFree : Set.InjOn Sha224.hex {message | ∃ page ∈ pages, message = page.message} := by
    rintro _ ⟨first, firstIn, rfl⟩ _ ⟨second, secondIn, rfl⟩ same
    rcases digests first firstIn with firstIs | firstIs <;>
      rcases digests second secondIn with secondIs | secondIs <;> rw [firstIs, secondIs] at same ⊢
    · exact absurd same apart
    · exact absurd same.symm apart
  obtain ⟨together, sound, sources, _⟩ := key_sound_and_sensitive pages collisionFree
  have shared : bare.key = small.key := by
    refine (sound bare (.inl rfl) small (.inl rfl)).mpr fun variant => ?_
    exact (document_eq_iff _ _ variant).mpr rfl
  refine ⟨collisionFree, shared, (together _ _).mp ((document_eq_iff _ _ .light).mpr rfl), ?_⟩
  rw [shared]
  exact (sources .default .basic ['x'] ['y'] (by decide)).2 (.inl rfl) (.inr rfl)

end Page

end FencePreview
