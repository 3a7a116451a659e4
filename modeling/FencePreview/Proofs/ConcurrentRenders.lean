import FencePreview.Proofs.RenderParts

/-! Renders that share their directories do not get into each other's way. However their turns are ordered,
each does what it does alone. -/

namespace FencePreview

def Call.thread (call : Call) : Thread PreviewError RenderedPreview :=
  Thread.render call.formatter call.source call.attributes

namespace Scene

variable {scene : Scene}

/-- A lone render that succeeds finds or makes the images and publishes them. -/
theorem parts_of_render (formatter : Formatter) (source site : Text) (attributes : Attributes)
    (settings : PreviewSettings) (accepted : PreviewSettings.ofAttributes attributes = .ok settings)
    (hasSite : formatter.sitePath = some site) (alone after : Workspace) (rendered : RenderedPreview)
    (finished : formatter.render source attributes alone = .ok rendered after) :
    ∃ stored, (∃ ran, formatter.Stored (formatter.document settings source) alone ran stored) ∧
      ∃ copies, formatter.artifacts.publish (fingerprint (formatter.document settings source .light)) stored =
        .ok copies after := by
  simp only [Formatter.render, accepted, hasSite] at finished
  obtain ⟨ran, stored, store, rest⟩ := (Job.bind_eq_ok_iff _ _ _ _ _).mp finished
  obtain ⟨copies, between, publish, last⟩ := (Job.bind_eq_ok_iff _ _ _ _ _).mp rest
  obtain ⟨_, rfl⟩ := (Job.pure_eq_ok_iff _ _ _ _).mp last
  exact ⟨stored, ⟨ran, (formatter.storeIfMissing_eq_ok_iff _ _ _ _).mp ((Job.orFail_eq_ok_iff _ _ _ _ _).mp store)⟩,
    copies, (Job.orFail_eq_ok_iff _ _ _ _ _).mp publish⟩

theorem ends_render (ready : scene.Ready) (call : Call) (member : call ∈ scene.calls) (now : Storage)
    (settled : scene.Settled now) :
    call.thread.Safe scene.rules (scene.Ends (fun alone after => ∃ rendered, call.job alone = .ok rendered after)
      (fun rendered later => ∃ page, call.Uses page ∧ rendered.fingerprint = fingerprint (page .light) ∧
        scene.artifacts.Complete later rendered.fingerprint) now) none now := by
  have same := ready.shared call member
  have depends := ready.depends call member
  cases accepted : PreviewSettings.ofAttributes call.attributes with
  | error error =>
      simp only [Call.thread, Thread.render, accepted]
      refine .done _ fun later relied => ⟨rfl, relied.progress, by simp, ?_⟩
      rintro alone after shared ahead ⟨rendered, finished⟩
      obtain ⟨settings, _, other, _⟩ := call.formatter.accepted_of_render_eq_ok _ _ _ _ _ finished
      simp [accepted] at other
  | ok settings =>
      cases hasSite : call.formatter.sitePath with
      | none =>
          simp only [Call.thread, Thread.render, accepted, hasSite]
          refine .done _ fun later relied => ⟨rfl, relied.progress, by simp, ?_⟩
          rintro alone after shared ahead ⟨rendered, finished⟩
          obtain ⟨_, site, _, other⟩ := call.formatter.accepted_of_render_eq_ok _ _ _ _ _ finished
          simp [hasSite] at other
      | some site =>
          simp only [Call.thread, Thread.render, accepted, hasSite, same]
          have uses : call.Uses (call.formatter.document settings call.source) := ⟨settings, accepted, rfl⟩
          have used : call.formatter.document settings call.source ∈ scene.used := ⟨call, member, uses⟩
          refine .mono _ (Ends.bind _ (Ends.orFail PreviewError.compile _ (ends_storeIfMissing ready _ used
            call.formatter same depends now settled)) fun ran stored first inStore =>
              Ends.bind _ (Ends.orFail PreviewError.publish _ (ends_publish ready _ used stored first.settled))
                fun _ published second onSite => Ends.pure _ _ fun final third => ?_)
            fun result own later ends => ends.widen result own now later (.refl settled) ?_
          · refine ⟨_, uses, rfl, List.all_eq_true.mpr fun variant _ => ?_, fun variant => ?_⟩
            · exact (second.trans third).isFile first.settled _ used _ scene.artifacts.dumpDirectory_mem variant
                (inStore variant)
            · exact third.isFile second.settled _ used _ scene.artifacts.siteDirectory_mem variant (onSite variant)
          · rintro alone after shared ahead ⟨rendered, finished⟩
            obtain ⟨stored, store, copies, publish⟩ := parts_of_render call.formatter call.source site call.attributes
              settings accepted hasSite alone after rendered finished
            rw [same] at publish
            exact ⟨stored, store, after, ⟨copies, publish⟩, rfl⟩

def pool (scene : Scene) (compiled log : List Text) : Pool PreviewError RenderedPreview where
  workspace := { storage := scene.start, compiled, log }
  threads := scene.calls.map Call.thread

theorem Ready.settled (ready : scene.Ready) : scene.Settled scene.start := by
  refine ⟨ready.rooted, .refl _ _ _, fun _ _ => rfl, ?_⟩
  intro page member directory known variant content found
  rw [ready.vacant _ ⟨page, member, directory, known, variant, rfl⟩] at found
  cases found

theorem Ready.shared_start (ready : scene.Ready) (count : Nat) (few : count ≤ scene.calls.length) :
    scene.Shared (List.replicate count none) scene.start := by
  refine ⟨ready.settled, by simpa using few, ?_, ?_, fun _ _ there => .inl there⟩
  · intro index location found
    simp [List.getElem?_replicate] at found
  · intro first second location found
    simp [List.getElem?_replicate] at found

/-- What is told of the render at `index` when it comes to an end. -/
def Delivers (scene : Scene) (index : Nat) (result : Except PreviewError RenderedPreview) (own : Option Location)
    (later : Storage) : Prop :=
  ∀ call, scene.calls[index]? = some call →
    scene.Ends (fun alone after => ∃ rendered, call.job alone = .ok rendered after)
      (fun rendered later => ∃ page, call.Uses page ∧ rendered.fingerprint = fingerprint (page .light) ∧
        scene.artifacts.Complete later rendered.fingerprint) scene.start result own later

theorem safe_pool (ready : scene.Ready) (compiled log : List Text) :
    (scene.pool compiled log).Safe scene.rules scene.Shared scene.Delivers := by
  refine ⟨List.replicate scene.calls.length none, ready.shared_start _ (Nat.le_refl _), by simp [pool], ?_⟩
  intro index thread own takes owned
  obtain ⟨call, found, rfl⟩ : ∃ call, scene.calls[index]? = some call ∧ call.thread = thread := by
    simpa [pool] using takes
  obtain rfl : none = own := by
    have inside := (List.getElem?_eq_some_iff.mp found).1
    simpa [List.getElem?_replicate, inside] using owned
  refine .mono _ (ends_render ready call (List.mem_of_getElem? found) scene.start ready.settled) ?_
  intro result own later ends other same
  obtain rfl := Option.some.inj (found.symm.trans same)
  exact ends

/-- Renders that start without images over shared directories, in whatever order they take their turns: at
every moment each image is absent or the whole output for its document; a render that succeeds alone does
not fail; one that has succeeded has all its images in store and on the site; and all can come to an end. -/
theorem renders_together (ready : scene.Ready) (compiled log : List Text) (order : List Nat) :
    let before : Workspace := { storage := scene.start, compiled, log }
    let now := (scene.pool compiled log).turns order
    (∀ page ∈ scene.used, ∀ directory ∈ scene.artifacts.directories, ∀ variant content,
      now.workspace.storage.tree.file? (scene.imagePlace directory page variant) = some content →
        scene.outcome (page variant) = .ok () ∧ content = scene.output (page variant)) ∧
      (∀ (index : Nat) (call : Call) (result : Except PreviewError RenderedPreview),
        scene.calls[index]? = some call → now.threads[index]? = some (.done result) →
          ((∃ rendered after, call.job before = .ok rendered after) → ∃ rendered, result = .ok rendered) ∧
          ∀ rendered, result = .ok rendered → ∃ page, call.Uses page ∧
            rendered.fingerprint = fingerprint (page .light) ∧
            scene.artifacts.Complete now.workspace.storage rendered.fingerprint) ∧
      ∃ more, ∀ index < scene.calls.length, ∃ result, (now.turns more).threads[index]? = some (.done result) := by
  intro before now
  have start := safe_pool ready compiled log
  -- At every moment the threads share the files, and one that is done has ended as it should.
  have safe := start.turns scene.shares _ order
  refine ⟨?_, fun index call result found finished => ?_, ?_⟩
  · obtain ⟨owns, shared, _⟩ := safe
    exact fun page member directory known variant content there =>
      shared.settled.images page member directory known variant content there
  · obtain ⟨own, ends⟩ := safe.result scene.shares _ index result finished
    have ends := ends call found
    refine ⟨?_, ends.good⟩
    rintro ⟨rendered, after, alone⟩
    have inside := (List.getElem?_eq_some_iff.mp found).1
    exact (ends.follows before after (ready.shared_start 1 (by omega)) (.refl ready.settled) ⟨rendered, alone⟩).1
  · obtain ⟨more, finished⟩ := now.exists_allFinished
    refine ⟨more, fun index below => finished index ?_⟩
    rw [Pool.length_turns]
    simpa [pool] using below

end Scene

theorem Compiler.depends_writing (image : Text → ByteArray) :
    (Compiler.writing image).Depends (fun _ => .ok ()) image := by
  have writes : ∀ (document : Text) (path : PathName) (storage : Storage), storage.isFile path = true →
      ∃ after, storage.write path (image document) = .ok after := by
    intro document path storage there
    obtain ⟨content, found⟩ := (Storage.isFile_eq_true_iff _ _).mp there
    obtain ⟨location, leads, file⟩ := (Storage.read_eq_ok_iff _ _ _).mp found
    obtain ⟨mode, entry⟩ := (FileTree.file?_eq_some_iff _ _ _).mp file
    simp only [Storage.write, leads, entry]
    exact ⟨_, rfl⟩
  have reads : ∀ (calls : Nat) (document : Text) (path : PathName) (storage : Storage), storage.isFile path = true →
      (writing image calls document path storage).storage.read path = .ok (image document) := by
    intro calls document path storage there
    obtain ⟨after, written⟩ := writes document path storage there
    simp only [writing, written, Compilation.ofResult]
    exact Storage.read_of_write _ _ _ _ written
  refine ⟨onlyOutput_writing image, fun calls document path storage there => ?_,
    fun calls document path storage there => ?_, fun calls document path storage there _ => ?_⟩
  · obtain ⟨after, written⟩ := writes document path storage there
    simp only [writing, written, Compilation.ofResult]
  · exact (Storage.isFile_eq_true_iff _ _).mpr ⟨_, reads calls document path storage there⟩
  · exact reads calls document path storage there

def FileTree.emptyDirectories : FileTree :=
  ⟨[(["docs".toList], .directory directoryMode), (["docs".toList, renderedDirectory], .directory directoryMode),
    (["site".toList], .directory directoryMode), (["site".toList, renderedDirectory], .directory directoryMode)]⟩

namespace Scene

def small : Scene :=
  let formatter := Formatter.small (.writing Text.encode)
  { artifacts := formatter.artifacts
    outcome := fun _ => .ok ()
    output := Text.encode
    calls := [⟨formatter, ['x'], .basic⟩, ⟨formatter, ['y'], .basic⟩, ⟨formatter, ['x'], .basic⟩]
    start := ⟨.emptyDirectories, []⟩ }

theorem used_small (page : Variant → Text) (member : page ∈ small.used) :
    (page = (Formatter.small (.writing Text.encode)).document .basic ['x'] ∧
        fingerprint (page .light) = smallDigits) ∨
      page = (Formatter.small (.writing Text.encode)).document .basic ['y'] ∧
        fingerprint (page .light) = otherDigits := by
  obtain ⟨call, among, settings, accepted, rfl⟩ := member
  simp only [small, List.mem_cons, List.not_mem_nil, or_false] at among
  rcases among with rfl | rfl | rfl
  all_goals
    rw [PreviewSettings.ofAttributes_basic] at accepted
    obtain rfl := Except.ok.inj accepted
  · exact .inl ⟨rfl, fingerprint_eq_smallDigits _ rfl⟩
  · exact .inr ⟨rfl, fingerprint_eq_otherDigits _ rfl⟩
  · exact .inl ⟨rfl, fingerprint_eq_smallDigits _ rfl⟩

theorem ready_small : small.Ready where
  shared := by simp [small]
  depends := by
    simp only [small, List.forall_mem_cons]
    exact ⟨Compiler.depends_writing _, Compiler.depends_writing _, Compiler.depends_writing _, by simp⟩
  rooted := FileTree.Rooted.of_entries _ (by decide)
  named := by simp [small]
  vacant := by
    intro location _
    refine FileTree.file?_eq_none _ (fun binding member => ⟨FileTree.directoryMode, ?_⟩) location
    simp only [small, FileTree.emptyDirectories, List.mem_cons, List.not_mem_nil, or_false] at member
    rcases member with rfl | rfl | rfl | rfl <;> rfl
  -- The two pages are told apart by their fingerprints.
  distinct := by
    rintro _ ⟨first, firstUsed, rfl⟩ _ ⟨second, secondUsed, rfl⟩ same
    have apart : smallDigits ≠ otherDigits := by decide
    rcases used_small first firstUsed with ⟨rfl, left⟩ | ⟨rfl, left⟩ <;>
      rcases used_small second secondUsed with ⟨rfl, right⟩ | ⟨rfl, right⟩
    · rfl
    · exact absurd (left.symm.trans (same.trans right)) apart
    · exact absurd (right.symm.trans (same.symm.trans left)) apart
    · rfl
  clear := fun location furnished _ => isDirectory_of_furnished (by decide) (by decide) location furnished
  room := by
    have hosted : ∀ directory, small.Hosts directory → directory ∈ small.artifacts.directories := by
      rintro directory (rfl | ⟨page, member, variant, rfl⟩)
      · decide
      · have each : ∀ name ∈ [smallDigits, otherDigits], ∀ variant ∈ Variant.all,
            (small.artifacts.dumpPath name variant).parent?.getD ⟨['.']⟩ ∈ small.artifacts.directories := by
          decide
        refine each _ ?_ variant (by cases variant <;> decide)
        rcases used_small page member with ⟨_, digest⟩ | ⟨_, digest⟩ <;> simp [digest]
    have room : ∀ directory ∈ small.artifacts.directories,
        (small.start.tree.names (small.start.place directory)).length + small.calls.length ≤ 3 ∧ ∀ number ≤ 3,
          Text.byteSize (Storage.temporaryName number) ≤ Storage.nameLimit ∧
            Text.byteSize ((small.start.absolute directory).join ⟨Storage.temporaryName number⟩).text <
              Storage.pathLimit := by
      decide +kernel
    intro directory hosts number below
    obtain ⟨few, fits⟩ := room directory (hosted directory hosts)
    exact fits number (below.trans few)

theorem alone_small (call : Call) (member : call ∈ small.calls) :
    ∃ rendered after, call.job ⟨small.start, [], []⟩ = .ok rendered after := by
  have succeeds : ∀ source name, fingerprint ((Formatter.small (.writing Text.encode)).document .basic source .light) =
      name → (name = smallDigits ∧ source = ['x'] ∨ name = otherDigits ∧ source = ['y']) →
      ∃ rendered after, (Formatter.small (.writing Text.encode)).render source .basic ⟨small.start, [], []⟩ =
        .ok rendered after := by
    intro source name digest either
    have run := (Formatter.small (.writing Text.encode)).render_eq source ['/'] .basic .basic
      PreviewSettings.ofAttributes_basic rfl name digest
    have ends : (Job.result? ((Formatter.small (.writing Text.encode)).render source .basic)
        ⟨small.start, [], []⟩).isSome = true := by
      rw [run]
      rcases either with ⟨rfl, rfl⟩ | ⟨rfl, rfl⟩ <;> decide +kernel
    obtain ⟨rendered, result⟩ := Option.isSome_iff_exists.mp ends
    exact ⟨rendered, (Job.result?_eq_some_iff _ _ _).mp result⟩
  simp only [small, List.mem_cons, List.not_mem_nil, or_false] at member
  rcases member with rfl | rfl | rfl
  · exact succeeds ['x'] _ (fingerprint_eq_smallDigits _ rfl) (.inl ⟨rfl, rfl⟩)
  · exact succeeds ['y'] _ (fingerprint_eq_otherDigits _ rfl) (.inr ⟨rfl, rfl⟩)
  · exact succeeds ['x'] _ (fingerprint_eq_smallDigits _ rfl) (.inl ⟨rfl, rfl⟩)

/-- Two renders of one preview and one of another, taking turns: all come to an end, and each of them
succeeds. -/
theorem renders_together_small :
    let now := (small.pool [] []).turns [0, 1, 2, 0, 1, 2]
    ∃ more, ∀ index < 3, ∃ rendered,
      (now.turns more).threads[index]? = some (.done (.ok rendered)) ∧
        small.artifacts.Complete (now.turns more).workspace.storage rendered.fingerprint := by
  intro now
  obtain ⟨_, _, more, finished⟩ := renders_together ready_small [] [] [0, 1, 2, 0, 1, 2]
  obtain ⟨_, ends, _⟩ := renders_together ready_small [] [] ([0, 1, 2, 0, 1, 2] ++ more)
  rw [Pool.turns_append] at ends
  refine ⟨more, fun index below => ?_⟩
  obtain ⟨result, done⟩ := finished index below
  have inside : index < small.calls.length := below
  obtain ⟨succeeds, complete⟩ := ends index _ result (List.getElem?_eq_getElem inside) done
  obtain ⟨rendered, rfl⟩ := succeeds (alone_small _ (List.getElem_mem inside))
  obtain ⟨page, _, _, there⟩ := complete rendered rfl
  exact ⟨rendered, done, there⟩

end Scene

end FencePreview
