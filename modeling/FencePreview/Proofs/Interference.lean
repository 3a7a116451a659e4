import FencePreview.Proofs.Threads

/-! Threads among others. What a thread relies on is what the others may do between its turns, and what
it guarantees is what it does in a turn. Each thread has at most one place of its own at a time. -/

namespace FencePreview

/-- The rules that all threads of a pool keep: what may happen to the files between two turns of a thread
with a place of its own, and what the thread does in a turn, its own place before and after it. -/
structure Rules where
  rely : Option Location → Storage → Storage → Prop
  guarantee : Option Location → Option Location → Storage → Storage → Prop
  settled : ∀ own before after, rely own before after → rely own after after
  trans : ∀ own first second third, rely own first second → rely own second third → rely own first third

namespace Thread

variable {ε α β δ : Type} (rules : Rules)

/-- Whatever the others do, a thread keeps the rules, and its result is as `post` tells. -/
def Safe (post : Except ε α → Option Location → Storage → Prop) :
    Thread ε α → Option Location → Storage → Prop
  | done result, own, now => ∀ later, rules.rely own now later → post result own later
  | step change next, own, now => ∀ later : Workspace, rules.rely own now later.storage →
      ∃ kept, rules.guarantee own kept later.storage (change later).storage ∧
        Safe post (next later) kept (change later).storage

namespace Safe

variable {rules} {post : Except ε α → Option Location → Storage → Prop} {own : Option Location}
  {now later : Storage}

theorem stable (thread : Thread ε α) (safe : thread.Safe rules post own now)
    (relied : rules.rely own now later) : thread.Safe rules post own later := by
  cases thread with
  | done result => exact fun last more => safe last (rules.trans _ _ _ _ relied more)
  | step change next => exact fun last more => safe last (rules.trans _ _ _ _ relied more)

theorem of_later (thread : Thread ε α)
    (safe : ∀ later, rules.rely own now later → thread.Safe rules post own later) :
    thread.Safe rules post own now := by
  cases thread with
  | done result => exact fun later relied => safe later relied later (rules.settled _ _ _ relied)
  | step change next =>
      exact fun later relied => safe later.storage relied later (rules.settled _ _ _ relied)

theorem done (result : Except ε α) (holds : ∀ later, rules.rely own now later → post result own later) :
    (Thread.done result).Safe rules post own now := holds

theorem mono {wider : Except ε α → Option Location → Storage → Prop} (thread : Thread ε α)
    (safe : thread.Safe rules post own now)
    (weaker : ∀ result own later, post result own later → wider result own later) :
    thread.Safe rules wider own now := by
  induction thread generalizing own now with
  | done result => exact fun later relied => weaker _ _ _ (safe later relied)
  | step change next ih =>
      intro later relied
      obtain ⟨kept, guarantees, rest⟩ := safe later relied
      exact ⟨kept, guarantees, ih later rest⟩

theorem bind {last : Except ε β → Option Location → Storage → Prop} (thread : Thread ε α) (next : α → Thread ε β)
    (safe : thread.Safe rules (fun result own later => match result with
      | .ok value => (next value).Safe rules last own later
      | .error error => last (.error error) own later) own now) :
    (thread >>= next).Safe rules last own now := by
  change (Thread.bind thread next).Safe rules last own now
  induction thread generalizing own now with
  | done result =>
      cases result with
      | ok value => exact of_later (next value) safe
      | error error => exact safe
  | step change rest ih =>
      intro later relied
      obtain ⟨kept, guarantees, more⟩ := safe later relied
      exact ⟨kept, guarantees, ih later more⟩

theorem orFail {last : Except ε α → Option Location → Storage → Prop} (wrap : δ → ε) (thread : Thread δ α)
    (safe : thread.Safe rules (fun result own later => match result with
      | .ok value => last (.ok value) own later
      | .error error => last (.error (wrap error)) own later) own now) :
    (thread.orFail wrap).Safe rules last own now := by
  induction thread generalizing own now with
  | done result => cases result <;> exact safe
  | step change rest ih =>
      intro later relied
      obtain ⟨kept, guarantees, more⟩ := safe later relied
      exact ⟨kept, guarantees, ih later more⟩

theorem attempt {last : Except δ (Except ε α) → Option Location → Storage → Prop} (thread : Thread ε α)
    (safe : thread.Safe rules (fun result => last (.ok result)) own now) :
    (thread.attempt : Thread δ (Except ε α)).Safe rules last own now := by
  induction thread generalizing own now with
  | done result => exact safe
  | step change rest ih =>
      intro later relied
      obtain ⟨kept, guarantees, more⟩ := safe later relied
      exact ⟨kept, guarantees, ih later more⟩

/-- After a failure the clean-up is one more turn. -/
theorem cleaningUp (cleanUp : Storage → Storage) (thread : Thread ε α)
    (safe : thread.Safe rules (fun result own now => match result with
      | .ok value => post (.ok value) own now
      | .error error => ∃ kept, rules.guarantee own kept now (cleanUp now) ∧
          ∀ later, rules.rely kept (cleanUp now) later → post (.error error) kept later) own now) :
    (thread.cleaningUp cleanUp).Safe rules post own now := by
  induction thread generalizing own now with
  | done result =>
      cases result with
      | ok value => exact safe
      | error error => exact fun later relied => safe later.storage relied
  | step change rest ih =>
      intro later relied
      obtain ⟨kept, guarantees, more⟩ := safe later relied
      exact ⟨kept, guarantees, ih later more⟩

theorem ofJob (job : Job ε α)
    (turn : ∀ later : Workspace, rules.rely own now later.storage →
      match job later with
      | .ok value after => ∃ kept, rules.guarantee own kept later.storage after.storage ∧
          ∀ last, rules.rely kept after.storage last → post (.ok value) kept last
      | .error error after => ∃ kept, rules.guarantee own kept later.storage after.storage ∧
          ∀ last, rules.rely kept after.storage last → post (.error error) kept last) :
    (Thread.ofJob job).Safe rules post own now := by
  intro later relied
  have taken := turn later relied
  cases result : job later with
  | ok value after =>
      simp only [result] at taken ⊢
      exact taken
  | error error after =>
      simp only [result] at taken ⊢
      exact taken

end Safe

end Thread

/-- What a pool keeps: which thread has which place of its own. -/
structure Rules.Shares (rules : Rules) (shared : List (Option Location) → Storage → Prop) : Prop where
  relies : ∀ (owns : List (Option Location)) (now : Storage) (index : Nat) (own : Option Location),
    shared owns now → owns[index]? = some own → rules.rely own now now
  guarantees : ∀ (owns : List (Option Location)) (now after : Storage) (index : Nat) (own kept : Option Location),
    shared owns now → owns[index]? = some own → rules.guarantee own kept now after →
      shared (owns.set index kept) after ∧
        ∀ other (place : Option Location), other ≠ index → owns[other]? = some place → rules.rely place now after

/-- What a safe thread comes to alone. -/
theorem Thread.Safe.run {ε α : Type} {rules : Rules} {shared : List (Option Location) → Storage → Prop}
    (shares : rules.Shares shared) {post : Except ε α → Option Location → Storage → Prop} (thread : Thread ε α)
    (own : Option Location) (workspace : Workspace) (holds : shared [own] workspace.storage)
    (safe : thread.Safe rules post own workspace.storage) :
    match thread.run workspace with
    | .ok value after => ∃ kept, shared [kept] after.storage ∧ post (.ok value) kept after.storage
    | .error error after => ∃ kept, shared [kept] after.storage ∧ post (.error error) kept after.storage := by
  have relied := shares.relies [own] workspace.storage 0 own holds rfl
  induction thread generalizing own workspace with
  | done result => cases result <;> exact ⟨own, holds, safe workspace.storage relied⟩
  | step change next ih =>
      obtain ⟨kept, guaranteed, goesOn⟩ := safe workspace relied
      obtain ⟨still, _⟩ := shares.guarantees [own] _ _ 0 own kept holds rfl guaranteed
      exact ih workspace kept (change workspace) still goesOn (shares.relies [kept] _ 0 kept still rfl)

namespace Pool

variable {ε α : Type}

theorem turns_append (pool : Pool ε α) (early late : List Nat) :
    pool.turns (early ++ late) = (pool.turns early).turns late := List.foldl_append

theorem length_turns (pool : Pool ε α) (order : List Nat) :
    (pool.turns order).threads.length = pool.threads.length := by
  induction order generalizing pool with
  | nil => rfl
  | cons index rest ih =>
      refine (ih (pool.turn index)).trans ?_
      simp only [turn]
      split <;> simp

theorem exists_finished (pool : Pool ε α) (index : Nat) (thread : Thread ε α)
    (takes : pool.threads[index]? = some thread) :
    ∃ order result, (pool.turns order).threads[index]? = some (.done result) ∧
      ∀ other, other ≠ index → (pool.turns order).threads[other]? = pool.threads[other]? := by
  induction thread generalizing pool with
  | done result => exact ⟨[], result, takes, fun _ _ => rfl⟩
  | step change next ih =>
      have inside : index < pool.threads.length := (List.getElem?_eq_some_iff.mp takes).1
      have turned : pool.turn index =
          { workspace := change pool.workspace, threads := pool.threads.set index (next pool.workspace) } := by
        simp only [turn, takes]
      have goesOn : (pool.turn index).threads[index]? = some (next pool.workspace) := by
        simp [turned, inside]
      obtain ⟨order, result, finished, others⟩ := ih pool.workspace (pool.turn index) goesOn
      refine ⟨index :: order, result, finished, fun other apart => (others other apart).trans ?_⟩
      rw [turned]
      exact List.getElem?_set_ne (Ne.symm apart)

/-- No thread waits for another: from everywhere all can come to an end. -/
theorem exists_allFinished (pool : Pool ε α) :
    ∃ order, ∀ index < pool.threads.length, ∃ result, (pool.turns order).threads[index]? = some (.done result) := by
  -- The threads come to an end one after the other; those that have stay where they are.
  suffices some? : ∀ count ≤ pool.threads.length, ∃ order, ∀ index < count,
      ∃ result, (pool.turns order).threads[index]? = some (.done result) from some? _ (Nat.le_refl _)
  intro count
  induction count with
  | zero => exact fun _ => ⟨[], by simp⟩
  | succ count ih =>
      intro within
      obtain ⟨early, done⟩ := ih (by omega)
      have inside : count < (pool.turns early).threads.length := by
        rw [length_turns]
        omega
      obtain ⟨late, result, finished, others⟩ :=
        (pool.turns early).exists_finished count _ (List.getElem?_eq_getElem inside)
      refine ⟨early ++ late, fun index below => ?_⟩
      rw [turns_append]
      by_cases last : index = count
      · exact ⟨result, last ▸ finished⟩
      · rw [others index last]
        exact done index (by omega)

variable (rules : Rules) (shared : List (Option Location) → Storage → Prop)
  (post : Nat → Except ε α → Option Location → Storage → Prop)

def Safe (pool : Pool ε α) : Prop :=
  ∃ owns : List (Option Location), shared owns pool.workspace.storage ∧ owns.length = pool.threads.length ∧
    ∀ (index : Nat) (thread : Thread ε α) (own : Option Location), pool.threads[index]? = some thread →
      owns[index]? = some own → thread.Safe rules (post index) own pool.workspace.storage

variable {rules shared post}

theorem Safe.turn (shares : rules.Shares shared) (pool : Pool ε α) (safe : pool.Safe rules shared post)
    (index : Nat) : (pool.turn index).Safe rules shared post := by
  obtain ⟨owns, holds, lengths, each⟩ := safe
  simp only [Pool.turn]
  split
  · rename_i change next takes
    -- The thread that moves keeps the rules, and for each other one this is within what it relies on.
    have inside : index < owns.length := lengths ▸ (List.getElem?_eq_some_iff.mp takes).1
    have owned : owns[index]? = some owns[index] := List.getElem?_eq_getElem inside
    have relied := shares.relies owns _ index _ holds owned
    obtain ⟨kept, guaranteed, goesOn⟩ := each index _ _ takes owned pool.workspace relied
    obtain ⟨still, others⟩ := shares.guarantees owns _ _ index _ kept holds owned guaranteed
    refine ⟨owns.set index kept, still, by simp [lengths], ?_⟩
    intro other thread own found place
    by_cases same : other = index
    · subst same
      have threadInside : other < pool.threads.length := lengths ▸ inside
      simp only [List.getElem?_set, threadInside, inside, if_true, Option.some.injEq] at found place
      subst found place
      exact goesOn
    · rw [List.getElem?_set_ne (Ne.symm same)] at found place
      exact (each other thread own found place).stable _ (others other own same place)
  · exact ⟨owns, holds, lengths, each⟩

/-- However the turns are ordered, all threads stay safe. -/
theorem Safe.turns (shares : rules.Shares shared) (pool : Pool ε α) (safe : pool.Safe rules shared post)
    (order : List Nat) : (pool.turns order).Safe rules shared post := by
  induction order generalizing pool with
  | nil => exact safe
  | cons index rest ih => exact ih (pool.turn index) (safe.turn shares pool index)

theorem Safe.result (shares : rules.Shares shared) (pool : Pool ε α) (safe : pool.Safe rules shared post)
    (index : Nat) (result : Except ε α) (finished : pool.threads[index]? = some (.done result)) :
    ∃ own, post index result own pool.workspace.storage := by
  obtain ⟨owns, holds, lengths, each⟩ := safe
  have inside : index < owns.length := lengths ▸ (List.getElem?_eq_some_iff.mp finished).1
  have owned : owns[index]? = some owns[index] := List.getElem?_eq_getElem inside
  exact ⟨_, each index _ _ finished owned _ (shares.relies owns _ index _ holds owned)⟩

end Pool

end FencePreview
