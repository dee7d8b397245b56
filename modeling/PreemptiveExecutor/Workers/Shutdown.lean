/-
# Workers.Shutdown — the destructor's tokens are enough

`~WorkerGroup` releases one token for each thread and joins them.  Where each
thread is at that moment does not matter: a thread that takes a token afterwards
finds `spinning` false and leaves, so it takes one at most.  The log of
`acquiresSince` lists the threads that have; the tokens left cover all others that
have not exited (`TokensForAll`), so nobody waits for a token that does not come
(`shutdown_strands_nobody`).
-/
import Mathlib.Data.Finset.Card
import PreemptiveExecutor.Workers.Steps

namespace PreemptiveExecutor

open Theory

set_option autoImplicit false

variable {β : Type}

def Worker.isExited : Worker β → Bool
  | .exited => true
  | _ => false

namespace WorkerGroup

/-- What a step adds to the log: the thread that takes a token after the release of
the destructor. -/
def acquiresSince (g : WorkerGroup β) : Label β → List Nat
  | .worker i .acquire => if g.destroyed then [i] else []
  | _ => []

/-- The threads that have neither exited nor taken a token since. -/
def unserved (g : WorkerGroup β) (since : List Nat) : Finset Nat :=
  (Finset.range g.threads.length).filter fun i => (g.threads[i]?).any Worker.isExited = false ∧ i ∉ since

/-- The invariant: before the destructor nothing is logged, and after it there is a
token for every thread that is not served, while the served ones are on their way out. -/
structure TokensForAll (g : WorkerGroup β) (since : List Nat) : Prop where
  before : g.destroyed = false → since = []
  stopped : g.destroyed = true → g.spinning = false
  tokens : g.destroyed = true → (g.unserved since).card ≤ g.semaphore
  leaving : ∀ i ∈ since, g.threads[i]? = some .acquired ∨ g.threads[i]? = some .exited

theorem mem_unserved {g : WorkerGroup β} {since : List Nat} {i : Nat} :
    i ∈ g.unserved since ↔ i < g.threads.length ∧ g.threads[i]? ≠ some .exited ∧ i ∉ since := by
  have exited : (g.threads[i]?).any Worker.isExited = false ↔ g.threads[i]? ≠ some .exited := by
    cases g.threads[i]? with
    | none => simp
    | some w => cases w <;> simp [Worker.isExited]
  unfold unserved
  rw [Finset.mem_filter, Finset.mem_range, exited]

/-- A thread that has exited makes no step. -/
theorem ThreadEffect.not_exited {g g' : WorkerGroup β} {w w' : Worker β} (effect : ThreadEffect g w w' g') :
    w ≠ .exited := by
  cases effect <;> rintro ⟨⟩

/-- A step of a thread makes nobody unserved. -/
theorem unserved_setThread {g g' : WorkerGroup β} {i : Nat} {w w' : Worker β} (at_ : g.threads[i]? = some w)
    (same : g'.threads = g.threads) (live : w ≠ .exited) (since : List Nat) :
    (g'.setThread i w').unserved since ⊆ g.unserved since := by
  intro j member
  obtain ⟨inRange, notExited, unlogged⟩ := mem_unserved.1 member
  have threads : (g'.setThread i w').threads = g.threads.set i w' := by rw [setThread, same]
  rw [threads, List.length_set] at inRange
  rw [threads] at notExited
  refine mem_unserved.2 ⟨inRange, ?_, unlogged⟩
  by_cases own : i = j
  · subst own
    rw [at_]
    exact fun exited => live (Option.some.inj exited)
  · rwa [List.getElem?_set_ne own] at notExited

/-- After a step of a thread, which is not logged or exits, the logged ones are on
their way out still. -/
theorem leaving_setThread {g g' : WorkerGroup β} {i : Nat} {w' : Worker β} {since : List Nat}
    (same : g'.threads = g.threads)
    (leaving : ∀ j ∈ since, g.threads[j]? = some .acquired ∨ g.threads[j]? = some .exited)
    (own : i ∈ since → w' = .exited) : ∀ j ∈ since,
      (g'.setThread i w').threads[j]? = some .acquired ∨ (g'.setThread i w').threads[j]? = some .exited := by
  intro j logged
  have old := leaving j logged
  have threads : (g'.setThread i w').threads = g.threads.set i w' := by rw [setThread, same]
  rw [threads]
  by_cases this : i = j
  · subst this
    have inRange : i < g.threads.length := by
      by_contra outside
      rw [List.getElem?_eq_none (by omega)] at old
      rcases old with h | h <;> cases h
    rw [List.getElem?_set_self inRange, own logged]
    exact Or.inr rfl
  · rwa [List.getElem?_set_ne this]

/-- A thread that waits has taken nothing since. -/
theorem TokensForAll.unlogged {g : WorkerGroup β} {since : List Nat} {i : Nat} (inv : TokensForAll g since)
    (waits : g.threads[i]? = some .waiting) : i ∉ since := by
  intro logged
  rcases inv.leaving i logged with here | here <;> rw [here] at waits <;> cases waits

/-- A logged thread that steps was at the check, where it finds `spinning` false. -/
theorem TokensForAll.exits {g g₁ : WorkerGroup β} {since : List Nat} {i : Nat} {w w' : Worker β}
    (inv : TokensForAll g since) (logged : i ∈ since) (at_ : g.threads[i]? = some w)
    (effect : ThreadEffect g w w' g₁) : w' = .exited ∧ g₁ = g := by
  have gone : g.destroyed = true := by
    cases alive : g.destroyed with
    | true => rfl
    | false => rw [inv.before alive] at logged; cases logged
  rcases inv.leaving i logged with here | here <;> rw [here] at at_ <;> cases at_
  · cases effect with
    | exit => exact ⟨rfl, rfl⟩
    | pass ok going => rw [inv.stopped gone] at going; cases going
  · exact absurd rfl effect.not_exited

/-- A thread takes one of the tokens, and is served. -/
theorem TokensForAll.acquire {g : WorkerGroup β} {since : List Nat} {i : Nat} (inv : TokensForAll g since)
    (gone : g.destroyed = true) (at_ : g.threads[i]? = some .waiting) :
    TokensForAll ({ g with semaphore := g.semaphore - 1 }.setThread i .acquired) (since ++ [i]) := by
  have inRange : i < g.threads.length := (List.getElem?_eq_some_iff.1 at_).1
  have unlogged := inv.unlogged at_
  refine ⟨fun alive => ?_, fun _ => inv.stopped gone, fun _ => ?_, fun j logged => ?_⟩
  · exact absurd (gone.symm.trans alive) (by decide)
  · have own : i ∈ g.unserved since := mem_unserved.2 ⟨inRange, by rw [at_]; rintro ⟨⟩, unlogged⟩
    have subset : ({ g with semaphore := g.semaphore - 1 }.setThread i .acquired).unserved (since ++ [i]) ⊆
        (g.unserved since).erase i := by
      intro j member
      obtain ⟨inRange', notExited, unlogged'⟩ := mem_unserved.1 member
      rw [List.mem_append, List.mem_singleton, not_or] at unlogged'
      have taken : j ∈ ({ g with semaphore := g.semaphore - 1 }.setThread i .acquired).unserved since :=
        mem_unserved.2 ⟨inRange', notExited, unlogged'.1⟩
      have old := unserved_setThread at_ rfl (by rintro ⟨⟩) since taken
      exact Finset.mem_erase.2 ⟨unlogged'.2, old⟩
    have bound := Finset.card_le_card subset
    have before := inv.tokens gone
    rw [Finset.card_erase_of_mem own] at bound
    show _ ≤ g.semaphore - 1
    omega
  · rcases List.mem_append.1 logged with old | new
    · exact leaving_setThread rfl inv.leaving (fun logged => absurd logged unlogged) j old
    · obtain rfl := List.mem_singleton.1 new
      left
      show (g.threads.set j .acquired)[j]? = some .acquired
      exact List.getElem?_set_self inRange

/-- A thread step: only an acquire after the release spends a token. -/
theorem tokensForAll_worker {g g' : WorkerGroup β} {i : Nat} {action : WorkerAction} {since : List Nat}
    (inv : TokensForAll g since) (stepped : g.step (.worker i action) = some g') :
    TokensForAll g' (since ++ g.acquiresSince (.worker i action)) := by
  obtain ⟨w, w', g₁, at_, moved, effect, rfl⟩ := step_worker stepped
  obtain ⟨threads, -, spinning, destroyed, -⟩ := effect.frame
  by_cases acquiring : action = .acquire ∧ g.destroyed = true
  · obtain ⟨rfl, gone⟩ := acquiring
    have logs : g.acquiresSince (.worker i .acquire) = [i] := by simp [acquiresSince, gone]
    rw [logs]
    obtain rfl := workerStep_acquire moved
    cases effect with
    | acquire token => exact inv.acquire gone at_
  · have logs : g.acquiresSince (.worker i action) = [] := by
      cases action <;> simp_all [acquiresSince]
    rw [logs, List.append_nil]
    refine ⟨fun alive => inv.before (destroyed ▸ alive), fun gone => ?_, fun gone => ?_,
      leaving_setThread threads inv.leaving fun logged => (inv.exits logged at_ effect).1⟩
    · show g₁.spinning = false
      rw [spinning]
      exact inv.stopped (destroyed ▸ gone)
    · have tokens := inv.tokens (destroyed ▸ gone)
      have fewer : (g₁.setThread i w').unserved since ⊆ g.unserved since :=
        unserved_setThread at_ threads effect.not_exited since
      have bound := Finset.card_le_card fewer
      have kept : g₁.semaphore = g.semaphore := by
        cases effect with
        | acquire token => exact absurd ⟨workerStep_waiting moved, destroyed ▸ gone⟩ acquiring
        | updatePrio => exact updatePrio_semaphore _ _
        | _ => rfl
      show _ ≤ g₁.semaphore
      omega

theorem tokensForAll_step {g g' : WorkerGroup β} {label : Label β} {since : List Nat}
    (inv : TokensForAll g since) (stepped : g.step label = some g') :
    TokensForAll g' (since ++ g.acquiresSince label) := by
  cases label with
  | worker i action => exact tokensForAll_worker inv stepped
  | enqueueBulk bundles =>
      obtain ⟨-, rfl⟩ := step_enqueueBulk stepped
      change TokensForAll _ (since ++ [])
      rw [List.append_nil]
      exact ⟨inv.before, inv.stopped, inv.tokens, inv.leaving⟩
  | fetchAdd =>
      obtain ⟨n, -, rfl⟩ := step_fetchAdd stepped
      change TokensForAll _ (since ++ [])
      rw [List.append_nil]
      exact ⟨inv.before, inv.stopped, inv.tokens, inv.leaving⟩
  | dispatcherUpdatePrio =>
      obtain ⟨n, point, -, rfl⟩ := step_dispatcherUpdatePrio stepped
      change TokensForAll _ (since ++ [])
      rw [List.append_nil]
      refine ⟨by simpa using inv.before, by simpa using inv.stopped, fun gone => ?_, by simpa using inv.leaving⟩
      have tokens := inv.tokens (by simpa using gone)
      simpa [unserved] using tokens
  | release =>
      obtain ⟨n, -, rfl⟩ := step_release stepped
      change TokensForAll _ (since ++ [])
      rw [List.append_nil]
      refine ⟨inv.before, inv.stopped, fun gone => ?_, inv.leaving⟩
      have tokens := inv.tokens gone
      show (g.unserved since).card ≤ g.semaphore + n
      omega
  | setOk ok =>
      cases stepped
      change TokensForAll _ (since ++ [])
      rw [List.append_nil]
      exact ⟨inv.before, inv.stopped, inv.tokens, inv.leaving⟩
  | setSpinning spinning =>
      obtain ⟨alive, rfl⟩ := step_setSpinning stepped
      change TokensForAll _ (since ++ [])
      rw [List.append_nil]
      exact ⟨inv.before, fun gone => absurd (alive.symm.trans gone) (by decide), inv.tokens, inv.leaving⟩
  | destroy =>
      obtain ⟨⟨stopped, alive, -⟩, rfl⟩ := step_destroy stepped
      change TokensForAll _ (since ++ [])
      rw [List.append_nil]
      refine ⟨fun gone => (by cases gone), fun _ => stopped, fun _ => ?_, inv.leaving⟩
      -- one token for each thread, whatever was there before
      have all : (g.unserved since).card ≤ g.threads.length := by
        have bound := Finset.card_filter_le (Finset.range g.threads.length) fun i =>
          (g.threads[i]?).any Worker.isExited = false ∧ i ∉ since
        rwa [Finset.card_range] at bound
      show (g.unserved since).card ≤ g.semaphore + g.threads.length
      omega

theorem tokensForAll_reachable {isMutexGroup : Bool} {priority numberOfThreads : Nat}
    {p : WorkerGroup β × List Nat}
    (reachable : ((system β isMutexGroup priority numberOfThreads).withHistory acquiresSince).Reachable p) :
    TokensForAll p.1 p.2 := by
  refine Transition.invariant (fun p => TokensForAll p.1 p.2) (fun p start => ?_)
    (fun p label p' inv _ stepped => ?_) reachable
  · obtain ⟨group, log⟩ := start
    rw [group, log]
    exact ⟨fun _ => rfl, fun gone => (by cases gone), fun gone => (by cases gone), by rintro _ ⟨⟩⟩
  · obtain ⟨g', moved, rfl⟩ := Option.map_eq_some_iff.1 stepped
    exact tokensForAll_step inv moved

/-- **Shutdown strands no worker.**  In every state that a run reaches after
`spinning` is false and the destructor has released its tokens: the semaphore holds
at least as many as there are threads that have neither exited nor taken one since;
a thread that has taken one since is at the check or has exited, and its next step is
to exit, without dequeuing; and a thread that waits for a token can take it. -/
theorem shutdown_strands_nobody {isMutexGroup : Bool} {priority numberOfThreads : Nat}
    {g : WorkerGroup β} {since : List Nat}
    (reachable : ((system β isMutexGroup priority numberOfThreads).withHistory acquiresSince).Reachable
      (g, since))
    (destroyed : g.destroyed = true) :
    (g.unserved since).card ≤ g.semaphore ∧
      (∀ i ∈ since, g.threads[i]? = some .acquired ∨ g.threads[i]? = some .exited) ∧
      (∀ i ∈ since, ∀ action g', g.step (.worker i action) = some g' →
        g' = g.setThread i .exited) ∧
      ∀ i, g.threads[i]? = some .waiting → ∃ g', g.step (.worker i .acquire) = some g' := by
  have inv : TokensForAll g since := tokensForAll_reachable reachable
  refine ⟨inv.tokens destroyed, inv.leaving, fun i logged action g' stepped => ?_, fun i waits => ?_⟩
  · obtain ⟨w, w', g₁, at_, -, effect, rfl⟩ := step_worker stepped
    obtain ⟨rfl, rfl⟩ := inv.exits logged at_ effect
    rfl
  · have inRange : i < g.threads.length := (List.getElem?_eq_some_iff.1 waits).1
    have own : i ∈ g.unserved since :=
      mem_unserved.2 ⟨inRange, by rw [waits]; rintro ⟨⟩, inv.unlogged waits⟩
    have some_ : 0 < (g.unserved since).card := Finset.card_pos.2 ⟨i, own⟩
    have tokens : 0 < g.semaphore := by
      have bound := inv.tokens destroyed
      omega
    refine ⟨{ g with semaphore := g.semaphore - 1 }.setThread i .acquired, ?_⟩
    simp only [step, waits, Option.bind_some, workerStep, if_pos tokens]

/-- Three workers: one inside a bundle, one that has taken a token since the destructor
released, one that waits. -/
def threeWorkersRun : List (Label Nat) :=
  [.enqueueBulk [1, 2], .fetchAdd, .release, .worker 0 .acquire, .worker 0 .check, .worker 0 .tryDequeue,
    .worker 0 .startRun, .setSpinning false, .destroy, .worker 1 .acquire]

theorem shutdown_strands_nobody_threeWorkers :
    ∃ g : WorkerGroup Nat,
      ((system Nat false 5 3).withHistory acquiresSince).run (spawn false 5 3, []) threeWorkersRun =
        some (g, [1]) ∧
      g.destroyed = true ∧ g.threads = [.running 1, .acquired, .waiting] ∧ (g.unserved [1]).card = 2 ∧
      (g.unserved [1]).card ≤ g.semaphore ∧ ∃ g', g.step (.worker 2 .acquire) = some g' := by
  have values : (((system Nat false 5 3).withHistory acquiresSince).run (spawn false 5 3, [])
      threeWorkersRun).map (fun p => (p.1.destroyed, p.1.threads, (p.1.unserved [1]).card, p.2)) =
        some (true, [.running 1, .acquired, .waiting], 2, [1]) := by decide
  obtain ⟨⟨g, since⟩, ran, is⟩ := Option.map_eq_some_iff.1 values
  simp only [Prod.mk.injEq] at is
  obtain ⟨destroyed, threads, two, rfl⟩ := is
  have start : ((system Nat false 5 3).withHistory acquiresSince).Reachable (spawn false 5 3, []) :=
    .init ⟨rfl, rfl⟩
  obtain ⟨tokens, -, -, acquires⟩ :=
    shutdown_strands_nobody (Transition.reachableWhile_run start ran) destroyed
  exact ⟨g, ran, destroyed, threads, two, tokens, acquires 2 (by rw [threads]; rfl)⟩

end WorkerGroup

end PreemptiveExecutor
