import TrioParallel.Handle.Protocol
/-!
# The handle's invariant: barrier, pipes and the call in progress

`Sys.Sound` is what holds of a handle and its worker in every reachable state. Its barrier facts
say who may wait and when an exit is visible to the monitor. Its heart is `Phase`, keyed on the
host's position: outside a call there is no job frame, result frame or job in the worker's hand
(the call's *tokens*) unless the barrier was aborted; during `_recv` there is at most one token, and
it is the call's own job's. So when a result frame is read it answers the call that reads it, and a
call that ends without a result has aborted the barrier first, or for `PypyWorkerProc` has seen the
worker exit.

Each action has its own preservation lemma; `step_sound` dispatches on the action and
`reachable_sound` inducts on the run.
-/

namespace TrioParallel

namespace Handle

/-- The job the worker has in hand. -/
def WorkerPc.job : WorkerPc → Option Nat
  | .executing job => some job
  | .sending answer => some answer.job
  | _ => none

namespace Sys

/-- The frames in both pipes and the job in the worker's hand: the tokens of the call in
progress. -/
def tokens (s : Sys) : Nat := s.jobs.length + s.answers.length + (s.worker.job.map fun _ => 1).getD 0

/-- Every token is job `job`'s. -/
def Owned (s : Sys) (job : Nat) : Prop :=
  (∀ j ∈ s.jobs, j = job) ∧ (∀ j, s.worker.job = some j → j = job) ∧ ∀ a ∈ s.answers, a.job = job

/-- What the nursery of `PypyWorkerProc.run_sync` holds once the body of job `job` ended with
`callEnd`: the call's own answer, consumed, and the barrier intact; never the assertion; otherwise
an aborted barrier. -/
def Closed (s : Sys) (job : Nat) : CallEnd → Prop
  | .returned answer => answer.job = job ∧ s.aborted = false ∧ s.tokens = 0
  | .assertionFailed | .cancelledAfter _ => False
  | _ => s.aborted = true

/-- How a call of job `job` may have ended: with its own job's outcome, or cancelled late after
reading it; otherwise not on the assertion, and after the barrier was aborted or, for
`PypyWorkerProc`, the worker exited. -/
def EndOk (s : Sys) (job : Nat) : CallEnd → Prop
  | .returned answer => answer.job = job
  | .cancelledAfter answer => answer.job = job ∧ s.variant = .pypy
  | .assertionFailed => False
  | _ => s.aborted = true ∨ (s.variant = .pypy ∧ s.worker = .exited)

end Sys

/-- What the host's position says about the rest: outside a call, unless the barrier was
aborted, there is no token; after `wake_up` the worker waits for the job; during `_recv` every
token is the call's own job's, and there is at most one. -/
def Phase (s : Sys) : HostPc → Prop
  | .idle => s.aborted = false → s.tokens = 0
  | .waking => s.aborted = false ∧ s.broken = false ∧ s.tokens = 0
  | .woken => s.aborted = false ∧ s.tokens = 0 ∧ (s.worker = .receiving ∨ s.worker = .exited) ∧ s.waiter = none
  | .sending _ => s.aborted = false ∧ s.tokens = 0
  | .receiving job | .received job => s.aborted = false ∧ s.tokens ≤ 1 ∧ s.Owned job
  | .closing job callEnd => s.Closed job callEnd
  | .notifying => s.worker = .exited
  | .broken => True

/-- The invariant of the handle and its worker. -/
structure Sys.Sound (s : Sys) : Prop where
  started : s.worker = .unstarted ↔ s.started = false
  waiter_host : s.waiter = some .host ↔ s.host = .waking
  waiter_worker : s.waiter = some .worker → s.worker = .waiting ∨ s.worker = .exited
  aborted_broken : s.aborted = true → s.broken = true
  monitor_exited : s.monitor = .ready ∨ s.monitor = .finished true → s.started = true ∧ s.worker = .exited
  posix : s.variant = .posix → s.monitor = .off ∧ ∀ job e, s.host ≠ .closing job e
  phase : Phase s s.host
  ends : ∀ job e, (job, e) ∈ s.ends → s.EndOk job e

theorem init_sound (v : Variant) : (init v).Sound :=
  ⟨by simp [init], by simp [init], by simp [init], by simp [init], by simp [init], by simp [init],
    fun _ => rfl, by simp [init]⟩

section Moves

variable {s s' : Sys}

theorem Sys.Closed.mono {job : Nat} {e : CallEnd} (h : s.Closed job e) (ha : s'.aborted = s.aborted)
    (ht : s'.tokens ≤ s.tokens) : s'.Closed job e := by
  cases e
  case returned answer => exact ⟨h.1, ha.trans h.2.1, by have := h.2.2; omega⟩
  case assertionFailed => exact h
  case cancelledAfter answer => exact h
  all_goals exact ha.trans h

theorem Sys.EndOk.mono {job : Nat} {e : CallEnd} (h : s.EndOk job e)
    (ha : s.aborted = true → s'.aborted = true) (hw : s.worker = .exited → s'.worker = .exited)
    (hv : s'.variant = s.variant) : s'.EndOk job e := by
  cases e
  case returned answer => exact h
  case cancelledAfter answer => exact ⟨h.1, hv.trans h.2⟩
  case assertionFailed => exact h
  all_goals exact h.imp ha fun ⟨h1, h2⟩ => ⟨hv.trans h1, hw h2⟩

/-- A move that keeps the host's position and the abort, creates no token and changes no token's
job, and leaves a listening worker listening, keeps the phase. -/
theorem Phase.of_move {pc : HostPc} (hp : Phase s pc) (ha : s'.aborted = s.aborted)
    (hwaking : pc = .waking → s'.broken = s.broken) (ht : s'.tokens ≤ s.tokens)
    (ho : ∀ job, s.Owned job → s'.Owned job) (hx : s.worker = .exited → s'.worker = .exited)
    (hl : pc = .woken → s.tokens = 0 → (s.worker = .receiving ∨ s.worker = .exited) → s.waiter = none →
      (s'.worker = .receiving ∨ s'.worker = .exited) ∧ s'.waiter = none) : Phase s' pc := by
  cases pc with
  | idle => intro h; have := hp (ha.symm.trans h); omega
  | waking => obtain ⟨h1, h2, h3⟩ := hp; exact ⟨ha.trans h1, (hwaking rfl).trans h2, by omega⟩
  | woken => obtain ⟨h1, h2, h3, h4⟩ := hp; exact ⟨ha.trans h1, by omega, hl rfl h2 h3 h4⟩
  | sending job => obtain ⟨h1, h2⟩ := hp; exact ⟨ha.trans h1, by omega⟩
  | receiving job => obtain ⟨h1, h2, h3⟩ := hp; exact ⟨ha.trans h1, by omega, ho job h3⟩
  | received job => obtain ⟨h1, h2, h3⟩ := hp; exact ⟨ha.trans h1, by omega, ho job h3⟩
  | closing job e => exact hp.mono ha ht
  | notifying => exact hx hp
  | broken => trivial

theorem Sys.Sound.started_true (hs : s.Sound) (h : s.worker ≠ .unstarted) : s.started = true := by
  cases hst : s.started
  · exact absurd (hs.started.mpr hst) h
  · rfl

theorem Sys.tokens_eq_zero : s.tokens = 0 ↔ s.jobs = [] ∧ s.answers = [] ∧ s.worker.job = none := by
  cases hw : s.worker.job <;> simp [Sys.tokens, hw]

theorem tokens_worker_of_none {w : WorkerPc} (hw : w.job = none) (hs : s.worker.job = none) :
    { s with worker := w }.tokens = s.tokens := by
  simp [Sys.tokens, hw, hs]

theorem owned_worker_of_none (w : WorkerPc) (hw : w.job = none) {job : Nat} (h : s.Owned job) :
    { s with worker := w }.Owned job :=
  ⟨h.1, fun j hj => by simp [hw] at hj, h.2.2⟩

theorem sound_crash (hs : s.Sound) (h : step s .crash = some s') : s'.Sound := by
  simp only [step] at h
  split at h
  · rename_i hc
    cases h
    refine ⟨by simp [hc.1], hs.waiter_host, fun _ => .inr rfl, hs.aborted_broken, fun _ => ⟨hc.1, rfl⟩, hs.posix,
      hs.phase.of_move rfl (fun _ => rfl) ?_ (fun job => owned_worker_of_none .exited rfl) (fun _ => rfl)
        (fun _ _ _ hw => ⟨.inr rfl, hw⟩),
      fun job e he => (hs.ends job e he).mono id (fun _ => rfl) rfl⟩
    simp only [Sys.tokens, WorkerPc.job, Option.map_none', Option.getD_none]
    omega
  · cases h

theorem sound_arrive (hs : s.Sound) (h : step s .arrive = some s') : s'.Sound := by
  simp only [step] at h
  split at h
  · rename_i htop
    cases h
    have hstarted := hs.started_true (by simp [htop])
    unfold arrive
    split
    · rename_i hbroken
      refine ⟨by simp [hstarted], hs.waiter_host, fun _ => .inr rfl, hs.aborted_broken, fun _ => ⟨hstarted, rfl⟩,
        hs.posix, hs.phase.of_move rfl (fun _ => rfl) (le_of_eq (tokens_worker_of_none rfl (by rw [htop]; rfl)))
        (fun job => owned_worker_of_none .exited rfl) (fun _ => rfl) (fun _ _ hw _ => ?_),
        fun job e he => (hs.ends job e he).mono id (fun _ => rfl) rfl⟩
      rw [htop] at hw; rcases hw with hw | hw <;> cases hw
    · split
      · rename_i hwaiter
        have hwaking := hs.waiter_host.mp hwaiter
        have hp := hs.phase
        rw [hwaking] at hp
        obtain ⟨h1, -, h3⟩ := hp
        refine ⟨by simp [hstarted], by simp, by simp, hs.aborted_broken, fun hm => ?_, fun hv => ?_, ?_,
          fun job e he => (hs.ends job e he).mono id (fun hw => by rw [htop] at hw; cases hw) rfl⟩
        · have := (hs.monitor_exited hm).2; rw [htop] at this; cases this
        · exact ⟨(hs.posix hv).1, fun _ _ => by simp⟩
        · exact ⟨h1, by rw [← h3]; exact tokens_worker_of_none rfl (by rw [htop]; rfl), .inl rfl, rfl⟩
      · rename_i hwaiter
        have hhost : s.host ≠ .waking := fun hw => hwaiter (hs.waiter_host.mpr hw)
        refine ⟨by simp [hstarted], by simpa using hhost, fun _ => .inl rfl, hs.aborted_broken, fun hm => ?_,
          hs.posix, hs.phase.of_move rfl (fun _ => rfl) (le_of_eq (tokens_worker_of_none rfl (by rw [htop]; rfl)))
          (fun job => owned_worker_of_none .waiting rfl) (fun hw => by rw [htop] at hw; cases hw)
          (fun _ _ hw _ => ?_),
          fun job e he => (hs.ends job e he).mono id (fun hw => by rw [htop] at hw; cases hw) rfl⟩
        · have := (hs.monitor_exited hm).2; rw [htop] at this; cases this
        · rw [htop] at hw; rcases hw with hw | hw <;> cases hw
  · cases h

theorem Sys.Sound.waiter_ne_worker (hs : s.Sound) (hw : s.worker ≠ .waiting) (he : s.worker ≠ .exited) :
    s.waiter ≠ some .worker :=
  fun h => (hs.waiter_worker h).elim hw he

theorem Sys.Sound.waiter_ne_host (hs : s.Sound) (h : s.host ≠ .waking) : s.waiter ≠ some .host :=
  fun hw => h (hs.waiter_host.mp hw)

theorem waiter_host_of_ne (hw : s'.waiter ≠ some .host) (hh : s'.host ≠ .waking) :
    s'.waiter = some .host ↔ s'.host = .waking :=
  ⟨fun h => absurd h hw, fun h => absurd h hh⟩

theorem Sys.Sound.monitor_not_exited (hs : s.Sound) (he : s.worker ≠ .exited) :
    ¬ (s.monitor = .ready ∨ s.monitor = .finished true) :=
  fun h => he (hs.monitor_exited h).2

theorem sound_idleTimeout (hs : s.Sound) (h : step s .idleTimeout = some s') : s'.Sound := by
  simp only [step] at h
  split at h
  · rename_i hc
    cases h
    have hstarted := hs.started_true (by simp [hc.1])
    have hhost : s.host ≠ .waking := fun hw => by simp [hs.waiter_host.mpr hw] at hc
    refine ⟨by simp [hstarted], by simpa using hhost, by simp, fun _ => rfl, fun _ => ⟨hstarted, rfl⟩, hs.posix,
      hs.phase.of_move rfl (fun hw => absurd hw hhost) (le_of_eq (tokens_worker_of_none rfl (by rw [hc.1]; rfl)))
      (fun job => owned_worker_of_none .exited rfl) (fun _ => rfl) (fun _ _ hw _ => ?_),
      fun job e he => (hs.ends job e he).mono id (fun _ => rfl) rfl⟩
    rw [hc.1] at hw; rcases hw with hw | hw <;> cases hw
  · cases h

theorem sound_wakeBroken (hs : s.Sound) (h : step s .wakeBroken = some s') : s'.Sound := by
  simp only [step] at h
  split at h
  · rename_i hc
    cases h
    have hstarted := hs.started_true (by simp [hc.1])
    have hhost : s.host ≠ .waking := fun hw => by
      have hp := hs.phase; rw [hw] at hp; simp [hp.2.1] at hc
    refine ⟨by simp [hstarted], by simpa using hhost, by simp, fun _ => hc.2, fun _ => ⟨hstarted, rfl⟩, hs.posix,
      hs.phase.of_move rfl (fun hw => absurd hw hhost) (le_of_eq (tokens_worker_of_none rfl (by rw [hc.1]; rfl)))
      (fun job => owned_worker_of_none .exited rfl) (fun _ => rfl) (fun _ _ hw _ => ?_),
      fun job e he => (hs.ends job e he).mono id (fun _ => rfl) rfl⟩
    rw [hc.1] at hw; rcases hw with hw | hw <;> cases hw
  · cases h

theorem sound_recvJob (hs : s.Sound) (h : step s .recvJob = some s') : s'.Sound := by
  simp only [step] at h
  split at h
  · rename_i job rest hw hjobs
    cases h
    have hstarted := hs.started_true (by simp [hw])
    have hnw := hs.waiter_ne_worker (by simp [hw]) (by simp [hw])
    refine ⟨by simp [hstarted], hs.waiter_host, fun h' => absurd h' hnw, hs.aborted_broken,
      fun hm => absurd hm (hs.monitor_not_exited (by simp [hw])), hs.posix,
      hs.phase.of_move rfl (fun _ => rfl) (by simp [Sys.tokens, hw, hjobs, WorkerPc.job]; omega)
      (fun j ⟨h1, _, h3⟩ => ⟨fun i hi => h1 i (by simp [hjobs, hi]), fun i hi => ?_, h3⟩)
      (fun he => by simp [hw] at he) (fun _ ht _ _ => by simp [Sys.tokens, hjobs] at ht),
      fun job e he => (hs.ends job e he).mono id (fun he => by simp [hw] at he) rfl⟩
    simp only [WorkerPc.job, Option.some.injEq] at hi
    exact hi ▸ h1 job (by simp [hjobs])
  · cases h

theorem sound_execute {isError : Bool} (hs : s.Sound) (h : step s (.execute isError) = some s') : s'.Sound := by
  simp only [step] at h
  split at h
  · rename_i job hw
    cases h
    have hstarted := hs.started_true (by simp [hw])
    have hnw := hs.waiter_ne_worker (by simp [hw]) (by simp [hw])
    refine ⟨by simp [hstarted], hs.waiter_host, fun h' => absurd h' hnw, hs.aborted_broken,
      fun hm => absurd hm (hs.monitor_not_exited (by simp [hw])), hs.posix,
      hs.phase.of_move rfl (fun _ => rfl) (by simp [Sys.tokens, hw, WorkerPc.job])
      (fun j ⟨h1, h2, h3⟩ => ⟨h1, fun i hi => h2 i (by simpa [hw, WorkerPc.job] using hi), h3⟩)
      (fun he => by simp [hw] at he) (fun _ _ hl _ => by simp [hw] at hl),
      fun job e he => (hs.ends job e he).mono id (fun he => by simp [hw] at he) rfl⟩
  · cases h

theorem sound_sendAnswer (hs : s.Sound) (h : step s .sendAnswer = some s') : s'.Sound := by
  simp only [step] at h
  split at h
  · rename_i answer hw
    cases h
    have hstarted := hs.started_true (by simp [hw])
    have hnw := hs.waiter_ne_worker (by simp [hw]) (by simp [hw])
    refine ⟨by simp [hstarted], hs.waiter_host, fun h' => absurd h' hnw, hs.aborted_broken,
      fun hm => absurd hm (hs.monitor_not_exited (by simp [hw])), hs.posix,
      hs.phase.of_move rfl (fun _ => rfl) (by simp [Sys.tokens, hw, WorkerPc.job]; omega)
      (fun j ⟨h1, h2, h3⟩ => ⟨h1, fun i hi => by simp [WorkerPc.job] at hi,
        fun a ha => ?_⟩)
      (fun he => by simp [hw] at he) (fun _ _ hl _ => by simp [hw] at hl),
      fun job e he => (hs.ends job e he).mono id (fun he => by simp [hw] at he) rfl⟩
    rcases List.mem_append.mp ha with ha | ha
    · exact h3 a ha
    · rw [List.mem_singleton.mp ha]; exact h2 _ (by simp [hw, WorkerPc.job])
  · cases h

theorem Sys.Sound.monitor_move (hs : s.Sound) {m : MonitorPc} {c : Bool} (hoff : s.monitor ≠ .off)
    (hm : m = .ready ∨ m = .finished true → s.started = true ∧ s.worker = .exited) :
    { s with monitor := m, nurseryCancelled := c }.Sound :=
  ⟨hs.started, hs.waiter_host, hs.waiter_worker, hs.aborted_broken, hm,
    fun hv => absurd (hs.posix hv).1 hoff, hs.phase, hs.ends⟩

theorem sound_monitor {a : Action} (ha : a = .monitorReady ∨ a = .monitorRun ∨ a = .monitorCancel)
    (hs : s.Sound) (h : step s a = some s') : s'.Sound := by
  rcases ha with rfl | rfl | rfl <;> simp only [step] at h <;> split at h <;> try cases h
  · rename_i hc
    exact hs.monitor_move (by simp [hc.1]) fun _ => hc.2
  · rename_i hc
    have hoff : s.monitor ≠ .off := by simp [hc]
    split
    · exact hs.monitor_move hoff (by simp)
    · exact hs.monitor_move hoff fun _ => hs.monitor_exited (.inl hc)
  · rename_i hc
    exact hs.monitor_move (by simp [hc.1]) (by simp)

/-- The body of `run_sync` ends on a state that keeps the barrier facts and holds what `Closed`
asks for the way it ended. -/
theorem sound_bodyEnd {job : Nat} {e : CallEnd}
    (h1 : s.worker = .unstarted ↔ s.started = false) (h2 : s.waiter ≠ some .host)
    (h3 : s.waiter = some .worker → s.worker = .waiting ∨ s.worker = .exited)
    (h4 : s.aborted = true → s.broken = true)
    (h5 : s.monitor = .ready ∨ s.monitor = .finished true → s.started = true ∧ s.worker = .exited)
    (hc : s.Closed job e)
    (h8 : ∀ job e, (job, e) ∈ s.ends → s.EndOk job e) : (s.bodyEnd job e).Sound := by
  cases hv : s.variant
  · rw [show s.bodyEnd job e = s.endCall job e by simp [Sys.bodyEnd, hv]]
    refine ⟨h1, by simp [Sys.endCall, h2], h3, h4, by simp [Sys.endCall], fun _ => ⟨rfl, by simp [Sys.endCall]⟩,
      fun ha => ?_, fun j e' he => ?_⟩
    · cases e
      case returned answer => exact hc.2.2
      case assertionFailed | cancelledAfter => exact hc.elim
      all_goals exact absurd (show s.aborted = true from hc) (by simp [show s.aborted = false from ha])
    · rcases List.mem_append.mp he with he | he
      · exact h8 j e' he
      · obtain ⟨rfl, rfl⟩ := Prod.mk.inj (List.mem_singleton.mp he)
        cases e'
        case returned answer => exact hc.1
        case assertionFailed | cancelledAfter => exact hc.elim
        all_goals exact .inl hc
  · rw [show s.bodyEnd job e = { s with host := .closing job e, nurseryCancelled := true } by simp [Sys.bodyEnd, hv]]
    exact ⟨h1, by simp [h2], h3, h4, h5, fun hv' => by simp [hv] at hv', hc, h8⟩

theorem Sys.killThen_eq (s : Sys) (k : Sys → Sys) :
    s.worker = .exited ∧ s.killThen k = { s with host := .notifying } ∨ s.killThen k = k s.kill := by
  unfold Sys.killThen
  split
  · rename_i hd
    simp only [Sys.deadSleeper, Bool.and_eq_true, decide_eq_true_eq] at hd
    exact .inl ⟨hd.1.2, rfl⟩
  · exact .inr rfl

theorem Sys.Sound.notifying (hs : s.Sound) (hw : s.waiter ≠ some .host) (hx : s.worker = .exited) :
    { s with host := .notifying }.Sound :=
  ⟨hs.started, by simp [hw], hs.waiter_worker, hs.aborted_broken, hs.monitor_exited,
    fun hv => ⟨(hs.posix hv).1, by simp⟩, hx, hs.ends⟩

/-- `kill()` in a host operation keeps the invariant: it hangs in `notify_all`, or it returns and
the operation goes on. -/
theorem Sys.Sound.killThen (hs : s.Sound) (hw : s.waiter ≠ some .host) {k : Sys → Sys} (hk : (k s.kill).Sound) :
    (s.killThen k).Sound := by
  rcases s.killThen_eq k with ⟨hx, h⟩ | h <;> rw [h]
  · exact hs.notifying hw hx
  · exact hk

theorem sound_kill (hs : s.Sound) (h : step s .kill = some s') : s'.Sound := by
  simp only [step] at h
  split at h
  · rename_i hidle
    cases h
    refine hs.killThen (hs.waiter_ne_host (by simp [hidle])) ⟨hs.started, ?_, hs.waiter_worker, fun _ => rfl,
      hs.monitor_exited, ?_, ?_, fun j e he => (hs.ends j e he).mono (fun _ => rfl) id rfl⟩
    · simpa [Sys.kill, hidle] using hs.waiter_host
    · simpa [Sys.kill, hidle] using hs.posix
    · show Phase s.kill s.host; rw [hidle]; intro ha; cases ha
  · cases h

theorem sound_hostReady (hs : s.Sound) (h : step s .hostReady = some s') : s'.Sound := by
  simp only [step] at h
  split at h
  · rename_i job hrecv
    split at h
    · cases h
      have hp := hs.phase
      rw [hrecv] at hp
      refine ⟨hs.started, waiter_host_of_ne (hs.waiter_ne_host (by simp [hrecv])) (by simp), hs.waiter_worker,
        hs.aborted_broken,
        hs.monitor_exited, fun hv => ⟨(hs.posix hv).1, by simp⟩, hp, hs.ends⟩
    · cases h
  · cases h

theorem sound_send (hs : s.Sound) (h : step s .send = some s') : s'.Sound := by
  simp only [step] at h
  split at h
  · rename_i job hsend
    have hwh := hs.waiter_ne_host (by simp [hsend])
    split at h
    · cases h
      exact hs.killThen hwh (sound_bodyEnd hs.started hwh hs.waiter_worker (fun _ => rfl) hs.monitor_exited rfl
        fun j e he => (hs.ends j e he).mono (fun _ => rfl) id rfl)
    · cases h
      have hp := hs.phase
      rw [hsend] at hp
      obtain ⟨ha, ht⟩ := hp
      obtain ⟨hj, han, hw⟩ := Sys.tokens_eq_zero.mp ht
      refine ⟨hs.started, waiter_host_of_ne hwh (by simp), hs.waiter_worker, hs.aborted_broken,
        hs.monitor_exited, fun hv => ⟨(hs.posix hv).1, by simp⟩, ⟨ha, ?_, ?_⟩, hs.ends⟩
      · simp [Sys.tokens, hj, han, hw]
      · refine ⟨by simp [hj], fun j hj' => by simp [hw] at hj', by simp [han]⟩
  · cases h

theorem sound_resume (hs : s.Sound) (h : step s .resume = some s') : s'.Sound := by
  simp only [step] at h
  split at h
  · rename_i job answer rest hrecv hans
    cases h
    have hp := hs.phase
    rw [hrecv] at hp
    obtain ⟨ha, ht, -, -, hown⟩ := hp
    have htok : { s with answers := rest }.tokens = 0 := by
      simp only [Sys.tokens, hans, List.length_cons] at ht ⊢; omega
    exact sound_bodyEnd hs.started (hs.waiter_ne_host (by simp [hrecv])) hs.waiter_worker hs.aborted_broken
      hs.monitor_exited ⟨hown answer (by simp [hans]), ha, htok⟩ hs.ends
  · rename_i job hrecv hans
    cases h
    have hwh := hs.waiter_ne_host (by simp [hrecv])
    exact hs.killThen hwh (sound_bodyEnd hs.started hwh hs.waiter_worker (fun _ => rfl)
      hs.monitor_exited rfl fun j e he => (hs.ends j e he).mono (fun _ => rfl) id rfl)
  · cases h

theorem sound_cancel (hs : s.Sound) (h : step s .cancel = some s') : s'.Sound := by
  simp only [step] at h
  split at h
  case h_1 | h_2 =>
    rename_i job hhost
    cases h
    have hwh := hs.waiter_ne_host (by simp [hhost])
    refine hs.killThen hwh (sound_bodyEnd hs.started hwh hs.waiter_worker (fun _ => rfl)
      (fun hm => ?_) rfl fun j e he => (hs.ends j e he).mono (fun _ => rfl) id rfl)
    split at hm
    · simp at hm
    · exact hs.monitor_exited hm
  case h_3 | h_4 =>
    split at h <;> cases h
    exact ⟨hs.started, hs.waiter_host, hs.waiter_worker, hs.aborted_broken, hs.monitor_exited,
      fun hv => by simp_all, hs.phase, hs.ends⟩
  case h_5 => cases h

theorem Sys.openNursery_eq (s : Sys) : ∃ m c, s.openNursery = { s with monitor := m, nurseryCancelled := c } ∧
    (m = s.monitor ∨ m = .waiting) ∧ (s.variant = .posix → m = s.monitor) := by
  unfold Sys.openNursery
  split
  · exact ⟨s.monitor, s.nurseryCancelled, rfl, .inl rfl, fun _ => rfl⟩
  · rename_i hv
    exact ⟨.waiting, false, rfl, .inr rfl, fun h => by rw [hv] at h; cases h⟩

theorem sound_runSync (hs : s.Sound) (h : step s .runSync = some s') : s'.Sound := by
  simp only [step] at h
  split at h
  · rename_i hwoken
    cases h
    have hp := hs.phase
    rw [hwoken] at hp
    obtain ⟨ha, ht, -, hwaiter⟩ := hp
    obtain ⟨m, c, hn, hm, hmp⟩ := s.openNursery_eq
    unfold Sys.enterRunSync
    rw [if_neg (by simp [hwaiter]), hn]
    refine ⟨hs.started, by simp [hwaiter], by simp [hwaiter], hs.aborted_broken, fun hm' => ?_,
      fun hv => ⟨(hmp hv).trans (hs.posix hv).1, by simp⟩, ⟨ha, ht⟩, hs.ends⟩
    rcases hm with rfl | rfl
    · exact hs.monitor_exited hm'
    · simp at hm'
  · cases h

theorem sound_close (hs : s.Sound) (h : step s .close = some s') : s'.Sound := by
  simp only [step] at h
  split at h
  · rename_i job e raised hclosing hmon
    cases h
    have hp := hs.phase
    rw [hclosing] at hp
    have hv : s.variant = .pypy := by
      cases hv : s.variant
      · exact absurd hclosing ((hs.posix hv).2 job e)
      · rfl
    refine ⟨hs.started, waiter_host_of_ne (hs.waiter_ne_host (by simp [hclosing])) (by simp [Sys.endCall]),
      hs.waiter_worker, hs.aborted_broken, by simp [Sys.endCall], fun hv' => (nomatch hv.symm.trans hv'),
      fun ha => ?_, fun j e' he => ?_⟩
    · cases e
      case returned answer => exact hp.2.2
      case assertionFailed | cancelledAfter => exact hp.elim
      all_goals exact absurd (show s.aborted = true from hp) (by simp [show s.aborted = false from ha])
    · rcases List.mem_append.mp he with he | he
      · exact hs.ends j e' he
      · obtain ⟨rfl, rfl⟩ := Prod.mk.inj (List.mem_singleton.mp he)
        have hexit : raised = true → s.worker = .exited := fun hr => (hs.monitor_exited (.inr (by rw [hmon, hr]))).2
        cases raised <;> cases hl : s.lateCancel <;> cases e <;>
          simp only [CallEnd.cancelLate, Bool.false_eq_true, ↓reduceIte]
        all_goals first
          | exact hp.1 | exact ⟨hp.1, hv⟩ | exact hp.elim | exact .inl hp | exact .inr ⟨hv, hexit rfl⟩
  · cases h

theorem sound_start (hs : s.Sound) (hidle : s.host = .idle) : s.start.Sound ∧ s.start.started = true := by
  unfold Sys.start
  split
  · exact ⟨hs, ‹_›⟩
  · rename_i hst
    have hunst := hs.started.mpr (by simpa using hst)
    have hnw := hs.waiter_ne_worker (by simp [hunst]) (by simp [hunst])
    refine ⟨⟨by simp, hs.waiter_host, fun h' => absurd h' hnw, hs.aborted_broken,
      fun hm => absurd (hs.monitor_exited hm).1 hst, hs.posix, ?_, fun j e he => (hs.ends j e he).mono id
        (fun he => by simp [hunst] at he) rfl⟩, rfl⟩
    have hp := hs.phase
    rw [hidle] at hp ⊢
    intro ha
    rw [← hp ha]
    exact tokens_worker_of_none rfl (by simp [hunst, WorkerPc.job])

theorem sound_wake (hs : s.Sound) (h : step s .wake = some s') : s'.Sound := by
  simp only [step] at h
  split at h
  · rename_i hidle
    cases h
    obtain ⟨hs₁, hst⟩ := sound_start hs hidle
    have hidle₁ : s.start.host = .idle := by unfold Sys.start; split <;> simp [hidle]
    have hwh := hs₁.waiter_ne_host (by simp [hidle₁])
    unfold wakeUp
    simp only
    split
    · rename_i hbroken
      split
      · refine ⟨by simp [Sys.kill, hst], by simp [Sys.kill, hwh], by simp, fun _ => rfl, fun _ => ⟨hst, rfl⟩,
          fun hv => ⟨(hs₁.posix hv).1, by simp⟩, trivial, fun j e he => (hs₁.ends j e he).mono (fun _ => rfl)
          (fun _ => rfl) rfl⟩
      · refine ⟨hs₁.started, by simp [hwh], hs₁.waiter_worker, hs₁.aborted_broken, hs₁.monitor_exited,
          fun hv => ⟨(hs₁.posix hv).1, by simp⟩, trivial, hs₁.ends⟩
    · rename_i hbroken
      have hab : s.start.aborted = false := by
        cases ha : s.start.aborted
        · rfl
        · exact absurd (hs₁.aborted_broken ha) hbroken
      have hp := hs₁.phase
      rw [hidle₁] at hp
      have ht := hp hab
      split
      · rename_i hwaiter
        split
        · exact hs₁.notifying (by simp [hwaiter]) ‹_›
        have hw := hs₁.waiter_worker hwaiter
        refine ⟨by rcases hw with hw | hw <;> simp [hw, hst], by simp, by simp, hs₁.aborted_broken, fun hm => ?_,
          fun hv => ⟨(hs₁.posix hv).1, by simp⟩, ⟨hab, ?_, by rcases hw with hw | hw <;> simp [hw], rfl⟩,
          fun j e he => (hs₁.ends j e he).mono id (fun he => by simp [he]) rfl⟩
        · have := hs₁.monitor_exited hm; exact ⟨this.1, by simp [this.2]⟩
        · rw [← ht]; exact tokens_worker_of_none (by rcases hw with hw | hw <;> simp [hw, WorkerPc.job])
            (by rcases hw with hw | hw <;> simp [hw, WorkerPc.job])
      · rename_i hwaiter
        refine ⟨hs₁.started, by simp, fun h' => by simp at h', hs₁.aborted_broken, hs₁.monitor_exited,
          fun hv => ⟨(hs₁.posix hv).1, by simp⟩, ⟨hab, by simpa using hbroken, ht⟩, hs₁.ends⟩
  · cases h

theorem sound_hostTimeout (hs : s.Sound) (h : step s .hostTimeout = some s') : s'.Sound := by
  simp only [step] at h
  split at h
  · cases h
    split
    · rename_i halive
      have hst : s.started = true := by simp [Sys.isAlive] at halive; exact halive.1
      exact ⟨by simp [Sys.kill, hst], by simp, by simp, fun _ => rfl, fun _ => ⟨hst, rfl⟩,
        fun hv => ⟨(hs.posix hv).1, by simp⟩, trivial, fun j e he => (hs.ends j e he).mono (fun _ => rfl)
        (fun _ => rfl) rfl⟩
    · exact ⟨hs.started, by simp, by simp, fun _ => rfl, hs.monitor_exited, fun hv => ⟨(hs.posix hv).1, by simp⟩,
        trivial, hs.ends⟩
  · cases h

end Moves

theorem step_sound {s s' : Sys} {a : Action} (hs : s.Sound) (h : step s a = some s') : s'.Sound := by
  cases a
  case wake => exact sound_wake hs h
  case hostTimeout => exact sound_hostTimeout hs h
  case runSync => exact sound_runSync hs h
  case send => exact sound_send hs h
  case hostReady => exact sound_hostReady hs h
  case resume => exact sound_resume hs h
  case cancel => exact sound_cancel hs h
  case close => exact sound_close hs h
  case kill => exact sound_kill hs h
  case monitorReady => exact sound_monitor (.inl rfl) hs h
  case monitorRun => exact sound_monitor (.inr (.inl rfl)) hs h
  case monitorCancel => exact sound_monitor (.inr (.inr rfl)) hs h
  case arrive => exact sound_arrive hs h
  case idleTimeout => exact sound_idleTimeout hs h
  case wakeBroken => exact sound_wakeBroken hs h
  case recvJob => exact sound_recvJob hs h
  case execute => exact sound_execute hs h
  case sendAnswer => exact sound_sendAnswer hs h
  case crash => exact sound_crash hs h

theorem reachable_sound {s : Sys} (h : Reachable s) : s.Sound := by
  induction h with
  | init v => exact init_sound v
  | step _ hstep ih => exact step_sound ih hstep

end Handle

end TrioParallel
