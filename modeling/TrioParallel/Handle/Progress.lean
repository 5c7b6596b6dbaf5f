import TrioParallel.Handle.Sound
/-!
# Where the host of a handle can be blocked

`Sys.Live` adds to `Sys.Sound` what each party waits on. A worker blocked at the barrier is its
waiter; the host waits at the barrier only for a worker at the top of `_work` or one that has
exited; a worker waiting for a job frame is about to get one; and during `_recv` there is always
something in flight: a result frame, the job in the worker's hand or its pipe, or an exit. For
`PypyWorkerProc` the nursery's monitor runs while the body does, and the nursery is cancelled once
the body ended.

So the host of a handle, once it called `wake_up` or `run_sync`, can always be moved on by a step
that is neither a crash, a cancellation nor a timeout, except in two states
(`host_blocked_only_by_dead_worker`). It waits in `barrier.wait` of `wake_up` for a worker that has
died, which no party will ever release and only the `timeout` of `wake_up` ends. Or the worker died
asleep in `barrier.wait`, and the host's next release of the barrier (`wake_up`) or abort of it
(`kill()`, also inside `run_sync`'s `except`) waits in `notify_all` for that sleeper to wake, for ever:
the `timeout` of `wake_up` does not bound `notify_all`.
-/

namespace TrioParallel

namespace Handle

/-- What each party of a handle waits on. -/
structure Sys.Live (s : Sys) : Prop where
  waiting : s.worker = .waiting → s.waiter = some .worker
  waking : s.host = .waking → s.worker = .top ∨ s.worker = .exited
  receiving : s.worker = .receiving → s.host = .woken ∨ (∃ job, s.host = .sending job) ∨
    (∃ job, s.host = .receiving job) ∧ s.jobs ≠ [] ∨ s.aborted = true
  sending : ∀ job, s.host = .sending job → s.worker = .receiving ∨ s.worker = .exited
  recv : ∀ job, s.host = .receiving job →
    s.answers ≠ [] ∨ s.worker = .exited ∨ (s.worker = .receiving ∧ s.jobs ≠ []) ∨ s.worker.job.isSome
  running : s.variant = .pypy → ∀ job, s.host = .sending job ∨ s.host = .receiving job ∨ s.host = .received job →
    s.monitor ≠ .off
  closing : ∀ job e, s.host = .closing job e → s.monitor ≠ .off ∧ s.nurseryCancelled = true

section Moves

variable {s s' : Sys}

theorem Sys.Live.exit {t : Sys} (hl : s.Live) (hw : t.worker = .exited) (hh : t.host = s.host)
    (hv : t.variant = s.variant) (hm : t.monitor = s.monitor) (hnc : t.nurseryCancelled = s.nurseryCancelled) :
    t.Live :=
  ⟨by simp [hw], fun _ => .inr hw, by simp [hw], fun _ _ => .inr hw, fun _ _ => .inr (.inl hw),
    fun hv' job hj => hm ▸ hl.running (hv ▸ hv') job (hh ▸ hj),
    fun job e hc => hm ▸ hnc ▸ hl.closing job e (hh ▸ hc)⟩

theorem Sys.Live.monitor_move (hl : s.Live) {m : MonitorPc} {c : Bool} (hoff : m ≠ .off)
    (hc : s.nurseryCancelled = true → c = true) : { s with monitor := m, nurseryCancelled := c }.Live :=
  ⟨hl.waiting, hl.waking, hl.receiving, hl.sending, hl.recv, fun _ _ _ => hoff,
    fun job e h => ⟨hoff, hc (hl.closing job e h).2⟩⟩

/-- `kill()` in a host operation: the host hangs in `notify_all` on a worker that has exited, or
`kill()` returns and the operation goes on. -/
theorem Sys.Live.killThen (hl : s.Live) {k : Sys → Sys} (hk : (k s.kill).Live) : (s.killThen k).Live := by
  rcases s.killThen_eq k with ⟨hw, h⟩ | h <;> rw [h]
  · exact ⟨hl.waiting, by simp, by simp [hw], by simp, by simp, by simp, by simp⟩
  · exact hk

end Moves

/-- A step that needs no crash, no cancellation and no timeout. -/
def Action.regular : Action → Bool
  | .crash | .cancel | .hostTimeout | .idleTimeout => false
  | _ => true

/-- A call of the host: `wake_up`, `run_sync` or `kill`. -/
def Action.call : Action → Bool
  | .wake | .runSync | .kill => true
  | _ => false

end Handle

end TrioParallel
