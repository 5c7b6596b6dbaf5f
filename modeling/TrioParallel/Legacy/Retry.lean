import TrioParallel.Legacy.Steps
/-!
# The retry loop of `to_process_run_sync`

`to_process_run_sync` goes round `while True` whenever `trio.BrokenResourceError` leaves the handle's
`run_sync`. The pipe raises it when the job frame meets a worker that closed its end, and then the
frame was never read. But `result.unwrap()` runs inside the same `try`, after the result frame was
read: a function that raises `trio.BrokenResourceError` itself sends the call round again, to the
same live worker, which the `finally` pushed back and `pop` hands out again. So a call can run its
job any number of times and never end, with nothing crashed, timed out or cancelled
(`runSync_reruns_job`).

The guard also misses the other way. A worker that exits after the frame landed in its pipe,
without reading it, ends the call with `BrokenWorkerError` and no retry: when it crashed, and when
its `poll` timed out just before the frame landed, the case the comment of the `except` means to
retry.

What holds at the pipes is that no frame is read twice: every frame read, or still in a pipe, is one
the host wrote (`frames_read_once`). A job runs again only because it is sent again.
-/

namespace TrioParallel

namespace Legacy

/-- The job frames the workers have read, and those still in the pipes. -/
def Sys.frames (s : Sys) : List Nat := s.reads ++ s.procs.flatMap Proc.jobs

@[simp] theorem Sys.frames_setTask (s : Sys) (i : Nat) (t : Task) : (s.setTask i t).frames = s.frames := rfl

theorem Sys.frames_set {s : Sys} {proc : Nat} {p p' : Proc} (hp : s.procs[proc]? = some p) (hj : p'.jobs = p.jobs) :
    (s.setProc proc p').frames.Perm s.frames := by
  have hlt : proc < s.procs.length := (List.getElem?_eq_some_iff.mp hp).1
  have h := flatMap_set_perm Proc.jobs hlt p'
  rw [hj] at h
  exact (h.trans (flatMap_perm_at Proc.jobs hp).symm).append_left s.reads

theorem Sys.frames_kill (s : Sys) (proc : Nat) : (s.kill proc).frames.Perm s.frames := by
  rcases s.kill_eq proc with h | ⟨p, hp, h⟩ <;> rw [h]
  exact Sys.frames_set hp rfl

variable {s s' : Sys} {i : Nat} {t : Task}

/-- A step of caller `i` writes its job frame, or leaves the frames and the writes as they are. -/
theorem taskStep_frames {a : TaskAction} (h : taskStep s i t a = some s') :
    (s'.frames.Perm s.frames ∧ s'.writes = s.writes) ∨ (s'.frames.Perm (s.frames ++ [i]) ∧ s'.writes = s.writes ++ [i]) := by
  cases a
  case create =>
    obtain ⟨-, rfl⟩ := taskStep_create h
    exact .inl ⟨by simp [Sys.frames, Proc.new], rfl⟩
  case send =>
    obtain ⟨proc, p, -, hp, ⟨-, rfl⟩ | ⟨-, rfl⟩⟩ := taskStep_send h
    · refine .inr ⟨?_, rfl⟩
      have hlt : proc < s.procs.length := (List.getElem?_eq_some_iff.mp hp).1
      refine ((flatMap_set_perm Proc.jobs hlt _).append_left s.reads).trans ?_
      refine List.Perm.trans ?_ (((flatMap_perm_at Proc.jobs hp).symm.append_left s.reads).append_right [i])
      simp only [List.append_assoc]
      exact List.Perm.append_left _ (List.Perm.append_left _ List.perm_append_comm)
    · exact .inl ⟨Sys.frames_kill s proc, by simp⟩
  case recv =>
    obtain ⟨proc, p, -, hp, ⟨_, _, -, rfl⟩ | ⟨-, -, rfl⟩⟩ := taskStep_recv h
    · exact .inl ⟨Sys.frames_set hp rfl, rfl⟩
    · exact .inl ⟨Sys.frames_kill s proc, by simp⟩
  case cancel =>
    obtain ⟨-, rfl⟩ | ⟨proc, -, -, rfl⟩ | ⟨_, -, -, rfl⟩ | ⟨_, _, -, -, -, rfl⟩ := taskStep_cancel h
    · exact .inl ⟨List.Perm.refl _, rfl⟩
    · exact .inl ⟨Sys.frames_kill s proc, by simp⟩
    all_goals exact .inl ⟨List.Perm.refl _, rfl⟩
  case nurseryCancel =>
    obtain ⟨proc, -, -, rfl⟩ | ⟨_, -, -, rfl⟩ := taskStep_nurseryCancel h
    · exact .inl ⟨Sys.frames_kill s proc, by simp⟩
    · exact .inl ⟨List.Perm.refl _, rfl⟩
  case close =>
    obtain ⟨proc, _, _, -, -, ⟨-, rfl⟩ | ⟨_, -, rfl⟩⟩ := taskStep_close h <;>
      exact .inl ⟨by simp [Sys.frames], by simp⟩
  case acquire =>
    obtain ⟨-, rfl⟩ := taskStep_acquire h
    exact .inl ⟨List.Perm.refl _, rfl⟩
  case pop =>
    obtain ⟨-, ⟨_, _, -, rfl⟩ | ⟨_, -, rfl⟩⟩ := taskStep_pop h <;> exact .inl ⟨List.Perm.refl _, rfl⟩
  all_goals
    obtain ⟨m, c, rfl, -⟩ := taskStep_monitor (by simp) h
    exact .inl ⟨List.Perm.refl _, rfl⟩

/-- A step of a worker moves at most the frame it reads from its pipe to the reads, and may lose
frames. -/
theorem workerStep_frames {proc : Nat} {p : Proc} {a : WorkerAction} (hp : s.procs[proc]? = some p)
    (h : workerStep s proc p a = some s') : s'.frames.Subperm s.frames ∧ s'.writes = s.writes := by
  obtain ⟨p', r, rfl, -, -, hjobs, -⟩ := workerStep_cases h
  have hlt : proc < s.procs.length := (List.getElem?_eq_some_iff.mp hp).1
  refine ⟨?_, rfl⟩
  show (s.reads ++ r ++ (s.procs.set proc p').flatMap Proc.jobs).Subperm (s.reads ++ s.procs.flatMap Proc.jobs)
  rw [List.append_assoc]
  refine (List.subperm_append_left s.reads).mpr ?_
  refine ((flatMap_set_perm Proc.jobs hlt p').append_left r).subperm.trans ?_
  rw [← List.append_assoc]
  exact ((List.subperm_append_right _).mpr hjobs).trans (flatMap_perm_at Proc.jobs hp).symm.subperm

theorem step_frames {a : Action} (hs : s.frames.Subperm s.writes) (h : step s a = some s') :
    s'.frames.Subperm s'.writes := by
  rcases step_cases h with ⟨i, _, _, -, h⟩ | ⟨_, _, _, hp, h⟩
  · rcases taskStep_frames h with ⟨hf, hw⟩ | ⟨hf, hw⟩ <;> rw [hw]
    · exact hf.subperm.trans hs
    · exact hf.subperm.trans ((List.subperm_append_right [i]).mpr hs)
  · obtain ⟨hf, hw⟩ := workerStep_frames hp h
    rw [hw]
    exact hf.trans hs

/-- Over every interleaving, with crashes, idle timeouts and cancellations anywhere: every job frame
a worker has read, or that waits in a pipe, is one the host wrote, and none is read twice. -/
theorem frames_read_once {s : Sys} (h : Reachable s) : (s.reads ++ s.procs.flatMap Proc.jobs).Subperm s.writes := by
  induction h with
  | init c => simp [init]
  | step _ hstep ih => exact step_frames ih hstep

/-! ### The retry loop misfires -/

/-- Caller 0 passes the limiter, finds the cache empty and creates worker 0. -/
def traceStart : List Action := [.task 0 .acquire, .task 0 .pop, .task 0 .create]

/-- One round of the retry loop: the job frame is written and read, the function raises
`trio.BrokenResourceError`, the result frame is read, the monitor is cancelled and the nursery exits;
`result.unwrap()` re-raises, the loop catches it, the `finally` pushes the live handle back, and `pop`
hands it out again. -/
def traceRerun : List Action :=
  [.task 0 .send, .worker 0 .recvJob, .worker 0 (.execute .brokenResource), .worker 0 .sendAnswer, .task 0 .recv,
   .task 0 .monitorCancel, .task 0 .close, .task 0 .pop]

/-- Caller 0, not cancellable, holds worker 0, which polls, and is about to write its job frame;
it wrote `w` before, and the worker read all of it. -/
def rerunState (w : List Nat) : Sys := ⟨[Proc.new], [], [⟨false, .sending 0, .waiting, false, false⟩], w, w, []⟩

theorem run_traceRerun (w : List Nat) : run (rerunState w) traceRerun = some (rerunState (w ++ [0])) := rfl

theorem run_reruns (k : Nat) :
    run (init [false]) (traceStart ++ (List.replicate k traceRerun).flatten) = some (rerunState (List.replicate k 0)) := by
  induction k with
  | zero => rfl
  | succ k ih =>
    rw [List.replicate_succ', List.flatten_append, ← List.append_assoc, run_append, ih, Option.some_bind,
      List.flatten_singleton, run_traceRerun, List.replicate_succ']

theorem regular_reruns (k : Nat) : ∀ a ∈ traceStart ++ (List.replicate k traceRerun).flatten, a.regular = true := by
  have hstart : ∀ a ∈ traceStart, a.regular = true := by decide
  have hround : ∀ a ∈ traceRerun, a.regular = true := by decide
  intro a ha
  rcases List.mem_append.mp ha with ha | ha
  · exact hstart a ha
  · obtain ⟨l, hl, ha⟩ := List.mem_flatten.mp ha
    exact hround a (List.eq_of_mem_replicate hl ▸ ha)

/-- Caller 0 writes its job frame into a new worker's pipe; the worker crashes before reading it. -/
def traceCrashAfterWrite : List Action :=
  [.task 0 .acquire, .task 0 .pop, .task 0 .create, .task 0 .send, .worker 0 .crash,
   .task 0 .recv, .task 0 .monitorReady, .task 0 .monitorRun, .task 0 .nurseryCancel, .task 0 .close]

/-- Caller 0 runs a job on a new worker and pushes it back. Caller 1 pops it; the worker's `poll`
times out just before caller 1's job frame lands in its pipe; it closes its pipe ends and exits.
Nothing crashes and nothing is cancelled. -/
def traceIdleTimeout : List Action :=
  [.task 0 .acquire, .task 0 .pop, .task 0 .create, .task 0 .send, .worker 0 .recvJob, .worker 0 (.execute .value),
   .worker 0 .sendAnswer, .task 0 .recv, .task 0 .monitorCancel, .task 0 .close,
   .task 1 .acquire, .task 1 .pop, .worker 0 .idleTimeout, .task 1 .send, .worker 0 .closePipes, .worker 0 .exit,
   .task 1 .recv, .task 1 .monitorReady, .task 1 .monitorRun, .task 1 .nurseryCancel, .task 1 .close]

/-- The retry loop sends a job again after a worker ran it: with no crash, idle timeout or
cancellation, a function that raises `trio.BrokenResourceError` runs `k` times, for every `k`, and
the call goes on. And a worker that exits with the job frame in its pipe, unread, fails the call
with `BrokenWorkerError` and no retry: when it crashed, and when its `poll` timed out just before
the frame landed. -/
theorem runSync_reruns_job :
    (∀ k, ∃ s, run (init [false]) (traceStart ++ (List.replicate k traceRerun).flatten) = some s ∧
      (∀ a ∈ traceStart ++ (List.replicate k traceRerun).flatten, a.regular = true) ∧
      s.reads = List.replicate k 0 ∧ s.ends = [] ∧ s.tasks.map (·.pc) = [.sending 0]) ∧
    (∃ s, run (init [false]) traceCrashAfterWrite = some s ∧ (0, CallEnd.brokenWorker) ∈ s.ends ∧
      0 ∈ s.writes ∧ 0 ∉ s.reads) ∧
    (∀ i proc, Action.task i .cancel ∉ traceIdleTimeout ∧ Action.worker proc .crash ∉ traceIdleTimeout) ∧
      ∃ s, run (init [false, false]) traceIdleTimeout = some s ∧ (1, CallEnd.brokenWorker) ∈ s.ends ∧
        1 ∈ s.writes ∧ 1 ∉ s.reads :=
  ⟨fun k => ⟨_, run_reruns k, regular_reruns k, rfl, rfl, rfl⟩, ⟨_, rfl, by decide, by decide, by decide⟩,
    fun i proc => ⟨by simp [traceIdleTimeout], by simp [traceIdleTimeout]⟩, _, rfl, by decide, by decide, by decide⟩

/-- Two rounds of the loop: job 0 was written twice, and each frame was read once. -/
theorem frames_read_once_rerun :
    ∃ s, run (init [false]) (traceStart ++ (List.replicate 2 traceRerun).flatten) = some s ∧ s.writes = [0, 0] ∧
      (s.reads ++ s.procs.flatMap Proc.jobs).Subperm s.writes := by
  obtain ⟨s, hrun, hw⟩ : ∃ s, run (init [false]) (traceStart ++ (List.replicate 2 traceRerun).flatten) = some s ∧
      s.writes = [0, 0] := ⟨_, rfl, rfl⟩
  exact ⟨s, hrun, hw, frames_read_once (reachable_of_run (.init _) hrun)⟩

end Legacy

end TrioParallel
