import TrioParallel.Handle.Sound
/-!
# What a call of `run_sync` guarantees

`Sys.Frames` tracks the frames: every job frame is read at most once (the worker's reads and the
job pipe together have no repeat), a result frame is written only for a job read and not yet
answered, and the job a call is about to send is fresh. With `Sys.Sound` it gives `handle_calls`,
the guarantee of one call over every interleaving.

With `PypyWorkerProc` a call can end without aborting the barrier in two ways
(`pypy_calls_end_unaborted`). `child_monitor` sees the worker exit and raises while the body takes
the worker's last result: the call ends in `BrokenWorkerError`, and the worker has exited. Or a
cancellation enclosing the call arrives once `_recv` has been rescheduled: the body returns the
result, and the nursery re-raises `Cancelled` with no `kill()`. The result the body read was its own
job's, which is what `handle_calls` says of such a call.
-/

namespace TrioParallel

namespace Handle

/-- The job frames and result frames: each job is read once and answered once at most. -/
structure Sys.Frames (s : Sys) : Prop where
  nodup : (s.reads ++ s.jobs).Nodup
  lt_next : ∀ job ∈ s.reads ++ s.jobs, job < s.nextJob
  writes_nodup : s.writes.Nodup
  writes_read : ∀ job ∈ s.writes, job ∈ s.reads
  in_hand : ∀ job, s.worker.job = some job → job ∈ s.reads ∧ job ∉ s.writes
  fresh : ∀ job, s.host = .sending job → job ∉ s.reads ++ s.jobs ∧ job < s.nextJob

theorem init_frames (v : Variant) : (init v).Frames :=
  ⟨List.nodup_nil, by simp [init], List.nodup_nil, by simp [init], by simp [init, WorkerPc.job], by simp [init]⟩

theorem Sys.Frames.frame {s s' : Sys} (hf : s.Frames) (hr : s'.reads = s.reads) (hj : s'.jobs = s.jobs)
    (hw : s'.writes = s.writes) (hn : s.nextJob ≤ s'.nextJob)
    (hjob : s'.worker.job = none ∨ s'.worker.job = s.worker.job)
    (hsend : ∀ job, s'.host = .sending job → s.host = .sending job) : s'.Frames := by
  have hl : s'.reads ++ s'.jobs = s.reads ++ s.jobs := by rw [hr, hj]
  refine ⟨hl ▸ hf.nodup, fun j h' => lt_of_lt_of_le (hf.lt_next j (hl ▸ h')) hn, hw ▸ hf.writes_nodup,
    fun j h' => hr ▸ hf.writes_read j (hw ▸ h'), fun j h' => ?_, fun j h' => ?_⟩
  · rcases hjob with h0 | h0
    · rw [h0] at h'; cases h'
    · rw [hw, hr]; exact hf.in_hand j (h0 ▸ h')
  · obtain ⟨h1, h2⟩ := hf.fresh j (hsend j h')
    exact ⟨hl ▸ h1, lt_of_lt_of_le h2 hn⟩

theorem Sys.Frames.bodyEnd {t : Sys} (hf : t.Frames) (job : Nat) (e : CallEnd) : (t.bodyEnd job e).Frames := by
  unfold Sys.bodyEnd
  split <;> exact hf.frame rfl rfl rfl le_rfl (.inr rfl) (fun _ h => by cases h)

theorem Sys.Frames.killThen {s : Sys} (hf : s.Frames) {k : Sys → Sys} (hk : (k s.kill).Frames) :
    (s.killThen k).Frames := by
  rcases s.killThen_eq k with ⟨-, h⟩ | h <;> rw [h]
  · exact hf.frame rfl rfl rfl le_rfl (.inr rfl) fun _ h => by cases h
  · exact hk

theorem Sys.Frames.keep {s : Sys} (hf : s.Frames) {t : Sys} (hr : t.reads = s.reads) (hj : t.jobs = s.jobs)
    (hw : t.writes = s.writes) (hn : t.nextJob = s.nextJob) (hk : t.worker = s.worker) (hh : t.host = s.host) :
    t.Frames :=
  hf.frame hr hj hw hn.ge (.inr (by rw [hk])) (fun _ h => hh ▸ h)

theorem frames_runSync {s s' : Sys} (hf : s.Frames) (h : step s .runSync = some s') : s'.Frames := by
  simp only [step] at h
  split at h
  · rename_i hwoken
    cases h
    obtain ⟨m, c, hn, -, -⟩ := s.openNursery_eq
    unfold Sys.enterRunSync
    rw [hn]
    split
    · apply Sys.Frames.bodyEnd
      exact hf.frame rfl rfl rfl (Nat.le_succ _) (.inr rfl) fun _ h => hwoken ▸ h
    · refine ⟨hf.nodup, fun j hj => Nat.lt_succ_of_lt (hf.lt_next j hj), hf.writes_nodup, hf.writes_read,
        hf.in_hand, fun j hj => ?_⟩
      cases hj
      exact ⟨fun hm => Nat.lt_irrefl _ (hf.lt_next _ hm), Nat.lt_succ_self _⟩
  · cases h

theorem frames_send {s s' : Sys} (hf : s.Frames) (h : step s .send = some s') : s'.Frames := by
  simp only [step] at h
  split at h
  · rename_i job hsend
    split at h <;> cases h
    · refine hf.killThen (Sys.Frames.bodyEnd ?_ _ _); exact hf.keep rfl rfl rfl rfl rfl rfl
    · obtain ⟨hnew, hlt⟩ := hf.fresh job hsend
      refine ⟨?_, fun j hj => ?_, hf.writes_nodup, hf.writes_read, hf.in_hand, fun _ h => by cases h⟩
      · rw [← List.append_assoc]
        exact hf.nodup.append (List.nodup_singleton job) (List.disjoint_singleton.mpr hnew)
      · rw [← List.append_assoc, List.mem_append, List.mem_singleton] at hj
        exact hj.elim (hf.lt_next j) (· ▸ hlt)
  · cases h

theorem frames_recvJob {s s' : Sys} (hf : s.Frames) (h : step s .recvJob = some s') : s'.Frames := by
  simp only [step] at h
  split at h
  · rename_i job rest _ hjobs
    cases h
    have hl : (s.reads ++ [job]) ++ rest = s.reads ++ s.jobs := by simp [hjobs]
    have hnew : job ∉ s.reads := fun hm =>
      List.disjoint_of_nodup_append hf.nodup hm (by simp [hjobs])
    refine ⟨hl ▸ hf.nodup, fun j hj => hf.lt_next j (hl ▸ hj), hf.writes_nodup,
      fun j hj => List.mem_append_left _ (hf.writes_read j hj), fun j hj => ?_, fun j hj => ?_⟩
    · cases hj
      exact ⟨List.mem_append_right _ (List.mem_singleton_self _), fun hw => hnew (hf.writes_read _ hw)⟩
    · exact hl ▸ hf.fresh j hj
  · cases h

theorem frames_sendAnswer {s s' : Sys} (hf : s.Frames) (h : step s .sendAnswer = some s') : s'.Frames := by
  simp only [step] at h
  split at h
  · rename_i answer hw
    cases h
    obtain ⟨hread, hnew⟩ := hf.in_hand answer.job (by simp [hw, WorkerPc.job])
    refine ⟨hf.nodup, hf.lt_next, hf.writes_nodup.append (List.nodup_singleton _)
      (List.disjoint_singleton.mpr hnew), fun j hj => ?_, fun _ h => (by cases h), hf.fresh⟩
    rw [List.mem_append, List.mem_singleton] at hj
    exact hj.elim (hf.writes_read j) (· ▸ hread)
  · cases h

theorem Sys.Frames.of_wakeUp {s : Sys} (hf : s.Frames) : (wakeUp s).Frames := by
  have ht : s.start.Frames := by
    unfold Sys.start
    split
    · exact hf
    · exact hf.frame rfl rfl rfl le_rfl (.inl rfl) fun _ h => h
  unfold wakeUp
  generalize s.start = t at ht ⊢
  dsimp only
  split
  · split
    · exact ht.frame rfl rfl rfl le_rfl (.inl rfl) fun _ h => by cases h
    · exact ht.frame rfl rfl rfl le_rfl (.inr rfl) fun _ h => by cases h
  · split
    · split
      · exact ht.frame rfl rfl rfl le_rfl (.inr rfl) fun _ h => by cases h
      · refine ht.frame rfl rfl rfl le_rfl ?_ fun _ h => by cases h
        split <;> simp_all [WorkerPc.job]
    · exact ht.frame rfl rfl rfl le_rfl (.inr rfl) fun _ h => by cases h

theorem Sys.Frames.of_arrive {s : Sys} (hf : s.Frames) : (arrive s).Frames := by
  unfold arrive
  split
  · exact hf.frame rfl rfl rfl le_rfl (.inl rfl) fun _ h => h
  · split
    · exact hf.frame rfl rfl rfl le_rfl (.inl rfl) fun _ h => by cases h
    · exact hf.frame rfl rfl rfl le_rfl (.inl rfl) fun _ h => h

theorem step_frames {s s' : Sys} {a : Action} (hf : s.Frames) (h : step s a = some s') : s'.Frames := by
  cases a
  case runSync => exact frames_runSync hf h
  case send => exact frames_send hf h
  case recvJob => exact frames_recvJob hf h
  case sendAnswer => exact frames_sendAnswer hf h
  case wake => simp only [step] at h; split at h <;> cases h; exact hf.of_wakeUp
  case arrive => simp only [step] at h; split at h <;> cases h; exact hf.of_arrive
  case resume =>
    simp only [step] at h
    split at h <;> cases h
    · refine Sys.Frames.bodyEnd ?_ _ _; exact hf.keep rfl rfl rfl rfl rfl rfl
    · refine hf.killThen (Sys.Frames.bodyEnd ?_ _ _); exact hf.keep rfl rfl rfl rfl rfl rfl
  case cancel =>
    simp only [step] at h
    split at h
    case h_1 | h_2 =>
      cases h
      refine hf.killThen (Sys.Frames.bodyEnd ?_ _ _); exact hf.keep rfl rfl rfl rfl rfl rfl
    case h_3 | h_4 => split at h <;> cases h; exact hf.keep rfl rfl rfl rfl rfl rfl
    case h_5 => cases h
  case kill =>
    simp only [step] at h
    split at h <;> cases h
    exact hf.killThen (hf.keep rfl rfl rfl rfl rfl rfl)
  case execute =>
    simp only [step] at h
    split at h <;> cases h
    rename_i hw
    exact hf.frame rfl rfl rfl le_rfl (.inr (by simp [hw, WorkerPc.job])) fun _ h => h
  case hostTimeout =>
    simp only [step] at h
    split at h <;> cases h
    split
    · exact hf.frame rfl rfl rfl le_rfl (.inl rfl) fun _ h => by cases h
    · exact hf.frame rfl rfl rfl le_rfl (.inr rfl) fun _ h => by cases h
  case hostReady | close =>
    simp only [step] at h
    split at h <;> try split at h
    all_goals cases h
    all_goals exact hf.frame rfl rfl rfl le_rfl (.inr rfl) fun _ h => by cases h
  case monitorReady | monitorRun | monitorCancel =>
    simp only [step] at h
    split at h <;> cases h
    all_goals (try split) <;> exact hf.keep rfl rfl rfl rfl rfl rfl
  case idleTimeout | wakeBroken | crash =>
    simp only [step] at h
    split at h <;> cases h
    exact hf.frame rfl rfl rfl le_rfl (.inl rfl) fun _ h => h

theorem reachable_frames {s : Sys} (h : Reachable s) : s.Frames := by
  induction h with
  | init v => exact init_frames v
  | step _ hstep ih => exact step_frames ih hstep

/-- What `run_sync` guarantees, over every interleaving: at the call, no party waits at the barrier,
and no call fails its assertion; the worker reads each job frame at most once and answers only jobs it
read, each at most once; a call that returns delivers its own job's outcome; a call cancelled after its
body read a result read its own job's, and only with `PypyWorkerProc`; and a call that ends otherwise
leaves the barrier aborted or, with `PypyWorkerProc`, the worker exited. -/
theorem handle_calls {s : Sys} (h : Reachable s) :
    (s.host = .woken → s.waiter = none) ∧ (∀ job, (job, CallEnd.assertionFailed) ∉ s.ends) ∧
    (s.reads.Nodup ∧ s.writes.Nodup ∧ ∀ job ∈ s.writes, job ∈ s.reads) ∧
    (∀ job answer, (job, CallEnd.returned answer) ∈ s.ends → answer.job = job) ∧
    (∀ job answer, (job, CallEnd.cancelledAfter answer) ∈ s.ends → answer.job = job ∧ s.variant = .pypy) ∧
    (∀ job e, (job, e) ∈ s.ends → (∀ answer, e ≠ .returned answer ∧ e ≠ .cancelledAfter answer) →
      s.aborted = true ∨ (s.variant = .pypy ∧ s.worker = .exited)) := by
  have hs := reachable_sound h
  have hf := reachable_frames h
  refine ⟨fun hw => ?_, fun job he => hs.ends job _ he, ⟨hf.nodup.of_append_left, hf.writes_nodup,
    hf.writes_read⟩, fun job answer he => hs.ends job _ he, fun job answer he => hs.ends job _ he,
    fun job e he hne => ?_⟩
  · have hp := hs.phase
    rw [hw] at hp
    exact hp.2.2.2
  · have hok := hs.ends job e he
    cases e
    case returned answer => exact absurd rfl (hne answer).1
    case cancelledAfter answer => exact absurd rfl (hne answer).2
    case assertionFailed => exact hok.elim
    all_goals exact hok

/-- `PypyWorkerProc`: the worker answers job 0 and its result frame is there; a cancellation
enclosing the call arrives once `_recv` has been rescheduled. It cancels the monitor, the body
returns the result, and the nursery re-raises `Cancelled`. -/
def traceLateCancel : List Action :=
  [.wake, .arrive, .runSync, .send, .recvJob, .execute false, .sendAnswer, .hostReady, .cancel,
   .monitorCancel, .resume, .close]

theorem handle_calls_lateCancel :
    ∃ s, run (init .pypy) traceLateCancel = some s ∧
      (s.host = .woken → s.waiter = none) ∧ (∀ job, (job, CallEnd.assertionFailed) ∉ s.ends) ∧
      (s.reads.Nodup ∧ s.writes.Nodup ∧ ∀ job ∈ s.writes, job ∈ s.reads) ∧
      (∀ job answer, (job, CallEnd.returned answer) ∈ s.ends → answer.job = job) ∧
      (∀ job answer, (job, CallEnd.cancelledAfter answer) ∈ s.ends → answer.job = job ∧ s.variant = .pypy) ∧
      (∀ job e, (job, e) ∈ s.ends → (∀ answer, e ≠ .returned answer ∧ e ≠ .cancelledAfter answer) →
        s.aborted = true ∨ (s.variant = .pypy ∧ s.worker = .exited)) := by
  obtain ⟨s, hrun⟩ : ∃ s, run (init .pypy) traceLateCancel = some s := ⟨_, rfl⟩
  exact ⟨s, hrun, handle_calls (reachable_of_run (.init .pypy) hrun)⟩

/-- `PypyWorkerProc`: the worker answers job 0 and dies; the monitor sees the exit and raises before
the body takes the result, which the body then returns into a nursery that re-raises the monitor's
error. -/
def traceMonitorRace : List Action :=
  [.wake, .arrive, .runSync, .send, .recvJob, .execute false, .sendAnswer, .hostReady, .crash,
   .monitorReady, .monitorRun, .resume, .close]

/-- A `PypyWorkerProc` call can end in `BrokenWorkerError` with the barrier intact, and it can end in
`Cancelled` with the barrier intact and the worker alive. -/
theorem pypy_calls_end_unaborted :
    (∃ s, Reachable s ∧ s.variant = .pypy ∧ (0, CallEnd.brokenWorker) ∈ s.ends ∧ s.aborted = false) ∧
    ∃ s, Reachable s ∧ s.variant = .pypy ∧ (0, CallEnd.cancelledAfter ⟨0, false⟩) ∈ s.ends ∧
      s.aborted = false ∧ s.worker ≠ .exited := by
  have hrace : run (init .pypy) traceMonitorRace = some
      ⟨.pypy, true, .idle, .off, true, false, .exited, none, false, false, [], [], 1, [0], [0], [(0, .brokenWorker)]⟩ :=
    rfl
  have hlate : run (init .pypy) traceLateCancel = some
      ⟨.pypy, true, .idle, .off, true, false, .top, none, false, false, [], [], 1, [0], [0],
        [(0, .cancelledAfter ⟨0, false⟩)]⟩ :=
    rfl
  exact ⟨⟨_, reachable_of_run (.init .pypy) hrace, rfl, List.mem_singleton_self _, rfl⟩,
    _, reachable_of_run (.init .pypy) hlate, rfl, List.mem_singleton_self _, rfl, by decide⟩

end Handle

end TrioParallel
