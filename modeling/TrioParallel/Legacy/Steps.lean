import TrioParallel.Legacy.Protocol
import TrioParallel.Tasks
/-!
# What one step of the older pool can do

One lemma per action of a caller says everything its step does; `workerStep_cases` does the same
for a worker. The invariants of `Legacy.Retry` and `Legacy.Owned` are proved from these alone. A
handle's `tokens` are the jobs of everything in flight on it: the frames in both pipes and the job
in its worker's hand.
-/

namespace TrioParallel

namespace Legacy

/-- The job the worker has in hand. -/
def WorkerPc.job : WorkerPc → Option Nat
  | .executing job => some job
  | .sending answer => some answer.job
  | _ => none

/-- A handle's tokens: the jobs of the frames in its pipes and of the job in its worker's hand. -/
def Proc.tokens (p : Proc) : List Nat := p.jobs ++ p.worker.job.toList ++ p.answers.map (·.job)

section Fields

variable (s : Sys) (i proc : Nat) (t : Task) (p : Proc)

@[simp] theorem Sys.setTask_procs : (s.setTask i t).procs = s.procs := rfl
@[simp] theorem Sys.setTask_cache : (s.setTask i t).cache = s.cache := rfl
@[simp] theorem Sys.setTask_tasks : (s.setTask i t).tasks = s.tasks.set i t := rfl
@[simp] theorem Sys.setTask_ends : (s.setTask i t).ends = s.ends := rfl
@[simp] theorem Sys.setTask_writes : (s.setTask i t).writes = s.writes := rfl
@[simp] theorem Sys.setTask_reads : (s.setTask i t).reads = s.reads := rfl
@[simp] theorem Sys.setProc_procs : (s.setProc proc p).procs = s.procs.set proc p := rfl
@[simp] theorem Sys.setProc_cache : (s.setProc proc p).cache = s.cache := rfl
@[simp] theorem Sys.setProc_tasks : (s.setProc proc p).tasks = s.tasks := rfl
@[simp] theorem Sys.setProc_ends : (s.setProc proc p).ends = s.ends := rfl

@[simp] theorem Sys.release_procs : (s.release proc).procs = s.procs := by unfold Sys.release; split <;> rfl
@[simp] theorem Sys.release_tasks : (s.release proc).tasks = s.tasks := by unfold Sys.release; split <;> rfl
@[simp] theorem Sys.release_writes : (s.release proc).writes = s.writes := by unfold Sys.release; split <;> rfl
@[simp] theorem Sys.release_reads : (s.release proc).reads = s.reads := by unfold Sys.release; split <;> rfl
@[simp] theorem Sys.release_ends : (s.release proc).ends = s.ends := by unfold Sys.release; split <;> rfl

@[simp] theorem Sys.kill_cache : (s.kill proc).cache = s.cache := by unfold Sys.kill; split <;> rfl
@[simp] theorem Sys.kill_tasks : (s.kill proc).tasks = s.tasks := by unfold Sys.kill; split <;> rfl
@[simp] theorem Sys.kill_writes : (s.kill proc).writes = s.writes := by unfold Sys.kill; split <;> rfl
@[simp] theorem Sys.kill_reads : (s.kill proc).reads = s.reads := by unfold Sys.kill; split <;> rfl
@[simp] theorem Sys.kill_ends : (s.kill proc).ends = s.ends := by unfold Sys.kill; split <;> rfl

@[simp] theorem Task.bodyEnd_pc {t : Task} {proc : Nat} {bodyEnd : BodyEnd} :
    (t.bodyEnd proc bodyEnd).pc = .closing proc bodyEnd := rfl
@[simp] theorem Task.cancelBody_pc {t : Task} {proc : Nat} : (t.cancelBody proc).pc = .closing proc .cancelled := rfl

@[simp] theorem Proc.tokens_kill : { p with killed := true }.tokens = p.tokens := rfl

end Fields

theorem Sys.kill_eq (s : Sys) (proc : Nat) :
    s.kill proc = s ∨ ∃ p, s.procs[proc]? = some p ∧ s.kill proc = s.setProc proc { p with killed := true } := by
  unfold Sys.kill
  split
  · exact .inr ⟨_, ‹_›, rfl⟩
  · exact .inl rfl

theorem Sys.kill_getElem_ne {s : Sys} {proc r : Nat} (h : r ≠ proc) : (s.kill proc).procs[r]? = s.procs[r]? := by
  rcases s.kill_eq proc with he | ⟨p, -, he⟩ <;> rw [he]
  exact List.getElem?_set_ne (Ne.symm h)

theorem Sys.kill_getElem {s : Sys} {proc r : Nat} {q : Proc} (h : (s.kill proc).procs[r]? = some q) :
    ∃ p, s.procs[r]? = some p ∧ q.worker = p.worker ∧ q.jobs = p.jobs ∧ q.answers = p.answers := by
  by_cases hr : r = proc
  · subst hr
    rcases s.kill_eq r with he | ⟨p, hp, he⟩ <;> rw [he] at h
    · exact ⟨q, h, rfl, rfl, rfl⟩
    · rw [Sys.setProc_procs, List.getElem?_set_self (List.getElem?_eq_some_iff.mp hp).1] at h
      cases h
      exact ⟨p, hp, rfl, rfl, rfl⟩
  · rw [Sys.kill_getElem_ne hr] at h
    exact ⟨q, h, rfl, rfl, rfl⟩

theorem Sys.isAlive_kill (s : Sys) (proc : Nat) : (s.kill proc).isAlive = s.isAlive := by
  funext r
  rcases s.kill_eq proc with h | ⟨p, hp, h⟩ <;> rw [h]
  by_cases he : r = proc
  · subst he
    simp [Sys.isAlive, Sys.setProc, hp, List.getElem?_set_self (List.getElem?_eq_some_iff.mp hp).1]
  · simp [Sys.isAlive, Sys.setProc, List.getElem?_set_ne (Ne.symm he)]

/-- A call returns only the result frame its body read, and not when the function raised
`trio.BrokenResourceError`. -/
theorem callEnd_returned {raised late : Bool} {bodyEnd : BodyEnd} {answer : Answer}
    (h : callEnd raised late bodyEnd = some (.returned answer)) :
    bodyEnd = .value answer ∧ answer.outcome ≠ .brokenResource := by
  cases bodyEnd <;> cases raised <;> cases late <;> simp only [callEnd, Bool.false_eq_true, ↓reduceIte] at h
  all_goals first | cases h | skip
  split at h
  · cases h
  · cases h; exact ⟨rfl, ‹_›⟩

/-- The loop goes round again only after `BrokenResourceError`, from the pipe or from the function. -/
theorem callEnd_eq_none {raised late : Bool} {bodyEnd : BodyEnd} (h : callEnd raised late bodyEnd = none) :
    bodyEnd = .brokenResource ∨ ∃ answer, bodyEnd = .value answer ∧ answer.outcome = .brokenResource := by
  cases bodyEnd <;> cases raised <;> cases late <;> simp only [callEnd, Bool.false_eq_true, ↓reduceIte] at h
  all_goals first | cases h | skip
  all_goals first | exact .inl rfl | skip
  split at h
  · exact .inr ⟨_, rfl, ‹_›⟩
  · cases h

variable {s s' : Sys} {i : Nat} {t : Task}

theorem taskStep_acquire (h : taskStep s i t .acquire = some s') :
    t.pc = .acquire ∧ s' = { s with cache := Cache.prune s.isAlive s.cache }.setTask i { t with pc := .popping } := by
  simp only [taskStep] at h
  split at h
  · cases h; exact ⟨‹_›, rfl⟩
  · cases h

theorem taskStep_pop (h : taskStep s i t .pop = some s') : t.pc = .popping ∧
    ((∃ proc rest, Cache.pop s.isAlive s.cache = (some proc, rest) ∧
      s' = { s with cache := rest }.setTask i
        { t with pc := .sending proc, monitor := .waiting, nurseryCancelled := false }) ∨
    (∃ rest, Cache.pop s.isAlive s.cache = (none, rest) ∧
      s' = { s with cache := rest }.setTask i { t with pc := .creating })) := by
  simp only [taskStep] at h
  split at h
  · refine ⟨‹_›, ?_⟩
    split at h <;> cases h
    · exact .inl ⟨_, _, ‹_›, rfl⟩
    · exact .inr ⟨_, ‹_›, rfl⟩
  · cases h

theorem taskStep_create (h : taskStep s i t .create = some s') : t.pc = .creating ∧
    s' = { s with procs := s.procs ++ [Proc.new] }.setTask i
      { t with pc := .sending s.procs.length, monitor := .waiting, nurseryCancelled := false } := by
  simp only [taskStep] at h
  split at h
  · cases h; exact ⟨‹_›, rfl⟩
  · cases h

theorem taskStep_send (h : taskStep s i t .send = some s') :
    ∃ proc p, t.pc = .sending proc ∧ s.procs[proc]? = some p ∧
    ((p.worker.listening = true ∧ s' = { s.setProc proc { p with jobs := p.jobs ++ [i] } with
      writes := s.writes ++ [i] }.setTask i { t with pc := .receiving proc }) ∨
    (p.worker.listening = false ∧ s' = (s.kill proc).setTask i (t.bodyEnd proc .brokenResource))) := by
  simp only [taskStep] at h
  split at h
  · rename_i proc hpc
    split at h
    · rename_i p hp
      split at h <;> cases h
      · exact ⟨proc, p, hpc, hp, .inl ⟨‹_›, rfl⟩⟩
      · exact ⟨proc, p, hpc, hp, .inr ⟨Bool.eq_false_iff.mpr ‹_›, by simp only [Sys.kill, hp]⟩⟩
    · cases h
  · cases h

theorem taskStep_recv (h : taskStep s i t .recv = some s') :
    ∃ proc p, t.pc = .receiving proc ∧ s.procs[proc]? = some p ∧
    ((∃ answer rest, p.answers = answer :: rest ∧
      s' = (s.setProc proc { p with answers := rest }).setTask i (t.bodyEnd proc (.value answer))) ∨
    (p.answers = [] ∧ p.worker.listening = false ∧ s' = (s.kill proc).setTask i { t with pc := .sleeping proc })) := by
  simp only [taskStep] at h
  split at h
  · rename_i proc hpc
    split at h
    · rename_i p hp
      split at h
      · cases h; exact ⟨proc, p, hpc, hp, .inl ⟨_, _, ‹_›, rfl⟩⟩
      · split at h
        · cases h
        · cases h; exact ⟨proc, p, hpc, hp, .inr ⟨‹_›, Bool.eq_false_iff.mpr ‹_›, by simp only [Sys.kill, hp]⟩⟩
    · cases h
  · cases h

theorem taskStep_cancel (h : taskStep s i t .cancel = some s') :
    ((t.pc = .acquire ∨ t.pc = .creating) ∧
      s' = { s with ends := s.ends ++ [(i, CallEnd.cancelled)] }.setTask i { t with pc := .done }) ∨
    (∃ proc, (t.pc = .sending proc ∨ t.pc = .receiving proc) ∧ t.cancellable = true ∧
      s' = (s.kill proc).setTask i (t.cancelBody proc)) ∨
    (∃ proc, t.pc = .sleeping proc ∧ t.cancellable = true ∧ s' = s.setTask i (t.cancelBody proc)) ∨
    (∃ proc bodyEnd, t.pc = .closing proc bodyEnd ∧ t.cancellable = true ∧ t.lateCancel = false ∧
      s' = s.setTask i { t with lateCancel := true }) := by
  simp only [taskStep] at h
  split at h
  · cases h; exact .inl ⟨.inl ‹_›, rfl⟩
  · cases h; exact .inl ⟨.inr ‹_›, rfl⟩
  all_goals try (split at h <;> cases h)
  · exact .inr (.inl ⟨_, .inl ‹_›, ‹_›, rfl⟩)
  · exact .inr (.inl ⟨_, .inr ‹_›, ‹_›, rfl⟩)
  · exact .inr (.inr (.inl ⟨_, ‹_›, ‹_›, rfl⟩))
  · exact .inr (.inr (.inr ⟨_, _, ‹_›, (‹_ ∧ _›).1, (‹_ ∧ _›).2, rfl⟩))
  · cases h

theorem taskStep_nurseryCancel (h : taskStep s i t .nurseryCancel = some s') :
    (∃ proc, (t.pc = .sending proc ∨ t.pc = .receiving proc) ∧ t.monitor = .finished true ∧
      s' = (s.kill proc).setTask i (t.bodyEnd proc .cancelled)) ∨
    (∃ proc, t.pc = .sleeping proc ∧ t.monitor = .finished true ∧ s' = s.setTask i (t.bodyEnd proc .cancelled)) := by
  simp only [taskStep] at h
  split at h <;> cases h
  · exact .inl ⟨_, .inl ‹_›, ‹_›, rfl⟩
  · exact .inl ⟨_, .inr ‹_›, ‹_›, rfl⟩
  · exact .inr ⟨_, ‹_›, ‹_›, rfl⟩

theorem taskStep_close (h : taskStep s i t .close = some s') : ∃ proc bodyEnd raised, t.pc = .closing proc bodyEnd ∧
    t.monitor = .finished raised ∧
    ((callEnd raised t.lateCancel bodyEnd = none ∧
      s' = (s.release proc).setTask i { t with pc := .popping, monitor := .off, lateCancel := false }) ∨
    (∃ e, callEnd raised t.lateCancel bodyEnd = some e ∧
      s' = { s.release proc with ends := s.ends ++ [(i, e)] }.setTask i { t with pc := .done, monitor := .off })) := by
  simp only [taskStep] at h
  split at h
  · rename_i proc bodyEnd raised hpc hm
    split at h <;> cases h
    · exact ⟨proc, bodyEnd, raised, hpc, hm, .inl ⟨‹_›, rfl⟩⟩
    · exact ⟨proc, bodyEnd, raised, hpc, hm, .inr ⟨_, ‹_›, rfl⟩⟩
  · cases h

/-- A step of the monitor changes only its caller's monitor and nursery, and claims an exit only
after the process has exited. -/
theorem taskStep_monitor {a : TaskAction} (ha : a = .monitorReady ∨ a = .monitorRun ∨ a = .monitorCancel)
    (h : taskStep s i t a = some s') : ∃ m c, s' = s.setTask i { t with monitor := m, nurseryCancelled := c } ∧
      (m = .ready ∨ m = .finished true →
        t.monitor = .ready ∨ ∃ proc, t.pc.held = some proc ∧ s.isAlive proc = false) := by
  rcases ha with rfl | rfl | rfl <;> simp only [taskStep] at h
  · split at h
    · split at h
      · cases h; exact ⟨_, _, rfl, fun _ => .inr ⟨_, ‹_›, (‹_ ∧ _›).2⟩⟩
      · cases h
    · cases h
  · split at h
    · cases h
      split
      · exact ⟨_, _, rfl, fun _ => .inl ‹_›⟩
      · exact ⟨_, _, rfl, fun _ => .inl ‹_›⟩
    · cases h
  · split at h
    · cases h; exact ⟨_, _, rfl, by simp⟩
    · cases h

/-- A step of the worker's own code changes only its handle and the reads. It needs a live
process; it keeps the handle's tokens or loses some; it moves at most the frame it reads from the pipe
to the reads; and a closed pipe stays empty. -/
theorem workerRun_cases {proc : Nat} {p : Proc} {a : WorkerAction} (h : workerRun s proc p a = some s') :
    ∃ p' r, s' = { s.setProc proc p' with reads := s.reads ++ r } ∧ p.worker ≠ .exited ∧
      p'.tokens.Subperm p.tokens ∧ (r ++ p'.jobs).Subperm p.jobs ∧
      ((p.worker.listening = false → p.jobs = []) → p'.worker.listening = false → p'.jobs = []) := by
  cases a <;> simp only [workerRun] at h
  case recvJob =>
    split at h
    · rename_i job rest hw hjobs
      cases h
      refine ⟨{ p with worker := .executing job, jobs := rest }, [job], rfl, by simp [hw], ?_,
        by rw [hjobs]; rfl, fun _ h => by simp [WorkerPc.listening] at h⟩
      simp only [Proc.tokens, WorkerPc.job, hw, hjobs, Option.toList_some, Option.toList_none, List.append_nil]
      exact (List.perm_append_comm.append_right _).subperm
    · cases h
  case idleTimeout =>
    split at h
    · rename_i hc
      cases h
      refine ⟨{ p with worker := .timedOut }, [], by rw [List.append_nil]; rfl, by simp [hc.1], ?_,
        List.Subperm.refl _, fun _ h => by simp [WorkerPc.listening] at h⟩
      simp only [Proc.tokens, WorkerPc.job, hc.1]
      exact List.Subperm.refl _
    · cases h
  case execute outcome =>
    split at h
    · rename_i job hw
      cases h
      refine ⟨{ p with worker := .sending ⟨job, outcome⟩ }, [], by rw [List.append_nil]; rfl, by simp [hw], ?_,
        List.Subperm.refl _, fun _ h => by simp [WorkerPc.listening] at h⟩
      simp only [Proc.tokens, WorkerPc.job, hw]
      exact List.Subperm.refl _
    · cases h
  case sendAnswer =>
    split at h
    · rename_i answer hw
      cases h
      refine ⟨{ p with worker := .polling, answers := p.answers ++ [answer] }, [], by rw [List.append_nil]; rfl,
        by simp [hw], ?_, List.Subperm.refl _, fun _ h => by simp [WorkerPc.listening] at h⟩
      simp only [Proc.tokens, WorkerPc.job, hw, List.map_append, List.map_cons, List.map_nil, Option.toList_some,
        Option.toList_none, List.append_nil, List.append_assoc]
      exact (List.Perm.append_left _ List.perm_append_comm).subperm
    · cases h
  case closePipes =>
    split at h
    · rename_i hw
      cases h
      refine ⟨{ p with worker := .closed, jobs := [] }, [], by rw [List.append_nil]; rfl, by simp [hw], ?_,
        List.nil_subperm, fun _ _ => rfl⟩
      simp only [Proc.tokens, WorkerPc.job, hw]
      exact (List.sublist_append_right _ _).subperm
    · cases h
  case exit =>
    split at h
    · rename_i hw
      cases h
      refine ⟨{ p with worker := .exited }, [], by rw [List.append_nil]; rfl, by simp [hw], ?_,
        List.Subperm.refl _, fun hl _ => hl (by simp [WorkerPc.listening, hw])⟩
      simp only [Proc.tokens, WorkerPc.job, hw]
      exact List.Subperm.refl _
    · cases h
  all_goals cases h

/-- A step of the worker of handle `proc` changes only that handle and the reads, as
`workerRun_cases` says; its death drops the unread job frames. -/
theorem workerStep_cases {proc : Nat} {p : Proc} {a : WorkerAction} (h : workerStep s proc p a = some s') :
    ∃ p' r, s' = { s.setProc proc p' with reads := s.reads ++ r } ∧ p.worker ≠ .exited ∧
      p'.tokens.Subperm p.tokens ∧ (r ++ p'.jobs).Subperm p.jobs ∧
      ((p.worker.listening = false → p.jobs = []) → p'.worker.listening = false → p'.jobs = []) := by
  have hdeath : p.worker ≠ .exited → s' = s.setProc proc { p with worker := .exited, jobs := [] } →
      ∃ p' r, s' = { s.setProc proc p' with reads := s.reads ++ r } ∧ p.worker ≠ .exited ∧
        p'.tokens.Subperm p.tokens ∧ (r ++ p'.jobs).Subperm p.jobs ∧
        ((p.worker.listening = false → p.jobs = []) → p'.worker.listening = false → p'.jobs = []) :=
    fun hw hs' => by
      refine ⟨{ p with worker := .exited, jobs := [] }, [], by rw [hs', List.append_nil]; rfl, hw, ?_,
        List.nil_subperm, fun _ _ => rfl⟩
      simp only [Proc.tokens, WorkerPc.job, List.nil_append, Option.toList_none]
      exact (List.sublist_append_right _ _).subperm
  cases a <;> simp only [workerStep] at h
  case signalled =>
    split at h
    · cases h; exact hdeath (‹_ ∧ _›).2 rfl
    · cases h
  case crash =>
    split at h
    · cases h; exact hdeath ‹_› rfl
    · cases h
  all_goals
    split at h
    · cases h
    · exact workerRun_cases h

theorem step_cases {a : Action} (h : step s a = some s') :
    (∃ i t ta, s.tasks[i]? = some t ∧ taskStep s i t ta = some s') ∨
      ∃ proc p wa, s.procs[proc]? = some p ∧ workerStep s proc p wa = some s' := by
  cases a with
  | task i a =>
    simp only [step] at h
    split at h
    · exact .inl ⟨i, _, a, ‹_›, h⟩
    · cases h
  | worker proc a =>
    simp only [step] at h
    split at h
    · exact .inr ⟨proc, _, a, ‹_›, h⟩
    · cases h

theorem taskStep_setTask {a : TaskAction} (h : taskStep s i t a = some s') :
    ∃ (u : Sys) (t' : Task), s' = u.setTask i t' ∧ u.tasks = s.tasks ∧ t'.cancellable = t.cancellable := by
  cases a
  case acquire => obtain ⟨-, rfl⟩ := taskStep_acquire h; exact ⟨_, _, rfl, rfl, rfl⟩
  case pop => obtain ⟨-, ⟨_, _, -, rfl⟩ | ⟨_, -, rfl⟩⟩ := taskStep_pop h <;> exact ⟨_, _, rfl, rfl, rfl⟩
  case create => obtain ⟨-, rfl⟩ := taskStep_create h; exact ⟨_, _, rfl, rfl, rfl⟩
  case send => obtain ⟨_, _, -, -, ⟨-, rfl⟩ | ⟨-, rfl⟩⟩ := taskStep_send h <;> exact ⟨_, _, rfl, by simp, rfl⟩
  case recv =>
    obtain ⟨_, _, -, -, ⟨_, _, -, rfl⟩ | ⟨-, -, rfl⟩⟩ := taskStep_recv h <;> exact ⟨_, _, rfl, by simp, rfl⟩
  case cancel =>
    obtain ⟨-, rfl⟩ | ⟨_, -, -, rfl⟩ | ⟨_, -, -, rfl⟩ | ⟨_, _, -, -, -, rfl⟩ := taskStep_cancel h <;>
      exact ⟨_, _, rfl, by simp, rfl⟩
  case nurseryCancel =>
    obtain ⟨_, -, -, rfl⟩ | ⟨_, -, -, rfl⟩ := taskStep_nurseryCancel h <;> exact ⟨_, _, rfl, by simp, rfl⟩
  case close =>
    obtain ⟨_, _, _, -, -, ⟨-, rfl⟩ | ⟨_, -, rfl⟩⟩ := taskStep_close h <;> exact ⟨_, _, rfl, by simp, rfl⟩
  all_goals obtain ⟨_, _, rfl, -⟩ := taskStep_monitor (by simp) h; exact ⟨_, _, rfl, rfl, rfl⟩

theorem step_cancellable {a : Action} (h : step s a = some s') :
    s'.tasks.map Task.cancellable = s.tasks.map Task.cancellable := by
  rcases step_cases h with ⟨i, t, a, hi, h⟩ | ⟨proc, p, a, -, h⟩
  · obtain ⟨u, t', rfl, hu, hc⟩ := taskStep_setTask h
    show (u.tasks.set i t').map Task.cancellable = _
    rw [hu, List.map_set, hc]
    exact set_eq_of_getElem? (by simp [hi])
  · obtain ⟨_, _, rfl, -⟩ := workerStep_cases h
    rfl

end Legacy

end TrioParallel
