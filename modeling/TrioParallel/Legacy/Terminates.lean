import Mathlib.Algebra.BigOperators.Group.List
import TrioParallel.Legacy.Progress
/-!
# With no crash, idle timeout, cancellation or `BrokenResourceError` from the function, every call returns

`limited_pool_never_stuck` gives a regular step wherever a caller has not returned, but not that the
steps ever end. The only loop of `to_process_run_sync` that could go round forever is its
`while True`, taken again after `BrokenResourceError`: from a worker that has timed out or died, or
from a function that raised it, whose outcome `result.unwrap()` re-raises inside the `try`. So on a
schedule of plain steps from the start (regular, and the function never raises
`trio.BrokenResourceError`), every worker is in `poll`, its job or its `send`, no `kill()` is sent,
no result frame carries that exception, no monitor sees an exit, and no body ends on a broken pipe or
a cancellation (`Sys.Healthy`).

On such a state `Sys.rank` counts what is left: for each caller, the awaits it still passes and its
monitor's cancellation; for each handle, the three worker steps each job frame in its pipe still
needs, and the steps left of the job in hand. Every regular step lowers it. It starts at ten per
caller, which is the length of a call that creates its worker: `acquire`, `pop`, the constructor,
`_send`, the worker's `recv`, the function and `send`, `_recv`, the monitor's cancellation, and the
nursery's exit. Then `Sys.Unstuck.limitedProgress` says that a schedule that cannot go on has every
caller returned (`regular_calls_return`).
-/

namespace TrioParallel

namespace Legacy

/-! ### What is left of a call -/

/-- The steps a caller at `pc` still takes on a call that meets no dead worker. -/
def TaskPc.rank : TaskPc → Nat
  | .acquire => 10
  | .popping => 9
  | .creating => 8
  | .sending _ => 6
  | .receiving _ => 2
  | .sleeping _ | .closing _ _ => 1
  | .done => 0

/-- A waiting monitor is still to be cancelled. -/
def MonitorPc.rank : MonitorPc → Nat
  | .waiting => 1
  | _ => 0

def Task.rank (t : Task) : Nat := t.pc.rank + t.monitor.rank

/-- The steps left of the job the worker has in hand. -/
def WorkerPc.rank : WorkerPc → Nat
  | .executing _ => 2
  | .sending _ => 1
  | _ => 0

/-- Each job frame in the pipe still needs the worker's `recv`, the function and `send`. -/
def Proc.rank (p : Proc) : Nat := 3 * p.jobs.length + p.worker.rank

def Sys.rank (s : Sys) : Nat := (s.tasks.map Task.rank).sum + (s.procs.map Proc.rank).sum

theorem init_rank (cancellable : List Bool) : (init cancellable).rank = 10 * cancellable.length := by
  induction cancellable with
  | nil => rfl
  | cons c l ih =>
    simp only [init, Sys.rank, List.map_cons, List.sum_cons, List.length_cons] at ih ⊢
    simp only [Task.rank, TaskPc.rank, MonitorPc.rank]
    omega

/-! ### Healthy states -/

/-- The function did not raise `trio.BrokenResourceError`. -/
def Answer.plain (answer : Answer) : Bool := answer.outcome != .brokenResource

/-- The step runs the function, which raises `trio.BrokenResourceError`. -/
def Action.brokenResource : Action → Bool
  | .worker _ (.execute .brokenResource) => true
  | _ => false

/-- A regular step in which the function, if it runs, does not raise `trio.BrokenResourceError`. -/
def Action.plain (a : Action) : Bool := a.regular && !a.brokenResource

/-- The worker polls, runs a job or writes a plain result: it has not timed out, and is alive. -/
def WorkerPc.serving : WorkerPc → Bool
  | .polling | .executing _ => true
  | .sending answer => answer.plain
  | _ => false

theorem WorkerPc.listening_of_serving {w : WorkerPc} (h : w.serving = true) : w.listening = true := by
  cases w <;> simp_all [WorkerPc.serving, WorkerPc.listening]

/-- The worker serves, `kill()` has not signalled it, and every result frame in its pipe is plain. -/
structure Proc.Healthy (p : Proc) : Prop where
  serving : p.worker.serving = true
  alive : p.killed = false
  answers : ∀ answer ∈ p.answers, answer.plain = true

/-- No dead worker, broken pipe or cancellation led the caller here: it is not asleep after
`EndOfChannel`, and a body that has ended read a plain result. -/
def TaskPc.healthy : TaskPc → Bool
  | .sleeping _ | .closing _ .brokenResource | .closing _ .cancelled => false
  | .closing _ (.value answer) => answer.plain
  | _ => true

/-- The monitor has not seen its process exit. -/
def MonitorPc.healthy : MonitorPc → Bool
  | .ready | .finished true => false
  | _ => true

/-- Every handle is healthy, every caller and its monitor is, with no late cancellation, and every
call that has ended returned the function's outcome. -/
structure Sys.Healthy (s : Sys) : Prop where
  procs : ∀ p ∈ s.procs, p.Healthy
  tasks : ∀ t ∈ s.tasks, t.pc.healthy = true ∧ t.monitor.healthy = true ∧ t.lateCancel = false
  ends : ∀ e ∈ s.ends, ∃ answer, e.2 = .returned answer

namespace Sys.Healthy

variable {s s' : Sys} {i : Nat} {t : Task} (hs : s.Healthy)
include hs

theorem procs_set {proc : Nat} {p' : Proc} (h : p'.Healthy) : ∀ p ∈ s.procs.set proc p', p.Healthy :=
  fun _ hm => (List.mem_or_eq_of_mem_set hm).elim (hs.procs _) fun he => he ▸ h

/-- Caller `i` moves from `t` to a healthy `t'` over `u`, whose workers serve and whose calls
returned. The rank falls when `t'` and `u`'s handles rank below `t` and `s`'s. -/
theorem setTask {u : Sys} {t' : Task} (hi : s.tasks[i]? = some t) (hs' : s' = u.setTask i t')
    (hp : ∀ p ∈ u.procs, p.Healthy) (ht : u.tasks = s.tasks) (he : ∀ e ∈ u.ends, ∃ answer, e.2 = .returned answer)
    (h' : t'.pc.healthy = true ∧ t'.monitor.healthy = true ∧ t'.lateCancel = false)
    (hlt : t'.rank + (u.procs.map Proc.rank).sum < t.rank + (s.procs.map Proc.rank).sum) :
    s'.Healthy ∧ s'.rank < s.rank := by
  subst hs'
  have hsum := sum_map_set Task.rank hi t'
  refine ⟨⟨hp, fun _ hm => ?_, he⟩, ?_⟩
  · rcases List.mem_or_eq_of_mem_set hm with hm | rfl
    · exact hs.tasks _ (ht ▸ hm)
    · exact h'
  · simp only [Sys.rank, Sys.setTask_tasks, Sys.setTask_procs, ht]
    omega

/-- A regular step of caller `i` keeps the state healthy and lowers its rank. -/
theorem task (htr : s.Tracked) (hi : s.tasks[i]? = some t) {a : TaskAction} (hcan : a ≠ .cancel)
    (h : taskStep s i t a = some s') : s'.Healthy ∧ s'.rank < s.rank := by
  obtain ⟨hpc, hmon, hlate⟩ := hs.tasks t (List.getElem?_mem hi)
  cases a with
  | acquire =>
    obtain ⟨hacq, hs'⟩ := taskStep_acquire h
    exact hs.setTask hi hs' hs.procs rfl hs.ends ⟨rfl, hmon, hlate⟩ (by simp [Task.rank, TaskPc.rank, hacq])
  | pop =>
    obtain ⟨hpop, ⟨proc, rest, -, hs'⟩ | ⟨rest, -, hs'⟩⟩ := taskStep_pop h
    · refine hs.setTask hi hs' hs.procs rfl hs.ends ⟨rfl, rfl, hlate⟩ ?_
      simp only [Task.rank, TaskPc.rank, MonitorPc.rank, hpop]
      omega
    · exact hs.setTask hi hs' hs.procs rfl hs.ends ⟨rfl, hmon, hlate⟩ (by simp [Task.rank, TaskPc.rank, hpop])
  | create =>
    obtain ⟨hcr, hs'⟩ := taskStep_create h
    have hp : ∀ p ∈ s.procs ++ [Proc.new], p.Healthy := fun p hm =>
      (List.mem_append.mp hm).elim (hs.procs p) fun he => by
        rw [List.mem_singleton.mp he]
        exact ⟨rfl, rfl, by simp [Proc.new]⟩
    refine hs.setTask hi hs' hp rfl hs.ends ⟨rfl, rfl, hlate⟩ ?_
    simp only [Task.rank, TaskPc.rank, MonitorPc.rank, hcr, List.map_append, List.sum_append, List.map_cons,
      List.map_nil, List.sum_cons, List.sum_nil, Proc.rank, Proc.new, WorkerPc.rank, List.length_nil]
    omega
  | send =>
    obtain ⟨proc, p, hsend, hp, ⟨-, hs'⟩ | ⟨hl, -⟩⟩ := taskStep_send h
    · have hph := hs.procs p (List.getElem?_mem hp)
      have hpr := sum_map_set Proc.rank hp { p with jobs := p.jobs ++ [i] }
      refine hs.setTask hi hs' (hs.procs_set ⟨hph.serving, hph.alive, hph.answers⟩) rfl hs.ends
        ⟨rfl, hmon, hlate⟩ ?_
      simp only [Task.rank, TaskPc.rank, Proc.rank, hsend, Sys.setProc_procs, List.length_append,
        List.length_singleton] at hpr ⊢
      omega
    · simp [WorkerPc.listening_of_serving (hs.procs p (List.getElem?_mem hp)).serving] at hl
  | recv =>
    obtain ⟨proc, p, hrecv, hp, ⟨answer, rest, hans, hs'⟩ | ⟨-, hl, -⟩⟩ := taskStep_recv h
    · have hph := hs.procs p (List.getElem?_mem hp)
      have hpr := sum_map_set Proc.rank hp { p with answers := rest }
      refine hs.setTask hi hs' (hs.procs_set ⟨hph.serving, hph.alive, fun a ha => hph.answers a (by simp [hans, ha])⟩)
        rfl hs.ends ⟨hph.answers answer (by simp [hans]), hmon, hlate⟩ ?_
      simp only [Task.rank, Task.bodyEnd, TaskPc.rank, Proc.rank, hrecv, Sys.setProc_procs] at hpr ⊢
      omega
    · simp [WorkerPc.listening_of_serving (hs.procs p (List.getElem?_mem hp)).serving] at hl
  | cancel => exact absurd rfl hcan
  | nurseryCancel =>
    rcases taskStep_nurseryCancel h with ⟨_, _, hm, -⟩ | ⟨_, _, hm, -⟩ <;> simp [hm, MonitorPc.healthy] at hmon
  | close =>
    obtain ⟨proc, bodyEnd, raised, hcl, hm, hend⟩ := taskStep_close h
    rw [hcl] at hpc
    obtain ⟨answer, rfl⟩ : ∃ answer, bodyEnd = .value answer := by cases bodyEnd <;> simp_all [TaskPc.healthy]
    obtain rfl : raised = false := by cases raised <;> simp_all [MonitorPc.healthy]
    have hret : callEnd false t.lateCancel (.value answer) = some (.returned answer) := by
      simp_all [callEnd, TaskPc.healthy, Answer.plain]
    obtain ⟨hnone, -⟩ | ⟨e, he, hs'⟩ := hend
    · simp [hret] at hnone
    · rw [hret] at he
      cases he
      have hends : ∀ e ∈ s.ends ++ [(i, CallEnd.returned answer)], ∃ answer, e.2 = .returned answer := fun e hm =>
        (List.mem_append.mp hm).elim (hs.ends e) fun he => ⟨answer, by simp_all⟩
      exact hs.setTask hi hs' (by simpa using hs.procs) (by simp) (by simpa using hends) ⟨rfl, rfl, hlate⟩
        (by simp [Task.rank, TaskPc.rank, MonitorPc.rank, hcl, hm])
  | monitorReady =>
    simp only [taskStep] at h
    split at h
    · rename_i proc hh
      split at h
      · rename_i hg
        obtain ⟨p, hp⟩ := htr.held_some hi hh
        have hserv := (hs.procs p (List.getElem?_mem hp)).serving
        cases hw : p.worker <;> simp_all [Sys.isAlive, WorkerPc.serving]
      · cases h
    · cases h
  | monitorRun =>
    simp only [taskStep] at h
    split at h
    · simp_all [MonitorPc.healthy]
    · cases h
  | monitorCancel =>
    simp only [taskStep] at h
    split at h
    · rename_i hg
      exact hs.setTask hi (Option.some.inj h).symm hs.procs rfl hs.ends ⟨hpc, rfl, hlate⟩
        (by simp [Task.rank, MonitorPc.rank, hg.1])
    · cases h

/-- A plain step of the worker of handle `proc` keeps the state healthy and lowers its rank. -/
theorem worker {proc : Nat} {p : Proc} (hp : s.procs[proc]? = some p) {a : WorkerAction}
    (ha : (Action.worker proc a).plain = true) (h : workerStep s proc p a = some s') : s'.Healthy ∧ s'.rank < s.rank := by
  have hph := hs.procs p (List.getElem?_mem hp)
  have hkeep : ∀ (p' : Proc) (r : List Nat), p'.Healthy → p'.rank < p.rank →
      { s.setProc proc p' with reads := r }.Healthy ∧ { s.setProc proc p' with reads := r }.rank < s.rank :=
    fun p' _ h' hlt => by
      have := sum_map_set Proc.rank hp p'
      refine ⟨⟨hs.procs_set h', hs.tasks, hs.ends⟩, ?_⟩
      simp only [Sys.rank, Sys.setProc_tasks, Sys.setProc_procs] at this ⊢
      omega
  cases a with
  | signalled => simp [workerStep, hph.alive] at h
  | crash | idleTimeout => simp [Action.plain, Action.regular] at ha
  | recvJob =>
    simp only [workerStep, workerRun, hph.alive, Bool.false_eq_true, ↓reduceIte] at h
    split at h
    · rename_i job rest hw hjobs
      cases h
      exact hkeep _ _ ⟨rfl, rfl, hph.answers⟩ (by simp [Proc.rank, WorkerPc.rank, hw, hjobs]; omega)
    · cases h
  | execute outcome =>
    have hout : outcome ≠ .brokenResource := by rintro rfl; simp [Action.plain, Action.brokenResource] at ha
    simp only [workerStep, workerRun, hph.alive, Bool.false_eq_true, ↓reduceIte] at h
    split at h
    · rename_i job hw
      cases h
      refine hkeep _ s.reads ⟨?_, rfl, hph.answers⟩ (by simp [Proc.rank, WorkerPc.rank, hw])
      simpa [WorkerPc.serving, Answer.plain] using hout
    · cases h
  | sendAnswer =>
    simp only [workerStep, workerRun, hph.alive, Bool.false_eq_true, ↓reduceIte] at h
    split at h
    · rename_i answer hw
      cases h
      have hplain : answer.plain = true := by simpa [WorkerPc.serving, hw] using hph.serving
      refine hkeep _ s.reads ⟨rfl, rfl, fun a ha => ?_⟩ (by simp [Proc.rank, WorkerPc.rank, hw])
      rcases List.mem_append.mp ha with ha | ha
      · exact hph.answers a ha
      · rwa [List.mem_singleton.mp ha]
    · cases h
  | closePipes | exit =>
    have hserv := hph.serving
    simp only [workerStep, workerRun, hph.alive, Bool.false_eq_true, ↓reduceIte] at h
    split at h
    · simp_all [WorkerPc.serving]
    · cases h

theorem step (htr : s.Tracked) {a : Action} (ha : a.plain = true) (h : Legacy.step s a = some s') :
    s'.Healthy ∧ s'.rank < s.rank := by
  cases a with
  | task i a =>
    simp only [Legacy.step] at h
    split at h
    · exact hs.task htr ‹_› (by rintro rfl; simp [Action.plain, Action.regular] at ha) h
    · cases h
  | worker proc a =>
    simp only [Legacy.step] at h
    split at h
    · exact hs.worker ‹_› ha h
    · cases h

end Sys.Healthy

end Legacy

end TrioParallel
