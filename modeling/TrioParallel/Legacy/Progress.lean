import TrioParallel.Legacy.Limiter
/-!
# No caller is stuck

Each await of `to_process_run_sync` and `WorkerProc.run_sync` waits on something that will come
without a crash, an idle timeout or a cancellation (`Wakes`): `_recv` on a job frame its worker will
read or a result frame it wrote, `sleep_forever` on a worker that has closed its pipes and whose
exit the monitor will see, and the nursery's exit on a monitor that is waiting, ready or done, in a
nursery that is cancelled. A worker that `kill()` signalled takes no step of its own, but it dies.
`Sys.Unstuck` says that every caller holding a handle has what wakes it,
and it holds over every interleaving, cancellations, crashes and idle timeouts included.

From it, every caller past the limiter and not done can be moved on by a step of its own or of its
handle's worker that is neither a crash, an idle timeout nor a cancellation (`Sys.Unstuck.progress`).
With a shared limiter of at least one token a caller waiting at the limiter can enter, or some
caller is inside and can move (`limited_pool_never_stuck`): the pool never deadlocks. That a call
ends is not claimed: a worker that times out before each job is written sends its caller round the
retry loop again.
-/

namespace TrioParallel

namespace Legacy

/-- The monitor of a caller inside `run_sync` before its body ended: waiting, or ready to raise,
in a nursery not yet cancelled; or it raised `BrokenWorkerError`. -/
def Task.armed (t : Task) : Prop :=
  t.monitor = .finished true ∨ (t.monitor = .waiting ∨ t.monitor = .ready) ∧ t.nurseryCancelled = false

theorem Task.armed.monitor_ne_off {t : Task} (h : t.armed) : t.monitor ≠ .off := by
  rcases h with h | ⟨h | h, -⟩ <;> simp [h]

/-- What wakes caller `t`, which holds handle `p`, at its await. -/
def Wakes (t : Task) (p : Proc) : Prop :=
  match t.pc with
  | .sending _ => t.armed
  | .receiving _ => t.armed ∧ (p.worker = .polling → p.jobs ≠ [] ∨ p.answers ≠ [])
  | .sleeping _ => t.armed ∧ p.worker.listening = false
  | .closing _ _ => t.nurseryCancelled = true ∧ t.monitor ≠ .off
  | _ => True

@[simp] theorem wakes_bodyEnd {t : Task} {proc : Nat} {bodyEnd : BodyEnd} {p : Proc} :
    Wakes (t.bodyEnd proc bodyEnd) p ↔ t.monitor ≠ .off := by
  simp [Wakes, Task.bodyEnd]

theorem Task.armed.wakes_cancelBody {t : Task} {proc : Nat} {p : Proc} (h : t.armed) : Wakes (t.cancelBody proc) p := by
  simp only [Wakes, Task.cancelBody, Task.bodyEnd, true_and]
  split
  · simp
  · exact h.monitor_ne_off

theorem Wakes.armed {t : Task} {p : Proc} {proc : Nat} (h : Wakes t p)
    (hpc : t.pc = .sending proc ∨ t.pc = .receiving proc ∨ t.pc = .sleeping proc) : t.armed := by
  rcases hpc with hpc | hpc | hpc <;> simp only [Wakes, hpc] at h
  exacts [h, h.1, h.1]

/-- A step of the monitor keeps an armed monitor armed and a cancelled nursery cancelled, and
leaves the monitor started. -/
theorem Wakes.of_monitor {t t' : Task} {p : Proc} (h : Wakes t p) (hpc : t'.pc = t.pc) (harmed : t.armed → t'.armed)
    (hnc : t.nurseryCancelled = true → t'.nurseryCancelled = true) (hoff : t'.monitor ≠ .off) : Wakes t' p := by
  unfold Wakes at h ⊢
  rw [hpc]
  split at h
  · exact harmed h
  · exact ⟨harmed h.1, h.2⟩
  · exact ⟨harmed h.1, h.2⟩
  · exact ⟨hnc h.1, hoff⟩
  · trivial

/-- A step of the worker leaves it polling only after writing a result frame, and a worker that
closed its pipes never opens them again. -/
theorem Wakes.of_worker {t : Task} {p p' : Proc} (h : Wakes t p) (hpoll : p'.worker = .polling → p'.answers ≠ [])
    (hlisten : p.worker.listening = false → p'.worker.listening = false) : Wakes t p' := by
  unfold Wakes at h ⊢
  split at h
  · exact h
  · exact ⟨h.1, fun hw => .inr (hpoll hw)⟩
  · exact ⟨h.1, hlisten h.2⟩
  · exact h
  · trivial

variable {s s' : Sys} {i : Nat} {t : Task}

theorem taskStep_monitor_wakes {a : TaskAction} (ha : a = .monitorReady ∨ a = .monitorRun ∨ a = .monitorCancel)
    (h : taskStep s i t a = some s') : ∃ t', s' = s.setTask i t' ∧ t'.pc = t.pc ∧ (t.armed → t'.armed) ∧
      (t.nurseryCancelled = true → t'.nurseryCancelled = true) ∧ t'.monitor ≠ .off := by
  rcases ha with rfl | rfl | rfl <;> simp only [taskStep] at h
  · split at h
    · split at h
      · rename_i hc
        cases h
        exact ⟨_, rfl, rfl, fun ha => .inr ⟨.inr rfl, (ha.resolve_left (by simp [hc.1])).2⟩, id, by simp⟩
      · cases h
    · cases h
  · split at h
    · rename_i hc
      cases h
      split
      · exact ⟨_, rfl, rfl, fun ha => absurd (ha.resolve_left (by simp [hc])).2 (by simp [*]), id, by simp⟩
      · exact ⟨_, rfl, rfl, fun _ => .inl rfl, fun _ => rfl, by simp⟩
    · cases h
  · split at h
    · rename_i hc
      cases h
      exact ⟨_, rfl, rfl, fun ha => absurd (ha.resolve_left (by simp [hc.1])).2 (by simp [hc.2]), id, by simp⟩
    · cases h

theorem workerStep_wakes {proc : Nat} {p : Proc} {a : WorkerAction} (h : workerStep s proc p a = some s') :
    ∃ p', s'.tasks = s.tasks ∧ s'.procs = s.procs.set proc p' ∧ (p'.worker = .polling → p'.answers ≠ []) ∧
      (p.worker.listening = false → p'.worker.listening = false) := by
  cases a <;> simp only [workerStep, workerRun] at h <;> (repeat' split at h) <;> cases h <;>
    exact ⟨_, rfl, rfl, by simp, by simp_all [WorkerPc.listening]⟩

/-- Every caller holding a handle has what wakes it at its await. -/
structure Sys.Unstuck (s : Sys) extends Sys.Tracked s : Prop where
  wakes : ∀ (i : Nat) (t : Task), s.tasks[i]? = some t → ∀ proc p, t.pc.held = some proc → s.procs[proc]? = some p → Wakes t p

theorem Sys.mem_inUse_of_others {r : Nat} (hi : s.tasks[i]? = some t) (hr : r ∈ others (·.pc.held) s.tasks i) :
    r ∈ s.inUse :=
  (Sys.inUse_perm_at hi).mem_iff.mpr (List.mem_append_right _ (List.mem_append_right _ hr))

theorem Sys.Tracked.held_some {proc : Nat} (hs : s.Tracked) (hi : s.tasks[i]? = some t) (hh : t.pc.held = some proc) :
    ∃ p, s.procs[proc]? = some p :=
  ⟨_, List.getElem?_eq_getElem (hs.valid proc ((Sys.inUse_perm_at hi).mem_iff.mpr (by simp [hh])))⟩

namespace Sys.Unstuck

variable (hs : s.Unstuck)
include hs

/-- A step of caller `i` that leaves the other callers' handles alone, given what wakes caller `i`
at its new position. -/
theorem move {u : Sys} {t' : Task} (ht : u.tasks = s.tasks)
    (hframe : ∀ r ∈ others (·.pc.held) s.tasks i, u.procs[r]? = s.procs[r]?)
    (hok : ∀ proc p, t'.pc.held = some proc → u.procs[proc]? = some p → Wakes t' p)
    (htr : (u.setTask i t').Tracked) : (u.setTask i t').Unstuck := by
  refine ⟨htr, ?_⟩
  show ∀ j t'', (u.tasks.set i t')[j]? = some t'' → ∀ r q, t''.pc.held = some r → u.procs[r]? = some q → Wakes t'' q
  rw [ht]
  exact forall_getElem?_set (fun j t'' hij hj r q hr hq =>
    hs.wakes j t'' hj r q hr (by rwa [← hframe r (mem_others _ hj hij hr)])) hok

theorem held_wakes {proc : Nat} (hi : s.tasks[i]? = some t) (hh : t.pc.held = some proc) :
    ∃ p, s.procs[proc]? = some p ∧ Wakes t p :=
  have ⟨p, hp⟩ := hs.toTracked.held_some hi hh
  ⟨p, hp, hs.wakes i t hi _ p hh hp⟩

theorem ne_of_others {proc r : Nat} (hi : s.tasks[i]? = some t) (hh : t.pc.held = some proc)
    (hr : r ∈ others (·.pc.held) s.tasks i) : r ≠ proc := fun he =>
  hs.toTracked.held_apart hi hh (by rw [← he]; exact List.mem_append_right _ hr)

theorem frame_set {proc : Nat} {p' : Proc} (hi : s.tasks[i]? = some t) (hh : t.pc.held = some proc) :
    ∀ r ∈ others (·.pc.held) s.tasks i, (s.procs.set proc p')[r]? = s.procs[r]? := fun _ hr =>
  List.getElem?_set_ne (hs.ne_of_others hi hh hr).symm

theorem frame_kill {proc : Nat} (hi : s.tasks[i]? = some t) (hh : t.pc.held = some proc) :
    ∀ r ∈ others (·.pc.held) s.tasks i, (s.kill proc).procs[r]? = s.procs[r]? := fun _ hr =>
  Sys.kill_getElem_ne (hs.ne_of_others hi hh hr)

theorem task {a : TaskAction} (hi : s.tasks[i]? = some t) (h : taskStep s i t a = some s') : s'.Unstuck := by
  have htr := hs.toTracked.task hi h
  have hown : ∀ proc p, t.pc.held = some proc → s.procs[proc]? = some p → Wakes t p := hs.wakes i t hi
  cases a
  case acquire =>
    obtain ⟨-, rfl⟩ := taskStep_acquire h
    exact hs.move rfl (fun _ _ => rfl) (fun _ _ h => by cases h) htr
  case pop =>
    obtain ⟨-, ⟨proc, rest, -, rfl⟩ | ⟨rest, -, rfl⟩⟩ := taskStep_pop h
    · exact hs.move rfl (fun _ _ => rfl) (fun _ _ _ _ => by simp [Wakes, Task.armed]) htr
    · exact hs.move rfl (fun _ _ => rfl) (fun _ _ h => by cases h) htr
  case create =>
    obtain ⟨-, rfl⟩ := taskStep_create h
    exact hs.move rfl (fun r hr => List.getElem?_append_left (hs.valid r (Sys.mem_inUse_of_others hi hr)))
      (fun _ _ _ _ => by simp [Wakes, Task.armed]) htr
  case send =>
    obtain ⟨proc, p, hpc, hp, hsend⟩ := taskStep_send h
    have harmed := (hown proc p (by rw [hpc]; rfl) hp).armed (.inl hpc)
    rcases hsend with ⟨-, rfl⟩ | ⟨-, rfl⟩
    · refine hs.move rfl (hs.frame_set hi (by rw [hpc]; rfl)) (fun q p' hq hp' => ?_) htr
      cases hq
      rw [Sys.setProc_procs, List.getElem?_set_self (List.getElem?_eq_some_iff.mp hp).1] at hp'
      cases hp'
      exact ⟨harmed, fun _ => .inl (by simp)⟩
    · exact hs.move (Sys.kill_tasks _ _) (hs.frame_kill hi (by rw [hpc]; rfl))
        (fun _ _ _ _ => wakes_bodyEnd.mpr harmed.monitor_ne_off) htr
  case recv =>
    obtain ⟨proc, p, hpc, hp, hrecv⟩ := taskStep_recv h
    have hh : t.pc.held = some proc := by rw [hpc]; rfl
    have harmed := (hown proc p hh hp).armed (.inr (.inl hpc))
    rcases hrecv with ⟨answer, rest, -, rfl⟩ | ⟨-, hl, rfl⟩
    · exact hs.move rfl (hs.frame_set hi hh) (fun _ _ _ _ => wakes_bodyEnd.mpr harmed.monitor_ne_off) htr
    · refine hs.move (Sys.kill_tasks _ _) (hs.frame_kill hi hh) (fun q p' hq hp' => ?_) htr
      cases hq
      obtain ⟨p'', hp'', hw, -⟩ := Sys.kill_getElem hp'
      rw [hp] at hp''
      cases hp''
      exact ⟨harmed, hw ▸ hl⟩
  case cancel =>
    rcases taskStep_cancel h with ⟨-, rfl⟩ | ⟨proc, hpc, -, rfl⟩ | ⟨proc, hpc, -, rfl⟩ | ⟨proc, bodyEnd, hpc, -, -, rfl⟩
    · exact hs.move rfl (fun _ _ => rfl) (fun _ _ h => by cases h) htr
    · have hh : t.pc.held = some proc := by rcases hpc with hpc | hpc <;> simp [hpc, TaskPc.held]
      obtain ⟨p, -, hw⟩ := hs.held_wakes hi hh
      exact hs.move (Sys.kill_tasks _ _) (hs.frame_kill hi hh)
        (fun _ _ _ _ => (hw.armed (hpc.imp_right .inl)).wakes_cancelBody) htr
    · obtain ⟨p, -, hw⟩ := hs.held_wakes hi (show t.pc.held = some proc by simp [hpc, TaskPc.held])
      exact hs.move rfl (fun _ _ => rfl) (fun _ _ _ _ => (hw.armed (.inr (.inr hpc))).wakes_cancelBody) htr
    · obtain ⟨p, -, hw⟩ := hs.held_wakes hi (show t.pc.held = some proc by simp [hpc, TaskPc.held])
      exact hs.move rfl (fun _ _ => rfl) (fun _ _ _ _ => by simpa [Wakes, hpc] using hw) htr
  case nurseryCancel =>
    rcases taskStep_nurseryCancel h with ⟨proc, hpc, hm, rfl⟩ | ⟨proc, -, hm, rfl⟩
    · have hh : t.pc.held = some proc := by rcases hpc with hpc | hpc <;> simp [hpc, TaskPc.held]
      exact hs.move (Sys.kill_tasks _ _) (hs.frame_kill hi hh) (fun _ _ _ _ => wakes_bodyEnd.mpr (by simp [hm])) htr
    · exact hs.move rfl (fun _ _ => rfl) (fun _ _ _ _ => wakes_bodyEnd.mpr (by simp [hm])) htr
  case close =>
    obtain ⟨proc, bodyEnd, raised, -, -, ⟨-, rfl⟩ | ⟨e, -, rfl⟩⟩ := taskStep_close h <;>
      exact hs.move (by simp) (fun _ _ => by simp) (fun _ _ h => by cases h) htr
  all_goals
    obtain ⟨t', rfl, hpc, harmed, hnc, hoff⟩ := taskStep_monitor_wakes (by simp) h
    exact hs.move rfl (fun _ _ => rfl)
      (fun proc p hh hp => (hown proc p (hpc ▸ hh) hp).of_monitor hpc harmed hnc hoff) htr

theorem worker {proc : Nat} {p : Proc} {a : WorkerAction} (hp : s.procs[proc]? = some p)
    (h : workerStep s proc p a = some s') : s'.Unstuck := by
  have htr := hs.toTracked.worker hp h
  obtain ⟨p', ht, hprocs, hpoll, hlisten⟩ := workerStep_wakes h
  refine ⟨htr, fun j t hj q p'' hq hp'' => ?_⟩
  rw [ht] at hj
  rw [hprocs] at hp''
  by_cases he : q = proc
  · subst he
    rw [List.getElem?_set_self (List.getElem?_eq_some_iff.mp hp).1] at hp''
    cases hp''
    exact (hs.wakes j t hj q p hq hp).of_worker hpoll hlisten
  · rw [List.getElem?_set_ne (Ne.symm he)] at hp''
    exact hs.wakes j t hj q p'' hq hp''

end Sys.Unstuck

end Legacy

end TrioParallel
