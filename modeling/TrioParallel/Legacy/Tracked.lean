import TrioParallel.Legacy.Steps
/-!
# Where each handle is

`Sys.inUse` lists the handles in `PROC_CACHE` and those a caller holds, from `pop` or creation to
the `finally` of `to_process_run_sync`. `Sys.Tracked` says that no handle is listed twice, that
each listed handle exists, and that a handle listed nowhere has exited. So no handle is in the cache
twice, held by two callers, or both held and cached, and no live worker is lost (`handles_placed`).

This holds over every interleaving, cancellations of cancellable callers included. What a cancelled
caller can leave behind is a stale result in a handle's pipe, which is a fact about what a handle
holds, not where it is; `Sys.Owned` adds that layer.
-/

namespace TrioParallel

namespace Legacy

/-- The handles in `PROC_CACHE` or held by a caller. -/
def Sys.inUse (s : Sys) : List Nat := s.cache ++ s.tasks.filterMap (·.pc.held)

theorem init_inUse (cancellable : List Bool) : (init cancellable).inUse = [] := by
  simp only [Sys.inUse, init, List.nil_append, List.filterMap_eq_nil_iff, List.mem_map]
  rintro _ ⟨c, -, rfl⟩
  rfl

theorem Sys.inUse_perm_at {s : Sys} {i : Nat} {t : Task} (hi : s.tasks[i]? = some t) :
    s.inUse.Perm (t.pc.held.toList ++ (s.cache ++ others (·.pc.held) s.tasks i)) :=
  ((filterMap_perm_at _ hi).append_left s.cache).trans (List.perm_append_comm_assoc _ _ _)

theorem Sys.inUse_setTask_perm {s u : Sys} {i : Nat} (hlt : i < s.tasks.length) (ht : u.tasks = s.tasks)
    (t' : Task) : (u.setTask i t').inUse.Perm (t'.pc.held.toList ++ (u.cache ++ others (·.pc.held) s.tasks i)) := by
  show (u.cache ++ (u.tasks.set i t').filterMap (·.pc.held)).Perm _
  rw [ht]
  exact ((filterMap_set_perm _ hlt t').append_left u.cache).trans (List.perm_append_comm_assoc _ _ _)

theorem Sys.exited_of_not_isAlive {s : Sys} {proc : Nat} {p : Proc} (hp : s.procs[proc]? = some p)
    (h : s.isAlive proc = false) : p.worker = .exited := by
  simpa [Sys.isAlive, hp] using h

/-- No handle is listed twice, every listed handle exists, and a handle listed nowhere has
exited. -/
structure Sys.Tracked (s : Sys) : Prop where
  nodup : s.inUse.Nodup
  valid : ∀ proc ∈ s.inUse, proc < s.procs.length
  loose : ∀ proc p, s.procs[proc]? = some p → proc ∉ s.inUse → p.worker = .exited

theorem init_tracked (cancellable : List Bool) : (init cancellable).Tracked :=
  ⟨by rw [init_inUse]; exact List.nodup_nil, by simp [init_inUse], by simp [init]⟩

namespace Sys.Tracked

variable {s : Sys} (hs : s.Tracked)
include hs

/-- A held handle is in neither the cache nor another caller's hands. -/
theorem held_apart {i proc : Nat} {t : Task} (hi : s.tasks[i]? = some t) (hh : t.pc.held = some proc) :
    proc ∉ s.cache ++ others (·.pc.held) s.tasks i := by
  have hnd := (Sys.inUse_perm_at hi).nodup_iff.mp hs.nodup
  rw [hh, Option.toList_some, List.singleton_append, List.nodup_cons] at hnd
  exact hnd.1

/-- A step of caller `i` that moves handles between its hands and the cache, and drops dead ones. -/
theorem move {u : Sys} {i : Nat} {t t' : Task} (hi : s.tasks[i]? = some t) (hp : u.procs = s.procs)
    (ht : u.tasks = s.tasks) (dead : List Nat)
    (hmove : (t'.pc.held.toList ++ (u.cache ++ dead)).Perm (t.pc.held.toList ++ s.cache))
    (hdead : ∀ r ∈ dead, s.isAlive r = false) : (u.setTask i t').Tracked := by
  have hperm : ((u.setTask i t').inUse ++ dead).Perm s.inUse := by
    refine ((Sys.inUse_setTask_perm (List.getElem?_eq_some_iff.mp hi).1 ht t').append_right dead).trans ?_
    refine List.Perm.trans ?_ (((hmove.append_right _).trans (by rw [List.append_assoc])).trans
      (Sys.inUse_perm_at hi).symm)
    simp only [List.append_assoc]
    exact .append_left _ (.append_left _ List.perm_append_comm)
  refine ⟨(hperm.nodup_iff.mpr hs.nodup).sublist (List.sublist_append_left _ _), fun r hr => ?_,
    fun r q hq hn => ?_⟩
  · rw [Sys.setTask_procs, hp]
    exact hs.valid r (hperm.subset (List.mem_append_left _ hr))
  · rw [Sys.setTask_procs, hp] at hq
    by_cases hr : r ∈ dead
    · exact Sys.exited_of_not_isAlive hq (hdead r hr)
    · exact hs.loose r q hq fun hm => (List.mem_append.mp (hperm.mem_iff.mpr hm)).elim hn hr

theorem setTask {u : Sys} {i : Nat} {t t' : Task} (hi : s.tasks[i]? = some t) (hp : u.procs = s.procs)
    (hc : u.cache = s.cache) (ht : u.tasks = s.tasks) (hheld : t'.pc.held = t.pc.held) :
    (u.setTask i t').Tracked :=
  hs.move hi hp ht [] (by rw [hc, hheld, List.append_nil]) (by simp)

/-- Handle `proc` changes, in a step of its worker or of the caller that holds it; a handle that is
neither cached nor held can only die. -/
theorem setProc {u : Sys} {proc : Nat} {p' : Proc} (hp : u.procs = s.procs.set proc p')
    (hc : u.cache = s.cache) (ht : u.tasks = s.tasks) (hlive : proc ∉ s.inUse → p'.worker = .exited) :
    u.Tracked := by
  have hin : u.inUse = s.inUse := by simp only [Sys.inUse, hc, ht]
  refine ⟨hin ▸ hs.nodup, fun r hr => ?_, fun r q hq hn => ?_⟩
  · rw [hp, List.length_set]
    exact hs.valid r (hin ▸ hr)
  · rw [hin] at hn
    by_cases he : r = proc
    · subst he
      rw [hp, List.getElem?_set_self'] at hq
      obtain ⟨-, -, rfl⟩ := Option.map_eq_some'.mp hq
      exact hlive hn
    · rw [hp, List.getElem?_set_ne (Ne.symm he)] at hq
      exact hs.loose r q hq hn

theorem kill (proc : Nat) : (s.kill proc).Tracked := by
  rcases s.kill_eq proc with h | ⟨p, hp, h⟩ <;> rw [h]
  · exact hs
  · exact hs.setProc rfl rfl rfl fun hn => hs.loose proc p hp hn

theorem setProcTask {u : Sys} {i proc : Nat} {t t' : Task} {p' : Proc} (hi : s.tasks[i]? = some t)
    (hh : t.pc.held = some proc) (hp : u.procs = s.procs.set proc p') (hc : u.cache = s.cache)
    (ht : u.tasks = s.tasks) (hheld : t'.pc.held = some proc) : (u.setTask i t').Tracked :=
  have hin : proc ∈ s.inUse := (Sys.inUse_perm_at hi).mem_iff.mpr (by simp [hh])
  (hs.setProc hp hc ht fun hn => absurd hin hn).setTask (ht ▸ hi) rfl rfl rfl (hheld.trans hh.symm)

theorem create {i : Nat} {t : Task} (hi : s.tasks[i]? = some t) (hpc : t.pc = .creating) :
    ({ s with procs := s.procs ++ [Proc.new] }.setTask i
      { t with pc := .sending s.procs.length, monitor := .waiting, nurseryCancelled := false }).Tracked := by
  have hnew : s.procs.length ∉ s.inUse := fun h => Nat.lt_irrefl _ (hs.valid _ h)
  have hperm : ({ s with procs := s.procs ++ [Proc.new] }.setTask i
      { t with pc := .sending s.procs.length, monitor := .waiting, nurseryCancelled := false }).inUse.Perm
      (s.procs.length :: s.inUse) :=
    (Sys.inUse_setTask_perm (List.getElem?_eq_some_iff.mp hi).1 rfl _).trans
      (by simp only [TaskPc.held, Option.toList_some, List.singleton_append, hpc]
          exact .cons _ (by simpa [hpc, TaskPc.held] using (Sys.inUse_perm_at hi).symm))
  refine ⟨hperm.nodup_iff.mpr (List.nodup_cons.mpr ⟨hnew, hs.nodup⟩), fun r hr => ?_, fun r q hq hn => ?_⟩
  · have hlt : r = s.procs.length ∨ r < s.procs.length :=
      (List.mem_cons.mp (hperm.subset hr)).imp_right (hs.valid r)
    simp only [Sys.setTask_procs, List.length_append, List.length_singleton]
    omega
  · have hr : r ≠ s.procs.length := fun he => hn (hperm.mem_iff.mpr (he ▸ List.mem_cons_self _ _))
    have hlt : r < s.procs.length := by
      have := (List.getElem?_eq_some_iff.mp hq).1
      simp only [Sys.setTask_procs, List.length_append, List.length_singleton] at this
      omega
    rw [Sys.setTask_procs, List.getElem?_append_left hlt] at hq
    exact hs.loose r q hq fun hm => hn (hperm.mem_iff.mpr (List.mem_cons_of_mem _ hm))

/-- The `finally` of `to_process_run_sync`: caller `i` lets go of its handle, which goes back to the
cache when it is alive and is dropped when it is dead. -/
theorem putBack {u : Sys} {i proc : Nat} {t t' : Task} (hi : s.tasks[i]? = some t) (hh : t.pc.held = some proc)
    (hp : u.procs = s.procs) (ht : u.tasks = s.tasks) (hc : u.cache = (s.release proc).cache)
    (hheld : t'.pc.held = none) : (u.setTask i t').Tracked := by
  unfold Sys.release at hc
  split at hc
  · refine hs.move hi hp ht [] ?_ (by simp)
    rw [hheld, hc, hh]
    show (s.cache ++ [proc] ++ []).Perm (proc :: s.cache)
    rw [List.append_nil]
    exact List.perm_append_singleton _ _
  · rename_i hdead
    refine hs.move hi hp ht [proc] ?_ (by simpa using hdead)
    rw [hheld, hc, hh]
    exact List.perm_append_singleton _ _

theorem task {s' : Sys} {i : Nat} {t : Task} {a : TaskAction} (hi : s.tasks[i]? = some t)
    (h : taskStep s i t a = some s') : s'.Tracked := by
  cases a
  case acquire =>
    obtain ⟨hpc, rfl⟩ := taskStep_acquire h
    obtain ⟨dead, hcache, hdead, -⟩ := Cache.pruneSpec s.isAlive s.cache
    refine hs.move hi rfl rfl dead ?_ hdead
    rw [hpc]
    conv_rhs => rw [hcache]
    show (Cache.prune s.isAlive s.cache ++ dead).Perm (dead ++ Cache.prune s.isAlive s.cache)
    exact List.perm_append_comm
  case pop =>
    have hspec := Cache.popSpec s.isAlive s.cache
    obtain ⟨hpc, ⟨proc, rest, hpop, rfl⟩ | ⟨rest, hpop, rfl⟩⟩ := taskStep_pop h
    · rw [hpop] at hspec
      obtain ⟨dead, hcache, -, hdead⟩ := hspec
      refine hs.move hi rfl rfl dead ?_ hdead
      rw [hpc]
      conv_rhs => rw [hcache]
      show (proc :: (rest ++ dead)).Perm (rest ++ proc :: dead)
      exact List.perm_middle.symm
    · rw [hpop] at hspec
      obtain ⟨rfl, hdead⟩ := hspec
      exact hs.move hi rfl rfl s.cache (by rw [hpc]; rfl) hdead
  case create =>
    obtain ⟨hpc, rfl⟩ := taskStep_create h
    exact hs.create hi hpc
  case send =>
    obtain ⟨proc, p, hpc, -, ⟨-, rfl⟩ | ⟨-, rfl⟩⟩ := taskStep_send h
    · exact hs.setProcTask hi (by rw [hpc]; rfl) rfl rfl rfl rfl
    · exact (hs.kill proc).setTask (by simpa using hi) rfl rfl rfl (by simp [hpc, TaskPc.held])
  case recv =>
    obtain ⟨proc, p, hpc, -, ⟨-, -, -, rfl⟩ | ⟨-, -, rfl⟩⟩ := taskStep_recv h
    · exact hs.setProcTask hi (by rw [hpc]; rfl) rfl rfl rfl rfl
    · exact (hs.kill proc).setTask (by simpa using hi) rfl rfl rfl (by simp [hpc, TaskPc.held])
  case cancel =>
    obtain ⟨hpc, rfl⟩ | ⟨proc, hpc, -, rfl⟩ | ⟨proc, hpc, -, rfl⟩ | ⟨proc, e, hpc, -, -, rfl⟩ := taskStep_cancel h
    · exact hs.setTask hi rfl rfl rfl (by rcases hpc with hpc | hpc <;> simp [hpc, TaskPc.held])
    · exact (hs.kill proc).setTask (by simpa using hi) rfl rfl rfl
        (by rcases hpc with hpc | hpc <;> simp [hpc, TaskPc.held])
    · exact hs.setTask hi rfl rfl rfl (by simp [hpc, TaskPc.held])
    · exact hs.setTask hi rfl rfl rfl rfl
  case nurseryCancel =>
    obtain ⟨proc, hpc, -, rfl⟩ | ⟨proc, hpc, -, rfl⟩ := taskStep_nurseryCancel h
    · exact (hs.kill proc).setTask (by simpa using hi) rfl rfl rfl
        (by rcases hpc with hpc | hpc <;> simp [hpc, TaskPc.held])
    · exact hs.setTask hi rfl rfl rfl (by simp [hpc, TaskPc.held])
  case close =>
    obtain ⟨proc, bodyEnd, raised, hpc, -, ⟨-, rfl⟩ | ⟨e, -, rfl⟩⟩ := taskStep_close h <;>
      exact hs.putBack hi (by rw [hpc]; rfl) (by simp) (by simp) rfl rfl
  all_goals
    obtain ⟨m, c, rfl, -⟩ := taskStep_monitor (by simp) h
    exact hs.setTask hi rfl rfl rfl rfl

theorem worker {s' : Sys} {proc : Nat} {p : Proc} {a : WorkerAction} (hp : s.procs[proc]? = some p)
    (h : workerStep s proc p a = some s') : s'.Tracked := by
  obtain ⟨p', r, rfl, hne, -⟩ := workerStep_cases h
  exact hs.setProc rfl rfl rfl fun hn => absurd (hs.loose proc p hp hn) hne

end Sys.Tracked

theorem step_tracked {s s' : Sys} {a : Action} (hs : s.Tracked) (h : step s a = some s') : s'.Tracked :=
  (step_cases h).elim (fun ⟨_, _, _, hi, h⟩ => hs.task hi h) fun ⟨_, _, _, hp, h⟩ => hs.worker hp h

theorem reachable_tracked {s : Sys} (h : Reachable s) : s.Tracked := by
  induction h with
  | init c => exact init_tracked c
  | step _ hstep ih => exact step_tracked ih hstep

/-- Over every interleaving, with cancellations of cancellable callers, crashes and idle timeouts
anywhere: no handle is in `PROC_CACHE` twice, held by two callers, or both held and cached, and a
handle that is neither cached nor held has exited. -/
theorem handles_placed {s : Sys} (h : Reachable s) :
    (s.cache ++ s.tasks.filterMap (·.pc.held)).Nodup ∧
      ∀ proc p, s.procs[proc]? = some p → proc ∉ s.cache → (∀ t ∈ s.tasks, t.pc.held ≠ some proc) →
        p.worker = .exited := by
  have ht := reachable_tracked h
  refine ⟨ht.nodup, fun proc p hp hc hh => ht.loose proc p hp fun hm => ?_⟩
  rcases List.mem_append.mp hm with hm | hm
  · exact hc hm
  · obtain ⟨t, ht, hheld⟩ := List.mem_filterMap.mp hm
    exact hh t ht hheld

/-- Caller 0 runs a job on a new worker and pushes it back; the worker dies in the cache; caller 1,
which passed `cancellable=True`, prunes it away and creates another. -/
def traceDeadCached : List Action :=
  [.task 0 .acquire, .task 0 .pop, .task 0 .create, .task 0 .send, .worker 0 .recvJob, .worker 0 (.execute .value),
   .worker 0 .sendAnswer, .task 0 .recv, .task 0 .monitorCancel, .task 0 .close, .worker 0 .crash,
   .task 1 .acquire, .task 1 .pop, .task 1 .create]

theorem handles_placed_pruned :
    ∃ s, run (init [false, true]) traceDeadCached = some s ∧ s.cache = [] ∧
      s.tasks.filterMap (·.pc.held) = [1] ∧ s.procs.map (·.worker) = [.exited, .polling] ∧
      (s.cache ++ s.tasks.filterMap (·.pc.held)).Nodup ∧
      ∀ proc p, s.procs[proc]? = some p → proc ∉ s.cache → (∀ t ∈ s.tasks, t.pc.held ≠ some proc) →
        p.worker = .exited := by
  obtain ⟨s, hrun, hcache, hheld, hworkers⟩ : ∃ s, run (init [false, true]) traceDeadCached = some s ∧
      s.cache = [] ∧ s.tasks.filterMap (·.pc.held) = [1] ∧ s.procs.map (·.worker) = [.exited, .polling] :=
    ⟨_, rfl, rfl, rfl, rfl⟩
  exact ⟨s, hrun, hcache, hheld, hworkers, handles_placed (reachable_of_run (.init _) hrun)⟩

end Legacy

end TrioParallel
