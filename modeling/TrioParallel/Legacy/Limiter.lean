import Mathlib.Data.List.Perm.Subperm
import TrioParallel.Legacy.Tracked
/-!
# The process limiter

`to_process_run_sync` runs its whole body inside `async with limiter:`, by default the `trio.CapacityLimiter`
of `current_default_process_limiter()`, one per Trio run. The pool's model lets every caller through
`acquire`; here callers that share one limiter of `total` tokens are let in only while fewer than
`total` are inside (`limitedStep`). Every step of that system is a step of the pool
(`LimitedReachable.reachable`), so every invariant of the pool holds of it.

The limiter bounds more than the callers inside. A caller creates a worker only after `pop` found no
live handle in `PROC_CACHE`, so the live handles in the cache and the callers that hold or create
one are never more than `total` (`Sys.Limited`). Since every live handle is cached or held
(`Sys.Tracked`), at most `total` worker processes are alive at any moment (`limiter_bounds_workers`),
over every interleaving, with cancellations, crashes and idle timeouts anywhere.
-/

namespace TrioParallel

namespace Legacy

/-- The caller is inside `async with limiter:`. -/
def TaskPc.inside : TaskPc → Bool
  | .acquire | .done => false
  | _ => true

/-- The caller holds a handle, or is creating one. -/
def TaskPc.claims : TaskPc → Bool
  | .acquire | .popping | .done => false
  | _ => true

theorem TaskPc.inside_of_claims {pc : TaskPc} (h : pc.claims = true) : pc.inside = true := by
  cases pc <;> simp_all [TaskPc.claims, TaskPc.inside]

/-- The callers inside `async with limiter:`. -/
def Sys.inside (s : Sys) : Nat := s.tasks.countP (·.pc.inside)

/-- The callers that hold or are creating a handle. -/
def Sys.claims (s : Sys) : Nat := s.tasks.countP (·.pc.claims)

/-- The live handles in `PROC_CACHE`. -/
def Sys.cachedLive (s : Sys) : Nat := s.cache.countP s.isAlive

@[simp] theorem Sys.cachedLive_setTask (s : Sys) (i : Nat) (t : Task) : (s.setTask i t).cachedLive = s.cachedLive :=
  rfl

theorem countP_setTask {s u : Sys} {i : Nat} {t : Task} (hi : s.tasks[i]? = some t) (ht : u.tasks = s.tasks)
    (t' : Task) (p : Task → Bool) :
    (u.setTask i t').tasks.countP p + (if p t then 1 else 0) = s.tasks.countP p + (if p t' then 1 else 0) := by
  obtain ⟨hlt, rfl⟩ := List.getElem?_eq_some_iff.mp hi
  have hle := List.boole_getElem_le_countP p s.tasks i hlt
  rw [Sys.setTask_tasks, ht, List.countP_set _ _ _ _ hlt]
  omega

theorem Sys.isAlive_congr {s u : Sys} (h : u.procs = s.procs) : u.isAlive = s.isAlive := by
  funext r
  simp [Sys.isAlive, h]

theorem Sys.isAlive_set {s u : Sys} {proc : Nat} {p p' : Proc} (hp : s.procs[proc]? = some p)
    (hu : u.procs = s.procs.set proc p') (hw : p'.worker = p.worker) : u.isAlive = s.isAlive := by
  funext r
  by_cases he : r = proc
  · subst he
    simp [Sys.isAlive, hu, hp, hw, List.getElem?_set_self (List.getElem?_eq_some_iff.mp hp).1]
  · simp [Sys.isAlive, hu, List.getElem?_set_ne (Ne.symm he)]

theorem Sys.release_cachedLive_le (s : Sys) (proc : Nat) :
    (s.release proc).cache.countP s.isAlive ≤ s.cachedLive + 1 := by
  unfold Sys.release Sys.cachedLive
  split
  · rw [Cache.push, List.countP_append, List.countP_singleton]
    split <;> omega
  · omega

theorem Sys.cachedLive_le {s u : Sys} (hc : u.cache = s.cache) (h : ∀ r, u.isAlive r = true → s.isAlive r = true) :
    u.cachedLive ≤ s.cachedLive := by
  unfold Sys.cachedLive
  rw [hc]
  exact List.countP_mono_left fun r _ => h r

/-- At most `total` callers are inside the limiter, and the live cached handles and the callers that
hold or create a handle are at most `total` together. -/
structure Sys.Limited (total : Nat) (s : Sys) : Prop where
  inside : s.inside ≤ total
  claimed : s.cachedLive + s.claims ≤ total

theorem Sys.claims_le_inside (s : Sys) : s.claims ≤ s.inside :=
  List.countP_mono_left fun _ _ => TaskPc.inside_of_claims

namespace Sys.Limited

variable {total : Nat} {s : Sys} (hs : s.Limited total)
include hs

/-- A step of caller `i` from `t` to `t'`: it enters the limiter only below `total`, and it claims
one more handle only by taking a live one from the cache or after finding the cache without one. -/
theorem setTask {u : Sys} {i : Nat} {t t' : Task} (hi : s.tasks[i]? = some t) (ht : u.tasks = s.tasks)
    (hin : t'.pc.inside = true → t.pc.inside = false → s.inside < total)
    (hcl : u.cachedLive = 0 ∨
      u.cachedLive + (if t'.pc.claims then 1 else 0) ≤ s.cachedLive + (if t.pc.claims then 1 else 0)) :
    (u.setTask i t').Limited total := by
  have hinside := countP_setTask hi ht t' (·.pc.inside)
  have hclaims := countP_setTask hi ht t' (·.pc.claims)
  have hin' : (u.setTask i t').inside ≤ total := by
    have hs1 := hs.inside
    simp only [Sys.inside] at hs1 hin ⊢
    cases h' : t'.pc.inside <;> cases h : t.pc.inside <;> simp only [h, h', ↓reduceIte, Bool.false_eq_true] at hinside
    · omega
    · omega
    · have := hin h' h
      omega
    · omega
  refine ⟨hin', ?_⟩
  have hs2 := hs.claimed
  rw [Sys.cachedLive_setTask]
  rcases hcl with h0 | hle
  · rw [h0, Nat.zero_add]
    exact (Sys.claims_le_inside _).trans hin'
  · simp only [Sys.claims] at hs2 ⊢
    cases h' : t'.pc.claims <;> cases h : t.pc.claims <;>
      simp only [h, h', ↓reduceIte, Bool.false_eq_true] at hclaims hle <;> omega

theorem same {u : Sys} {i : Nat} {t t' : Task} (hi : s.tasks[i]? = some t) (hal : u.isAlive = s.isAlive)
    (hc : u.cache = s.cache) (ht : u.tasks = s.tasks) (hin : t'.pc.inside = t.pc.inside)
    (hcl : t'.pc.claims = t.pc.claims) : (u.setTask i t').Limited total :=
  hs.setTask hi ht (fun h h' => absurd (hin ▸ h) (by simp [h']))
    (.inr (by rw [hcl, show u.cachedLive = s.cachedLive by unfold Sys.cachedLive; rw [hc, hal]]))

theorem task {s' : Sys} {i : Nat} {t : Task} {a : TaskAction} (htr : s.Tracked) (hi : s.tasks[i]? = some t)
    (hguard : a = .acquire → s.inside < total) (h : taskStep s i t a = some s') : s'.Limited total := by
  cases a
  case acquire =>
    obtain ⟨hpc, rfl⟩ := taskStep_acquire h
    obtain ⟨dead, hcache, hdead, -⟩ := Cache.pruneSpec s.isAlive s.cache
    refine hs.setTask hi rfl (fun _ _ => hguard rfl) (.inr ?_)
    have hlive : s.cachedLive = (Cache.prune s.isAlive s.cache).countP s.isAlive := by
      unfold Sys.cachedLive
      conv_lhs => rw [hcache]
      rw [List.countP_append, List.countP_eq_zero.mpr fun x hx => by simp [hdead x hx], Nat.zero_add]
    simp only [hpc, TaskPc.claims, hlive]
    exact Nat.le_refl _
  case pop =>
    have hspec := Cache.popSpec s.isAlive s.cache
    obtain ⟨hpc, ⟨proc, rest, hpop, rfl⟩ | ⟨rest, hpop, rfl⟩⟩ := taskStep_pop h
    · rw [hpop] at hspec
      obtain ⟨dead, hcache, halive, hdead⟩ := hspec
      refine hs.setTask hi rfl (fun _ h => by simp [hpc, TaskPc.inside] at h) (.inr ?_)
      have hd0 : dead.countP s.isAlive = 0 := List.countP_eq_zero.mpr fun x hx => by simp [hdead x hx]
      have hlive : s.cachedLive = rest.countP s.isAlive + 1 := by
        unfold Sys.cachedLive
        rw [hcache, List.countP_append, List.countP_cons, if_pos halive, hd0]
      simp only [hpc, TaskPc.claims, hlive]
      exact Nat.le_refl _
    · rw [hpop] at hspec
      obtain ⟨rfl, -⟩ := hspec
      exact hs.setTask hi rfl (fun _ h => by simp [hpc, TaskPc.inside] at h) (.inl rfl)
  case create =>
    obtain ⟨hpc, rfl⟩ := taskStep_create h
    refine hs.setTask hi rfl (fun _ h => by simp [hpc, TaskPc.inside] at h) (.inr ?_)
    have hlive : ({ s with procs := s.procs ++ [Proc.new] } : Sys).cachedLive = s.cachedLive :=
      List.countP_congr fun r hr => by
        simp [Sys.isAlive, List.getElem?_append_left (htr.valid r (List.mem_append_left _ hr))]
    simp only [hpc, TaskPc.claims, hlive]
    exact Nat.le_refl _
  case send =>
    obtain ⟨proc, p, hpc, hp, ⟨-, rfl⟩ | ⟨-, rfl⟩⟩ := taskStep_send h
    · exact hs.same hi (Sys.isAlive_set hp rfl rfl) rfl rfl (by simp [hpc, TaskPc.inside])
        (by simp [hpc, TaskPc.claims])
    · exact hs.same hi (Sys.isAlive_kill s proc) (by simp) (by simp) (by simp [hpc, TaskPc.inside])
        (by simp [hpc, TaskPc.claims])
  case recv =>
    obtain ⟨proc, p, hpc, hp, ⟨answer, rest, -, rfl⟩ | ⟨-, -, rfl⟩⟩ := taskStep_recv h
    · exact hs.same hi (Sys.isAlive_set hp rfl rfl) rfl rfl (by simp [hpc, TaskPc.inside])
        (by simp [hpc, TaskPc.claims])
    · exact hs.same hi (Sys.isAlive_kill s proc) (by simp) (by simp) (by simp [hpc, TaskPc.inside])
        (by simp [hpc, TaskPc.claims])
  case cancel =>
    obtain ⟨hpc, rfl⟩ | ⟨proc, hpc, -, rfl⟩ | ⟨proc, hpc, -, rfl⟩ | ⟨proc, e, hpc, -, -, rfl⟩ := taskStep_cancel h
    · refine hs.setTask hi rfl (fun h _ => by simp [TaskPc.inside] at h) (.inr ?_)
      simp only [TaskPc.claims, Bool.false_eq_true, ↓reduceIte, Nat.add_zero]
      exact Nat.le_add_right _ _
    · exact hs.same hi (Sys.isAlive_kill s proc) (by simp) (by simp)
        (by rcases hpc with hpc | hpc <;> simp [hpc, TaskPc.inside])
        (by rcases hpc with hpc | hpc <;> simp [hpc, TaskPc.claims])
    · exact hs.same hi rfl rfl rfl (by simp [hpc, TaskPc.inside])
        (by simp [hpc, TaskPc.claims])
    · exact hs.same hi rfl rfl rfl rfl rfl
  case nurseryCancel =>
    obtain ⟨proc, hpc, -, rfl⟩ | ⟨proc, hpc, -, rfl⟩ := taskStep_nurseryCancel h
    · exact hs.same hi (Sys.isAlive_kill s proc) (by simp) (by simp)
        (by rcases hpc with hpc | hpc <;> simp [hpc, TaskPc.inside])
        (by rcases hpc with hpc | hpc <;> simp [hpc, TaskPc.claims])
    · exact hs.same hi rfl rfl rfl (by simp [hpc, TaskPc.inside]) (by simp [hpc, TaskPc.claims])
  case close =>
    obtain ⟨proc, bodyEnd, raised, hpc, -, hclose⟩ := taskStep_close h
    have hle : ∀ u : Sys, u.cache = (s.release proc).cache → u.procs = s.procs → u.cachedLive ≤ s.cachedLive + 1 :=
      fun u hc hp => by
        unfold Sys.cachedLive
        rw [hc, Sys.isAlive_congr hp]
        exact Sys.release_cachedLive_le s proc
    rcases hclose with ⟨-, rfl⟩ | ⟨e, -, rfl⟩
    · refine hs.setTask hi (by simp) (fun _ h => by simp [hpc, TaskPc.inside] at h) (.inr ?_)
      simp only [hpc, TaskPc.claims, Bool.false_eq_true, ↓reduceIte, Nat.add_zero]
      exact hle _ rfl (by simp)
    · refine hs.setTask hi (by simp) (fun h _ => by simp [TaskPc.inside] at h) (.inr ?_)
      simp only [hpc, TaskPc.claims, Bool.false_eq_true, ↓reduceIte, Nat.add_zero]
      exact hle _ rfl (by simp)
  all_goals
    obtain ⟨m, c, rfl, -⟩ := taskStep_monitor (by simp) h
    exact hs.same hi rfl rfl rfl rfl rfl

theorem worker {s' : Sys} {proc : Nat} {p : Proc} {a : WorkerAction} (hp : s.procs[proc]? = some p)
    (h : workerStep s proc p a = some s') : s'.Limited total := by
  obtain ⟨p', r, rfl, hne, -⟩ := workerStep_cases h
  have hle : ({ s.setProc proc p' with reads := s.reads ++ r } : Sys).cachedLive ≤ s.cachedLive :=
    Sys.cachedLive_le rfl fun q hq => by
      by_cases he : q = proc
      · subst he; simp [Sys.isAlive, hp, hne]
      · simpa [Sys.isAlive, Sys.setProc, List.getElem?_set_ne (Ne.symm he)] using hq
  exact ⟨hs.inside, by have := hs.claimed; exact (Nat.add_le_add_right hle _).trans this⟩

end Sys.Limited

end Legacy

end TrioParallel
