import TrioParallel.Legacy.Tracked
/-!
# Whose outcome a call returns

A handle's tokens are the job frames in its pipe, the job in its worker's hand and the result frames
in its result pipe. `Sys.Owned` adds to where the handles are (`Sys.Tracked`) what they hold: when no
caller passed `cancellable=True`, a cached handle holds no token and a held one only its caller's, at
most one. So every value a call returns is the outcome of its own job (`shielded_calls_own_outcome`).

A cancellable caller breaks this. `run_sync` kills the process when the caller is cancelled, but the
`finally` of `to_process_run_sync` pushes the handle back whenever `is_alive()` still holds, and it
does until the signal takes effect. A result written before the cancellation then waits in the pipe
for the next caller (`stale_outcome_returned`).
-/

namespace TrioParallel

namespace Legacy

/-- What caller `i` may find on the handle it holds, by its position: no token, or only its own. -/
def PcOk (i : Nat) : TaskPc → Proc → Prop
  | .sending _, p | .sleeping _, p | .closing _ .brokenResource, p => p.tokens = []
  | .receiving _, p => p.tokens.Subperm [i]
  | .closing _ (.value answer), p => answer.job = i ∧ p.tokens = []
  | .closing _ .cancelled, p => p.worker = .exited
  | _, _ => True

/-- Caller `i` at `t` and its handle `p`: its monitor claims an exit only after the process has
exited, and the handle holds what the caller's position allows. -/
structure HeldOk (i : Nat) (t : Task) (p : Proc) : Prop where
  monitor : t.monitor = .ready ∨ t.monitor = .finished true → p.worker = .exited
  pc : PcOk i t.pc p

/-- Without a cancellable caller, on top of where the handles are: a closed pipe is empty; a cached
handle holds no token; a held handle holds what its caller's position allows; and every call that
returned got its own job's outcome. -/
structure Sys.Owned (s : Sys) extends Sys.Tracked s : Prop where
  shielded : ∀ t ∈ s.tasks, t.cancellable = false
  closed : ∀ p ∈ s.procs, p.worker.listening = false → p.jobs = []
  cached : ∀ proc ∈ s.cache, ∃ p, s.procs[proc]? = some p ∧ p.tokens = []
  held : ∀ i t, s.tasks[i]? = some t → ∀ proc, t.pc.held = some proc → ∃ p, s.procs[proc]? = some p ∧ HeldOk i t p
  ends : ∀ i answer, (i, CallEnd.returned answer) ∈ s.ends → answer.job = i

theorem init_owned {cancellable : List Bool} (hc : ∀ c ∈ cancellable, c = false) : (init cancellable).Owned := by
  refine ⟨init_tracked _, fun t ht => ?_, by simp [init], by simp [init], fun i t hi proc hh => ?_, by simp [init]⟩
  · obtain ⟨c, hmem, rfl⟩ := List.mem_map.mp ht
    exact hc c hmem
  · obtain ⟨c, -, rfl⟩ := List.mem_map.mp (List.getElem?_mem hi)
    cases hh

/-- A worker step that needs a live process and keeps or loses tokens keeps what a caller's
position allows. -/
theorem PcOk.of_tokens {i : Nat} {pc : TaskPc} {p p' : Proc} (h : PcOk i pc p) (hne : p.worker ≠ .exited)
    (htok : p'.tokens.Subperm p.tokens) : PcOk i pc p' := by
  cases pc with
  | sending _ | sleeping _ => exact List.subperm_nil.mp (h ▸ htok)
  | receiving _ => exact htok.trans h
  | closing _ bodyEnd =>
    cases bodyEnd with
    | value answer => exact ⟨h.1, List.subperm_nil.mp (h.2 ▸ htok)⟩
    | brokenResource => exact List.subperm_nil.mp (h ▸ htok)
    | cancelled => exact absurd h hne
  | _ => trivial

theorem HeldOk.congr {i : Nat} {t : Task} {p p' : Proc} (h : HeldOk i t p) (hw : p'.worker = p.worker)
    (htok : p'.tokens = p.tokens) : HeldOk i t p' := by
  refine ⟨fun hm => hw.trans (h.monitor hm), ?_⟩
  have hpc := h.pc
  cases hc : t.pc with
  | sending _ | sleeping _ | receiving _ => rw [hc] at hpc; simpa only [PcOk, htok] using hpc
  | closing _ bodyEnd =>
    rw [hc] at hpc
    cases bodyEnd <;> simpa only [PcOk, htok, hw] using hpc
  | _ => trivial

namespace Sys.Owned

variable {s : Sys} (hs : s.Owned)
include hs

theorem shielded_setTask {u : Sys} {i : Nat} {t t' : Task} (hi : s.tasks[i]? = some t) (ht : u.tasks = s.tasks)
    (hcan : t'.cancellable = t.cancellable) : ∀ t'' ∈ (u.setTask i t').tasks, t''.cancellable = false := by
  intro t'' h
  rcases List.mem_or_eq_of_mem_set (ht ▸ h : t'' ∈ s.tasks.set i t') with h | rfl
  · exact hs.shielded t'' h
  · exact hcan.trans (hs.shielded t (List.getElem?_mem hi))

/-- A step of caller `i` that leaves what the handles hold alone, given where the handles now are:
the cache holds only empty handles, and caller `i`'s handle holds what its new position allows. -/
theorem move {u : Sys} {i : Nat} {t t' : Task} (hi : s.tasks[i]? = some t) (hcan : t'.cancellable = t.cancellable)
    (hp : u.procs = s.procs) (ht : u.tasks = s.tasks)
    (hends : ∀ j answer, (j, CallEnd.returned answer) ∈ u.ends → answer.job = j)
    (hcached : ∀ r ∈ u.cache, ∃ p, s.procs[r]? = some p ∧ p.tokens = [])
    (hok : ∀ proc, t'.pc.held = some proc → ∃ p, s.procs[proc]? = some p ∧ HeldOk i t' p)
    (htr : (u.setTask i t').Tracked) : (u.setTask i t').Owned := by
  refine ⟨htr, hs.shielded_setTask hi ht hcan, hp ▸ hs.closed, hp ▸ hcached, ?_, hends⟩
  show ∀ j t'', (u.tasks.set i t')[j]? = some t'' → ∀ r, t''.pc.held = some r →
    ∃ p, u.procs[r]? = some p ∧ HeldOk j t'' p
  rw [ht, hp]
  exact forall_getElem?_set (fun j t'' _ => hs.held j t'') hok

theorem setTask {u : Sys} {i : Nat} {t t' : Task} (hi : s.tasks[i]? = some t)
    (hp : u.procs = s.procs) (hc : u.cache = s.cache) (ht : u.tasks = s.tasks)
    (hends : ∀ j answer, (j, CallEnd.returned answer) ∈ u.ends → answer.job = j)
    (hheld : t'.pc.held = t.pc.held) (hcan : t'.cancellable = t.cancellable)
    (hok : ∀ proc p, t.pc.held = some proc → s.procs[proc]? = some p → HeldOk i t p → HeldOk i t' p) :
    (u.setTask i t').Owned :=
  hs.move hi hcan hp ht hends (hc ▸ hs.cached)
    (fun proc hh =>
      have ⟨p, hp', hok'⟩ := hs.held i t hi proc (hheld ▸ hh)
      ⟨p, hp', hok proc p (hheld ▸ hh) hp' hok'⟩)
    (hs.toTracked.setTask hi hp hc ht hheld)

theorem setProcTask {u : Sys} {i proc : Nat} {t t' : Task} {p' : Proc} (hi : s.tasks[i]? = some t)
    (hh : t.pc.held = some proc) (hp : u.procs = s.procs.set proc p') (hc : u.cache = s.cache)
    (ht : u.tasks = s.tasks) (hends : u.ends = s.ends) (hheld : t'.pc.held = some proc)
    (hcan : t'.cancellable = t.cancellable) (hok : HeldOk i t' p')
    (hcl : p'.worker.listening = false → p'.jobs = []) : (u.setTask i t').Owned := by
  have hapart := hs.toTracked.held_apart hi hh
  have hin : proc ∈ s.inUse := (Sys.inUse_perm_at hi).mem_iff.mpr (by simp [hh])
  have hget : ∀ r, r ≠ proc → u.procs[r]? = s.procs[r]? := fun r hr => by rw [hp, List.getElem?_set_ne (Ne.symm hr)]
  refine ⟨hs.toTracked.setProcTask hi hh hp hc ht hheld, hs.shielded_setTask hi ht hcan, fun q hq hl => ?_,
    fun r hr => ?_, ?_, hends ▸ hs.ends⟩
  · rw [Sys.setTask_procs, hp] at hq
    rcases List.mem_or_eq_of_mem_set hq with hq | rfl
    · exact hs.closed q hq hl
    · exact hcl hl
  · rw [Sys.setTask_procs]
    rw [Sys.setTask_cache, hc] at hr
    rw [hget r fun he => hapart (he ▸ List.mem_append_left _ hr)]
    exact hs.cached r hr
  · show ∀ j t'', (u.tasks.set i t')[j]? = some t'' → ∀ r, t''.pc.held = some r →
      ∃ p, u.procs[r]? = some p ∧ HeldOk j t'' p
    rw [ht]
    refine forall_getElem?_set (fun j t'' hij hj r hr => ?_) fun r hr => ?_
    · rw [hget r fun he => hapart (he ▸ List.mem_append_right _ (mem_others _ hj hij hr))]
      exact hs.held j t'' hj r hr
    · rw [hheld] at hr
      cases hr
      exact ⟨p', by rw [hp, List.getElem?_set_self (hs.valid proc hin)], hok⟩

theorem setProc_same {proc : Nat} {p p' : Proc} (hp : s.procs[proc]? = some p) (hw : p'.worker = p.worker)
    (hj : p'.jobs = p.jobs) (ha : p'.answers = p.answers) : (s.setProc proc p').Owned := by
  have htok : p'.tokens = p.tokens := by simp [Proc.tokens, hw, hj, ha]
  have hget : ∀ (q : Nat) (r : Proc), s.procs[q]? = some r →
      ∃ r', (s.procs.set proc p')[q]? = some r' ∧ r'.worker = r.worker ∧ r'.tokens = r.tokens := by
    intro q r hq
    by_cases he : q = proc
    · subst he
      rw [hp] at hq
      cases hq
      exact ⟨p', List.getElem?_set_self (List.getElem?_eq_some_iff.mp hp).1, hw, htok⟩
    · exact ⟨r, by rw [List.getElem?_set_ne (Ne.symm he)]; exact hq, rfl, rfl⟩
  refine ⟨hs.toTracked.setProc rfl rfl rfl fun hn => hw.trans (hs.loose proc p hp hn), hs.shielded,
    fun q hq hl => ?_, fun r hr => ?_, fun j t hj' r hr => ?_, hs.ends⟩
  · rcases List.mem_or_eq_of_mem_set hq with hq | rfl
    · exact hs.closed q hq hl
    · rw [hj]; exact hs.closed p (List.getElem?_mem hp) (hw ▸ hl)
  · obtain ⟨q, hq, htq⟩ := hs.cached r hr
    obtain ⟨r', hr', -, htok'⟩ := hget r q hq
    exact ⟨r', hr', htok'.trans htq⟩
  · obtain ⟨q, hq, hok⟩ := hs.held j t hj' r hr
    obtain ⟨r', hr', hw', htok'⟩ := hget r q hq
    exact ⟨r', hr', hok.congr hw' htok'⟩

theorem kill (proc : Nat) : (s.kill proc).Owned := by
  rcases s.kill_eq proc with h | ⟨p, hp, h⟩ <;> rw [h]
  · exact hs
  · exact hs.setProc_same hp rfl rfl rfl

theorem worker {s' : Sys} {proc : Nat} {p : Proc} {a : WorkerAction} (hp : s.procs[proc]? = some p)
    (h : workerStep s proc p a = some s') : s'.Owned := by
  have htr := hs.toTracked.worker hp h
  obtain ⟨p', r, rfl, hne, htok, -, hcl⟩ := workerStep_cases h
  have hget : ∀ q, q ≠ proc → (s.procs.set proc p')[q]? = s.procs[q]? := fun q hq => List.getElem?_set_ne (Ne.symm hq)
  have hself : (s.procs.set proc p')[proc]? = some p' := List.getElem?_set_self (List.getElem?_eq_some_iff.mp hp).1
  refine ⟨htr, hs.shielded, fun q hq hl => ?_, fun q hq => ?_, fun j t hj q hq => ?_, hs.ends⟩
  · rcases List.mem_or_eq_of_mem_set hq with hq | rfl
    · exact hs.closed q hq hl
    · exact hcl (hs.closed p (List.getElem?_mem hp)) hl
  · show ∃ p'', (s.procs.set proc p')[q]? = some p'' ∧ p''.tokens = []
    by_cases he : q = proc
    · subst he
      obtain ⟨p'', hp'', htok''⟩ := hs.cached q hq
      rw [hp] at hp''
      cases hp''
      exact ⟨p', hself, List.subperm_nil.mp (htok'' ▸ htok)⟩
    · rw [hget q he]; exact hs.cached q hq
  · show ∃ p'', (s.procs.set proc p')[q]? = some p'' ∧ HeldOk j t p''
    by_cases he : q = proc
    · subst he
      obtain ⟨p'', hp'', hok⟩ := hs.held j t hj q hq
      rw [hp] at hp''
      cases hp''
      exact ⟨p', hself, fun hm => absurd (hok.monitor hm) hne, hok.pc.of_tokens hne htok⟩
    · rw [hget q he]; exact hs.held j t hj q hq

theorem create {i : Nat} {t : Task} (hi : s.tasks[i]? = some t) (hpc : t.pc = .creating) :
    ({ s with procs := s.procs ++ [Proc.new] }.setTask i
      { t with pc := .sending s.procs.length, monitor := .waiting, nurseryCancelled := false }).Owned := by
  have hget : ∀ r, r < s.procs.length → (s.procs ++ [Proc.new])[r]? = s.procs[r]? := fun r hr =>
    List.getElem?_append_left hr
  refine ⟨hs.toTracked.create hi hpc, hs.shielded_setTask hi rfl rfl, fun q hq hl => ?_, fun r hr => ?_, ?_,
    hs.ends⟩
  · rcases List.mem_append.mp hq with hq | hq
    · exact hs.closed q hq hl
    · rw [List.mem_singleton.mp hq] at hl; cases hl
  · rw [Sys.setTask_procs, hget r (hs.valid r (List.mem_append_left _ hr))]
    exact hs.cached r hr
  · show ∀ j t'', (s.tasks.set i _)[j]? = some t'' → ∀ r, t''.pc.held = some r →
      ∃ p, (s.procs ++ [Proc.new])[r]? = some p ∧ HeldOk j t'' p
    refine forall_getElem?_set (fun j t'' _ hj r hr => ?_) fun r hr => ?_
    · obtain ⟨p, hp, hok⟩ := hs.held j t'' hj r hr
      exact ⟨p, by rw [hget r (List.getElem?_eq_some_iff.mp hp).1, hp], hok⟩
    · cases hr
      exact ⟨Proc.new, by simp, fun h => by simp at h, rfl⟩

theorem acquire {s' : Sys} {i : Nat} {t : Task} (hi : s.tasks[i]? = some t)
    (h : taskStep s i t .acquire = some s') : s'.Owned := by
  have htr := hs.toTracked.task hi h
  obtain ⟨-, rfl⟩ := taskStep_acquire h
  obtain ⟨dead, hcache, -, -⟩ := Cache.pruneSpec s.isAlive s.cache
  exact hs.move hi rfl rfl rfl hs.ends (fun r hr => hs.cached r (hcache ▸ List.mem_append_right _ hr))
    (fun _ h => by cases h) htr

theorem pop {s' : Sys} {i : Nat} {t : Task} (hi : s.tasks[i]? = some t)
    (h : taskStep s i t .pop = some s') : s'.Owned := by
  have htr := hs.toTracked.task hi h
  have hspec := Cache.popSpec s.isAlive s.cache
  obtain ⟨-, ⟨proc, rest, hpop, rfl⟩ | ⟨rest, hpop, rfl⟩⟩ := taskStep_pop h
  · rw [hpop] at hspec
    obtain ⟨dead, hcache, -, -⟩ := hspec
    obtain ⟨p, hp, htok⟩ := hs.cached proc (hcache ▸ List.mem_append_right _ (List.mem_cons_self _ _))
    refine hs.move hi rfl rfl rfl hs.ends (fun r hr => hs.cached r (hcache ▸ List.mem_append_left _ hr))
      (fun _ h => ?_) htr
    cases h
    exact ⟨p, hp, fun h => by simp at h, htok⟩
  · rw [hpop] at hspec
    obtain ⟨rfl, -⟩ := hspec
    exact hs.move hi rfl rfl rfl hs.ends (by simp) (fun _ h => by cases h) htr

theorem send {s' : Sys} {i : Nat} {t : Task} (hi : s.tasks[i]? = some t)
    (h : taskStep s i t .send = some s') : s'.Owned := by
  obtain ⟨proc, p, hpc, hp, ⟨hl, rfl⟩ | ⟨-, rfl⟩⟩ := taskStep_send h
  · obtain ⟨q, hq, hok⟩ := hs.held i t hi proc (by rw [hpc]; rfl)
    rw [hp] at hq
    cases hq
    have htok : p.tokens = [] := by have h := hok.pc; rw [hpc] at h; exact h
    refine hs.setProcTask hi (by rw [hpc]; rfl) rfl rfl rfl rfl rfl rfl ⟨fun hm => hok.monitor hm, ?_⟩
      fun h => absurd hl (by simp [h])
    show (p.jobs ++ [i] ++ p.worker.job.toList ++ p.answers.map (·.job)).Subperm [i]
    simp only [Proc.tokens, List.append_eq_nil] at htok
    simp [htok]
  · exact (hs.kill proc).setTask (show (s.kill proc).tasks[i]? = some t by simpa using hi) rfl rfl rfl (by simpa using hs.ends)
      (by simp [hpc, TaskPc.held]) rfl
      fun proc q hh hq hok => ⟨hok.monitor, by have h := hok.pc; rw [hpc] at h; exact h⟩

/-- `_recv`: the one result frame in the pipe is the caller's own, and taking it leaves the handle
empty; or the pipe is closed and empty. -/
theorem recv {s' : Sys} {i : Nat} {t : Task} (hi : s.tasks[i]? = some t)
    (h : taskStep s i t .recv = some s') : s'.Owned := by
  obtain ⟨proc, p, hpc, hp, ⟨answer, rest, hans, rfl⟩ | ⟨hans, hl, rfl⟩⟩ := taskStep_recv h
  · obtain ⟨q, hq, hok⟩ := hs.held i t hi proc (by rw [hpc]; rfl)
    rw [hp] at hq
    cases hq
    have htok : p.tokens.Subperm [i] := by have h := hok.pc; rw [hpc] at h; exact h
    have hlen := htok.length_le
    have hmem : answer.job ∈ [i] := htok.subset (by simp [Proc.tokens, hans])
    simp only [Proc.tokens, hans, List.length_append, List.map_cons, List.length_cons, List.length_map,
      List.length_singleton, List.length_nil] at hlen
    have hjobs : p.jobs = [] := List.eq_nil_of_length_eq_zero (by omega)
    have hhand : p.worker.job.toList = [] := List.eq_nil_of_length_eq_zero (by omega)
    have hrest : rest = [] := List.eq_nil_of_length_eq_zero (by omega)
    refine hs.setProcTask hi (by rw [hpc]; rfl) rfl rfl rfl rfl rfl rfl
      ⟨hok.monitor, List.mem_singleton.mp hmem, by simp [Proc.tokens, hjobs, hhand, hrest]⟩
      fun h => hs.closed p (List.getElem?_mem hp) h
  · have hjobs := hs.closed p (List.getElem?_mem hp) hl
    have hhand : p.worker.job = none := by
      cases hw : p.worker <;> simp_all [WorkerPc.listening, WorkerPc.job]
    have hempty : p.tokens = [] := by simp [Proc.tokens, hjobs, hhand, hans]
    refine (hs.kill proc).setTask (show (s.kill proc).tasks[i]? = some t by simpa using hi) rfl rfl rfl (by simpa using hs.ends)
      (by simp [hpc, TaskPc.held]) rfl fun proc' q hh hq hok => ⟨hok.monitor, ?_⟩
    rw [hpc] at hh
    cases hh
    rcases s.kill_eq proc with he | ⟨p', hp', he⟩ <;> rw [he] at hq
    · rw [hp] at hq
      cases hq
      exact hempty
    · rw [hp] at hp'
      cases hp'
      rw [Sys.setProc_procs, List.getElem?_set_self (List.getElem?_eq_some_iff.mp hp).1] at hq
      cases hq
      exact hempty

/-- A shielded caller is cancelled only while it waits for the limiter, before it holds a handle. -/
theorem cancel {s' : Sys} {i : Nat} {t : Task} (hi : s.tasks[i]? = some t)
    (h : taskStep s i t .cancel = some s') : s'.Owned := by
  have hshield : t.cancellable = false := hs.shielded t (List.getElem?_mem hi)
  obtain ⟨hpc, rfl⟩ | ⟨_, -, hcan, -⟩ | ⟨_, -, hcan, -⟩ | ⟨_, _, -, hcan, -⟩ := taskStep_cancel h
  · refine hs.setTask hi rfl rfl rfl (fun j answer he => ?_) (by rcases hpc with hpc | hpc <;> simp [hpc, TaskPc.held])
      rfl fun _ _ hh => by rcases hpc with hpc | hpc <;> rw [hpc] at hh <;> cases hh
    rcases List.mem_append.mp he with he | he
    · exact hs.ends j answer he
    · simp at he
  all_goals exact absurd hcan (by simp [hshield])

theorem nurseryCancel {s' : Sys} {i : Nat} {t : Task} (hi : s.tasks[i]? = some t)
    (h : taskStep s i t .nurseryCancel = some s') : s'.Owned := by
  obtain ⟨proc, hpc, hm, rfl⟩ | ⟨proc, hpc, hm, rfl⟩ := taskStep_nurseryCancel h
  · refine (hs.kill proc).setTask (show (s.kill proc).tasks[i]? = some t by simpa using hi) rfl rfl rfl (by simpa using hs.ends) ?_ rfl
      fun _ _ _ _ hok => ⟨hok.monitor, hok.monitor (.inr hm)⟩
    rcases hpc with hpc | hpc <;> simp [hpc, TaskPc.held]
  · exact hs.setTask hi rfl rfl rfl hs.ends (by simp [hpc, TaskPc.held]) rfl
      fun _ _ _ _ hok => ⟨hok.monitor, hok.monitor (.inr hm)⟩

/-- The `finally` of `to_process_run_sync`: caller `i` lets go of its handle, which goes back to the
cache when it is alive, and then holds no token, and is dropped when it is dead. -/
theorem putBack {u : Sys} {i proc : Nat} {t t' : Task} {p : Proc} (hi : s.tasks[i]? = some t)
    (hh : t.pc.held = some proc) (hp : s.procs[proc]? = some p) (hempty : s.isAlive proc = true → p.tokens = [])
    (hp' : u.procs = s.procs) (ht' : u.tasks = s.tasks) (hc' : u.cache = (s.release proc).cache)
    (hcan' : t'.cancellable = t.cancellable) (hheld' : t'.pc.held = none)
    (hends' : ∀ j answer, (j, CallEnd.returned answer) ∈ u.ends → answer.job = j) : (u.setTask i t').Owned := by
  refine hs.move hi hcan' hp' ht' hends' (fun r hr => ?_) (fun _ h => by simp [hheld'] at h)
    (hs.toTracked.putBack hi hh hp' ht' hc' hheld')
  unfold Sys.release at hc'
  split at hc'
  · rename_i halive
    rw [hc'] at hr
    rcases List.mem_append.mp hr with hr | hr
    · exact hs.cached r hr
    · rw [List.mem_singleton.mp hr]; exact ⟨p, hp, hempty halive⟩
  · exact hs.cached r (hc' ▸ hr)

/-- The call ends: a `BrokenResourceError` goes round the loop, anything else is recorded; either
way the handle is let go, and a value returned is the caller's own. -/
theorem close {s' : Sys} {i : Nat} {t : Task} (hi : s.tasks[i]? = some t)
    (h : taskStep s i t .close = some s') : s'.Owned := by
  obtain ⟨proc, bodyEnd, raised, hpc, hm, hclose⟩ := taskStep_close h
  have hh : t.pc.held = some proc := by rw [hpc]; rfl
  obtain ⟨p, hp, hok⟩ := hs.held i t hi proc hh
  have hpc' := hok.pc
  rw [hpc] at hpc'
  have hempty : s.isAlive proc = true → p.tokens = [] := fun halive => by
    cases bodyEnd with
    | value answer => exact hpc'.2
    | brokenResource => exact hpc'
    | cancelled => exact absurd halive (by simp [Sys.isAlive, hp, show p.worker = .exited from hpc'])
  rcases hclose with ⟨-, rfl⟩ | ⟨e, he, rfl⟩
  · exact hs.putBack hi hh hp hempty (by simp) (by simp) rfl rfl rfl (by simpa using hs.ends)
  · refine hs.putBack hi hh hp hempty (by simp) (by simp) rfl rfl rfl fun j answer hj => ?_
    rcases List.mem_append.mp hj with hj | hj
    · exact hs.ends j answer (by simpa using hj)
    · obtain ⟨rfl, rfl⟩ := Prod.mk.inj (List.mem_singleton.mp hj)
      obtain ⟨rfl, -⟩ := callEnd_returned he
      exact hpc'.1

theorem monitor {s' : Sys} {i : Nat} {t : Task} {a : TaskAction} (hi : s.tasks[i]? = some t)
    (ha : a = .monitorReady ∨ a = .monitorRun ∨ a = .monitorCancel) (h : taskStep s i t a = some s') : s'.Owned := by
  obtain ⟨m, c, rfl, hm⟩ := taskStep_monitor ha h
  refine hs.setTask hi rfl rfl rfl hs.ends rfl rfl fun proc p hh hp hok => ⟨fun hm' => ?_, hok.pc⟩
  rcases hm hm' with hr | ⟨proc', hh', halive⟩
  · exact hok.monitor (.inl hr)
  · rw [hh] at hh'
    cases hh'
    exact Sys.exited_of_not_isAlive hp halive

theorem task {s' : Sys} {i : Nat} {t : Task} {a : TaskAction} (hi : s.tasks[i]? = some t)
    (h : taskStep s i t a = some s') : s'.Owned := by
  cases a
  case acquire => exact hs.acquire hi h
  case pop => exact hs.pop hi h
  case create =>
    obtain ⟨hpc, rfl⟩ := taskStep_create h
    exact hs.create hi hpc
  case send => exact hs.send hi h
  case recv => exact hs.recv hi h
  case cancel => exact hs.cancel hi h
  case nurseryCancel => exact hs.nurseryCancel hi h
  case close => exact hs.close hi h
  all_goals exact hs.monitor hi (by simp) h

end Sys.Owned

theorem step_owned {s s' : Sys} {a : Action} (hs : s.Owned) (h : step s a = some s') : s'.Owned :=
  (step_cases h).elim (fun ⟨_, _, _, hi, h⟩ => hs.task hi h) fun ⟨_, _, _, hp, h⟩ => hs.worker hp h

theorem reachable_owned {s : Sys} (h : Reachable s) (hshield : ∀ t ∈ s.tasks, t.cancellable = false) :
    s.Owned := by
  induction h with
  | init c => exact init_owned fun b hb => hshield _ (List.mem_map.mpr ⟨b, hb, rfl⟩)
  | step _ hstep ih =>
    refine step_owned (ih fun t ht => ?_) hstep
    have hmem : t.cancellable ∈ _ := (step_cancellable hstep).symm ▸ List.mem_map_of_mem Task.cancellable ht
    obtain ⟨t', ht', he⟩ := List.mem_map.mp hmem
    exact he ▸ hshield t' ht'

/-- When no caller passed `cancellable=True`, over every interleaving, with crashes and idle
timeouts anywhere: every call that returns a value, or re-raises the function's exception, delivers
the outcome of its own job. -/
theorem shielded_calls_own_outcome {s : Sys} (h : Reachable s) (hshield : ∀ t ∈ s.tasks, t.cancellable = false) :
    ∀ i answer, (i, CallEnd.returned answer) ∈ s.ends → answer.job = i :=
  (reachable_owned h hshield).ends

/-- Two shielded callers one after the other: caller 0 creates a worker and returns its result;
caller 1 pops the same worker and returns its own. -/
def traceReuse : List Action :=
  [.task 0 .acquire, .task 0 .pop, .task 0 .create, .task 0 .send, .worker 0 .recvJob, .worker 0 (.execute .value),
   .worker 0 .sendAnswer, .task 0 .recv, .task 0 .monitorCancel, .task 0 .close,
   .task 1 .acquire, .task 1 .pop, .task 1 .send, .worker 0 .recvJob, .worker 0 (.execute .error),
   .worker 0 .sendAnswer, .task 1 .recv, .task 1 .monitorCancel, .task 1 .close]

theorem shielded_calls_own_outcome_reuse :
    ∃ s, run (init [false, false]) traceReuse = some s ∧
      s.ends = [(0, .returned ⟨0, .value⟩), (1, .returned ⟨1, .error⟩)] ∧
      (∀ t ∈ s.tasks, t.cancellable = false) ∧ ∀ i answer, (i, CallEnd.returned answer) ∈ s.ends → answer.job = i := by
  obtain ⟨s, hrun, hends, hshield⟩ : ∃ s, run (init [false, false]) traceReuse = some s ∧
      s.ends = [(0, .returned ⟨0, .value⟩), (1, .returned ⟨1, .error⟩)] ∧ ∀ t ∈ s.tasks, t.cancellable = false :=
    ⟨_, rfl, rfl, by decide⟩
  exact ⟨s, hrun, hends, hshield, shielded_calls_own_outcome (reachable_of_run (.init _) hrun) hshield⟩

/-- Caller 0 passed `cancellable=True`. It is cancelled in `_recv` after its worker wrote the result;
`kill()` has not taken effect yet, so `is_alive()` holds and the `finally` pushes the handle back.
Caller 1 pops it, writes its job and reads caller 0's result. -/
def traceStaleResult : List Action :=
  [.task 0 .acquire, .task 0 .pop, .task 0 .create, .task 0 .send, .worker 0 .recvJob, .worker 0 (.execute .value),
   .worker 0 .sendAnswer, .task 0 .cancel, .task 0 .close,
   .task 1 .acquire, .task 1 .pop, .task 1 .send, .task 1 .recv, .task 1 .monitorCancel, .task 1 .close]

/-- A call returns the outcome of another call's job. -/
theorem stale_outcome_returned :
    ∃ s, Reachable s ∧ s.tasks.map Task.cancellable = [true, false] ∧ (1, CallEnd.returned ⟨0, .value⟩) ∈ s.ends := by
  obtain ⟨s, hrun, hflags, hends⟩ : ∃ s, run (init [true, false]) traceStaleResult = some s ∧
      s.tasks.map Task.cancellable = [true, false] ∧ (1, CallEnd.returned ⟨0, .value⟩) ∈ s.ends :=
    ⟨_, rfl, by decide, by decide⟩
  exact ⟨s, reachable_of_run (.init _) hrun, hflags, hends⟩

end Legacy

end TrioParallel
