import TrioParallel.Dispatch.RunSync
/-!
# `retire` and the loop of `_impl.run_sync`

`run_sync` goes round `while result is None` as long as a handle's `run_sync` returns `None`, which is
what a worker that has retired returns. `cache_scope` asks of `retire` that it return a false value
on its first call, "otherwise `run_sync` will get caught in an infinite loop trying to find a valid
worker". `contractStep` is a step of the tasks in which the environment keeps that contract: a
handle's `run_sync` ends with `None` only if the handle has run before.

Under the contract every schedule ends. `Sys.rank` counts what is left of each task's call, six
steps at most, and two for each cached handle, which a later task may pop and find retired: the pop
and the `None` are the two steps of one more round. A round on a handle the task has just created
costs nothing extra, since a fresh handle returns a result. Every step lowers the rank, which starts
at six per task. Without the contract, a fresh handle that returns `None` brings the task back to
the checkpoint, as often as the schedule likes (`retire_contract_bounds_loop`).
-/

namespace TrioParallel

namespace Dispatch

/-- Some `run_sync` of handle `proc` has ended, by the log. -/
def ranIn (log : List (Nat × Event)) (proc : Nat) : Bool :=
  log.any fun e => match e.2 with
    | .ran p _ => p == proc
    | _ => false

/-- A step in which `retire` keeps its contract: a handle's `run_sync` ends with `None` only if the
handle has run before. -/
def contractStep (s : Sys) (i : Nat) (c : Choice) : Option Sys :=
  match s.tasks[i]?, c with
  | some (.running proc), .finish .none => if ranIn s.log proc then step s i c else none
  | _, _ => step s i c

theorem runWith_append (f : Sys → Nat → Choice → Option Sys) (s : Sys) (l₁ l₂ : List (Nat × Choice)) :
    runWith f s (l₁ ++ l₂) = (runWith f s l₁).bind (runWith f · l₂) := by
  induction l₁ generalizing s with
  | nil => rfl
  | cons a l ih =>
    simp only [List.cons_append, runWith]
    cases f s a.1 a.2 <;> simp [ih]

variable {s s' s₁ : Sys} {i : Nat} {c : Choice} {pc pc' : Pc} {ev : Option Event}

theorem contractStep_step (h : contractStep s i c = some s') : step s i c = some s' := by
  unfold contractStep at h
  split at h
  · split at h
    · exact h
    · cases h
  · exact h

theorem contractStep_none (h : contractStep s i (.finish .none) = some s') {proc : Nat}
    (hi : s.tasks[i]? = some (.running proc)) : ranIn s.log proc = true := by
  simp only [contractStep, hi] at h
  split at h
  · assumption
  · cases h

/-! ### What is left of the calls -/

/-- What is left of a task's call: six steps at most, and four on a fresh handle, whose run returns
a result or raises. -/
def Pc.rank (log : List (Nat × Event)) : Pc → Nat
  | .acquire => 6
  | .checkpoint => 5
  | .running proc => if ranIn log proc then 6 else 4
  | .exiting _ => 3
  | .done => 0

/-- The calls' ranks, and two for each cached handle: one more round, if it is popped and found
retired. -/
def Sys.rank (s : Sys) : Nat := (s.tasks.map (Pc.rank s.log)).sum + 2 * s.cache.length

theorem init_rank (n : Nat) : (init n).rank = 6 * n := by
  induction n with
  | zero => rfl
  | succ n ih =>
    simp only [init, Sys.rank, List.replicate_succ, List.map_cons, List.sum_cons, List.length_nil] at ih ⊢
    simp only [Pc.rank]
    omega

@[simp] theorem Pc.rank_running (log : List (Nat × Event)) (proc : Nat) :
    Pc.rank log (.running proc) = if ranIn log proc then 6 else 4 := rfl

theorem pcStep_logs_ran {proc : Nat} {runEnd : HandleEnd} (h : pcStep s pc c = some (s₁, pc', some (.ran proc runEnd))) :
    pc = .running proc ∧ pc' = afterRun proc runEnd := by
  rcases pcStep_cases h with ⟨-, _, -, -, -, hev⟩ | ⟨-, -, -, hev⟩ | ⟨-, _, _, -, -, -, hev⟩ |
    ⟨-, _, -, -, -, hev⟩ | ⟨p, e, rfl, -, rfl, hev⟩ | ⟨_, -, -, -, hev⟩ <;> cases hev
  exact ⟨rfl, rfl⟩

theorem rank_frame (hs : s.Inv) (hpc : s.tasks[i]? = some pc) (hstep : pcStep s pc c = some (s₁, pc', ev)) :
    ((s.tasks.set i pc').map (Pc.rank (s.log ++ (ev.map (i, ·)).toList))).sum =
      ((s.tasks.set i pc').map (Pc.rank s.log)).sum := by
  refine congrArg List.sum (List.map_congr_left fun q hq => ?_)
  cases q with
  | running p =>
    have hnew : ∀ proc runEnd, ev = some (.ran proc runEnd) → proc ≠ p := by
      rintro proc runEnd rfl rfl
      obtain ⟨rfl, rfl⟩ := pcStep_logs_ran hstep
      obtain ⟨j, hj⟩ := List.mem_iff_getElem?.mp hq
      rw [List.getElem?_set] at hj
      split at hj
      · split at hj
        · have := Option.some.inj hj
          cases runEnd <;> simp [afterRun] at this
        · cases hj
      · have hnd := ((filterMap_perm_at Pc.held hpc).append_left s.cache).nodup_iff.mp hs.nodup
        rw [List.nodup_append] at hnd
        have hone := hnd.2.1
        simp only [Pc.held, Option.toList_some, List.singleton_append, List.nodup_cons] at hone
        exact hone.1 (mem_others Pc.held hj (Ne.symm ‹_›) rfl)
    have hkeep : ranIn (s.log ++ (ev.map (i, ·)).toList) p = ranIn s.log p := by
      cases ev with
      | none => simp
      | some e =>
        cases e with
        | ran proc runEnd => simp [ranIn, List.any_append, hnew proc runEnd rfl]
        | _ => simp [ranIn, List.any_append]
    simp only [Pc.rank_running, hkeep]
  | _ => rfl

/-- Under the contract a step lowers the rank. -/
theorem contractStep_rank (hs : s.Inv) (h : contractStep s i c = some s') : s'.rank < s.rank := by
  obtain ⟨pc, s₁, pc', ev, hpc, hstep, rfl⟩ := step_some (contractStep_step h)
  have hset := sum_map_set (Pc.rank s.log) hpc pc'
  have hframe := rank_frame hs hpc hstep
  show ((s.tasks.set i pc').map (Pc.rank (s.log ++ (ev.map (i, ·)).toList))).sum + 2 * s₁.cache.length <
    (s.tasks.map (Pc.rank s.log)).sum + 2 * s.cache.length
  rw [hframe]
  have hrun : ∀ proc, 4 ≤ (if ranIn s.log proc then 6 else 4) ∧ (if ranIn s.log proc then 6 else 4) ≤ 6 :=
    fun proc => by split <;> omega
  rcases pcStep_cases hstep with ⟨rfl, kept, hk, rfl, rfl, -⟩ | ⟨hpc', rfl, rfl, -⟩ |
    ⟨rfl, proc, kept, hk, rfl, rfl, -⟩ | ⟨rfl, kept, hk, rfl, rfl, -⟩ | ⟨proc, runEnd, rfl, rfl, rfl, -⟩ |
    ⟨proc, rfl, rfl, rfl, -⟩ <;> try dsimp only
  · have := hk.length_le
    simp only [Pc.rank] at hset
    omega
  · rcases hpc' with rfl | rfl <;> simp only [Pc.rank] at hset <;> omega
  · have hlen := hk.length_le
    have := hrun proc
    simp only [List.length_append, List.length_singleton] at hlen
    simp only [Pc.rank] at hset
    omega
  · have := hk.length_le
    have hfresh : ranIn s.log s.next = false := by
      simp only [ranIn, List.any_eq_false]
      rintro ⟨j, e⟩ he
      have hlt := hs.logged_lt _ he
      cases e <;> simp [Event.proc] at hlt ⊢
      omega
    simp only [Pc.rank, hfresh, Bool.false_eq_true, ↓reduceIte] at hset
    omega
  · have := hrun proc
    cases runEnd with
    | outcome => simp only [afterRun, Pc.rank] at hset ⊢; omega
    | none =>
      obtain rfl : c = .finish .none := by
        cases c <;> simp only [pcStep, reduceCtorEq, Option.some.injEq, Prod.mk.injEq] at hstep
        rename_i e
        cases e <;> simp_all [afterRun]
      have hran := contractStep_none h hpc
      simp only [afterRun, Pc.rank, hran, ↓reduceIte] at hset ⊢
      omega
    | raised => simp only [afterRun, Pc.rank] at hset ⊢; omega
  · simp only [List.length_append, List.length_singleton, Pc.rank] at hset ⊢
    omega

/-- A schedule under the contract from a reachable state is no longer than the rank it starts
from. -/
theorem contractRun_length {l : List (Nat × Choice)} (hs : Reachable s) (h : runWith contractStep s l = some s') :
    l.length + s'.rank ≤ s.rank := by
  induction l generalizing s with
  | nil => cases h; simp
  | cons a l ih =>
    obtain ⟨s₁, h₁, h⟩ := Option.bind_eq_some.mp h
    have hlt := contractStep_rank (reachable_inv hs) h₁
    have := ih (.step hs (contractStep_step h₁)) h
    simp only [List.length_cons]
    omega

/-- A task that has not returned can always move: the limiter, a `pop` that raises `IndexError`, a
result, or leaving the limiter. -/
theorem contractStep_progress (hi : s.tasks[i]? = some pc) (hdone : pc ≠ .done) :
    ∃ c, (contractStep s i c).isSome := by
  cases pc with
  | acquire => exact ⟨.acquire s.cache, by simp [contractStep, hi, step, pcStep]⟩
  | checkpoint => exact ⟨.pop none s.cache, by simp [contractStep, hi, step, pcStep]⟩
  | running proc => exact ⟨.finish .outcome, by simp [contractStep, hi, step, pcStep]⟩
  | exiting proc => exact ⟨.exit, by simp [contractStep, hi, step, pcStep]⟩
  | done => exact absurd rfl hdone

/-- From the checkpoint, a fresh handle whose `run_sync` returns `None` brings task `i` back to
it, with the cache as it was. -/
theorem freshNone_round (hi : s.tasks[i]? = some .checkpoint) :
    ∃ s', runWith step s [(i, .pop none []), (i, .finish .none)] = some s' ∧ s'.tasks = s.tasks := by
  have hlt : i < s.tasks.length := (List.getElem?_eq_some_iff.mp hi).1
  refine ⟨_, by simp [runWith, step, hi, pcStep, hlt]; rfl, ?_⟩
  exact set_eq_of_getElem? hi

/-- Callers of `_impl.run_sync` from the start, under any interleaving, prune and pop: where `retire`
keeps its contract, a schedule has at most six steps per task, and one that cannot go on has every
task returned or raised. Where a fresh handle's `run_sync` may return `None`, one task can go round
`while result is None` as often as the schedule likes. -/
theorem retire_contract_bounds_loop :
    (∀ (n : Nat) (l : List (Nat × Choice)) (s : Sys), runWith contractStep (init n) l = some s →
      l.length ≤ 6 * n ∧ ((∀ i c, contractStep s i c = none) → ∀ pc ∈ s.tasks, pc = .done)) ∧
    ∀ k : Nat, ∃ s, runWith step (init 1)
      ((0, .acquire []) :: (List.replicate k [(0, .pop none []), (0, .finish .none)]).flatten) = some s ∧
      s.tasks = [.checkpoint] := by
  refine ⟨fun n l s h => ⟨?_, fun hstuck pc hpc => ?_⟩, fun k => ?_⟩
  · have := contractRun_length (.init n) h
    rw [init_rank] at this
    omega
  · by_contra hdone
    obtain ⟨j, hj⟩ := List.mem_iff_getElem?.mp hpc
    obtain ⟨c, hc⟩ := contractStep_progress hj hdone
    simp [hstuck j c] at hc
  · induction k with
    | zero => exact ⟨_, rfl, rfl⟩
    | succ k ih =>
      obtain ⟨s, hs, htasks⟩ := ih
      obtain ⟨s', hs', htasks'⟩ := freshNone_round (show s.tasks[0]? = some .checkpoint by simp [htasks])
      refine ⟨s', ?_, htasks'.trans htasks⟩
      rw [List.replicate_succ', List.flatten_append, List.flatten_singleton, ← List.cons_append, runWith_append,
        hs, Option.some_bind, hs']

/-- Two tasks: the second pops the first one's handle, finds it retired, and creates one that
returns. Ten steps, within the bound of twelve, and the new handle is cached. -/
theorem retire_contract_bounds_loop_retired :
    ∃ s, runWith contractStep (init 2) [(0, .acquire []), (0, .pop none []), (0, .finish .outcome), (0, .exit),
        (1, .acquire [0]), (1, .pop (some 0) []), (1, .finish .none), (1, .pop none []), (1, .finish .outcome),
        (1, .exit)] = some s ∧ s.cache = [1] ∧
      ([(0, .acquire []), (0, .pop none []), (0, .finish .outcome), (0, .exit), (1, .acquire [0]),
          (1, .pop (some 0) []), (1, .finish .none), (1, .pop none []), (1, .finish .outcome), (1, .exit)] :
          List (Nat × Choice)).length ≤ 6 * 2 ∧
        ((∀ i c, contractStep s i c = none) → ∀ pc ∈ s.tasks, pc = .done) :=
  ⟨_, rfl, rfl, retire_contract_bounds_loop.1 2 _ _ rfl⟩

end Dispatch

end TrioParallel
