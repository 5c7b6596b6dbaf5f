import TrioParallel.Cache.Threads
/-!
# The cache's loops do not spin

`ProcCache.prune` and `ProcCache.pop` loop until `popleft` finds a live handle, or `pop` does, or
the deque raises `IndexError`. Under threads another caller may push handles into the deque while
one of them loops, and workers may die at any moment, so nothing in one loop bounds it alone. The
bound is over all callers together. Each caller's position has a rank, what is left of its call if
it found nothing more in the deque, and each handle in the deque weighs three, what one more round
of `prune` or `pop` on it costs. Every primitive of a caller lowers the sum, except where a job ends
in `BrokenResourceError` and the caller goes round `while True` again, which raises it by at most
six (`pcStep_rank`). A worker's death leaves it as it is.

So over every schedule of `n` callers, with workers dying anywhere, the callers take at most eleven
primitives each and seven more per retry, and a schedule with no primitive left has every caller
done (`cache_primitives_bounded`).
-/

namespace TrioParallel

namespace Cache

namespace Threads

/-- What is left of a caller's call, in primitives, if it finds no more handles in the deque and no
job ends in `BrokenResourceError`. -/
def Pc.rank : Pc → Nat
  | .start => 11
  | .pruneLoop => 10
  | .pruneCheck _ => 12
  | .pruneBack _ => 11
  | .popLoop => 7
  | .popCheck _ => 9
  | .holding _ => 6
  | .finallyCheck _ retry => if retry then 12 else 5
  | .pushing _ retry => if retry then 11 else 4
  | .done => 0

/-- The callers' ranks, and three for each handle in the deque. -/
def Sys.rank (s : Sys) : Nat := (s.threads.map Pc.rank).sum + 3 * s.deque.length

/-- A primitive of a caller, as opposed to a worker's death. -/
def Action.primitive : Action → Bool
  | .thread _ _ => true
  | .die _ => false

/-- A primitive at which a job may end in `BrokenResourceError`. -/
def Action.retry : Action → Bool
  | .thread _ .brokenResource => true
  | _ => false

theorem init_rank (n : Nat) : (init n).rank = 11 * n := by
  induction n with
  | zero => rfl
  | succ n ih =>
    simp only [init, Sys.rank, Pc.rank, List.replicate_succ, List.map_cons, List.sum_cons, List.length_nil] at ih ⊢
    omega

/-- One primitive of one caller: the rank falls by one at least, unless a job ends in
`BrokenResourceError`. -/
theorem pcStep_rank {s s₁ : Sys} {e : RunEnd} {pc pc' : Pc} (h : pcStep s e pc = some (s₁, pc')) :
    pc'.rank + 3 * s₁.deque.length + 1 ≤ pc.rank + 3 * s.deque.length + 7 * (if e = .brokenResource then 1 else 0) := by
  cases pc with
  | start =>
    cases h
    simp only [Pc.rank]
    omega
  | pruneLoop =>
    simp only [pcStep] at h
    split at h <;> cases h <;> simp only [Pc.rank, List.length_cons, *] <;> omega
  | pruneCheck proc =>
    simp only [pcStep] at h
    split at h <;> cases h <;> simp only [Pc.rank] <;> omega
  | pruneBack proc =>
    cases h
    simp only [Pc.rank, List.length_cons]
    omega
  | popLoop =>
    simp only [pcStep] at h
    split at h <;> cases h
    · simp only [Pc.rank]
      omega
    · rename_i hlast
      have hne : s.deque ≠ [] := fun he => by simp [he] at hlast
      have hlen : s.deque.dropLast.length + 1 = s.deque.length := by
        rw [List.length_dropLast]
        have := List.length_pos.mpr hne
        omega
      simp only [Pc.rank]
      omega
  | popCheck proc =>
    simp only [pcStep] at h
    split at h <;> cases h <;> simp only [Pc.rank] <;> omega
  | holding proc =>
    cases h
    cases e <;> simp only [Pc.rank, beq_iff_eq, reduceCtorEq, ↓reduceIte] <;> omega
  | finallyCheck proc retry =>
    simp only [pcStep] at h
    split at h <;> cases h <;> cases retry <;> simp only [Pc.rank, Bool.false_eq_true, ↓reduceIte] <;> omega
  | pushing proc retry =>
    cases h
    cases retry <;> simp only [Pc.rank, List.length_append, List.length_singleton, Bool.false_eq_true, ↓reduceIte] <;>
      omega
  | done => cases h

/-- A step of the system: a primitive costs one, a retry adds seven, a death changes nothing. -/
theorem step_rank {s s' : Sys} {a : Action} (h : step s a = some s') :
    s'.rank + (if a.primitive then 1 else 0) ≤ s.rank + 7 * (if a.retry then 1 else 0) := by
  cases a with
  | thread i e =>
    simp only [step] at h
    split at h
    · rename_i pc hpc
      obtain ⟨⟨s₁, pc'⟩, hp, rfl⟩ := Option.map_eq_some'.mp h
      have hrank := pcStep_rank hp
      have hsum := sum_map_set Pc.rank hpc pc'
      simp only [Sys.rank]
      cases e <;> simp only [Action.primitive, Action.retry, reduceCtorEq, Bool.false_eq_true, ↓reduceIte] at hrank ⊢ <;>
        omega
    · cases h
  | die proc =>
    simp only [step] at h
    split at h <;> cases h
    simp [Sys.rank, Action.primitive, Action.retry]

theorem run_rank {s s' : Sys} {l : List Action} (hrun : run s l = some s') :
    l.countP Action.primitive + s'.rank ≤ s.rank + 7 * l.countP Action.retry := by
  induction l generalizing s with
  | nil =>
    cases hrun
    simp
  | cons a l ih =>
    obtain ⟨s₁, h₁, hrun⟩ := Option.bind_eq_some.mp hrun
    have hstep := step_rank h₁
    have hrest := ih hrun
    simp only [List.countP_cons]
    omega

/-- Every caller but one that is done has a primitive to take. -/
theorem pcStep_isSome (s : Sys) (e : RunEnd) {pc : Pc} (h : pc ≠ .done) : (pcStep s e pc).isSome := by
  cases pc <;> simp only [pcStep] <;> (try split) <;> first | rfl | exact absurd rfl h

/-- Over every schedule of `n` callers of `to_process_run_sync` sharing the cache, with workers
dying at any moment: the callers take at most eleven primitives each and seven more per job that
ends in `BrokenResourceError`, and when no caller has a primitive left, every call is done. -/
theorem cache_primitives_bounded {n : Nat} {l : List Action} {s : Sys} (hrun : run (init n) l = some s) :
    l.countP Action.primitive ≤ 11 * n + 7 * l.countP Action.retry ∧
      ((∀ i e, step s (.thread i e) = none) → ∀ pc ∈ s.threads, pc = .done) := by
  refine ⟨by have := run_rank hrun; rw [init_rank] at this; omega, fun hstop pc hpc => ?_⟩
  obtain ⟨i, hi⟩ := List.mem_iff_getElem?.mp hpc
  by_contra hdone
  have hsome := pcStep_isSome s .returned hdone
  have := hstop i .returned
  simp only [step, hi, Option.map_eq_none'] at this
  simp [this] at hsome

/-- A caller runs a job on a new handle and pushes it back; the worker dies; a second caller's
`prune` drops it and runs its job on another new handle. -/
theorem cache_primitives_bounded_two :
    ∃ s, run (init 2) (List.replicate 6 (Action.thread 0 .returned) ++ Action.die 0 ::
        List.replicate 8 (Action.thread 1 .returned)) = some s ∧
      (List.replicate 6 (Action.thread 0 .returned) ++ Action.die 0 ::
          List.replicate 8 (Action.thread 1 .returned)).countP Action.primitive ≤
        11 * 2 + 7 * (List.replicate 6 (Action.thread 0 .returned) ++ Action.die 0 ::
          List.replicate 8 (Action.thread 1 .returned)).countP Action.retry ∧
      ((∀ i e, step s (.thread i e) = none) → ∀ pc ∈ s.threads, pc = .done) :=
  ⟨_, rfl, cache_primitives_bounded rfl⟩

end Threads

end Cache

end TrioParallel
