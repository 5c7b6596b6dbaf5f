import TrioParallel.Cache.ProcCache
import TrioParallel.Tasks
/-!
# `PROC_CACHE` under threads

`PROC_CACHE` is shared by every `to_process_run_sync` call of the process, from the Trio tasks of
one run and the threads of concurrent runs. The code keeps it consistent by touching the deque
only through its thread-atomic primitives (`append`, `appendleft`, `pop`, `popleft`), and ends its
loops on `IndexError` rather than on a check of the deque that another thread could falsify.

Every caller is a thread whose program counter `Pc` sits between two such primitives or
`is_alive()` calls, and a step of the system is one primitive of one caller, or the death of a
worker. A caller follows `to_process_run_sync`: `prune`, then `pop` (or create a worker when the
deque is empty), run the job, and in `finally` push the handle back if it is alive; it goes round
again when the job ended in `BrokenResourceError`.

A caller has a handle in hand in transit (taken off the deque inside `prune` or `pop`, not yet put
back or returned) or owned (returned by `pop`, or created). `Inv` reads the state through three
lists, the deque and the handles in transit and owned, and says every handle is in one place at
most, no created live handle is lost, and the handles pushed and not yet returned by `pop` (the
ghost `outstanding`) are in the deque or in transit, never owned. Each kind of step moves a handle
between these lists in one way, and `step_inv` is one lemma per way.
-/

namespace TrioParallel

namespace Cache

namespace Threads

/-- Where a caller is in `to_process_run_sync`'s use of the cache. -/
inductive Pc where
  /-- Before `PROC_CACHE.prune()`. -/
  | start
  /-- In `prune`, before its `popleft`. -/
  | pruneLoop
  /-- In `prune`, holding the handle `popleft` gave, before `is_alive()`. -/
  | pruneCheck (proc : Nat)
  /-- In `prune`, the handle was alive, before `appendleft`. -/
  | pruneBack (proc : Nat)
  /-- In `pop`, before the deque's `pop`. -/
  | popLoop
  /-- In `pop`, holding the handle the deque's `pop` gave, before `is_alive()`. -/
  | popCheck (proc : Nat)
  /-- Running the job on a handle returned by `pop` or created. -/
  | holding (proc : Nat)
  /-- In `finally`, before `is_alive()`; `retry` when the job ended in `BrokenResourceError`. -/
  | finallyCheck (proc : Nat) (retry : Bool)
  /-- In `finally`, the handle was alive, before `push`. -/
  | pushing (proc : Nat) (retry : Bool)
  /-- The call has returned or raised. -/
  | done
  deriving DecidableEq, Repr

/-- The handle a caller has taken off the deque inside `prune` or `pop`. -/
def Pc.transit : Pc → Option Nat
  | .pruneCheck proc | .pruneBack proc | .popCheck proc => some proc
  | _ => none

/-- The handle a caller owns: returned by `pop`, or created. -/
def Pc.owned : Pc → Option Nat
  | .holding proc | .finallyCheck proc _ | .pushing proc _ => some proc
  | _ => none

/-- How the job run on a held handle ended, as far as the cache can tell. -/
inductive RunEnd where
  | returned
  | brokenResource
  | raised
  deriving DecidableEq, Repr

/-- The cache, the workers that have died, the next fresh handle and every caller's position;
`outstanding` is a ghost: the handles pushed and not yet returned by `pop`. -/
structure Sys where
  deque : List Nat
  dead : List Nat
  next : Nat
  threads : List Pc
  outstanding : Nat → Bool

/-- `n` callers before their call, nothing cached, nothing created. -/
def init (n : Nat) : Sys := ⟨[], [], 0, List.replicate n .start, fun _ => false⟩

/-- `proc.is_alive()`. -/
def Sys.isAlive (s : Sys) (proc : Nat) : Bool := !(s.dead.contains proc)

/-- A step: one primitive of caller `i` (the job's end matters only to a caller running one), or
the death of a worker. -/
inductive Action where
  | thread (i : Nat) (runEnd : RunEnd)
  | die (proc : Nat)

/-- One primitive of a caller at `pc`: the shared state after it and the caller's next position. -/
def pcStep (s : Sys) (runEnd : RunEnd) : Pc → Option (Sys × Pc)
  | .start => some (s, .pruneLoop)
  | .pruneLoop =>
    match s.deque with
    | [] => some (s, .popLoop)
    | proc :: rest => some ({ s with deque := rest }, .pruneCheck proc)
  | .pruneCheck proc => if s.isAlive proc then some (s, .pruneBack proc) else some (s, .pruneLoop)
  | .pruneBack proc => some ({ s with deque := proc :: s.deque }, .popLoop)
  | .popLoop =>
    match s.deque.getLast? with
    | none => some ({ s with next := s.next + 1 }, .holding s.next)
    | some proc => some ({ s with deque := s.deque.dropLast }, .popCheck proc)
  | .popCheck proc =>
    if s.isAlive proc then
      some ({ s with outstanding := Function.update s.outstanding proc false }, .holding proc)
    else some (s, .popLoop)
  | .holding proc => some (s, .finallyCheck proc (runEnd == .brokenResource))
  | .finallyCheck proc retry =>
    if s.isAlive proc then some (s, .pushing proc retry)
    else some (s, if retry then .popLoop else .done)
  | .pushing proc retry =>
    some ({ s with deque := s.deque ++ [proc], outstanding := Function.update s.outstanding proc true },
      if retry then .popLoop else .done)
  | .done => none

/-- One step of the system: a primitive of a caller, or the death of a created worker. -/
def step (s : Sys) : Action → Option Sys
  | .thread i runEnd =>
    match s.threads[i]? with
    | some pc => (pcStep s runEnd pc).map fun r => { r.1 with threads := s.threads.set i r.2 }
    | none => none
  | .die proc => if proc < s.next then some { s with dead := proc :: s.dead } else none

/-- The states reachable from some number of callers before their call. -/
inductive Reachable : Sys → Prop
  | init (n : Nat) : Reachable (init n)
  | step {s s' : Sys} {a : Action} : Reachable s → step s a = some s' → Reachable s'

/-!
### The invariant

`Placed U O` is the invariant over any lists `U` and `O`, so that each kind of move is one lemma
about lists; `Sys.Inv` instantiates it with the deque and transit handles for `U` and the owned
handles for `O`.
-/

/-- The invariant over the handles not returned by `pop` (`U`: in the deque or in transit) and
the handles owned (`O`). -/
structure Placed (U O dead : List Nat) (next : Nat) (outstanding : Nat → Bool) : Prop where
  nodup : (U ++ O).Nodup
  lt_next : ∀ proc ∈ U ++ O, proc < next
  live_placed : ∀ proc < next, proc ∉ dead → proc ∈ U ++ O
  outstanding_lt : ∀ proc, outstanding proc = true → proc < next
  outstanding_placed : ∀ proc ∈ U, outstanding proc = true
  owned_returned : ∀ proc ∈ O, outstanding proc = false

namespace Placed

variable {U O dead : List Nat} {next : Nat} {outstanding : Nat → Bool}

theorem perm (h : Placed U O dead next outstanding) {U' O' : List Nat} (hU : U.Perm U') (hO : O.Perm O') :
    Placed U' O' dead next outstanding := by
  have hall : (U ++ O).Perm (U' ++ O') := hU.append hO
  exact ⟨hall.nodup_iff.mp h.nodup, fun p hp => h.lt_next p (hall.mem_iff.mpr hp),
    fun p hp hd => hall.mem_iff.mp (h.live_placed p hp hd), h.outstanding_lt,
    fun p hp => h.outstanding_placed p (hU.mem_iff.mpr hp), fun p hp => h.owned_returned p (hO.mem_iff.mpr hp)⟩

theorem not_mem_of_cons {proc : Nat} (h : Placed (proc :: U) O dead next outstanding) :
    proc ∉ U ∧ proc ∉ O := by
  have hnd := h.nodup
  rw [List.cons_append, List.nodup_cons, List.mem_append, not_or] at hnd
  exact hnd.1

theorem handOver {proc : Nat} (h : Placed (proc :: U) O dead next outstanding) :
    Placed U (proc :: O) dead next (Function.update outstanding proc false) := by
  have hall : ((proc :: U) ++ O).Perm (U ++ proc :: O) := List.perm_middle.symm
  obtain ⟨hnotU, hnotO⟩ := h.not_mem_of_cons
  refine ⟨hall.nodup_iff.mp h.nodup, fun p hp => h.lt_next p (hall.mem_iff.mpr hp),
    fun p hp hd => hall.mem_iff.mp (h.live_placed p hp hd), fun p hp => ?_, fun p hp => ?_, fun p hp => ?_⟩
  · by_cases hpe : p = proc
    · exact h.lt_next p (hpe ▸ List.mem_append_left _ (List.mem_cons_self _ _))
    · rw [Function.update_noteq hpe] at hp; exact h.outstanding_lt p hp
  · rw [Function.update_noteq fun (he : p = proc) => hnotU (he ▸ hp)]
    exact h.outstanding_placed p (List.mem_cons_of_mem _ hp)
  · rcases List.mem_cons.mp hp with rfl | hp
    · simp
    · rw [Function.update_noteq fun (he : p = proc) => hnotO (he ▸ hp)]
      exact h.owned_returned p hp

theorem pushBack {proc : Nat} (h : Placed U (proc :: O) dead next outstanding) :
    Placed (proc :: U) O dead next (Function.update outstanding proc true) := by
  have hall : (U ++ proc :: O).Perm ((proc :: U) ++ O) := List.perm_middle
  have hnotU : proc ∉ U := fun hp => by
    have := h.nodup
    rw [List.nodup_append] at this
    exact this.2.2 hp (List.mem_cons_self _ _)
  refine ⟨hall.nodup_iff.mp h.nodup, fun p hp => h.lt_next p (hall.mem_iff.mpr hp),
    fun p hp hd => hall.mem_iff.mp (h.live_placed p hp hd), fun p hp => ?_, fun p hp => ?_, fun p hp => ?_⟩
  · by_cases hpe : p = proc
    · exact h.lt_next p (hpe ▸ List.mem_append_right _ (List.mem_cons_self _ _))
    · rw [Function.update_noteq hpe] at hp; exact h.outstanding_lt p hp
  · rcases List.mem_cons.mp hp with rfl | hp
    · simp
    · rw [Function.update_noteq fun (he : p = proc) => hnotU (he ▸ hp)]
      exact h.outstanding_placed p hp
  · have hpe : p ≠ proc := by
      rintro rfl
      have := h.nodup
      rw [List.nodup_append, List.nodup_cons] at this
      exact this.2.1.1 hp
    rw [Function.update_noteq hpe]
    exact h.owned_returned p (List.mem_cons_of_mem _ hp)

theorem dropUnreturned {proc : Nat} (h : Placed (proc :: U) O dead next outstanding) (hdead : proc ∈ dead) :
    Placed U O dead next outstanding := by
  have hsub : List.Sublist (U ++ O) ((proc :: U) ++ O) := List.sublist_cons_self _ _
  refine ⟨hsub.nodup h.nodup, fun p hp => h.lt_next p (hsub.subset hp), fun p hp hd => ?_, h.outstanding_lt,
    fun p hp => h.outstanding_placed p (List.mem_cons_of_mem _ hp), h.owned_returned⟩
  have := h.live_placed p hp hd
  rw [List.cons_append, List.mem_cons] at this
  exact this.resolve_left fun he => hd (he ▸ hdead)

theorem dropOwned {proc : Nat} (h : Placed U (proc :: O) dead next outstanding) (hdead : proc ∈ dead) :
    Placed U O dead next outstanding := by
  have hsub : List.Sublist (U ++ O) (U ++ proc :: O) := (List.sublist_cons_self _ _).append_left U
  refine ⟨hsub.nodup h.nodup, fun p hp => h.lt_next p (hsub.subset hp), fun p hp hd => ?_, h.outstanding_lt,
    h.outstanding_placed, fun p hp => h.owned_returned p (List.mem_cons_of_mem _ hp)⟩
  have := List.perm_middle.mem_iff.mp (h.live_placed p hp hd)
  rw [List.mem_cons] at this
  exact this.resolve_left fun he => hd (he ▸ hdead)

theorem create (h : Placed U O dead next outstanding) : Placed U (next :: O) dead (next + 1) outstanding := by
  have hnot : next ∉ U ++ O := fun hp => Nat.lt_irrefl _ (h.lt_next next hp)
  refine ⟨?_, fun p hp => ?_, fun p hp hd => ?_, fun p hp => Nat.lt_succ_of_lt (h.outstanding_lt p hp),
    h.outstanding_placed, fun p hp => ?_⟩
  · exact (List.perm_middle.nodup_iff).mpr (List.nodup_cons.mpr ⟨hnot, h.nodup⟩)
  · rcases List.mem_append.mp hp with hp | hp
    · exact Nat.lt_succ_of_lt (h.lt_next p (List.mem_append_left _ hp))
    · rcases List.mem_cons.mp hp with rfl | hp
      · exact Nat.lt_succ_self _
      · exact Nat.lt_succ_of_lt (h.lt_next p (List.mem_append_right _ hp))
  · rcases Nat.lt_succ_iff_lt_or_eq.mp hp with hp | rfl
    · exact (List.perm_middle.mem_iff).mpr (List.mem_cons_of_mem _ (h.live_placed p hp hd))
    · exact List.mem_append_right _ (List.mem_cons_self _ _)
  · rcases List.mem_cons.mp hp with rfl | hp
    · cases hout : outstanding p
      · rfl
      · exact absurd (h.outstanding_lt p hout) (Nat.lt_irrefl _)
    · exact h.owned_returned p hp

theorem die {proc : Nat} (h : Placed U O dead next outstanding) : Placed U O (proc :: dead) next outstanding :=
  ⟨h.nodup, h.lt_next, fun p hp hd => h.live_placed p hp fun hp' => hd (List.mem_cons_of_mem _ hp'),
    h.outstanding_lt, h.outstanding_placed, h.owned_returned⟩

end Placed

theorem mem_dead_of_not_isAlive {s : Sys} {proc : Nat} (h : ¬ s.isAlive proc = true) : proc ∈ s.dead := by
  simpa [Sys.isAlive] using h

/-- One primitive of a caller keeps the invariant, whatever the other callers hold (`R` in
transit, `Q` owned). -/
theorem pcStep_placed {s s₁ : Sys} {e : RunEnd} {pc pc' : Pc} {R Q : List Nat}
    (hp : Placed (pc.transit.toList ++ (s.deque ++ R)) (pc.owned.toList ++ Q) s.dead s.next s.outstanding)
    (h : pcStep s e pc = some (s₁, pc')) :
    Placed (pc'.transit.toList ++ (s₁.deque ++ R)) (pc'.owned.toList ++ Q) s₁.dead s₁.next s₁.outstanding := by
  cases pc with
  | start => simp only [pcStep, Option.some.injEq, Prod.mk.injEq] at h; obtain ⟨rfl, rfl⟩ := h; exact hp
  | pruneLoop =>
    simp only [pcStep] at h
    split at h <;> simp only [Option.some.injEq, Prod.mk.injEq] at h <;> obtain ⟨rfl, rfl⟩ := h
    · exact hp
    · rename_i proc rest hdeque
      rw [hdeque] at hp
      exact hp
  | pruneCheck proc =>
    simp only [pcStep] at h
    split at h <;> simp only [Option.some.injEq, Prod.mk.injEq] at h <;> obtain ⟨rfl, rfl⟩ := h
    · exact hp
    · exact hp.dropUnreturned (mem_dead_of_not_isAlive ‹_›)
  | pruneBack proc =>
    simp only [pcStep, Option.some.injEq, Prod.mk.injEq] at h; obtain ⟨rfl, rfl⟩ := h
    exact hp
  | popLoop =>
    simp only [pcStep] at h
    split at h <;> simp only [Option.some.injEq, Prod.mk.injEq] at h <;> obtain ⟨rfl, rfl⟩ := h
    · exact hp.create
    · rename_i proc hlast
      have hsplit : s.deque ++ R = s.deque.dropLast ++ proc :: R := by
        rw [← List.singleton_append, ← List.append_assoc, List.dropLast_append_getLast? proc hlast]
      exact hp.perm (hsplit ▸ List.perm_middle) (List.Perm.refl _)
  | popCheck proc =>
    simp only [pcStep] at h
    split at h <;> simp only [Option.some.injEq, Prod.mk.injEq] at h <;> obtain ⟨rfl, rfl⟩ := h
    · exact hp.handOver
    · exact hp.dropUnreturned (mem_dead_of_not_isAlive ‹_›)
  | holding proc =>
    simp only [pcStep, Option.some.injEq, Prod.mk.injEq] at h; obtain ⟨rfl, rfl⟩ := h
    exact hp
  | finallyCheck proc retry =>
    simp only [pcStep] at h
    split at h <;> simp only [Option.some.injEq, Prod.mk.injEq] at h <;> obtain ⟨rfl, rfl⟩ := h
    · exact hp
    · cases retry <;> exact hp.dropOwned (mem_dead_of_not_isAlive ‹_›)
  | pushing proc retry =>
    simp only [pcStep, Option.some.injEq, Prod.mk.injEq] at h; obtain ⟨rfl, rfl⟩ := h
    have hmid : (s.deque ++ [proc] ++ R).Perm (proc :: (s.deque ++ R)) := by
      rw [List.append_assoc, List.singleton_append]; exact List.perm_middle
    cases retry <;> exact hp.pushBack.perm hmid.symm (List.Perm.refl _)
  | done => simp [pcStep] at h

/-- Every handle is in one place at most, no created live handle is lost, and the handles
pushed and not yet returned by `pop` are in the deque or in transit. -/
def Sys.Inv (s : Sys) : Prop :=
  Placed (s.deque ++ s.threads.filterMap Pc.transit) (s.threads.filterMap Pc.owned) s.dead s.next s.outstanding

theorem init_inv (n : Nat) : (init n).Inv := by
  have hnil : ∀ f : Pc → Option Nat, f .start = none → (List.replicate n Pc.start).filterMap f = [] := by
    intro f hf; induction n with
    | zero => rfl
    | succ n ih => simp [List.replicate_succ, hf, ih]
  simp only [Sys.Inv, init, hnil Pc.transit rfl, hnil Pc.owned rfl]
  exact ⟨List.nodup_nil, by simp, by simp, by simp, by simp, by simp⟩

theorem step_inv {s s' : Sys} {a : Action} (hs : s.Inv) (h : step s a = some s') : s'.Inv := by
  cases a with
  | thread i e =>
    simp only [step] at h
    split at h
    · rename_i pc hpc
      obtain ⟨⟨s₁, pc'⟩, hstep, rfl⟩ := Option.map_eq_some'.mp h
      have hi : i < s.threads.length := (List.getElem?_eq_some_iff.mp hpc).1
      have hU := filterMap_perm_at Pc.transit hpc
      have hO := filterMap_perm_at Pc.owned hpc
      have hU' := filterMap_set_perm Pc.transit hi pc'
      have hO' := filterMap_set_perm Pc.owned hi pc'
      have := pcStep_placed (hs.perm ((hU.append_left _).trans (List.perm_append_comm_assoc _ _ _)) hO) hstep
      exact this.perm ((List.perm_append_comm_assoc _ _ _).trans (hU'.append_left _).symm) hO'.symm
    · cases h
  | die proc =>
    simp only [step] at h
    split at h
    · cases h; exact hs.die
    · cases h

theorem reachable_inv {s : Sys} (h : Reachable s) : s.Inv := by
  induction h with
  | init n => exact init_inv n
  | step _ hstep ih => exact step_inv ih hstep

/-- Run the steps of a list in order. -/
def run : Sys → List Action → Option Sys
  | s, [] => some s
  | s, a :: rest => (step s a).bind (run · rest)

theorem reachable_of_run : ∀ {s s' : Sys} {l : List Action}, Reachable s → run s l = some s' → Reachable s'
  | _, _, [], hs, h => by cases h; exact hs
  | s, _, a :: rest, hs, h => by
    obtain ⟨s₁, h₁, h⟩ := Option.bind_eq_some.mp h
    exact reachable_of_run (.step hs h₁) h

/-- Under any interleaving of any number of callers, no handle is in the cache twice or held by
two callers, none is both held and cached, every created live handle is cached, in transit or
held, and every pushed live handle that `pop` has not returned is in exactly one place: the
cache, or in transit inside one `prune` or `pop` call. -/
theorem reachable_placement {s : Sys} (h : Reachable s) :
    s.deque.Nodup ∧ (s.threads.filterMap Pc.owned).Nodup ∧
    (∀ proc ∈ s.deque, proc ∉ s.threads.filterMap Pc.owned) ∧
    (∀ proc < s.next, s.isAlive proc = true →
      proc ∈ s.deque ∨ proc ∈ s.threads.filterMap Pc.transit ∨ proc ∈ s.threads.filterMap Pc.owned) ∧
    (∀ proc, s.outstanding proc = true → s.isAlive proc = true →
      (s.deque ++ s.threads.filterMap Pc.transit).count proc = 1) := by
  have hi := reachable_inv h
  have hnd := hi.nodup
  rw [List.nodup_append] at hnd
  refine ⟨(List.nodup_append.mp hnd.1).1, hnd.2.1, fun proc hp ho => hnd.2.2 (List.mem_append_left _ hp) ho,
    fun proc hlt halive => ?_, fun proc hout halive => ?_⟩
  · have := hi.live_placed proc hlt (by simpa [Sys.isAlive] using halive)
    simpa only [List.mem_append, or_assoc] using this
  · have hmem := hi.live_placed proc (hi.outstanding_lt proc hout) (by simpa [Sys.isAlive] using halive)
    have hU : proc ∈ s.deque ++ s.threads.filterMap Pc.transit :=
      (List.mem_append.mp hmem).resolve_right fun ho => by simp [hi.owned_returned proc ho] at hout
    exact List.count_eq_one_of_mem hnd.1 hU

/-- Caller 0 creates worker 0, runs a job on it and pushes it back; caller 1's `prune` takes it off
the deque to check it, so it is in transit and nowhere else. -/
theorem reachable_placement_in_prune :
    ∃ s, run (init 2) (List.replicate 6 (Action.thread 0 .returned) ++ List.replicate 2 (Action.thread 1 .returned)) =
        some s ∧ s.deque = [] ∧ s.threads = [.done, .pruneCheck 0] ∧ s.outstanding 0 = true ∧ s.isAlive 0 = true ∧
      s.deque.Nodup ∧ (s.threads.filterMap Pc.owned).Nodup ∧
      (∀ proc ∈ s.deque, proc ∉ s.threads.filterMap Pc.owned) ∧
      (∀ proc < s.next, s.isAlive proc = true →
        proc ∈ s.deque ∨ proc ∈ s.threads.filterMap Pc.transit ∨ proc ∈ s.threads.filterMap Pc.owned) ∧
      (∀ proc, s.outstanding proc = true → s.isAlive proc = true →
        (s.deque ++ s.threads.filterMap Pc.transit).count proc = 1) := by
  obtain ⟨s, hrun, hdeque, hthreads, hout, halive⟩ : ∃ s, run (init 2) (List.replicate 6 (Action.thread 0 .returned) ++
      List.replicate 2 (Action.thread 1 .returned)) = some s ∧ s.deque = [] ∧ s.threads = [.done, .pruneCheck 0] ∧
      s.outstanding 0 = true ∧ s.isAlive 0 = true := ⟨_, rfl, rfl, rfl, rfl, rfl⟩
  exact ⟨s, hrun, hdeque, hthreads, hout, halive, reachable_placement (reachable_of_run (.init 2) hrun)⟩

/-- One call creates worker 0, runs a job on it and pushes it back; a second call's `prune`
takes it and puts it back, and its `pop` takes it off the deque. -/
def traceInPop : List Action :=
  [.thread 0 .returned, .thread 0 .returned, .thread 0 .returned, .thread 0 .returned,
   .thread 0 .returned, .thread 0 .returned,
   .thread 1 .returned, .thread 1 .returned, .thread 1 .returned, .thread 1 .returned, .thread 1 .returned]

/-- A pushed live handle that `pop` has not returned can be out of the cache and in no `prune`
call: it is in transit inside `pop`, between the deque's `pop` and `is_alive()`. -/
theorem pop_holds_unreturned :
    ∃ s, Reachable s ∧ ∃ proc, s.outstanding proc = true ∧ s.isAlive proc = true ∧ proc ∉ s.deque ∧
      Pc.popCheck proc ∈ s.threads ∧ ∀ pc ∈ s.threads, pc ≠ .pruneCheck proc ∧ pc ≠ .pruneBack proc := by
  have hrun : run (init 2) traceInPop =
      some ⟨[], [], 1, [.done, .popCheck 0], Function.update (fun _ => false) 0 true⟩ :=
    rfl
  refine ⟨_, reachable_of_run (.init 2) hrun, 0, ?_⟩
  decide

end Threads

end Cache

end TrioParallel
