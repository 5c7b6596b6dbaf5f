import TrioParallel.Dispatch.RunSync
import TrioParallel.Handle.Protocol
/-!
# `_impl.run_sync` over the handles of `_proc.py`

The dispatcher of `Dispatch.RunSync` with its handle's `run_sync` no longer abstract: each handle is
a `WorkerProcBase` of `Handle.Protocol` with its worker. A task's `pop` step ends in the call
`proc.run_sync(sync_fn, *args)` on the popped handle, and the handle and its worker then move on
their own until that `run_sync` ends and the task reads how. When `pop` raises `IndexError`, the task
creates a handle with `ctx.worker_class(ctx.idle_timeout, ctx.retire)`.

`_impl.py` imports `WORKER_PROC_MAP` from `_proc.py`, which does not define it; the model takes the
class the map would name, `_proc.py`'s `WorkerProc`. Every handle class there takes its `__init__`
from `WorkerProcBase`, whose one parameter after `self` is `mp_context`, so the two positional
arguments raise `TypeError`. It leaves `except IndexError`, `async with limiter` and `run_sync`.
The cache starts empty, and only a task that ran a handle appends one, so no handle is ever created
or run, and every call that ends raises `TypeError` (`runSync_raises_typeError`).

The dispatcher calls neither `wake_up` nor `kill`; its shield (`cancellable=False`) keeps
cancellation out of the handle's `run_sync`, and the runs are those in which the caller is not
cancelled. A handle's worker may crash at any step.
-/

namespace TrioParallel

namespace Dispatch

namespace WithHandles

/-- An exception raised by a call whose arguments do not bind to the parameters. -/
inductive CallError where
  /-- `TypeError`: `given` positional arguments, where at most `accepted` bind. -/
  | typeError (accepted given : Nat)
  deriving DecidableEq, Repr

/-- `WorkerProcBase.__init__(self, mp_context=get_context("spawn"))` called with `given` positional
arguments after `self`: one binds to `mp_context`, and more raise `TypeError`. The handle it builds
is a new one of kind `variant`. -/
def WorkerProcBase.new (variant : Handle.Variant) (given : Nat) : Except CallError Handle.Sys :=
  if given ≤ 1 then .ok (Handle.init variant) else .error (.typeError 1 given)

/-- `ctx.worker_class(ctx.idle_timeout, ctx.retire)`, with `_proc.py`'s `WorkerProc`. -/
def newWorker : Except CallError Handle.Sys := WorkerProcBase.new .posix 2

theorem WorkerProcBase.new_of_lt {variant : Handle.Variant} {given : Nat} (h : 1 < given) :
    WorkerProcBase.new variant given = .error (.typeError 1 given) := by
  simp [WorkerProcBase.new, Nat.not_le.mpr h]

@[simp] theorem newWorker_eq : newWorker = .error (.typeError 1 2) :=
  WorkerProcBase.new_of_lt (by decide)

/-- The dispatcher's tasks and cache, every handle by its number (the ones not yet created are new
`PosixWorkerProc`s), and, as a ghost, each task whose call raised from the constructor. -/
structure Sys where
  disp : Dispatch.Sys
  procs : Nat → Handle.Sys
  raised : List (Nat × CallError)

/-- `n` tasks before their call, sharing a new context. -/
def init (n : Nat) : Sys := ⟨Dispatch.init n, fun _ => Handle.init .posix, []⟩

/-- How the dispatcher reads the end of a handle's `run_sync`: `result.unwrap()` of the answer is
the function's value, `None` or not, or re-raises its exception; any other end is an exception. -/
def handleEnd (isNone : Bool) : Handle.CallEnd → HandleEnd
  | .returned answer => if answer.isError then .raised else if isNone then .none else .outcome
  | _ => .raised

/-- A step a handle takes in these runs: not the host's `wake_up`, `run_sync` or `kill`, which are
the dispatcher's calls, and not a cancellation. -/
def handleMoves : Handle.Action → Bool
  | .wake | .runSync | .kill | .cancel => false
  | _ => true

/-- One step of the system. -/
inductive Action where
  /-- Task `i` acquires the limiter and `prune()` leaves `kept`. -/
  | acquire (i : Nat) (kept : List Nat)
  /-- Task `i` passes the checkpoint and `pop()` returns `popped` (`none`: `IndexError`) leaving
  `kept`; the task calls the popped handle's `run_sync`, or the constructor. -/
  | pop (i : Nat) (popped : Option Nat) (kept : List Nat)
  /-- The handle's `run_sync` returns to task `i`; `isNone` is whether a value it returns is `None`. -/
  | finish (i : Nat) (isNone : Bool)
  /-- Task `i` leaves `async with limiter` and appends its handle. -/
  | exit (i : Nat)
  /-- Handle `proc` or its worker takes a step. -/
  | handle (proc : Nat) (a : Handle.Action)

/-- One step. -/
def step (s : Sys) : Action → Option Sys
  | .acquire i kept => (Dispatch.step s.disp i (.acquire kept)).map fun d => { s with disp := d }
  | .pop i (some proc) kept => (Dispatch.step s.disp i (.pop (some proc) kept)).map fun d =>
    { s with disp := d, procs := Function.update s.procs proc (s.procs proc).enterRunSync }
  | .pop i none kept =>
    match newWorker with
    | .ok h => (Dispatch.step s.disp i (.pop none kept)).map fun d =>
      { s with disp := d, procs := Function.update s.procs s.disp.next h.enterRunSync }
    | .error e =>
      if s.disp.tasks[i]? = some .checkpoint ∧ kept.Sublist s.disp.cache then
        some { s with raised := s.raised ++ [(i, e)],
                      disp := { s.disp with cache := kept, tasks := s.disp.tasks.set i .done } }
      else none
  | .finish i isNone =>
    match s.disp.tasks[i]? with
    | some (.running proc) =>
      match (s.procs proc).host, (s.procs proc).ends.getLast? with
      | .idle, some (_, callEnd) =>
        (Dispatch.step s.disp i (.finish (handleEnd isNone callEnd))).map fun d => { s with disp := d }
      | _, _ => none
    | _ => none
  | .exit i => (Dispatch.step s.disp i .exit).map fun d => { s with disp := d }
  | .handle proc a =>
    if handleMoves a then (Handle.step (s.procs proc) a).map fun h => { s with procs := Function.update s.procs proc h }
    else none

/-- The states reachable from some number of tasks before their call. -/
inductive Reachable : Sys → Prop
  | init (n : Nat) : Reachable (init n)
  | step {s s' : Sys} {a : Action} : Reachable s → step s a = some s' → Reachable s'

/-- The state after a schedule of steps, each enabled in turn. -/
def run : Sys → List Action → Option Sys
  | s, [] => some s
  | s, a :: rest => (step s a).bind (run · rest)

theorem reachable_of_run : ∀ {s s' : Sys} {l : List Action}, Reachable s → run s l = some s' → Reachable s'
  | _, _, [], hs, h => by cases h; exact hs
  | s, _, a :: rest, hs, h => by
    obtain ⟨s₁, h₁, h⟩ := Option.bind_eq_some.mp h
    exact reachable_of_run (.step hs h₁) h

/-!
### No call returns

`Inv` holds of every reachable state: the cache, the log and the handles are as they started, and
every task is before the loop, at its checkpoint, or out of the call by the constructor's
`TypeError`.
-/

theorem init_step_none {a : Handle.Action} (ha : handleMoves a = true) : Handle.step (Handle.init .posix) a = none := by
  cases a <;> simp [handleMoves] at ha <;> rfl

/-- Nothing was created, popped, run or appended, and a task that is out of its call raised
`TypeError`. -/
structure Sys.Inv (s : Sys) : Prop where
  cache : s.disp.cache = []
  log : s.disp.log = []
  procs : ∀ proc, s.procs proc = Handle.init .posix
  tasks : ∀ pc ∈ s.disp.tasks, pc = .acquire ∨ pc = .checkpoint ∨ pc = .done
  raised : ∀ i, s.disp.tasks[i]? = some .done → (i, .typeError 1 2) ∈ s.raised

theorem init_inv (n : Nat) : (init n).Inv :=
  ⟨rfl, rfl, fun _ => rfl, fun _ hpc => .inl (List.eq_of_mem_replicate hpc),
    fun i hi => by simp [init, Dispatch.init, List.getElem?_replicate] at hi⟩

theorem Sys.Inv.set {s : Sys} (hi : s.Inv) {i : Nat} {pc' : Pc} {raised : List (Nat × CallError)}
    (hsub : s.raised ⊆ raised) (h' : pc' = .acquire ∨ pc' = .checkpoint ∨ pc' = .done)
    (hdone : pc' = .done → (i, .typeError 1 2) ∈ raised) :
    (∀ pc ∈ s.disp.tasks.set i pc', pc = .acquire ∨ pc = .checkpoint ∨ pc = .done) ∧
      ∀ j, (s.disp.tasks.set i pc')[j]? = some .done → (j, .typeError 1 2) ∈ raised := by
  refine ⟨fun pc hpc => (List.mem_or_eq_of_mem_set hpc).elim (hi.tasks pc) (· ▸ h'), fun j hj => ?_⟩
  rw [List.getElem?_set] at hj
  split at hj
  · subst j
    split at hj
    · exact hdone (Option.some.inj hj)
    · cases hj
  · exact hsub (hi.raised j hj)

theorem step_inv {s s' : Sys} {a : Action} (hi : s.Inv) (h : step s a = some s') : s'.Inv := by
  cases a with
  | acquire i kept =>
    obtain ⟨d, hd, rfl⟩ := Option.map_eq_some'.mp h
    obtain ⟨_, s₁, pc', ev, -, hstep, rfl⟩ := step_some hd
    obtain ⟨-, hk, rfl, rfl, rfl⟩ := pcStep_acquire hstep
    rw [hi.cache, List.sublist_nil] at hk
    obtain ⟨htasks, hraised⟩ := hi.set (List.Subset.refl _) (.inr (.inl rfl)) (fun h => by cases h)
    exact ⟨hk, by simpa using hi.log, hi.procs, htasks, hraised⟩
  | pop i popped kept =>
    cases popped with
    | some proc =>
      obtain ⟨d, hd, rfl⟩ := Option.map_eq_some'.mp h
      obtain ⟨_, s₁, pc', ev, -, hstep, rfl⟩ := step_some hd
      obtain ⟨-, hk, -⟩ := pcStep_pop hstep
      rw [hi.cache, List.sublist_nil, List.append_eq_nil] at hk
      cases hk.2
    | none =>
      simp only [step, newWorker_eq] at h
      split at h
      · rename_i hc
        cases h
        rw [hi.cache, List.sublist_nil] at hc
        obtain ⟨htasks, hraised⟩ := hi.set (List.subset_append_left _ _) (.inr (.inr rfl))
          (fun _ => List.mem_append_right _ (List.mem_singleton_self _))
        exact ⟨hc.2, hi.log, hi.procs, htasks, hraised⟩
      · cases h
  | finish i isNone =>
    simp only [step] at h
    split at h
    · rename_i proc hpc
      rcases hi.tasks _ (List.getElem?_mem hpc) with h | h | h <;> cases h
    · cases h
  | exit i =>
    obtain ⟨d, hd, rfl⟩ := Option.map_eq_some'.mp h
    obtain ⟨pc, s₁, pc', ev, hpc, hstep, rfl⟩ := step_some hd
    obtain ⟨proc, rfl⟩ := pcStep_exit hstep
    rcases hi.tasks _ (List.getElem?_mem hpc) with h | h | h <;> cases h
  | handle proc a =>
    simp only [step] at h
    split at h
    · rename_i ha
      obtain ⟨h', hstep, rfl⟩ := Option.map_eq_some'.mp h
      rw [hi.procs proc, init_step_none ha] at hstep
      cases hstep
    · cases h

theorem reachable_inv {s : Sys} (h : Reachable s) : s.Inv := by
  induction h with
  | init n => exact init_inv n
  | step _ hstep ih => exact step_inv ih hstep

/-- A task before the loop or at its checkpoint can always move. -/
theorem Sys.Inv.moves {s : Sys} (hi : s.Inv) {i : Nat} {pc : Pc} (hpc : s.disp.tasks[i]? = some pc)
    (hdone : pc ≠ .done) : ∃ a, (step s a).isSome := by
  rcases hi.tasks _ (List.getElem?_mem hpc) with rfl | rfl | rfl
  · exact ⟨.acquire i [], by simp [step, Dispatch.step, hpc, pcStep, hi.cache]⟩
  · exact ⟨.pop i none [], by simp [step, hpc, hi.cache]⟩
  · exact absurd rfl hdone

/-- Over every run without a cancellation of the caller, no call of `_impl.run_sync` over these
handles returns: no handle is ever created, popped, run or appended, and the cache stays empty;
every call that has ended raised the constructor's `TypeError`, and once no step is left every call
has ended. -/
theorem runSync_raises_typeError {s : Sys} (h : Reachable s) :
    s.disp.cache = [] ∧ s.disp.log = [] ∧ (∀ proc, s.procs proc = Handle.init .posix) ∧
      (∀ i, s.disp.tasks[i]? = some .done → (i, .typeError 1 2) ∈ s.raised) ∧
      ((∀ a, step s a = none) → ∀ pc ∈ s.disp.tasks, pc = .done) := by
  have hi := reachable_inv h
  refine ⟨hi.cache, hi.log, hi.procs, hi.raised, fun hstop pc hpc => ?_⟩
  obtain ⟨i, hi'⟩ := List.mem_iff_getElem?.mp hpc
  by_contra hdone
  obtain ⟨a, ha⟩ := hi.moves hi' hdone
  simp [hstop a] at ha

/-- One call on a new context: `pop` raises `IndexError`, and the constructor `TypeError`. -/
theorem runSync_raises_typeError_one :
    ∃ s, run (init 1) [.acquire 0 [], .pop 0 none []] = some s ∧ s.disp.tasks = [.done] ∧
      s.raised = [(0, .typeError 1 2)] ∧
      s.disp.cache = [] ∧ s.disp.log = [] ∧ (∀ proc, s.procs proc = Handle.init .posix) ∧
      (∀ i, s.disp.tasks[i]? = some .done → (i, .typeError 1 2) ∈ s.raised) ∧
      ((∀ a, step s a = none) → ∀ pc ∈ s.disp.tasks, pc = .done) := by
  obtain ⟨s, hrun, htasks, hraised⟩ : ∃ s, run (init 1) [.acquire 0 [], .pop 0 none []] = some s ∧
      s.disp.tasks = [.done] ∧ s.raised = [(0, .typeError 1 2)] := ⟨_, rfl, rfl, rfl⟩
  exact ⟨s, hrun, htasks, hraised, runSync_raises_typeError (reachable_of_run (.init 1) hrun)⟩

end WithHandles

end Dispatch

end TrioParallel
