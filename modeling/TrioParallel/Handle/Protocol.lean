import Mathlib.Data.List.Nodup
/-!
# A worker handle and its worker process

`WorkerProcBase` pairs a host-side handle with a worker process: a two-party barrier for the
wake and idle handshake, a job pipe and a result pipe. The host's `wake_up` starts the process the
first time and waits at the barrier; `run_sync` sends one job frame and receives one result frame,
and kills the worker on any failure; `kill` aborts the barrier and signals the process. The worker's
`_work` waits at the barrier with an idle timeout, receives a job, runs it, and sends the outcome.

A state holds both parties, the barrier, both pipes at the granularity of frames, and for
`PypyWorkerProc` the crash monitor its `run_sync` starts in a nursery. A step is one party moving
from one await (or blocking call) to the next; the worker may crash at any step, and the host may be
cancelled at any await of `run_sync`. An await of the host is split into the moment its task is
rescheduled and the moment it runs, because a cancellation reaches only a task that is still
blocked. Ghost fields record the job frames the worker read, the results it wrote, and how each
`run_sync` ended.

Two behaviours of the runtime are kept because a call's end turns on them. `multiprocessing`'s
barrier releases its sleepers in `notify_all`, which waits until every sleeper has woken: a worker
killed while asleep in `barrier.wait` never wakes, so `wake_up` and the `barrier.abort()` of `kill()`
then block for ever (`notifying`). And a cancellation enclosing `PypyWorkerProc.run_sync` that
arrives after `_recv` was rescheduled, or while the nursery closes, is raised by the nursery when it
exits, after the body returned and without `kill()` (`lateCancel`).
-/

namespace TrioParallel

namespace Handle

/-- `PosixWorkerProc`, or `PypyWorkerProc` with its crash monitor. -/
inductive Variant where
  | posix
  | pypy
  deriving DecidableEq, Repr

/-- A party of the barrier. -/
inductive Party where
  | host
  | worker
  deriving DecidableEq, Repr

/-- A result frame: the job it answers, and whether its outcome is the function's exception. -/
structure Answer where
  job : Nat
  isError : Bool
  deriving DecidableEq, Repr

/-- Where the worker process is in `_work`. -/
inductive WorkerPc where
  /-- `start()` has not been called. -/
  | unstarted
  /-- At the top of `while True`, before `barrier.wait`. -/
  | top
  /-- Blocked in `barrier.wait(timeout=IDLE_TIMEOUT)`. -/
  | waiting
  /-- In `recv_pipe.recv()`. -/
  | receiving
  /-- Running the job's function. -/
  | executing (job : Nat)
  /-- In `send_pipe.send(result)`. -/
  | sending (answer : Answer)
  /-- Returned from `_work`, crashed, or killed. -/
  | exited
  deriving DecidableEq, Repr

/-- How a call of `run_sync` ended. -/
inductive CallEnd where
  /-- It returned the function's value, or re-raised the function's exception. -/
  | returned (answer : Answer)
  /-- `BrokenWorkerError`. -/
  | brokenWorker
  /-- `Cancelled`. -/
  | cancelled
  /-- Another error from the pipes, such as `BrokenResourceError` when the job is written. -/
  | failed
  /-- The `assert` at the top of `run_sync`. -/
  | assertionFailed
  /-- `PypyWorkerProc`: `Cancelled`, which the nursery re-raised after the body had read `answer`. -/
  | cancelledAfter (answer : Answer)
  deriving DecidableEq, Repr

/-- Where the host is. -/
inductive HostPc where
  /-- No call of `wake_up` or `run_sync` in progress. -/
  | idle
  /-- Blocked in `barrier.wait` inside `wake_up`. -/
  | waking
  /-- `wake_up` returned. -/
  | woken
  /-- In `run_sync`, at the await of `_send` of job `job`. -/
  | sending (job : Nat)
  /-- In `run_sync`, blocked in `_recv`. -/
  | receiving (job : Nat)
  /-- In `run_sync`, `_recv` has been rescheduled: a frame, or end of file, is there. -/
  | received (job : Nat)
  /-- In `PypyWorkerProc.run_sync`, the body ended with `callEnd`; the nursery waits for the
  monitor. -/
  | closing (job : Nat) (callEnd : CallEnd)
  /-- `wake_up` raised `BrokenWorkerError`. -/
  | broken
  /-- Blocked for ever in the barrier's `notify_all`: `wake_up` released, or `kill()` aborted, a
  barrier whose sleeper is a worker that died in `barrier.wait`, and `notify_all` waits for that
  sleeper to wake. -/
  | notifying
  deriving DecidableEq, Repr

/-- Where `child_monitor` is. -/
inductive MonitorPc where
  /-- No nursery is open. -/
  | off
  /-- Blocked in `await self.wait()`. -/
  | waiting
  /-- `wait()` has been rescheduled: the process has exited. -/
  | ready
  /-- It ended: cancelled, or it raised `BrokenWorkerError`. -/
  | finished (raised : Bool)
  deriving DecidableEq, Repr

/-- The handle, its worker and what they share; `aborted` and the lists after `nextJob` are
ghosts. -/
structure Sys where
  variant : Variant
  started : Bool
  host : HostPc
  monitor : MonitorPc
  /-- The nursery's cancel scope, or one enclosing it, has been cancelled. -/
  nurseryCancelled : Bool
  /-- `PypyWorkerProc`: a cancel scope enclosing the call was cancelled once the body could no
  longer be interrupted; the nursery re-raises `Cancelled` when it closes. -/
  lateCancel : Bool
  worker : WorkerPc
  /-- The party blocked in the barrier's `wait`, if any. -/
  waiter : Option Party
  broken : Bool
  /-- The host has called `barrier.abort()`. -/
  aborted : Bool
  /-- The job pipe: the jobs of the frames in it, in order. -/
  jobs : List Nat
  /-- The result pipe. -/
  answers : List Answer
  /-- The job the next `run_sync` sends. -/
  nextJob : Nat
  /-- The job frames the worker has read, in order. -/
  reads : List Nat
  /-- The jobs of the result frames the worker has written, in order. -/
  writes : List Nat
  /-- Each call of `run_sync`: its job and how it ended. -/
  ends : List (Nat × CallEnd)
  deriving DecidableEq

/-- A new handle of kind `variant`: the process is not started. -/
def init (variant : Variant) : Sys :=
  ⟨variant, false, .idle, .off, false, false, .unstarted, none, false, false, [], [], 0, [], [], []⟩

/-- `proc.is_alive()`: started and not yet exited. -/
def Sys.isAlive (s : Sys) : Bool := s.started && s.worker != .exited

/-- `kill()`, once it returns: `barrier.abort()`, then the signal. The process dies at some later
step. -/
def Sys.kill (s : Sys) : Sys := { s with broken := true, aborted := true }

/-- The barrier's sleeper is a worker that died in `barrier.wait`: it will never wake, and
`notify_all` waits for every sleeper to wake. -/
def Sys.deadSleeper (s : Sys) : Bool := s.waiter = some .worker && s.worker = .exited && !s.broken

/-- `self.kill()` in a host operation that goes on as `k` once `kill()` returns. With a dead
sleeper, `barrier.abort()` never returns. -/
def Sys.killThen (s : Sys) (k : Sys → Sys) : Sys :=
  if s.deadSleeper then { s with host := .notifying } else k s.kill

/-- The host leaves `run_sync` of job `job` with `callEnd`. -/
def Sys.endCall (s : Sys) (job : Nat) (callEnd : CallEnd) : Sys :=
  { s with host := .idle, monitor := .off, lateCancel := false, ends := s.ends ++ [(job, callEnd)] }

/-- How the call ends when the nursery re-raises a late `Cancelled`: a result the body read is
lost. -/
def CallEnd.cancelLate : CallEnd → CallEnd
  | .returned answer => .cancelledAfter answer
  | e => e

/-- The body of `run_sync` (`WorkerProcBase.run_sync`) ended with `callEnd`: the call ends, or for
`PypyWorkerProc` the body cancels the nursery and waits for the monitor. -/
def Sys.bodyEnd (s : Sys) (job : Nat) (callEnd : CallEnd) : Sys :=
  match s.variant with
  | .posix => s.endCall job callEnd
  | .pypy => { s with host := .closing job callEnd, nurseryCancelled := true }

/-- `async with trio.open_nursery()` with `child_monitor` started, in `PypyWorkerProc.run_sync`. -/
def Sys.openNursery (s : Sys) : Sys :=
  match s.variant with
  | .posix => s
  | .pypy => { s with monitor := .waiting, nurseryCancelled := false }

/-- `run_sync` is entered with the next job: the nursery (for `PypyWorkerProc`), then the
`assert not self._barrier.n_waiting`, and the first await, of `_send`. -/
def Sys.enterRunSync (s : Sys) : Sys :=
  let t := { s.openNursery with nextJob := s.nextJob + 1 }
  if s.waiter.isSome then t.bodyEnd s.nextJob .assertionFailed else { t with host := .sending s.nextJob }

/-- What the scheduler, the environment or a party does in one step. -/
inductive Action where
  /-- The host calls `wake_up()`. -/
  | wake
  /-- The timeout of `wake_up(timeout)` expires. -/
  | hostTimeout
  /-- The host calls `run_sync`. -/
  | runSync
  /-- The host writes the job frame. -/
  | send
  /-- The host's `_recv` is rescheduled. -/
  | hostReady
  /-- The host's `_recv` returns or raises, and the body runs on. -/
  | resume
  /-- The host is cancelled at its await; or, for `PypyWorkerProc`, a cancellation enclosing the call
  arrives once `_recv` has been rescheduled or while the nursery closes. -/
  | cancel
  /-- `PypyWorkerProc`: the nursery exits. -/
  | close
  /-- The host calls `kill()` between calls. -/
  | kill
  /-- The monitor's `wait()` is rescheduled. -/
  | monitorReady
  /-- The monitor runs on from `wait()`. -/
  | monitorRun
  /-- The monitor is cancelled in `wait()`. -/
  | monitorCancel
  /-- The worker calls `barrier.wait`. -/
  | arrive
  /-- The worker's idle timeout expires at the barrier. -/
  | idleTimeout
  /-- The worker is released from the barrier by its breaking. -/
  | wakeBroken
  /-- The worker's `recv_pipe.recv()` returns a frame. -/
  | recvJob
  /-- The worker's function returns (`false`) or raises (`true`). -/
  | execute (isError : Bool)
  /-- The worker writes its result frame. -/
  | sendAnswer
  /-- The worker process dies. -/
  | crash
  deriving DecidableEq, Repr

/-- `self._proc.start()` when `self._started` is not set. -/
def Sys.start (s : Sys) : Sys := if s.started then s else { s with started := true, worker := .top }

/-- The host's part of `wake_up`, from `idle`: start the process the first time, then wait at
the barrier, or release it when the worker sleeps there. On a broken barrier it kills and joins a
live process and raises; every sleeper was woken when the barrier broke. -/
def wakeUp (s : Sys) : Sys :=
  let s := s.start
  if s.broken then
    if s.isAlive then { s.kill with host := .broken, worker := .exited } else { s with host := .broken }
  else match s.waiter with
    | some .worker =>
      if s.worker = .exited then { s with host := .notifying }
      else { s with host := .woken, waiter := none, worker := if s.worker = .waiting then .receiving else s.worker }
    | _ => { s with host := .waking, waiter := some .host }

/-- The worker's `barrier.wait`, from `top`. -/
def arrive (s : Sys) : Sys :=
  if s.broken then { s with worker := .exited }
  else match s.waiter with
    | some .host => { s with host := .woken, waiter := none, worker := .receiving }
    | _ => { s with worker := .waiting, waiter := some .worker }

/-- One step. -/
def step (s : Sys) : Action → Option Sys
  | .wake => if s.host = .idle then some (wakeUp s) else none
  | .hostTimeout =>
    if s.host = .waking then
      some (if s.isAlive then { s.kill with host := .broken, waiter := none, worker := .exited }
        else { s with host := .broken, waiter := none, broken := true })
    else none
  | .runSync => if s.host = .woken then some s.enterRunSync else none
  | .send =>
    match s.host with
    | .sending job =>
      if s.started ∧ s.worker = .exited then some (s.killThen (·.bodyEnd job .failed))
      else some { s with host := .receiving job, jobs := s.jobs ++ [job] }
    | _ => none
  | .hostReady =>
    match s.host with
    | .receiving job =>
      if s.answers ≠ [] ∨ (s.started ∧ s.worker = .exited) then some { s with host := .received job } else none
    | _ => none
  | .resume =>
    match s.host, s.answers with
    | .received job, answer :: rest => some ({ s with answers := rest }.bodyEnd job (.returned answer))
    | .received job, [] => some (s.killThen (·.bodyEnd job .brokenWorker))
    | _, _ => none
  | .cancel =>
    match s.host with
    | .sending job | .receiving job =>
      some (s.killThen fun t => Sys.bodyEnd { t with monitor := if t.monitor = .waiting then .finished false else t.monitor }
        job .cancelled)
    | .received _ | .closing _ _ =>
      if s.variant = .pypy ∧ s.lateCancel = false then some { s with lateCancel := true, nurseryCancelled := true }
      else none
    | _ => none
  | .close =>
    match s.host, s.monitor with
    | .closing job callEnd, .finished raised =>
      some (s.endCall job (if raised then (match callEnd with
        | .returned _ => .brokenWorker
        | e => e) else if s.lateCancel then callEnd.cancelLate else callEnd))
    | _, _ => none
  | .kill => if s.host = .idle then some (s.killThen id) else none
  | .monitorReady =>
    if s.monitor = .waiting ∧ s.started ∧ s.worker = .exited then some { s with monitor := .ready } else none
  | .monitorRun =>
    if s.monitor = .ready then
      some (if s.nurseryCancelled then { s with monitor := .finished false }
        else { s with monitor := .finished true, nurseryCancelled := true })
    else none
  | .monitorCancel =>
    if s.monitor = .waiting ∧ s.nurseryCancelled then some { s with monitor := .finished false } else none
  | .arrive => if s.worker = .top then some (arrive s) else none
  | .idleTimeout =>
    if s.worker = .waiting ∧ s.waiter = some .worker then
      some { s with worker := .exited, waiter := none, broken := true }
    else none
  | .wakeBroken =>
    if s.worker = .waiting ∧ s.broken then some { s with worker := .exited, waiter := none } else none
  | .recvJob =>
    match s.worker, s.jobs with
    | .receiving, job :: rest => some { s with worker := .executing job, jobs := rest, reads := s.reads ++ [job] }
    | _, _ => none
  | .execute isError =>
    match s.worker with
    | .executing job => some { s with worker := .sending ⟨job, isError⟩ }
    | _ => none
  | .sendAnswer =>
    match s.worker with
    | .sending answer =>
      some { s with worker := .top, answers := s.answers ++ [answer], writes := s.writes ++ [answer.job] }
    | _ => none
  | .crash => if s.started ∧ s.worker ≠ WorkerPc.exited then some { s with worker := .exited } else none

/-- The states reachable from a new handle of either kind. -/
inductive Reachable : Sys → Prop
  | init (variant : Variant) : Reachable (init variant)
  | step {s s' : Sys} {a : Action} : Reachable s → step s a = some s' → Reachable s'

/-- The state after a schedule of actions, each enabled in turn. -/
def run : Sys → List Action → Option Sys
  | s, [] => some s
  | s, a :: rest => (step s a).bind (run · rest)

theorem reachable_of_run : ∀ {s s' : Sys} {l : List Action}, Reachable s → run s l = some s' → Reachable s'
  | _, _, [], hs, h => by cases h; exact hs
  | s, _, a :: rest, hs, h => by
    obtain ⟨s₁, h₁, h⟩ := Option.bind_eq_some.mp h
    exact reachable_of_run (.step hs h₁) h

end Handle

end TrioParallel
