import TrioParallel.Cache.ProcCache
import TrioParallel.Handle.Protocol
/-!
# `to_process_run_sync` and `WorkerProc` of `_worker_processes.py`

The older worker pool. A worker process runs `_work`: it polls its job pipe with the idle timeout,
reads a job frame, runs the function and writes the outcome to its result pipe; when a poll times
out it closes both pipe ends and exits. The host's `WorkerProc.run_sync` opens a nursery with
`_child_monitor`, which raises `BrokenWorkerError` once the process has exited, writes the job
frame and reads a result frame. On `EndOfChannel` it kills the process and sleeps until the monitor
raises; on any other exception it kills the process and re-raises. `to_process_run_sync` prunes
`PROC_CACHE`, then pops a live handle or creates one, calls its `run_sync`, goes round again on
`BrokenResourceError`, and in its `finally` pushes the handle back whenever `is_alive()` holds.

A state holds the callers, the cache, and every handle with its worker and pipes, at the
granularity of frames. A step is one caller running from one await to the next, a step of a
nursery's monitor, or one step of a worker. The cache's `prune` and `pop` are atomic, as between
Trio tasks of one run. `kill()` only sends the signal: from then on the process takes no step but
its death, which comes later, so `is_alive()` can still hold after `kill()`. A process can crash at
any step. Every caller can be cancelled at the limiter and in `trio.to_thread.run_sync(WorkerProc)`
before the thread starts, which are outside the shield; a caller that passed `cancellable=True` can
be cancelled at any await of the handle's `run_sync`, and while its nursery exits. Caller `i`'s job
is `i`. Ghosts record the job frames written and read, and how each call ended.

A job frame is written whole. A write cut short loses nothing the model lacks: the worker reads
whole frames, and `poll` returns once any byte is there; a write that meets a closed or dead reader
raises `BrokenResourceError`, as a write after the reader closed does, and the bytes it wrote are
never read; a write cut short by a cancellation is the cancellation at `_send`.

The result frame carries the outcome `outcome.capture` made of the function, and `result.unwrap()`
runs after the nursery, inside the `try` of `to_process_run_sync`: a `trio.BrokenResourceError` that
the function raised is caught there like one from the pipe, and the job is sent again.
-/

namespace TrioParallel

namespace Legacy

/-- What the function did, as `outcome.capture` records it. -/
inductive Outcome where
  /-- It returned a value. -/
  | value
  /-- It raised an exception other than `trio.BrokenResourceError`. -/
  | error
  /-- It raised `trio.BrokenResourceError`. -/
  | brokenResource
  deriving DecidableEq, Repr

/-- A result frame: the job it answers, and the function's outcome. -/
structure Answer where
  job : Nat
  outcome : Outcome
  deriving DecidableEq, Repr

/-- Where the worker process is in `WorkerProc._work`. -/
inductive WorkerPc where
  /-- In `recv_pipe.poll(timeout=IDLE_TIMEOUT)`. -/
  | polling
  /-- Running the job's function. -/
  | executing (job : Nat)
  /-- In `send_pipe.send(result)`. -/
  | sending (answer : Answer)
  /-- `poll` timed out; in the `finally`, its pipe ends still open. -/
  | timedOut
  /-- Its pipe ends are closed; the process is exiting. -/
  | closed
  /-- The process has exited: returned, crashed or killed. -/
  | exited
  deriving DecidableEq, Repr

/-- The worker's ends of both pipes are open. -/
def WorkerPc.listening : WorkerPc → Bool
  | .closed | .exited => false
  | _ => true

/-- A `WorkerProc`: its worker, the frames in its job pipe and its result pipe, and whether `kill()`
has signalled the process. -/
structure Proc where
  worker : WorkerPc
  jobs : List Nat
  answers : List Answer
  killed : Bool
  deriving DecidableEq, Repr

/-- A new `WorkerProc`: the constructor starts the process, which polls. -/
def Proc.new : Proc := ⟨.polling, [], [], false⟩

/-- How the body of `WorkerProc.run_sync` ended. -/
inductive BodyEnd where
  /-- `result` was read, and the body cancelled the nursery. -/
  | value (answer : Answer)
  /-- `_send` raised `BrokenResourceError`; the body killed and re-raised. -/
  | brokenResource
  /-- An await raised `Cancelled`; the body killed and re-raised. -/
  | cancelled
  deriving DecidableEq, Repr

/-- How a call of `to_process_run_sync` ended. -/
inductive CallEnd where
  /-- It returned the function's value, or re-raised the function's exception. -/
  | returned (answer : Answer)
  /-- `BrokenWorkerError`, alone or with the body's exception. -/
  | brokenWorker
  /-- `Cancelled`, alone or with the body's exception. -/
  | cancelled
  deriving DecidableEq, Repr

/-- Where `_child_monitor` is. -/
inductive MonitorPc where
  /-- No nursery is open. -/
  | off
  /-- In `await wait_sentinel(self._proc.sentinel)`. -/
  | waiting
  /-- The sentinel is ready: the process has exited. -/
  | ready
  /-- It ended: cancelled, or it raised `BrokenWorkerError`. -/
  | finished (raised : Bool)
  deriving DecidableEq, Repr

/-- Where a call of `to_process_run_sync` is. -/
inductive TaskPc where
  /-- `async with limiter`. -/
  | acquire
  /-- At the top of `while True`. -/
  | popping
  /-- In `await trio.to_thread.run_sync(WorkerProc)`. -/
  | creating
  /-- In `run_sync` of handle `proc`, at the await of `_send`. -/
  | sending (proc : Nat)
  /-- In `_recv`. -/
  | receiving (proc : Nat)
  /-- In `trio.sleep_forever()` after `EndOfChannel`. -/
  | sleeping (proc : Nat)
  /-- The body ended with `bodyEnd`; the nursery waits for the monitor. -/
  | closing (proc : Nat) (bodyEnd : BodyEnd)
  /-- The call has returned or raised. -/
  | done
  deriving DecidableEq, Repr

/-- The handle a caller holds. -/
def TaskPc.held : TaskPc → Option Nat
  | .sending proc | .receiving proc | .sleeping proc | .closing proc _ => some proc
  | _ => none

/-- A caller: its `cancellable` argument, its position, and its handle's monitor and nursery. -/
structure Task where
  cancellable : Bool
  pc : TaskPc
  monitor : MonitorPc
  /-- The nursery's cancel scope, or an enclosing one, has been cancelled. -/
  nurseryCancelled : Bool
  /-- A cancel scope enclosing the call was cancelled while the nursery exits; the nursery raises
  `Cancelled` once the monitor has ended. -/
  lateCancel : Bool
  deriving DecidableEq, Repr

/-- The handles by number, `PROC_CACHE`, the callers, and the ghosts. -/
structure Sys where
  procs : List Proc
  cache : List Nat
  tasks : List Task
  /-- The job frames the host has written, in order. -/
  writes : List Nat
  /-- The job frames the workers have read, in order. -/
  reads : List Nat
  /-- Each ended call: its caller and how it ended. -/
  ends : List (Nat × CallEnd)
  deriving DecidableEq, Repr

/-- Callers with the given `cancellable` arguments before their call, and an empty cache. -/
def init (cancellable : List Bool) : Sys :=
  ⟨[], [], cancellable.map fun c => ⟨c, .acquire, .off, false, false⟩, [], [], []⟩

/-- `proc.is_alive()`: the handle's process has not exited. -/
def Sys.isAlive (s : Sys) (proc : Nat) : Bool :=
  match s.procs[proc]? with
  | some p => p.worker != .exited
  | none => false

/-- Caller `i` moves to `t`. -/
def Sys.setTask (s : Sys) (i : Nat) (t : Task) : Sys := { s with tasks := s.tasks.set i t }

/-- Handle `proc` becomes `p`. -/
def Sys.setProc (s : Sys) (proc : Nat) (p : Proc) : Sys := { s with procs := s.procs.set proc p }

/-- `proc.kill()`: the signal is sent; the process dies at some later step. -/
def Sys.kill (s : Sys) (proc : Nat) : Sys :=
  match s.procs[proc]? with
  | some p => s.setProc proc { p with killed := true }
  | none => s

/-- The `finally` of `to_process_run_sync`: `if proc.is_alive(): PROC_CACHE.push(proc)`. -/
def Sys.release (s : Sys) (proc : Nat) : Sys :=
  if s.isAlive proc then { s with cache := Cache.push proc s.cache } else s

/-- How the nursery of `run_sync` exits once the monitor has ended (`raised`: with
`BrokenWorkerError`), with or without a late cancellation, and what the loop of
`to_process_run_sync` makes of it: `none` goes round again. A `BrokenResourceError` alone is caught
by the loop, whether the body raised it or `result.unwrap()` re-raised the function's. -/
def callEnd (raised late : Bool) : BodyEnd → Option CallEnd
  | .value answer =>
    if raised then some .brokenWorker
    else if late then some .cancelled
    else if answer.outcome = .brokenResource then none
    else some (.returned answer)
  | .brokenResource => if raised then some .brokenWorker else if late then some .cancelled else none
  | .cancelled => if raised then some .brokenWorker else some .cancelled

/-- The body of `run_sync` ends with `bodyEnd`; an exception cancels the nursery as
`nursery.cancel_scope.cancel()` does after a result. -/
def Task.bodyEnd (t : Task) (proc : Nat) (bodyEnd : BodyEnd) : Task :=
  { t with pc := .closing proc bodyEnd, nurseryCancelled := true }

/-- The caller is cancelled in the body: the body raises `Cancelled`, which also cancels a monitor
still waiting. -/
def Task.cancelBody (t : Task) (proc : Nat) : Task :=
  { t.bodyEnd proc .cancelled with monitor := if t.monitor = .waiting then MonitorPc.finished false else t.monitor }

/-- One step of caller `i` at `t`, or of its monitor. -/
inductive TaskAction where
  /-- The limiter is acquired and `PROC_CACHE.prune()` runs. -/
  | acquire
  /-- `PROC_CACHE.pop()`: a live handle, whose `run_sync` is entered, or `IndexError`. -/
  | pop
  /-- The new `WorkerProc` is constructed, and its `run_sync` entered. -/
  | create
  /-- `_send` writes the job frame, or raises `BrokenResourceError`. -/
  | send
  /-- `_recv` reads a result frame, or meets the end of the pipe. -/
  | recv
  /-- The caller is cancelled, or a cancellation reaches its nursery's exit. -/
  | cancel
  /-- The monitor raised: the nursery cancels the body at its await. -/
  | nurseryCancel
  /-- The nursery exits, and the `except` and `finally` of `to_process_run_sync` run. -/
  | close
  /-- The monitor's sentinel is ready. -/
  | monitorReady
  /-- The monitor runs on from the sentinel. -/
  | monitorRun
  /-- The monitor is cancelled in its wait. -/
  | monitorCancel
  deriving DecidableEq, Repr

/-- One step of caller `i`, which is at `t`. -/
def taskStep (s : Sys) (i : Nat) (t : Task) : TaskAction → Option Sys
  | .acquire =>
    if t.pc = .acquire then some ({ s with cache := Cache.prune s.isAlive s.cache }.setTask i { t with pc := .popping })
    else none
  | .pop =>
    if t.pc = .popping then
      match Cache.pop s.isAlive s.cache with
      | (some proc, rest) =>
        some ({ s with cache := rest }.setTask i
          { t with pc := .sending proc, monitor := .waiting, nurseryCancelled := false })
      | (none, rest) => some ({ s with cache := rest }.setTask i { t with pc := .creating })
    else none
  | .create =>
    if t.pc = .creating then
      some ({ s with procs := s.procs ++ [Proc.new] }.setTask i
        { t with pc := .sending s.procs.length, monitor := .waiting, nurseryCancelled := false })
    else none
  | .send =>
    match t.pc with
    | .sending proc =>
      match s.procs[proc]? with
      | some p =>
        if p.worker.listening then
          some ({ s.setProc proc { p with jobs := p.jobs ++ [i] } with writes := s.writes ++ [i] }.setTask i
            { t with pc := .receiving proc })
        else some ((s.kill proc).setTask i (t.bodyEnd proc .brokenResource))
      | none => none
    | _ => none
  | .recv =>
    match t.pc with
    | .receiving proc =>
      match s.procs[proc]? with
      | some p =>
        match p.answers with
        | answer :: rest => some ((s.setProc proc { p with answers := rest }).setTask i (t.bodyEnd proc (.value answer)))
        | [] =>
          if p.worker.listening then none
          else some ((s.kill proc).setTask i { t with pc := .sleeping proc })
      | none => none
    | _ => none
  | .cancel =>
    match t.pc with
    | .acquire | .creating =>
      some ({ s with ends := s.ends ++ [(i, CallEnd.cancelled)] }.setTask i { t with pc := .done })
    | .sending proc | .receiving proc => if t.cancellable then some ((s.kill proc).setTask i (t.cancelBody proc)) else none
    | .sleeping proc => if t.cancellable then some (s.setTask i (t.cancelBody proc)) else none
    | .closing _ _ => if t.cancellable ∧ t.lateCancel = false then some (s.setTask i { t with lateCancel := true }) else none
    | _ => none
  | .nurseryCancel =>
    match t.pc, t.monitor with
    | .sending proc, .finished true | .receiving proc, .finished true =>
      some ((s.kill proc).setTask i (t.bodyEnd proc .cancelled))
    | .sleeping proc, .finished true => some (s.setTask i (t.bodyEnd proc .cancelled))
    | _, _ => none
  | .close =>
    match t.pc, t.monitor with
    | .closing proc bodyEnd, .finished raised =>
      match callEnd raised t.lateCancel bodyEnd with
      | none => some ((s.release proc).setTask i { t with pc := .popping, monitor := .off, lateCancel := false })
      | some e =>
        some ({ s.release proc with ends := s.ends ++ [(i, e)] }.setTask i { t with pc := .done, monitor := .off })
    | _, _ => none
  | .monitorReady =>
    match t.pc.held with
    | some proc =>
      if t.monitor = .waiting ∧ s.isAlive proc = false then some (s.setTask i { t with monitor := .ready }) else none
    | none => none
  | .monitorRun =>
    if t.monitor = .ready then
      some (s.setTask i (if t.nurseryCancelled then { t with monitor := .finished false }
        else { t with monitor := .finished true, nurseryCancelled := true }))
    else none
  | .monitorCancel =>
    if t.monitor = .waiting ∧ t.nurseryCancelled then some (s.setTask i { t with monitor := .finished false })
    else none

/-- One step of a worker process. -/
inductive WorkerAction where
  /-- `poll` returns and `recv` reads a job frame. -/
  | recvJob
  /-- `poll` times out. -/
  | idleTimeout
  /-- The function runs, with the outcome `outcome`. -/
  | execute (outcome : Outcome)
  /-- `send_pipe.send(result)`. -/
  | sendAnswer
  /-- The `finally` closes both pipe ends; unread job frames are lost. -/
  | closePipes
  /-- The process exits after `_work` returned. -/
  | exit
  /-- The signal of `kill()` takes effect and the process dies. -/
  | signalled
  /-- The process crashes. -/
  | crash
  deriving DecidableEq, Repr

/-- A step of the worker's own code, which a signalled process no longer takes. -/
def workerRun (s : Sys) (proc : Nat) (p : Proc) : WorkerAction → Option Sys
  | .recvJob =>
    match p.worker, p.jobs with
    | .polling, job :: rest => some { s.setProc proc { p with worker := .executing job, jobs := rest } with
        reads := s.reads ++ [job] }
    | _, _ => none
  | .idleTimeout => if p.worker = .polling ∧ p.jobs = [] then some (s.setProc proc { p with worker := .timedOut }) else none
  | .execute outcome =>
    match p.worker with
    | .executing job => some (s.setProc proc { p with worker := .sending ⟨job, outcome⟩ })
    | _ => none
  | .sendAnswer =>
    match p.worker with
    | .sending answer => some (s.setProc proc { p with worker := .polling, answers := p.answers ++ [answer] })
    | _ => none
  | .closePipes => if p.worker = .timedOut then some (s.setProc proc { p with worker := .closed, jobs := [] }) else none
  | .exit => if p.worker = .closed then some (s.setProc proc { p with worker := .exited }) else none
  | _ => none

/-- One step of the worker of handle `proc`, which is `p`: its own code until `kill()` signals it,
then only its death; a crash at any time. Unread job frames die with the process. -/
def workerStep (s : Sys) (proc : Nat) (p : Proc) : WorkerAction → Option Sys
  | .signalled =>
    if p.killed ∧ p.worker ≠ .exited then some (s.setProc proc { p with worker := .exited, jobs := [] }) else none
  | .crash => if p.worker ≠ .exited then some (s.setProc proc { p with worker := .exited, jobs := [] }) else none
  | a => if p.killed then none else workerRun s proc p a

/-- A step of the whole system. -/
inductive Action where
  | task (i : Nat) (a : TaskAction)
  | worker (proc : Nat) (a : WorkerAction)
  deriving DecidableEq, Repr

/-- A step that needs no crash, no idle timeout and no cancellation. -/
def Action.regular : Action → Bool
  | .task _ .cancel | .worker _ .crash | .worker _ .idleTimeout => false
  | _ => true

/-- One step. -/
def step (s : Sys) : Action → Option Sys
  | .task i a => match s.tasks[i]? with
    | some t => taskStep s i t a
    | none => none
  | .worker proc a => match s.procs[proc]? with
    | some p => workerStep s proc p a
    | none => none

/-- The states reachable from callers before their call. -/
inductive Reachable : Sys → Prop
  | init (cancellable : List Bool) : Reachable (init cancellable)
  | step {s s' : Sys} {a : Action} : Reachable s → step s a = some s' → Reachable s'

/-- The state after a schedule of steps, each enabled in turn. -/
def run : Sys → List Action → Option Sys
  | s, [] => some s
  | s, a :: rest => (step s a).bind (run · rest)

theorem run_append (s : Sys) (l₁ l₂ : List Action) : run s (l₁ ++ l₂) = (run s l₁).bind (run · l₂) := by
  induction l₁ generalizing s with
  | nil => rfl
  | cons a l ih =>
    simp only [List.cons_append, run]
    cases step s a <;> simp [ih]

theorem reachable_of_run : ∀ {s s' : Sys} {l : List Action}, Reachable s → run s l = some s' → Reachable s'
  | _, _, [], hs, h => by cases h; exact hs
  | s, _, a :: rest, hs, h => by
    obtain ⟨s₁, h₁, h⟩ := Option.bind_eq_some.mp h
    exact reachable_of_run (.step hs h₁) h

end Legacy

end TrioParallel
