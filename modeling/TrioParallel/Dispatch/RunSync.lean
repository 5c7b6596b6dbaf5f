import TrioParallel.Tasks
import Mathlib.Data.List.Nodup
/-!
# `_impl.run_sync` under concurrent tasks

`run_sync` acquires the limiter, prunes the context's `worker_cache`, and loops: a checkpoint, a
handle from `pop` (or a new one when `pop` raises `IndexError`), and the handle's `run_sync`; a
result that is `None` goes round again. After the loop it appends the handle back.

Tasks switch only at their awaits: the limiter, the checkpoint, the handle's `run_sync`, and the
exit of `async with limiter`, and a step is one task running from one await to the next. The
handle's `run_sync` is left abstract: it ends with an `Outcome`, with `None`, or with an
exception, in any combination. The cache class is not in the source; its `prune` and `pop` are
any atomic operation that removes handles from the list, `pop` returning one of them or raising
`IndexError`. That covers a plain list and the spec's LIFO cache.

A ghost log records, per task, the handles it popped or created, how each `run_sync` ended, and
what it appended. `Inv` keeps the cache and the held handles apart, keeps a handle whose
`run_sync` failed out of both, and ties each task's position to the shape of its own events.
-/

namespace TrioParallel

namespace Dispatch

/-- How a handle's `run_sync` ended, as `_impl.run_sync` reads it. -/
inductive HandleEnd where
  /-- A result that is not `None`. -/
  | outcome
  /-- `None`. -/
  | none
  /-- An exception, cancellation included. -/
  | raised
  deriving DecidableEq, Repr

/-- Where a task is in `_impl.run_sync`: the await it is suspended at. -/
inductive Pc where
  /-- `async with limiter`. -/
  | acquire
  /-- `checkpoint_if_cancelled()` at the top of `while result is None`. -/
  | checkpoint
  /-- `proc.run_sync(sync_fn, *args)`. -/
  | running (proc : Nat)
  /-- Leaving `async with limiter` with a result, before `append(proc)`. -/
  | exiting (proc : Nat)
  /-- The call has returned or raised. -/
  | done
  deriving DecidableEq, Repr

/-- The handle a task holds: popped or created, and not yet appended back or dropped. -/
def Pc.held : Pc → Option Nat
  | .running proc | .exiting proc => some proc
  | _ => none

/-- What a task does to a handle, as the ghost log records it. -/
inductive Event where
  | popped (proc : Nat)
  | created (proc : Nat)
  | ran (proc : Nat) (runEnd : HandleEnd)
  | appended (proc : Nat)
  deriving DecidableEq, Repr

/-- The handle an event is about. -/
def Event.proc : Event → Nat
  | .popped proc | .created proc | .ran proc _ | .appended proc => proc

/-- The context's cache, the next fresh handle, every task's position, and the ghost log of
`(task, event)`. -/
structure Sys where
  cache : List Nat
  next : Nat
  tasks : List Pc
  log : List (Nat × Event)

/-- `n` tasks before their call, sharing an empty cache. -/
def init (n : Nat) : Sys := ⟨[], 0, List.replicate n .acquire, []⟩

/-- What the scheduler and the environment choose for one step of a task. -/
inductive Choice where
  /-- The limiter is acquired, and `prune()` leaves `kept`. -/
  | acquire (kept : List Nat)
  /-- The await raises `Cancelled`. -/
  | cancel
  /-- The checkpoint passes and `pop()` returns `popped` (`none`: `IndexError`), leaving `kept`. -/
  | pop (popped : Option Nat) (kept : List Nat)
  /-- The handle's `run_sync` ends. -/
  | finish (runEnd : HandleEnd)
  /-- `async with limiter` is left. -/
  | exit

/-- Where a task goes when the handle's `run_sync` ends: out of the loop with a result, round the
loop on `None`, out of the call on an exception. -/
def afterRun (proc : Nat) : HandleEnd → Pc
  | .outcome => .exiting proc
  | .none => .checkpoint
  | .raised => .done

/-- One step of a task at `pc`: the cache and next handle after it, the task's next position, and
what it logs. -/
def pcStep (s : Sys) : Pc → Choice → Option (Sys × Pc × Option Event)
  | .acquire, .acquire kept =>
    if kept.Sublist s.cache then some ({ s with cache := kept }, .checkpoint, none) else none
  | .acquire, .cancel | .checkpoint, .cancel => some (s, .done, none)
  | .checkpoint, .pop (some proc) kept =>
    if (kept ++ [proc]).Sublist s.cache then some ({ s with cache := kept }, .running proc, some (.popped proc))
    else none
  | .checkpoint, .pop none kept =>
    if kept.Sublist s.cache then
      some ({ s with cache := kept, next := s.next + 1 }, .running s.next, some (.created s.next))
    else none
  | .running proc, .finish runEnd => some (s, afterRun proc runEnd, some (.ran proc runEnd))
  | .exiting proc, .exit => some ({ s with cache := s.cache ++ [proc] }, .done, some (.appended proc))
  | _, _ => none

/-- One step of task `i`. -/
def step (s : Sys) (i : Nat) (c : Choice) : Option Sys :=
  match s.tasks[i]? with
  | some pc => (pcStep s pc c).map fun r =>
    { r.1 with tasks := s.tasks.set i r.2.1, log := s.log ++ (r.2.2.map (i, ·)).toList }
  | none => none

/-- The states reachable from some number of tasks before their call. -/
inductive Reachable : Sys → Prop
  | init (n : Nat) : Reachable (init n)
  | step {s s' : Sys} {i : Nat} {c : Choice} : Reachable s → step s i c = some s' → Reachable s'

/-- The state after a schedule of `(task, choice)` steps, each taken by `f` in turn. -/
def runWith (f : Sys → Nat → Choice → Option Sys) : Sys → List (Nat × Choice) → Option Sys
  | s, [] => some s
  | s, (i, c) :: rest => (f s i c).bind (runWith f · rest)

theorem reachable_of_run : ∀ {s s' : Sys} {l : List (Nat × Choice)}, Reachable s → runWith step s l = some s' →
    Reachable s'
  | _, _, [], hs, h => by cases h; exact hs
  | s, _, (i, c) :: rest, hs, h => by
    obtain ⟨s₁, h₁, h⟩ := Option.bind_eq_some.mp h
    exact reachable_of_run (.step hs h₁) h

/-- Task `i`'s events, in order. -/
def taskEvents (log : List (Nat × Event)) (i : Nat) : List Event :=
  log.filterMap fun e => if e.1 = i then some e.2 else none

/-!
### The invariant

`pcStep_cases` says once what a step of a task can do; the other step lemmas read the cache and
held handles as `s.cache ++ (pc.held.toList ++ R)`, with `R` what the other tasks hold.
-/

variable {s s₁ s' : Sys} {pc pc' : Pc} {c : Choice} {ev : Option Event} {proc : Nat} {runEnd : HandleEnd}

theorem pcStep_cases (h : pcStep s pc c = some (s₁, pc', ev)) :
    (pc = .acquire ∧ ∃ kept, kept.Sublist s.cache ∧ s₁ = { s with cache := kept } ∧ pc' = .checkpoint ∧
      ev = none) ∨
    ((pc = .acquire ∨ pc = .checkpoint) ∧ s₁ = s ∧ pc' = .done ∧ ev = none) ∨
    (pc = .checkpoint ∧ ∃ proc kept, (kept ++ [proc]).Sublist s.cache ∧ s₁ = { s with cache := kept } ∧
      pc' = .running proc ∧ ev = some (.popped proc)) ∨
    (pc = .checkpoint ∧ ∃ kept, kept.Sublist s.cache ∧ s₁ = { s with cache := kept, next := s.next + 1 } ∧
      pc' = .running s.next ∧ ev = some (.created s.next)) ∨
    (∃ proc runEnd, pc = .running proc ∧ s₁ = s ∧ pc' = afterRun proc runEnd ∧ ev = some (.ran proc runEnd)) ∨
    (∃ proc, pc = .exiting proc ∧ s₁ = { s with cache := s.cache ++ [proc] } ∧ pc' = .done ∧
      ev = some (.appended proc)) := by
  cases pc with
  | acquire =>
    cases c with
    | acquire kept =>
      simp only [pcStep] at h
      split at h
      · cases h; exact .inl ⟨rfl, kept, ‹_›, rfl, rfl, rfl⟩
      · cases h
    | cancel => cases h; exact .inr (.inl ⟨.inl rfl, rfl, rfl, rfl⟩)
    | _ => cases h
  | checkpoint =>
    cases c with
    | cancel => cases h; exact .inr (.inl ⟨.inr rfl, rfl, rfl, rfl⟩)
    | pop popped kept =>
      cases popped with
      | some proc =>
        simp only [pcStep] at h
        split at h
        · cases h; exact .inr (.inr (.inl ⟨rfl, proc, kept, ‹_›, rfl, rfl, rfl⟩))
        · cases h
      | none =>
        simp only [pcStep] at h
        split at h
        · cases h; exact .inr (.inr (.inr (.inl ⟨rfl, kept, ‹_›, rfl, rfl, rfl⟩)))
        · cases h
    | _ => cases h
  | running proc =>
    cases c with
    | finish runEnd => cases h; exact .inr (.inr (.inr (.inr (.inl ⟨proc, runEnd, rfl, rfl, rfl, rfl⟩))))
    | _ => cases h
  | exiting proc =>
    cases c with
    | exit => cases h; exact .inr (.inr (.inr (.inr (.inr ⟨proc, rfl, rfl, rfl, rfl⟩))))
    | _ => cases h
  | done => cases c <;> cases h

theorem pcStep_acquire {kept : List Nat} (h : pcStep s pc (.acquire kept) = some (s₁, pc', ev)) :
    pc = .acquire ∧ kept.Sublist s.cache ∧ s₁ = { s with cache := kept } ∧ pc' = .checkpoint ∧ ev = none := by
  cases pc
  case acquire =>
    simp only [pcStep] at h
    split at h
    · cases h; exact ⟨rfl, ‹_›, rfl, rfl, rfl⟩
    · cases h
  all_goals cases h

theorem pcStep_pop {popped : Option Nat} {kept : List Nat}
    (h : pcStep s pc (.pop popped kept) = some (s₁, pc', ev)) :
    pc = .checkpoint ∧ (kept ++ popped.toList).Sublist s.cache ∧
      s₁ = { s with cache := kept, next := if popped.isSome then s.next else s.next + 1 } ∧
      pc' = .running (popped.getD s.next) := by
  cases pc
  case checkpoint =>
    cases popped <;> simp only [pcStep] at h <;> split at h <;> cases h
    all_goals exact ⟨rfl, by simpa using ‹_›, rfl, rfl⟩
  all_goals cases h

theorem pcStep_exit (h : pcStep s pc .exit = some (s₁, pc', ev)) : ∃ proc, pc = .exiting proc := by
  cases pc <;> first | exact ⟨_, rfl⟩ | cases h

theorem pcStep_lists (h : pcStep s pc c = some (s₁, pc', ev)) (R : List Nat) :
    ((s₁.cache ++ (pc'.held.toList ++ R)).Sublist (s.cache ++ (pc.held.toList ++ R)) ∧ s₁.next = s.next) ∨
    (∃ K, K.Sublist (s.cache ++ (pc.held.toList ++ R)) ∧
      (s₁.cache ++ (pc'.held.toList ++ R)).Perm (s.next :: K) ∧ s₁.next = s.next + 1) := by
  rcases pcStep_cases h with ⟨rfl, kept, hk, rfl, rfl, -⟩ | ⟨hpc, rfl, rfl, -⟩ |
    ⟨rfl, proc, kept, hk, rfl, rfl, -⟩ | ⟨rfl, kept, hk, rfl, rfl, -⟩ | ⟨proc, runEnd, rfl, rfl, rfl, -⟩ |
    ⟨proc, rfl, rfl, rfl, -⟩
  · exact .inl ⟨hk.append_right _, rfl⟩
  · rcases hpc with rfl | rfl <;> exact .inl ⟨List.Sublist.refl _, rfl⟩
  · exact .inl ⟨by simpa [Pc.held] using hk.append_right R, rfl⟩
  · exact .inr ⟨kept ++ R, hk.append_right R, List.perm_middle, rfl⟩
  · refine .inl ⟨?_, rfl⟩
    cases runEnd
    · exact List.Sublist.refl _
    · exact (List.sublist_cons_self _ _).append_left _
    · exact (List.sublist_cons_self _ _).append_left _
  · exact .inl ⟨by simp [Pc.held], rfl⟩

/-- No event of `ev` appends a handle. -/
def NoAppend (ev : List Event) : Prop := ∀ proc, Event.appended proc ∉ ev

/-- `q` gave the task the handle `proc`: `pop` returned it, or the task created it. -/
def Obtains (proc : Nat) (q : Event) : Prop := q = .popped proc ∨ q = .created proc

/-- A task's append is its last event, and comes right after the run of the handle it popped or
created, which ended with a result. -/
def AppendsLast (ev : List Event) : Prop :=
  ∀ pre proc post, ev = pre ++ .appended proc :: post →
    post = [] ∧ ∃ pre' q, pre = pre' ++ [q, .ran proc .outcome] ∧ Obtains proc q

/-- The shape of a task's events at each of its positions (`none`: no such task). -/
def Shape : Option Pc → List Event → Prop
  | none, ev | some .acquire, ev => ev = []
  | some .checkpoint, ev => NoAppend ev
  | some (.running proc), ev => ∃ pre q, ev = pre ++ [q] ∧ NoAppend pre ∧ Obtains proc q
  | some (.exiting proc), ev => ∃ pre q, ev = pre ++ [q, .ran proc .outcome] ∧ NoAppend pre ∧ Obtains proc q
  | some .done, ev => AppendsLast ev

theorem noAppend_append {a b : List Event} : NoAppend (a ++ b) ↔ NoAppend a ∧ NoAppend b := by
  simp only [NoAppend, List.mem_append, not_or, forall_and]

theorem Obtains.noAppend_run {proc : Nat} {q : Event} (hq : Obtains proc q) (runEnd : HandleEnd) :
    NoAppend [q, .ran proc runEnd] := by
  rcases hq with rfl | rfl <;> intro p <;> simp

theorem AppendsLast.of_noAppend {ev : List Event} (h : NoAppend ev) : AppendsLast ev := by
  rintro pre proc post rfl
  exact absurd (List.mem_append_right _ (List.mem_cons_self _ _)) (h proc)

theorem appendsLast_snoc {pre : List Event} {proc : Nat} {q : Event} (hpre : NoAppend pre)
    (hq : Obtains proc q) : AppendsLast (pre ++ [q, .ran proc .outcome] ++ [.appended proc]) := by
  have hno : NoAppend (pre ++ [q, .ran proc .outcome]) := noAppend_append.mpr ⟨hpre, hq.noAppend_run _⟩
  intro pre₁ p post heq
  rcases List.eq_nil_or_concat post with rfl | ⟨post₀, x, rfl⟩
  · obtain ⟨hpre₁, hp⟩ := List.append_inj' heq rfl
    cases hp
    exact ⟨rfl, pre, q, hpre₁.symm, hq⟩
  · rw [List.concat_eq_append, ← List.cons_append, ← List.append_assoc] at heq
    obtain ⟨heq', -⟩ := List.append_inj' heq rfl
    exact absurd (heq' ▸ List.mem_append_right _ (List.mem_cons_self _ _)) (hno p)

theorem pcStep_shape (h : pcStep s pc c = some (s₁, pc', ev)) {evs : List Event} (hs : Shape (some pc) evs) :
    Shape (some pc') (evs ++ ev.toList) := by
  rcases pcStep_cases h with ⟨rfl, -, -, -, rfl, rfl⟩ | ⟨hpc, -, rfl, rfl⟩ |
    ⟨rfl, proc, -, -, -, rfl, rfl⟩ | ⟨rfl, -, -, -, rfl, rfl⟩ | ⟨proc, runEnd, rfl, -, rfl, rfl⟩ |
    ⟨proc, rfl, -, rfl, rfl⟩
  · simp only [Shape] at hs; subst hs; intro p; simp
  · simp only [Option.toList, List.append_nil, Shape]
    rcases hpc with rfl | rfl
    · simp only [Shape] at hs; subst hs; exact AppendsLast.of_noAppend fun p => List.not_mem_nil _
    · exact AppendsLast.of_noAppend hs
  · exact ⟨evs, _, rfl, hs, .inl rfl⟩
  · exact ⟨evs, _, rfl, hs, .inr rfl⟩
  · obtain ⟨pre, q, rfl, hpre, hq⟩ := hs
    have hno : NoAppend (pre ++ [q, .ran proc runEnd]) := noAppend_append.mpr ⟨hpre, hq.noAppend_run _⟩
    cases runEnd
    · exact ⟨pre, q, by simp, hpre, hq⟩
    · simpa using hno
    · exact AppendsLast.of_noAppend (by simpa using hno)
  · obtain ⟨pre, q, rfl, hpre, hq⟩ := hs
    exact appendsLast_snoc hpre hq

section Lists

variable {R : List Nat}

/-- After a step the cache and the held handles are still distinct and below the next fresh
handle, and each was there before or is the fresh one. -/
theorem pcStep_apart (h : pcStep s pc c = some (s₁, pc', ev)) (hnd : (s.cache ++ (pc.held.toList ++ R)).Nodup)
    (hlt : ∀ proc ∈ s.cache ++ (pc.held.toList ++ R), proc < s.next) :
    (s₁.cache ++ (pc'.held.toList ++ R)).Nodup ∧ (∀ proc ∈ s₁.cache ++ (pc'.held.toList ++ R), proc < s₁.next) ∧
    (∀ proc ∈ s₁.cache ++ (pc'.held.toList ++ R), proc ∈ s.cache ++ (pc.held.toList ++ R) ∨ proc = s.next) ∧
    s.next ≤ s₁.next := by
  rcases pcStep_lists h R with ⟨hsub, hn⟩ | ⟨K, hK, hperm, hn⟩
  · rw [hn]
    exact ⟨hsub.nodup hnd, fun p hp => hlt p (hsub.subset hp), fun p hp => .inl (hsub.subset hp), le_refl _⟩
  · have hnot : s.next ∉ K := fun hp => Nat.lt_irrefl _ (hlt _ (hK.subset hp))
    refine ⟨hperm.nodup_iff.mpr (List.nodup_cons.mpr ⟨hnot, hK.nodup hnd⟩), fun p hp => ?_, fun p hp => ?_, by omega⟩
    · rcases List.mem_cons.mp (hperm.mem_iff.mp hp) with rfl | hp
      · omega
      · have := hlt p (hK.subset hp); omega
    · rcases List.mem_cons.mp (hperm.mem_iff.mp hp) with rfl | hp
      · exact .inr rfl
      · exact .inl (hK.subset hp)

theorem pcStep_logged_lt (h : pcStep s pc c = some (s₁, pc', ev))
    (hlt : ∀ proc ∈ s.cache ++ (pc.held.toList ++ R), proc < s.next) : ∀ e ∈ ev, e.proc < s₁.next := by
  rcases pcStep_cases h with ⟨-, -, -, -, -, rfl⟩ | ⟨-, -, -, rfl⟩ |
    ⟨rfl, proc, kept, hk, rfl, -, rfl⟩ | ⟨rfl, -, -, rfl, -, rfl⟩ | ⟨proc, runEnd, rfl, rfl, -, rfl⟩ |
    ⟨proc, rfl, rfl, -, rfl⟩ <;> simp only [Option.mem_def, Option.some.injEq, reduceCtorEq, false_implies,
      implies_true, forall_eq', Event.proc]
  · exact hlt proc (List.mem_append_left _ (hk.subset (List.mem_append_right _ (List.mem_singleton_self _))))
  · exact Nat.lt_succ_self _
  · exact hlt proc (by simp [Pc.held])
  · exact hlt proc (by simp [Pc.held])

theorem pcStep_ran (h : pcStep s pc c = some (s₁, pc', some (.ran proc runEnd)))
    (hnd : (s.cache ++ (pc.held.toList ++ R)).Nodup) (hbad : runEnd ≠ .outcome) :
    proc ∉ s₁.cache ++ (pc'.held.toList ++ R) := by
  rcases pcStep_cases h with ⟨-, _, -, -, -, hev⟩ | ⟨-, -, -, hev⟩ | ⟨-, _, _, -, -, -, hev⟩ |
    ⟨-, _, -, -, -, hev⟩ | ⟨p, e, rfl, rfl, rfl, hev⟩ | ⟨_, -, -, -, hev⟩ <;> cases hev
  have hheld : (afterRun proc runEnd).held = none := by cases runEnd <;> first | rfl | exact absurd rfl hbad
  rw [hheld]
  exact (List.nodup_cons.mp (List.perm_middle.nodup_iff.mp hnd)).1

theorem pcStep_appended (h : pcStep s pc c = some (s₁, pc', some (.appended proc))) :
    proc ∈ s.cache ++ (pc.held.toList ++ R) := by
  rcases pcStep_cases h with ⟨-, _, -, -, -, hev⟩ | ⟨-, -, -, hev⟩ | ⟨-, _, _, -, -, -, hev⟩ |
    ⟨-, _, -, -, -, hev⟩ | ⟨_, _, -, -, -, hev⟩ | ⟨p, rfl, -, -, hev⟩ <;> cases hev
  simp [Pc.held]

end Lists

theorem taskEvents_append (log : List (Nat × Event)) (i j : Nat) (ev : Option Event) :
    taskEvents (log ++ (ev.map (i, ·)).toList) j = taskEvents log j ++ if j = i then ev.toList else [] := by
  cases ev <;> by_cases hj : j = i <;> simp [taskEvents, List.filterMap_append, hj, eq_comm]

theorem step_some {i : Nat} (h : step s i c = some s') : ∃ pc s₁ pc' ev, s.tasks[i]? = some pc ∧
    pcStep s pc c = some (s₁, pc', ev) ∧
    s' = { s₁ with tasks := s.tasks.set i pc', log := s.log ++ (ev.map (i, ·)).toList } := by
  unfold step at h
  split at h
  · obtain ⟨⟨s₁, pc', ev⟩, hstep, rfl⟩ := Option.map_eq_some'.mp h
    exact ⟨_, s₁, pc', ev, ‹_›, hstep, rfl⟩
  · cases h

/-- The cache and the held handles are distinct and below the next fresh handle, a handle whose
run failed is in neither and is never appended after, and each task's events have the shape its
position allows. -/
structure Sys.Inv (s : Sys) : Prop where
  nodup : (s.cache ++ s.tasks.filterMap Pc.held).Nodup
  lt_next : ∀ proc ∈ s.cache ++ s.tasks.filterMap Pc.held, proc < s.next
  logged_lt : ∀ e ∈ s.log, e.2.proc < s.next
  failed_gone : ∀ j proc runEnd, (j, Event.ran proc runEnd) ∈ s.log → runEnd ≠ .outcome →
    proc ∉ s.cache ++ s.tasks.filterMap Pc.held
  not_appended_after_fail : ∀ j proc runEnd i, runEnd ≠ .outcome →
    ¬ [(j, Event.ran proc runEnd), (i, Event.appended proc)].Sublist s.log
  shape : ∀ i, Shape s.tasks[i]? (taskEvents s.log i)

theorem init_inv (n : Nat) : (init n).Inv := by
  have hheld : (List.replicate n Pc.acquire).filterMap Pc.held = [] := by
    induction n with
    | zero => rfl
    | succ n ih => simp [List.replicate_succ, Pc.held, ih]
  refine ⟨by simp [init, hheld], by simp [init, hheld], by simp [init], by simp [init], by simp [init], fun i => ?_⟩
  simp only [init, taskEvents, List.filterMap_nil, List.getElem?_replicate]
  split <;> rfl

theorem step_inv {i : Nat} (hs : s.Inv) (h : step s i c = some s') : s'.Inv := by
  obtain ⟨pc, s₁, pc', ev, hpc, hstep, rfl⟩ := step_some h
  have hi : i < s.tasks.length := (List.getElem?_eq_some_iff.mp hpc).1
  have hL := (filterMap_perm_at Pc.held hpc).append_left s.cache
  have hL' := (filterMap_set_perm Pc.held hi pc').append_left s₁.cache
  have hnd := hL.nodup_iff.mp hs.nodup
  have hlt : ∀ p ∈ _, p < s.next := fun p hp => hs.lt_next p (hL.mem_iff.mpr hp)
  obtain ⟨hnd', hlt', hmem', hnext⟩ := pcStep_apart hstep hnd hlt
  refine ⟨hL'.nodup_iff.mpr hnd', fun p hp => hlt' p (hL'.mem_iff.mp hp), fun e he => ?_,
    fun j p runEnd hran hbad hp => ?_, fun j p runEnd i' hbad hsub => ?_, fun j => ?_⟩
  · rcases List.mem_append.mp he with he | he
    · exact lt_of_lt_of_le (hs.logged_lt e he) hnext
    · cases ev <;> simp only [Option.map_some', Option.map_none', Option.toList, List.mem_singleton,
        List.not_mem_nil] at he
      subst he
      exact pcStep_logged_lt hstep hlt _ rfl
  · rcases List.mem_append.mp hran with hran | hran
    · rcases hmem' p (hL'.mem_iff.mp hp) with hp | rfl
      · exact hs.failed_gone j p runEnd hran hbad (hL.mem_iff.mpr hp)
      · exact Nat.lt_irrefl _ (hs.logged_lt _ hran)
    · cases ev <;> simp only [Option.map_some', Option.map_none', Option.toList, List.mem_singleton,
        List.not_mem_nil, Prod.mk.injEq] at hran
      obtain ⟨rfl, rfl⟩ := hran
      exact pcStep_ran hstep hnd hbad (hL'.mem_iff.mp hp)
  · obtain ⟨l₁, l₂, hsplit, h₁, h₂⟩ := List.sublist_append_iff.mp hsub
    have hlen : l₂.length ≤ 1 := h₂.length_le.trans (by cases ev <;> simp)
    rcases l₂ with _ | ⟨x, _ | ⟨y, l₂⟩⟩
    · rw [List.append_nil] at hsplit
      exact hs.not_appended_after_fail j p runEnd i' hbad (hsplit.symm ▸ h₁)
    · have hsplit' : l₁ ++ [x] = [(j, .ran p runEnd)] ++ [(i', .appended p)] := hsplit.symm
      obtain ⟨rfl, hx⟩ := List.append_inj' hsplit' rfl
      cases hx
      have hnew := List.singleton_sublist.mp h₂
      cases ev <;> simp only [Option.map_some', Option.map_none', Option.toList, List.mem_singleton,
        List.not_mem_nil, Prod.mk.injEq] at hnew
      obtain ⟨rfl, rfl⟩ := hnew
      exact hs.failed_gone j p runEnd (List.singleton_sublist.mp h₁) hbad
        (hL.mem_iff.mpr (pcStep_appended hstep))
    · simp at hlen
  · rw [taskEvents_append, List.getElem?_set]
    by_cases hj : i = j
    · subst hj
      rw [if_pos rfl, if_pos hi, if_pos rfl]
      have := hs.shape i
      rw [hpc] at this
      exact pcStep_shape hstep this
    · rw [if_neg hj, if_neg (Ne.symm hj), List.append_nil]
      exact hs.shape j

theorem reachable_inv (h : Reachable s) : s.Inv := by
  induction h with
  | init n => exact init_inv n
  | step _ hstep ih => exact step_inv ih hstep

/-- Whatever a task's position, its events end with at most one append, placed as `AppendsLast`
says. -/
theorem Shape.appendsLast {o : Option Pc} {ev : List Event} (h : Shape o ev) : AppendsLast ev := by
  rcases o with _ | (_ | _ | proc | proc | _)
  · simp only [Shape] at h; subst h; exact AppendsLast.of_noAppend fun p => List.not_mem_nil _
  · simp only [Shape] at h; subst h; exact AppendsLast.of_noAppend fun p => List.not_mem_nil _
  · exact AppendsLast.of_noAppend h
  · obtain ⟨pre, q, rfl, hpre, hq⟩ := h
    exact AppendsLast.of_noAppend (noAppend_append.mpr ⟨hpre, fun p hp => by
      rcases hq with rfl | rfl <;> simp at hp⟩)
  · obtain ⟨pre, q, rfl, hpre, hq⟩ := h
    exact AppendsLast.of_noAppend (noAppend_append.mpr ⟨hpre, hq.noAppend_run _⟩)
  · exact h

/-- Under any interleaving of any number of tasks and any mix of handle results: no handle is
held by two tasks, or held and cached at once, or cached twice; a task's append is its last
event and comes right after the run, with a result, of the handle it popped or created; and no
handle is appended after a run of it that returned `None` or raised. -/
theorem runSync_handles (h : Reachable s) :
    (s.cache ++ s.tasks.filterMap Pc.held).Nodup ∧
    (∀ i pre proc post, taskEvents s.log i = pre ++ .appended proc :: post →
      post = [] ∧ ∃ pre' q, pre = pre' ++ [q, .ran proc .outcome] ∧ (q = .popped proc ∨ q = .created proc)) ∧
    (∀ j proc runEnd i, runEnd ≠ .outcome →
      ¬ [(j, Event.ran proc runEnd), (i, Event.appended proc)].Sublist s.log) :=
  have hi := reachable_inv h
  ⟨hi.nodup, fun i => (hi.shape i).appendsLast, hi.not_appended_after_fail⟩

/-- Task 0 creates handle 0, runs it to a result and appends it; task 1 pops it, and that run
raises. -/
theorem runSync_handles_reused :
    ∃ s, runWith step (init 2) [(0, .acquire []), (0, .pop none []), (0, .finish .outcome), (0, .exit),
        (1, .acquire [0]), (1, .pop (some 0) []), (1, .finish .raised)] = some s ∧
      s.log = [(0, .created 0), (0, .ran 0 .outcome), (0, .appended 0), (1, .popped 0), (1, .ran 0 .raised)] ∧
      (s.cache ++ s.tasks.filterMap Pc.held).Nodup ∧
      (∀ i pre proc post, taskEvents s.log i = pre ++ .appended proc :: post →
        post = [] ∧ ∃ pre' q, pre = pre' ++ [q, .ran proc .outcome] ∧ (q = .popped proc ∨ q = .created proc)) ∧
      (∀ j proc runEnd i, runEnd ≠ .outcome →
        ¬ [(j, Event.ran proc runEnd), (i, Event.appended proc)].Sublist s.log) := by
  obtain ⟨s, hrun, hlog⟩ : ∃ s, runWith step (init 2) [(0, .acquire []), (0, .pop none []), (0, .finish .outcome),
      (0, .exit), (1, .acquire [0]), (1, .pop (some 0) []), (1, .finish .raised)] = some s ∧
      s.log = [(0, .created 0), (0, .ran 0 .outcome), (0, .appended 0), (1, .popped 0), (1, .ran 0 .raised)] :=
    ⟨_, rfl, rfl⟩
  exact ⟨s, hrun, hlog, runSync_handles (reachable_of_run (.init 2) hrun)⟩

end Dispatch

end TrioParallel
