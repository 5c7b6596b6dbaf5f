import Mathlib.Data.List.Nodup
/-!
# `ProcCache`: the LIFO cache of idle workers

`ProcCache` in `_worker_processes.py` keeps idle worker handles in a `deque`, oldest on the left
(the cold end) and newest on the right (the hot end). `push` appends on the right, `pop` pops from
the right until it meets a live handle, and `prune` pops from the left until it meets one, which it
puts back. The deque is a `List` read left to right; `pop` walks it from the hot end, as
`popHot` over the reversed list.

Liveness is what `is_alive()` answers at the moment it is asked. An operation asks each handle at
most once, so one operation sees one snapshot `isAlive : H → Bool`; a run sees one snapshot per
operation, `alive t` for its `t`-th operation, and a worker that has died stays dead: `alive` is
antitone in time.

`popSpec` and `pruneSpec` say what one operation does to any deque. Over whole runs from an empty
cache the ghost `pending` lists the handles pushed and not yet returned by `pop`; `Ledger.Inv` says
the cache is a duplicate-free subsequence of it, and `mem_run_cache` that a live handle leaves the
cache only by being returned from `pop`.
-/

namespace TrioParallel

namespace Cache

variable {H : Type} (isAlive : H → Bool)

/-- `ProcCache.prune`: `popleft` handles while they are dead, and `appendleft` the first live one;
the `IndexError` of an empty deque ends the loop. -/
def prune : List H → List H
  | [] => []
  | proc :: cache => if isAlive proc then proc :: cache else prune cache

/-- `ProcCache.push`: `append` on the hot end. -/
def push (proc : H) (cache : List H) : List H := cache ++ [proc]

/-- The `while True` loop of `ProcCache.pop`, over the deque read from its hot end: the live handle
it returns (`none` for the `IndexError` of an empty deque) and what is left. -/
def popHot : List H → Option H × List H
  | [] => (none, [])
  | proc :: rest => if isAlive proc then (some proc, rest) else popHot rest

/-- `ProcCache.pop`: the live handle returned (`none` when it raises `IndexError`) and the deque
after it. -/
def pop (cache : List H) : Option H × List H :=
  ((popHot isAlive cache.reverse).1, (popHot isAlive cache.reverse).2.reverse)

/-! ### One operation -/

/-- What `pop` does to a deque: it returns the live handle nearest the hot end and keeps what lies
before it, dropping the dead handles after it; with no live handle it raises `IndexError` and
leaves the deque empty. -/
def PopSpec (cache : List H) : Option H × List H → Prop
  | (some proc, rest) => ∃ dead, cache = rest ++ proc :: dead ∧ isAlive proc = true ∧
      ∀ x ∈ dead, isAlive x = false
  | (none, rest) => rest = [] ∧ ∀ x ∈ cache, isAlive x = false

/-- What `prune` does to a deque: it removes the longest run of dead handles at the cold end. -/
def PruneSpec (cache rest : List H) : Prop :=
  ∃ dead, cache = dead ++ rest ∧ (∀ x ∈ dead, isAlive x = false) ∧
    ∀ proc ∈ rest.head?, isAlive proc = true

theorem popHot_spec (hot : List H) :
    (∃ dead proc rest, hot = dead ++ proc :: rest ∧ (∀ x ∈ dead, isAlive x = false) ∧
      isAlive proc = true ∧ popHot isAlive hot = (some proc, rest)) ∨
    ((∀ x ∈ hot, isAlive x = false) ∧ popHot isAlive hot = (none, [])) := by
  induction hot with
  | nil => exact .inr ⟨by simp, rfl⟩
  | cons proc hot ih =>
    by_cases halive : isAlive proc = true
    · exact .inl ⟨[], proc, hot, rfl, by simp, halive, by simp [popHot, halive]⟩
    · have hdead : isAlive proc = false := by simpa using halive
      rcases ih with ⟨dead, p, rest, rfl, hd, hp, hpop⟩ | ⟨hd, hpop⟩
      · refine .inl ⟨proc :: dead, p, rest, rfl, ?_, hp, by simp [popHot, hdead, hpop]⟩
        simpa [hdead] using hd
      · exact .inr ⟨by simpa [hdead] using hd, by simp [popHot, hdead, hpop]⟩

theorem popSpec (cache : List H) : PopSpec isAlive cache (pop isAlive cache) := by
  rcases popHot_spec isAlive cache.reverse with ⟨dead, proc, rest, hrev, hd, hp, hpop⟩ | ⟨hd, hpop⟩
  · have hres : pop isAlive cache = (some proc, rest.reverse) := by simp [pop, hpop]
    rw [hres]
    refine ⟨dead.reverse, ?_, hp, by simpa using hd⟩
    rw [← List.reverse_reverse cache, hrev]
    simp
  · have hres : pop isAlive cache = (none, []) := by simp [pop, hpop]
    rw [hres]
    exact ⟨rfl, by simpa using hd⟩

theorem pruneSpec (cache : List H) : PruneSpec isAlive cache (prune isAlive cache) := by
  induction cache with
  | nil => exact ⟨[], rfl, by simp, by simp [prune]⟩
  | cons proc cache ih =>
    by_cases halive : isAlive proc = true
    · have hres : prune isAlive (proc :: cache) = proc :: cache := if_pos halive
      exact ⟨[], by rw [hres]; rfl, by simp, by simp [hres, halive]⟩
    · have hres : prune isAlive (proc :: cache) = prune isAlive cache := if_neg halive
      obtain ⟨dead, hcache, hd, hhead⟩ := ih
      refine ⟨proc :: dead, by rw [hres, List.cons_append, ← hcache], ?_, by rwa [hres]⟩
      simpa [halive] using hd

theorem prune_sublist (cache : List H) : List.Sublist (prune isAlive cache) cache := by
  obtain ⟨dead, hcache, -, -⟩ := pruneSpec isAlive cache
  conv_rhs => rw [hcache]
  exact List.sublist_append_right dead _

theorem mem_prune {cache : List H} {proc : H} (hmem : proc ∈ cache) (halive : isAlive proc = true) :
    proc ∈ prune isAlive cache := by
  obtain ⟨dead, hcache, hd, -⟩ := pruneSpec isAlive cache
  rw [hcache, List.mem_append] at hmem
  exact hmem.resolve_left fun h => by simp [hd proc h] at halive

/-- A live handle just pushed is the one the next `pop` returns, and the deque is as before. -/
theorem pop_push {proc : H} (halive : isAlive proc = true) (cache : List H) :
    pop isAlive (push proc cache) = (some proc, cache) := by
  simp [pop, push, popHot, halive]

/-! ### Cost

`prune` keeps its iteration `O(dead workers)`, as its comment says: it calls `is_alive()` once for
each dead handle it drops and once more for the live handle it stops at. `pop` calls it once for
each handle it takes off the deque, the one it returns included. Neither looks past the first live
handle from its end.
-/

/-- The number of `is_alive()` calls of `ProcCache.prune`'s loop. -/
def pruneCalls : List H → Nat
  | [] => 0
  | proc :: cache => if isAlive proc then 1 else pruneCalls cache + 1

/-- The number of `is_alive()` calls of `ProcCache.pop`'s loop, over the deque read from its hot
end. -/
def popHotCalls : List H → Nat
  | [] => 0
  | proc :: rest => if isAlive proc then 1 else popHotCalls rest + 1

theorem pruneCalls_eq (cache : List H) :
    pruneCalls isAlive cache = cache.length - (prune isAlive cache).length + min 1 (prune isAlive cache).length := by
  induction cache with
  | nil => rfl
  | cons proc cache ih =>
    by_cases halive : isAlive proc = true
    · simp [pruneCalls, prune, halive]
    · have hle := (prune_sublist isAlive cache).length_le
      simp only [pruneCalls, prune, halive, Bool.false_eq_true, ↓reduceIte, ih, List.length_cons]
      omega

theorem popHotCalls_eq (hot : List H) : popHotCalls isAlive hot = hot.length - (popHot isAlive hot).2.length := by
  induction hot with
  | nil => rfl
  | cons proc rest ih =>
    by_cases halive : isAlive proc = true
    · simp [popHotCalls, popHot, halive]
    · have hle : (popHot isAlive rest).2.length ≤ rest.length := by
        rcases popHot_spec isAlive rest with ⟨dead, p, r, rfl, -, -, hp⟩ | ⟨-, hp⟩ <;> simp [hp]; omega
      simp only [popHotCalls, popHot, halive, Bool.false_eq_true, ↓reduceIte, ih, List.length_cons]
      omega

/-- `prune` calls `is_alive()` once for each handle it drops and once for the live handle it keeps,
if any; `pop` once for each handle it takes off the deque. -/
theorem cache_ops_cost (cache : List H) :
    pruneCalls isAlive cache = cache.length - (prune isAlive cache).length + min 1 (prune isAlive cache).length ∧
    popHotCalls isAlive cache.reverse = cache.length - (pop isAlive cache).2.length := by
  refine ⟨pruneCalls_eq isAlive cache, ?_⟩
  rw [popHotCalls_eq, List.length_reverse]
  simp [pop]

/-! ### Runs -/

theorem alive_of_le {alive : Nat → H → Bool} (hmono : ∀ t h, alive (t + 1) h = true → alive t h = true)
    {h : H} {t : Nat} : ∀ k, alive (t + k) h = true → alive t h = true
  | 0, hk => hk
  | k + 1, hk => alive_of_le hmono k (hmono _ _ hk)

/-- A call on the cache. -/
inductive Op (H : Type) where
  | push (proc : H)
  | pop
  | prune

variable [DecidableEq H]

/-- The cache, and as a ghost the handles pushed and not yet returned by `pop`, in push order. -/
structure Ledger (H : Type) where
  cache : List H
  pending : List H

namespace Ledger

/-- One call under the liveness snapshot `isAlive`. -/
def step (l : Ledger H) : Op H → Ledger H
  | .push proc => ⟨push proc l.cache, l.pending ++ [proc]⟩
  | .pop =>
    match pop isAlive l.cache with
    | (some proc, rest) => ⟨rest, l.pending.erase proc⟩
    | (none, rest) => ⟨rest, l.pending⟩
  | .prune => ⟨prune isAlive l.cache, l.pending⟩

/-- The handle a call returns: what `pop` hands out. -/
def returned (l : Ledger H) : Op H → Option H
  | .pop => (pop isAlive l.cache).1
  | _ => none

/-- A run of calls, the `t`-th under the snapshot `alive t`. -/
def run (alive : Nat → H → Bool) : Nat → Ledger H → List (Op H) → Ledger H
  | _, l, [] => l
  | t, l, op :: ops => run alive (t + 1) (l.step (alive t) op) ops

/-- The handles `pop` returns along a run. -/
def returns (alive : Nat → H → Bool) : Nat → Ledger H → List (Op H) → List H
  | _, _, [] => []
  | t, l, op :: ops => (l.returned (alive t) op).toList ++ returns alive (t + 1) (l.step (alive t) op) ops

/-- Every `push` of the run is given a handle that is not in the cache at that point. -/
def PushesFresh (alive : Nat → H → Bool) : Nat → Ledger H → List (Op H) → Prop
  | _, _, [] => True
  | t, l, op :: ops => (∀ proc, op = .push proc → proc ∉ l.cache) ∧
      PushesFresh alive (t + 1) (l.step (alive t) op) ops

/-- The cache is a duplicate-free subsequence of the handles pushed and not yet returned. -/
structure Inv (l : Ledger H) : Prop where
  sublist : List.Sublist l.cache l.pending
  nodup : l.cache.Nodup

theorem step_inv {l : Ledger H} (hl : l.Inv) {op : Op H} (hfresh : ∀ proc, op = .push proc → proc ∉ l.cache) :
    (l.step isAlive op).Inv := by
  cases op with
  | push proc =>
    refine ⟨hl.sublist.append (List.Sublist.refl _), hl.nodup.append (List.nodup_singleton proc) ?_⟩
    intro x hx hx'
    rw [List.mem_singleton] at hx'
    exact hfresh proc rfl (hx' ▸ hx)
  | prune => exact ⟨(prune_sublist isAlive l.cache).trans hl.sublist, (prune_sublist isAlive l.cache).nodup hl.nodup⟩
  | pop =>
    have hspec := popSpec isAlive l.cache
    simp only [step]
    revert hspec
    cases pop isAlive l.cache with
    | mk res rest =>
      cases res with
      | none => rintro ⟨rfl, -⟩; exact ⟨List.nil_sublist _, List.nodup_nil⟩
      | some proc =>
        rintro ⟨dead, hcache, -, -⟩
        have hnd := hl.nodup
        rw [hcache] at hnd
        have hnot : proc ∉ rest := fun h => List.disjoint_of_nodup_append hnd h (List.mem_cons_self _ _)
        have herase : l.cache.erase proc = rest ++ dead := by
          rw [hcache, List.erase_append_right _ hnot, List.erase_cons_head]
        have hsub : List.Sublist rest (l.pending.erase proc) :=
          ((List.sublist_append_left rest dead).trans (herase ▸ List.Sublist.erase proc hl.sublist))
        exact ⟨hsub, hnd.of_append_left⟩

theorem run_inv (alive : Nat → H → Bool) (t : Nat) (l : Ledger H) (ops : List (Op H))
    (hfresh : PushesFresh alive t l ops) (hl : l.Inv) : (run alive t l ops).Inv := by
  induction ops generalizing t l with
  | nil => exact hl
  | cons op ops ih => exact ih (t + 1) _ hfresh.2 (step_inv (alive t) hl hfresh.1)

theorem mem_step_cache {l : Ledger H} {op : Op H} {h : H} (hmem : h ∈ l.cache)
    (halive : isAlive h = true) (hret : l.returned isAlive op ≠ some h) :
    h ∈ (l.step isAlive op).cache := by
  cases op with
  | push proc => exact List.mem_append_left _ hmem
  | prune => exact mem_prune isAlive hmem halive
  | pop =>
    have hspec := popSpec isAlive l.cache
    simp only [returned] at hret
    simp only [step]
    rcases hp : pop isAlive l.cache with ⟨_ | proc, rest⟩ <;> rw [hp] at hspec hret
    · simp [hspec.2 h hmem] at halive
    · obtain ⟨dead, hcache, -, hd⟩ := hspec
      rw [hcache, List.mem_append, List.mem_cons] at hmem
      rcases hmem with hmem | rfl | hmem
      · exact hmem
      · exact absurd rfl hret
      · simp [hd h hmem] at halive

/-- Along a run in which dead workers stay dead, a handle alive at the end that `pop` never
returned is still in the cache. -/
theorem mem_run_cache (alive : Nat → H → Bool)
    (hmono : ∀ t h, alive (t + 1) h = true → alive t h = true) (t : Nat) (l : Ledger H)
    (ops : List (Op H)) (h : H) (hmem : h ∈ l.cache) (hret : h ∉ returns alive t l ops)
    (halive : alive (t + ops.length) h = true) : h ∈ (run alive t l ops).cache := by
  induction ops generalizing t l with
  | nil => exact hmem
  | cons op ops ih =>
    simp only [returns, List.mem_append, not_or] at hret
    refine ih (t + 1) _ (mem_step_cache (alive t) hmem ?_ ?_) hret.2 ?_
    · exact alive_of_le hmono (ops.length + 1) (by rwa [List.length_cons] at halive)
    · intro hsome
      exact hret.1 (by simp [hsome])
    · rwa [List.length_cons, ← Nat.add_assoc, Nat.add_right_comm] at halive

end Ledger

/-- `ProcCache` over every sequence of calls: `pop` returns the live handle nearest the hot end and
drops exactly the dead handles after it, or raises `IndexError` and leaves an empty deque when no
handle is alive; `prune` removes exactly the run of dead handles at the cold end; `push` appends at
the hot end, so a `pop` right after it returns the pushed handle if it lives; from an empty
cache, the cache stays a duplicate-free subsequence, in push order, of the handles pushed and not
yet returned by `pop`; and under a liveness history where dead workers stay dead, a live handle
leaves the cache only by being returned from `pop`. -/
theorem procCache_laws :
    (∀ (isAlive : H → Bool) cache, PopSpec isAlive cache (pop isAlive cache)) ∧
    (∀ (isAlive : H → Bool) cache, PruneSpec isAlive cache (prune isAlive cache)) ∧
    (∀ (isAlive : H → Bool) proc cache, push proc cache = cache ++ [proc] ∧
      (isAlive proc = true → pop isAlive (push proc cache) = (some proc, cache))) ∧
    (∀ (alive : Nat → H → Bool) (ops : List (Op H)), Ledger.PushesFresh alive 0 ⟨[], []⟩ ops →
      (Ledger.run alive 0 ⟨[], []⟩ ops).Inv) ∧
    (∀ (alive : Nat → H → Bool) t (l : Ledger H) ops h, (∀ t h, alive (t + 1) h = true → alive t h = true) →
      h ∈ l.cache → h ∉ Ledger.returns alive t l ops → alive (t + ops.length) h = true →
      h ∈ (Ledger.run alive t l ops).cache) :=
  ⟨popSpec, pruneSpec, fun isAlive _ cache => ⟨rfl, fun halive => pop_push isAlive halive cache⟩,
    fun alive ops hfresh => Ledger.run_inv alive 0 _ ops hfresh ⟨List.Sublist.refl _, List.nodup_nil⟩,
    fun alive t l ops h hmono => Ledger.mem_run_cache alive hmono t l ops h⟩

/-- Workers 0 and 1 are pushed, and 0 dies before `prune`, which drops it; `pop` then returns 1 and
leaves the cache empty. -/
theorem procCache_laws_two :
    Ledger.run (fun t h => decide (t < 2 ∨ h ≠ 0)) 0 ⟨[], []⟩ [.push 0, .push 1, .prune, .pop] = ⟨[], [0]⟩ ∧
    Ledger.returns (fun t h => decide (t < 2 ∨ h ≠ 0)) 0 ⟨[], []⟩ [.push 0, .push 1, .prune, .pop] = [1] ∧
    (Ledger.run (fun t h => decide (t < 2 ∨ h ≠ 0)) 0 ⟨[], []⟩ [.push 0, .push 1, .prune, .pop]).Inv :=
  ⟨rfl, rfl, procCache_laws.2.2.2.1 _ _ (by simp [Ledger.PushesFresh, Ledger.step, push, prune])⟩

end Cache

end TrioParallel
