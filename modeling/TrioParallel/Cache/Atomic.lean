import TrioParallel.Cache.Threads
/-!
# One caller alone does what the atomic operations do

`Cache.Threads` runs `ProcCache.prune` and `pop` one deque primitive and one `is_alive()` call at a
time, so that threads of concurrent Trio runs interleave inside them. `Cache.prune` and `Cache.pop`
are the same loops as functions of the deque, and the model of the pool (`Legacy.Protocol`) takes
them as single steps, as they are between the Trio tasks of one run: neither has an `await`.

Run by one caller with no other caller in between and no worker dying, the primitives of `prune`
leave the deque as `Cache.prune` does, and those of `pop` leave it as `Cache.pop` does and hand the
caller the handle it returns, or a new one after `IndexError` (`cache_ops_alone_atomic`). So the
atomic operations are the primitive-level code run without interference, on one snapshot of
`is_alive()`.
-/

namespace TrioParallel

namespace Cache

namespace Threads

theorem run_append (s : Sys) (l₁ l₂ : List Action) : run s (l₁ ++ l₂) = (run s l₁).bind (run · l₂) := by
  induction l₁ generalizing s with
  | nil => rfl
  | cons a l ih =>
    simp only [List.cons_append, run]
    cases step s a <;> simp [ih]

@[simp] theorem Sys.isAlive_mk (deque dead : List Nat) (next : Nat) (threads : List Pc) (outstanding : Nat → Bool) :
    Sys.isAlive ⟨deque, dead, next, threads, outstanding⟩ = fun proc => !(dead.contains proc) :=
  rfl

/-- `n` primitives of caller `i` in a row. -/
def alone (i n : Nat) : List Action := List.replicate n (.thread i .returned)

theorem alone_add (i m n : Nat) : alone i (m + n) = alone i m ++ alone i n := List.replicate_add _ _ _

/-- The primitives of `ProcCache.prune`, from the top of its loop: the deque ends as `Cache.prune`
leaves it, and the caller goes on to `pop`. -/
theorem prune_alone (s : Sys) {i : Nat} (hi : s.threads[i]? = some .pruneLoop) :
    ∃ n, run s (alone i n) =
      some { s with deque := Cache.prune s.isAlive s.deque, threads := s.threads.set i .popLoop } := by
  obtain ⟨deque, dead, next, threads, outstanding⟩ := s
  have hlt : i < threads.length := (List.getElem?_eq_some_iff.mp hi).1
  induction deque generalizing threads with
  | nil => exact ⟨1, by simp [alone, run, step, hi, pcStep, Cache.prune]⟩
  | cons proc rest ih =>
    by_cases hdead : proc ∈ dead
    · obtain ⟨n, hn⟩ := ih (threads.set i .pruneLoop) (by simp [hlt]) (by simp [hlt])
      refine ⟨2 + n, ?_⟩
      rw [alone_add, run_append]
      simpa [alone, run, step, hi, pcStep, hdead, Cache.prune, hlt] using hn
    · exact ⟨3, by simp [alone, run, step, hi, pcStep, hdead, Cache.prune, hlt]⟩

/-- Where `pop` leaves caller `i`, by what `Cache.pop` returns: holding the live handle it returned,
no longer pushed, or after `IndexError` a new handle. -/
def popped (s : Sys) (i : Nat) : Option Nat × List Nat → Sys
  | (some proc, rest) =>
    { s with
      deque := rest
      outstanding := Function.update s.outstanding proc false
      threads := s.threads.set i (.holding proc) }
  | (none, rest) => { s with deque := rest, next := s.next + 1, threads := s.threads.set i (.holding s.next) }

/-- The primitives of `ProcCache.pop`, from the top of its loop: the deque ends as `Cache.pop`
leaves it, and the caller holds the handle it returns, or a new one. -/
theorem pop_alone (s : Sys) {i : Nat} (hi : s.threads[i]? = some .popLoop) :
    ∃ n, run s (alone i n) = some (popped s i (Cache.pop s.isAlive s.deque)) := by
  obtain ⟨deque, dead, next, threads, outstanding⟩ := s
  have hlt : i < threads.length := (List.getElem?_eq_some_iff.mp hi).1
  rw [← List.reverse_reverse deque]
  induction deque.reverse generalizing threads with
  | nil => exact ⟨1, by simp [alone, run, step, hi, pcStep, Cache.pop, Cache.popHot, popped]⟩
  | cons proc hot ih =>
    by_cases hdead : proc ∈ dead
    · obtain ⟨n, hn⟩ := ih (threads.set i .popLoop) (by simp [hlt]) (by simp [hlt])
      refine ⟨2 + n, ?_⟩
      rw [alone_add, run_append]
      simpa [alone, run, step, hi, pcStep, hdead, Cache.pop, Cache.popHot, hlt, popped] using hn
    · exact ⟨2, by simp [alone, run, step, hi, pcStep, hdead, Cache.pop, Cache.popHot, popped, hlt]⟩

/-- For every state of the deque, the dead workers and the callers: `ProcCache.prune` and
`ProcCache.pop` run primitive by primitive by one caller, with no other caller in between and no
worker dying, end where the atomic `Cache.prune` and `Cache.pop` put the caller. -/
theorem cache_ops_alone_atomic :
    (∀ (s : Sys) (i : Nat), s.threads[i]? = some .pruneLoop → ∃ n, run s (alone i n) =
      some { s with deque := Cache.prune s.isAlive s.deque, threads := s.threads.set i .popLoop }) ∧
    ∀ (s : Sys) (i : Nat), s.threads[i]? = some .popLoop →
      ∃ n, run s (alone i n) = some (popped s i (Cache.pop s.isAlive s.deque)) :=
  ⟨fun s _ hi => prune_alone s hi, fun s _ hi => pop_alone s hi⟩

/-- Handle 0 has died and handle 1 is live: caller 0's `prune` drops handle 0, and caller 1's `pop`
returns handle 1 and leaves handle 0. -/
theorem cache_ops_alone_atomic_pair :
    (⟨[0, 1], [0], 2, [.pruneLoop, .popLoop], fun _ => true⟩ : Sys).threads[0]? = some .pruneLoop ∧
    (⟨[0, 1], [0], 2, [.pruneLoop, .popLoop], fun _ => true⟩ : Sys).threads[1]? = some .popLoop ∧
    (∃ n, run ⟨[0, 1], [0], 2, [.pruneLoop, .popLoop], fun _ => true⟩ (alone 0 n) =
      some ⟨[1], [0], 2, [.popLoop, .popLoop], fun _ => true⟩) ∧
    ∃ n, run ⟨[0, 1], [0], 2, [.pruneLoop, .popLoop], fun _ => true⟩ (alone 1 n) =
      some ⟨[0], [0], 2, [.pruneLoop, .holding 1], Function.update (fun _ => true) 1 false⟩ :=
  ⟨rfl, rfl, cache_ops_alone_atomic.1 _ 0 rfl, cache_ops_alone_atomic.2 _ 1 rfl⟩

end Threads

end Cache

end TrioParallel
