import TrioParallel.Wire.Send
/-!
# The receive side of the framing

`PosixWorkerProc._recv_exactly(size)` loops on `receive_some(size)` until `size` bytes have come in,
and `_recv` reads a header, the extended length when the header is `-1`, then the message. Both run
in `EStateM WireError σ` over an arbitrary stream state `σ` and an arbitrary `receive_some`, so
that nothing about the pipe is assumed where the code assumes nothing: `recvExactly_bounded` holds
for every behaviour of `receive_some`, malformed ones included, and bounds the number of calls.

`FifoPipe` is what an OS pipe read through `trio.lowlevel.FdStream` promises: a read hands back a
nonempty prefix of what is left, at most as long as asked for, and `b''` only at the end.
Over such a pipe `recvMany_frames` is the decoding half of the framing's round trip: the frames of
`m₁, …, mₖ` come back as `m₁, …, mₖ` under every chunking, and a stream that stops inside a frame
ends in `EndOfChannel`.
-/

namespace TrioParallel

namespace Wire

variable {σ : Type}

/-- The state a run ends in, whether it returned or raised. -/
def finalState {ε α : Type} : EStateM.Result ε σ α → σ
  | .ok _ s => s
  | .error _ s => s

section Loop

variable (receiveSome : σ → Int → Bytes × σ)

/-- The `while size:` loop of `PosixWorkerProc._recv_exactly`, with `result_bytes` so far. -/
def recvExactlyLoop (size : Int) (resultBytes : Bytes) (s : σ) :
    EStateM.Result WireError σ Bytes :=
  if _hsize : size = 0 then .ok resultBytes s
  else
    match receiveSome s size with
    | (partialResult, s') =>
      if _hnum : partialResult.length = 0 then
        .error (.endOfChannel "got end of file during message") s'
      else if _hover : (partialResult.length : Int) > size then
        .error (.runtimeError "Oversized response") s'
      else recvExactlyLoop (size - partialResult.length) (resultBytes ++ partialResult) s'
termination_by size.toNat
decreasing_by omega

/-- `PosixWorkerProc._recv_exactly(size)`. -/
def recvExactly (size : Int) : EStateM WireError σ Bytes := recvExactlyLoop receiveSome size []

/-- `PosixWorkerProc._recv`: the header, the extended length when the header is `-1`, then the
message. -/
def recv : EStateM WireError σ Bytes := do
  let buf ← recvExactly receiveSome 4
  let size ← liftExcept (unpackInt32 buf)
  if size = -1 then
    let buf ← recvExactly receiveSome 8
    let size ← liftExcept (unpackUInt64 buf)
    recvExactly receiveSome size
  else
    recvExactly receiveSome size

/-- `k` successive `_recv` calls on one stream, and the messages they return. -/
def recvMany : Nat → EStateM WireError σ (List Bytes)
  | 0 => pure []
  | k + 1 => do
    let m ← recv receiveSome
    let ms ← recvMany k
    pure (m :: ms)

@[simp] theorem recvExactlyLoop_zero (resultBytes : Bytes) (s : σ) :
    recvExactlyLoop receiveSome 0 resultBytes s = .ok resultBytes s := by
  rw [recvExactlyLoop, dif_pos rfl]

theorem recvExactlyLoop_of_ne {size : Int} (hsize : size ≠ 0) (resultBytes : Bytes) (s : σ) :
    recvExactlyLoop receiveSome size resultBytes s =
      if (receiveSome s size).1.length = 0 then
        .error (.endOfChannel "got end of file during message") (receiveSome s size).2
      else if ((receiveSome s size).1.length : Int) > size then
        .error (.runtimeError "Oversized response") (receiveSome s size).2
      else recvExactlyLoop receiveSome (size - ((receiveSome s size).1.length : Int))
        (resultBytes ++ (receiveSome s size).1) (receiveSome s size).2 := by
  rw [recvExactlyLoop, dif_neg hsize]
  rfl

end Loop

/-! ### Termination: every `receive_some` behaviour

The log of chunks makes the number of `receive_some` calls, and what they handed back, visible in
the final state, so the bound is a statement about every run and not about one input. -/

theorem bind_ok {ε α β : Type} {x : EStateM ε σ α} {f : α → EStateM ε σ β} {s s' : σ} {a : α}
    (h : x s = .ok a s') : (x >>= f) s = f a s' := by
  show EStateM.bind x f s = _
  simp only [EStateM.bind, h]

theorem bind_error {ε α β : Type} {x : EStateM ε σ α} {f : α → EStateM ε σ β} {s s' : σ} {e : ε}
    (h : x s = .error e s') : (x >>= f) s = .error e s' := by
  show EStateM.bind x f s = _
  simp only [EStateM.bind, h]

/-- `receive_some` with the chunks it hands back logged beside the stream's own state. -/
def logChunks (receiveSome : σ → Int → Bytes × σ) (st : σ × List Bytes) (max : Int) :
    Bytes × (σ × List Bytes) :=
  ((receiveSome st.1 max).1, ((receiveSome st.1 max).2, st.2 ++ [(receiveSome st.1 max).1]))

/-- How a run of the `_recv_exactly` loop for `size` more bytes ends, given the chunks it
received: it returns once the chunks hold exactly `size` bytes, raises `EndOfChannel` on an empty
chunk, and raises `RuntimeError` on a chunk longer than the bytes still needed. -/
def LoopEnd (size : Int) (resultBytes : Bytes) (chunks : List Bytes) :
    EStateM.Result WireError σ Bytes → Prop
  | .ok b _ => 0 ≤ size ∧ b = resultBytes ++ chunks.flatten ∧ (chunks.flatten.length : Int) = size
  | .error e _ => ∃ pre c, chunks = pre ++ [c] ∧
      ((e = .endOfChannel "got end of file during message" ∧ c = []) ∨
        (e = .runtimeError "Oversized response" ∧ (c.length : Int) > size - pre.flatten.length))

theorem logChunks_snd (receiveSome : σ → Int → Bytes × σ) {st st' : σ × List Bytes} {max : Int}
    {c : Bytes} (h : logChunks receiveSome st max = (c, st')) : st'.2 = st.2 ++ [c] := by
  simp only [logChunks, Prod.mk.injEq] at h
  rw [← h.2, h.1]

theorem recvExactlyLoop_logged (receiveSome : σ → Int → Bytes × σ) (size : Int)
    (resultBytes : Bytes) (st : σ × List Bytes) :
    ∃ chunks, (finalState (recvExactlyLoop (logChunks receiveSome) size resultBytes st)).2 =
        st.2 ++ chunks ∧ (chunks.length : Int) ≤ max size 1 ∧
      (0 ≤ size → (chunks.length : Int) ≤ size) ∧
      LoopEnd size resultBytes chunks (recvExactlyLoop (logChunks receiveSome) size resultBytes st) := by
  induction size, resultBytes, st using recvExactlyLoop.induct (logChunks receiveSome) with
  | case1 resultBytes st =>
    exact ⟨[], by simp [finalState], by simp, by simp, by simp [LoopEnd]⟩
  | case2 size resultBytes st hsize c st' hrecv hnum =>
    have hrun : recvExactlyLoop (logChunks receiveSome) size resultBytes st =
        .error (.endOfChannel "got end of file during message") st' := by
      rw [recvExactlyLoop_of_ne _ hsize, hrecv]
      simp [hnum]
    refine ⟨[c], by rw [hrun, finalState, logChunks_snd receiveSome hrecv], by simp, by simp; omega, ?_⟩
    rw [hrun]
    exact ⟨[], c, rfl, .inl ⟨rfl, List.length_eq_zero.mp hnum⟩⟩
  | case3 size resultBytes st hsize c st' hrecv hnum hover =>
    have hrun : recvExactlyLoop (logChunks receiveSome) size resultBytes st =
        .error (.runtimeError "Oversized response") st' := by
      rw [recvExactlyLoop_of_ne _ hsize, hrecv]
      simp [hnum, hover]
    refine ⟨[c], by rw [hrun, finalState, logChunks_snd receiveSome hrecv], by simp, ?_, ?_⟩
    · simp only [List.length_singleton, Nat.cast_one]
      omega
    · rw [hrun]
      exact ⟨[], c, rfl, .inr ⟨rfl, by simpa using hover⟩⟩
  | case4 size resultBytes st hsize c st' hrecv hnum hover ih =>
    have hrun : recvExactlyLoop (logChunks receiveSome) size resultBytes st =
        recvExactlyLoop (logChunks receiveSome) (size - c.length) (resultBytes ++ c) st' := by
      rw [recvExactlyLoop_of_ne _ hsize, hrecv]
      simp [hnum, hover]
    obtain ⟨chunks, hlog, hmax, hle, hend⟩ := ih
    have hpos : 0 < c.length := Nat.pos_of_ne_zero hnum
    refine ⟨c :: chunks, ?_, ?_, ?_, ?_⟩
    · rw [hrun, hlog, logChunks_snd receiveSome hrecv, List.append_assoc, List.singleton_append]
    · have := hle (by omega)
      simp only [List.length_cons, Nat.cast_succ]
      omega
    · intro _
      have := hle (by omega)
      simp only [List.length_cons, Nat.cast_succ]
      omega
    · rw [hrun]
      revert hend
      cases recvExactlyLoop (logChunks receiveSome) (size - c.length) (resultBytes ++ c) st' with
      | ok b st'' =>
        rintro ⟨-, hb, hlen⟩
        refine ⟨by omega, by simp [hb], ?_⟩
        simp only [List.flatten_cons, List.length_append, Nat.cast_add]
        omega
      | error e st'' =>
        rintro ⟨pre, c', rfl, hcase⟩
        refine ⟨c :: pre, c', rfl, hcase.imp id fun ⟨he, hover'⟩ => ⟨he, ?_⟩⟩
        simp only [List.flatten_cons, List.length_append, Nat.cast_add]
        omega

theorem recvExactly_log_le (receiveSome : σ → Int → Bytes × σ) (size : Int) (st : σ × List Bytes) :
    ((finalState (recvExactly (logChunks receiveSome) size st)).2.length : Int) ≤
      st.2.length + max size 1 := by
  obtain ⟨chunks, hlog, hmax, -, -⟩ := recvExactlyLoop_logged receiveSome size [] st
  rw [recvExactly, hlog, List.length_append, Nat.cast_add]
  omega

/-- A run of `x` adds at most `n` chunks to the log, whether it returns or raises. -/
def Grows {ε α : Type} (x : EStateM ε (σ × List Bytes) α) (n : Nat) : Prop :=
  ∀ st, (finalState (x st)).2.length ≤ st.2.length + n

theorem Grows.bind {ε α β : Type} {x : EStateM ε (σ × List Bytes) α}
    {f : α → EStateM ε (σ × List Bytes) β} {n : Nat} (m : Nat) (hx : Grows x n)
    (hf : ∀ a, Grows (f a) m) :
    Grows (x >>= f) (n + m) := by
  intro st
  have h := hx st
  rcases hst : x st with ⟨a, s⟩ | ⟨e, s⟩ <;> rw [hst, finalState] at h
  · rw [bind_ok hst]
    exact (hf a s).trans (by omega)
  · rw [bind_error hst, finalState]
    omega

theorem Grows.liftExcept_bind {ε α β : Type} {e : Except ε α}
    {f : α → EStateM ε (σ × List Bytes) β} {m : Nat} (hf : ∀ a, e = .ok a → Grows (f a) m) :
    Grows (liftExcept e >>= f) m := by
  intro st
  cases e with
  | ok a => exact hf a rfl st
  | error e =>
    rw [bind_error (show (liftExcept (.error e) : EStateM _ _ α) st = .error e st from rfl), finalState]
    omega

theorem Grows.mono {ε α : Type} {x : EStateM ε (σ × List Bytes) α} {n m : Nat} (hx : Grows x n)
    (h : n ≤ m) : Grows x m := fun st => (hx st).trans (by omega)

theorem recvExactly_grows (receiveSome : σ → Int → Bytes × σ) (size : Int) :
    Grows (recvExactly (logChunks receiveSome) size) (max size 1).toNat := by
  intro st
  have := recvExactly_log_le receiveSome size st
  omega

theorem recv_grows (receiveSome : σ → Int → Bytes × σ) :
    Grows (recv (logChunks receiveSome)) (2 ^ 64 + 11) := by
  refine ((recvExactly_grows receiveSome 4).bind (2 ^ 64 + 7) fun buf =>
    Grows.liftExcept_bind fun size hsize => ?_).mono (by omega)
  have hrange := unpackInt32_range hsize
  split
  · refine ((recvExactly_grows receiveSome 8).bind (2 ^ 64 - 1) fun buf =>
      Grows.liftExcept_bind fun size hsize => ?_).mono (by omega)
    have := unpackUInt64_lt hsize
    exact (recvExactly_grows receiveSome size).mono (by omega)
  · exact (recvExactly_grows receiveSome size).mono (by omega)

/-- `_recv_exactly(size)` ends, for every `size` and every behaviour of `receive_some`, after at
most `max(size, 1)` reads: it returns the `size` bytes of the chunks it read, or raises
`EndOfChannel` on an empty chunk or `RuntimeError` on a chunk longer than what is still needed.
`_recv` ends after at most `2^64 + 11` reads. -/
theorem recvExactly_bounded (receiveSome : σ → Int → Bytes × σ) (size : Int) (s : σ) :
    (∃ chunks, (finalState (recvExactly (logChunks receiveSome) size (s, []))).2 = chunks ∧
      (chunks.length : Int) ≤ max size 1 ∧
      LoopEnd size [] chunks (recvExactly (logChunks receiveSome) size (s, []))) ∧
    Grows (recv (logChunks receiveSome)) (2 ^ 64 + 11) := by
  obtain ⟨chunks, hlog, hmax, -, hend⟩ := recvExactlyLoop_logged receiveSome size [] (s, [])
  exact ⟨⟨chunks, hlog, hmax, hend⟩, recv_grows receiveSome⟩

/-! ### Round trip over a FIFO pipe -/

/-- An OS pipe read through `trio.lowlevel.FdStream`: a read of at most `max ≥ 1` bytes from a pipe
that still holds some hands back a nonempty prefix of at most `max` of them, and at the end of the
stream a read hands back `b''` and the stream stays ended. -/
structure FifoPipe (σ : Type) where
  /-- `receive_some(max_bytes)`: the chunk it hands back and the pipe after it. -/
  receiveSome : σ → Int → Bytes × σ
  /-- The bytes still to be read. -/
  bytes : σ → Bytes
  deliver : ∀ s max, 1 ≤ max → bytes s ≠ [] → ∃ k : Nat, 0 < k ∧ (k : Int) ≤ max ∧
    (receiveSome s max).1 = (bytes s).take k ∧ bytes (receiveSome s max).2 = (bytes s).drop k
  eof : ∀ s max, bytes s = [] → (receiveSome s max).1 = [] ∧ bytes (receiveSome s max).2 = []

namespace FifoPipe

variable (P : FifoPipe σ)

/-- A read of at most `xs.length` bytes from a pipe holding `xs ++ ys` takes a nonempty prefix of
`xs`. -/
theorem receiveSome_prefix {s : σ} {xs ys : Bytes} (hs : P.bytes s = xs ++ ys) (hpos : 0 < xs.length) :
    ∃ k, 0 < k ∧ k ≤ xs.length ∧ (P.receiveSome s xs.length).1 = xs.take k ∧
      P.bytes (P.receiveSome s xs.length).2 = xs.drop k ++ ys := by
  have hne : P.bytes s ≠ [] := by
    rw [hs]
    exact List.append_ne_nil_of_left_ne_nil (List.ne_nil_of_length_pos hpos) _
  obtain ⟨k, hk, hkmax, hc, hrest⟩ := P.deliver s xs.length (by omega) hne
  have hkle : k ≤ xs.length := by omega
  refine ⟨k, hk, hkle, ?_, ?_⟩
  · rw [hc, hs, List.take_append_of_le_length hkle]
  · rw [hrest, hs, List.drop_append_of_le_length hkle]

/-- The loop reads exactly the next `size` bytes of a pipe that holds at least that many. -/
theorem recvExactlyLoop_of_le (size : Int) (resultBytes : Bytes) (s : σ) :
    ∀ xs ys, P.bytes s = xs ++ ys → (xs.length : Int) = size →
      ∃ s', recvExactlyLoop P.receiveSome size resultBytes s = .ok (resultBytes ++ xs) s' ∧
        P.bytes s' = ys := by
  induction size, resultBytes, s using recvExactlyLoop.induct P.receiveSome with
  | case1 resultBytes s =>
    intro xs ys hs hlen
    have hxs : xs = [] := List.length_eq_zero.mp (by omega)
    subst hxs
    exact ⟨s, by simp, hs⟩
  | case2 size resultBytes s hsize c s' hrecv hnum =>
    intro xs ys hs hlen
    subst hlen
    obtain ⟨k, hk, -, hc, -⟩ := P.receiveSome_prefix hs (by omega)
    rw [hrecv] at hc
    have := congrArg List.length hc
    simp only [List.length_take] at this
    omega
  | case3 size resultBytes s hsize c s' hrecv hnum hover =>
    intro xs ys hs hlen
    subst hlen
    obtain ⟨k, hk, hkle, hc, -⟩ := P.receiveSome_prefix hs (by omega)
    rw [hrecv] at hc
    have := congrArg List.length hc
    simp only [List.length_take] at this
    omega
  | case4 size resultBytes s hsize c s' hrecv hnum hover ih =>
    intro xs ys hs hlen
    subst hlen
    obtain ⟨k, hk, hkle, hc, hrest⟩ := P.receiveSome_prefix hs (by omega)
    rw [hrecv] at hc hrest
    simp only at hc hrest
    have hck : c.length = k := by rw [hc, List.length_take]; omega
    obtain ⟨s'', hrun, hs''⟩ := ih (xs.drop k) ys hrest (by simp; omega)
    refine ⟨s'', ?_, hs''⟩
    rw [recvExactlyLoop_of_ne _ hsize, hrecv]
    simp only [hnum, hover, if_false]
    rw [hrun, List.append_assoc, hc, List.take_append_drop]

/-- The loop raises `EndOfChannel` on a pipe that ends before `size` more bytes. -/
theorem recvExactlyLoop_of_lt (size : Int) (resultBytes : Bytes) (s : σ) :
    ((P.bytes s).length : Int) < size →
      ∃ s', recvExactlyLoop P.receiveSome size resultBytes s =
        .error (.endOfChannel "got end of file during message") s' := by
  induction size, resultBytes, s using recvExactlyLoop.induct P.receiveSome with
  | case1 resultBytes s => intro h; omega
  | case2 size resultBytes s hsize c s' hrecv hnum =>
    intro _
    refine ⟨s', ?_⟩
    rw [recvExactlyLoop_of_ne _ hsize, hrecv]
    simp [hnum]
  | case3 size resultBytes s hsize c s' hrecv hnum hover =>
    intro hlt
    have hne : P.bytes s ≠ [] := fun h => hnum (by simpa [hrecv] using (P.eof s size h).1)
    obtain ⟨k, -, -, hc, -⟩ := P.deliver s size (by omega) hne
    rw [hrecv] at hc
    have := congrArg List.length hc
    simp only [List.length_take] at this
    omega
  | case4 size resultBytes s hsize c s' hrecv hnum hover ih =>
    intro hlt
    have hne : P.bytes s ≠ [] := fun h => hnum (by simpa [hrecv] using (P.eof s size h).1)
    obtain ⟨k, -, -, hc, hrest⟩ := P.deliver s size (by omega) hne
    rw [hrecv] at hc hrest
    simp only at hc hrest
    have hlen := congrArg List.length hc
    simp only [List.length_take] at hlen
    obtain ⟨s'', hrun⟩ := ih (by rw [hrest, List.length_drop]; omega)
    refine ⟨s'', ?_⟩
    rw [recvExactlyLoop_of_ne _ hsize, hrecv]
    simp only [hnum, hover, if_false]
    exact hrun

theorem recvExactly_of_le {s : σ} {xs ys : Bytes} (hs : P.bytes s = xs ++ ys) :
    ∃ s', recvExactly P.receiveSome xs.length s = .ok xs s' ∧ P.bytes s' = ys :=
  P.recvExactlyLoop_of_le _ [] s xs ys hs rfl

theorem recvExactly_of_lt (s : σ) (size : Int) (h : ((P.bytes s).length : Int) < size) :
    ∃ s', recvExactly P.receiveSome size s =
      .error (.endOfChannel "got end of file during message") s' :=
  P.recvExactlyLoop_of_lt size [] s h

theorem liftExcept_ok {ε α : Type} (a : α) (s : σ) :
    (liftExcept (Except.ok a : Except ε α) : EStateM ε σ α) s = .ok a s := rfl

/-- `_recv` on a pipe that starts with a whole frame returns its message and leaves the rest. -/
theorem recv_frame {s : σ} {m r : Bytes} (hm : m.length < 2 ^ 64) (hs : P.bytes s = frame m ++ r) :
    ∃ s', recv P.receiveSome s = .ok m s' ∧ P.bytes s' = r := by
  by_cases hshort : m.length ≤ 2 ^ 31 - 1
  · rw [frame_of_le hshort, List.append_assoc] at hs
    obtain ⟨s1, h1, hs1⟩ := P.recvExactly_of_le hs
    obtain ⟨s2, h2, hs2⟩ := P.recvExactly_of_le hs1
    simp only [int32Bytes_length, Nat.cast_ofNat] at h1
    refine ⟨s2, ?_, hs2⟩
    rw [recv, bind_ok h1, unpackInt32_int32Bytes (by omega) (by omega), bind_ok (liftExcept_ok _ _),
      if_neg (by omega)]
    exact h2
  · rw [frame_of_gt hshort, List.append_assoc, List.append_assoc] at hs
    obtain ⟨s1, h1, hs1⟩ := P.recvExactly_of_le hs
    obtain ⟨s2, h2, hs2⟩ := P.recvExactly_of_le hs1
    obtain ⟨s3, h3, hs3⟩ := P.recvExactly_of_le hs2
    simp only [int32Bytes_length, Nat.cast_ofNat] at h1
    simp only [beBytes_length, Nat.cast_ofNat] at h2
    refine ⟨s3, ?_, hs3⟩
    rw [recv, bind_ok h1, unpackInt32_int32Bytes (by omega) (by omega), bind_ok (liftExcept_ok _ _),
      if_pos rfl, bind_ok h2, unpackUInt64_beBytes hm, bind_ok (liftExcept_ok _ _)]
    exact h3

private theorem eq_append_drop_of_append_eq {p q A B : Bytes} (h : p ++ q = A ++ B)
    (hle : A.length ≤ p.length) : p = A ++ p.drop A.length := by
  have htake := congrArg (List.take A.length) h
  rw [List.take_append_of_le_length hle, List.take_left] at htake
  exact (List.take_append_drop A.length p).symm.trans (by rw [htake])

/-- `_recv` on a pipe whose stream stops inside a frame raises `EndOfChannel`. -/
theorem recv_cut {s : σ} {m p q : Bytes} (hm : m.length < 2 ^ 64) (hs : P.bytes s = p)
    (hpq : p ++ q = frame m) (hq : q ≠ []) :
    ∃ s', recv P.receiveSome s = .error (.endOfChannel "got end of file during message") s' := by
  have hqlen : 0 < q.length := List.length_pos.mpr hq
  have hlen := congrArg List.length hpq
  simp only [List.length_append] at hlen
  by_cases h4 : p.length < 4
  · obtain ⟨s1, h1⟩ := P.recvExactly_of_lt s 4 (by rw [hs]; omega)
    exact ⟨s1, by rw [recv, bind_error h1]⟩
  by_cases hshort : m.length ≤ 2 ^ 31 - 1
  · rw [frame_of_le hshort] at hpq hlen
    simp only [List.length_append, int32Bytes_length] at hlen
    have hp := eq_append_drop_of_append_eq hpq (by rw [int32Bytes_length]; omega)
    obtain ⟨s1, h1, hs1⟩ := P.recvExactly_of_le (hs.trans hp)
    simp only [int32Bytes_length, Nat.cast_ofNat] at h1 hs1
    obtain ⟨s2, h2⟩ := P.recvExactly_of_lt s1 m.length
      (by rw [hs1, List.length_drop]; omega)
    refine ⟨s2, ?_⟩
    rw [recv, bind_ok h1, unpackInt32_int32Bytes (by omega) (by omega), bind_ok (liftExcept_ok _ _),
      if_neg (by omega)]
    exact h2
  · rw [frame_of_gt hshort, List.append_assoc] at hpq
    rw [frame_of_gt hshort] at hlen
    simp only [List.length_append, int32Bytes_length, beBytes_length] at hlen
    have hp := eq_append_drop_of_append_eq hpq (by rw [int32Bytes_length]; omega)
    obtain ⟨s1, h1, hs1⟩ := P.recvExactly_of_le (hs.trans hp)
    simp only [int32Bytes_length, Nat.cast_ofNat] at h1 hs1
    have hhead : recv P.receiveSome s = (recvExactly P.receiveSome 8 >>= fun buf =>
        liftExcept (unpackUInt64 buf) >>= fun size => recvExactly P.receiveSome size) s1 := by
      rw [recv, bind_ok h1, unpackInt32_int32Bytes (by omega) (by omega),
        bind_ok (liftExcept_ok _ _), if_pos rfl]
    by_cases h12 : p.length < 12
    · obtain ⟨s2, h2⟩ := P.recvExactly_of_lt s1 8
        (by rw [hs1, List.length_drop]; omega)
      exact ⟨s2, by rw [hhead, bind_error h2]⟩
    · have hrest : p.drop 4 ++ q = beBytes 8 m.length ++ m := by
        rw [hp, List.append_assoc] at hpq
        exact List.append_cancel_left hpq
      have hp' := eq_append_drop_of_append_eq hrest (by rw [beBytes_length, List.length_drop]; omega)
      obtain ⟨s2, h2, hs2⟩ := P.recvExactly_of_le (hs1.trans hp')
      simp only [beBytes_length, Nat.cast_ofNat] at h2 hs2
      obtain ⟨s3, h3⟩ := P.recvExactly_of_lt s2 m.length
        (by rw [hs2, List.length_drop, List.length_drop]; omega)
      exact ⟨s3, by rw [hhead, bind_ok h2, unpackUInt64_beBytes hm, bind_ok (liftExcept_ok _ _), h3]⟩

/-- The framing round trip under every chunking: `k` successive `_recv` calls on the frames of
`m₁, …, mₖ` followed by `r` return `m₁, …, mₖ` and leave `r`; when `r` is a strict prefix of a
frame and the stream ends there, the next `_recv` raises `EndOfChannel`. -/
theorem recvMany_frames (ms : List Bytes) (r : Bytes) (s : σ)
    (hms : ∀ m ∈ ms, m.length < 2 ^ 64) (hs : P.bytes s = (ms.map frame).flatten ++ r) :
    ∃ s', recvMany P.receiveSome ms.length s = .ok ms s' ∧ P.bytes s' = r ∧
      ∀ m p q, m.length < 2 ^ 64 → p ++ q = frame m → q ≠ [] → r = p →
        ∃ s'', recv P.receiveSome s' = .error (.endOfChannel "got end of file during message") s'' := by
  induction ms generalizing s with
  | nil =>
    refine ⟨s, rfl, hs, fun m p q hm hpq hq hr => P.recv_cut hm ?_ hpq hq⟩
    simpa [hr] using hs
  | cons m ms ih =>
    rw [List.map_cons, List.flatten_cons, List.append_assoc] at hs
    obtain ⟨s1, h1, hs1⟩ := P.recv_frame (hms m (List.mem_cons_self m ms)) hs
    obtain ⟨s', h', hs', hcut⟩ := ih s1 (fun m' hm' => hms m' (List.mem_cons_of_mem m hm')) hs1
    exact ⟨s', by rw [List.length_cons, recvMany, bind_ok h1, bind_ok h']; rfl, hs', hcut⟩

end FifoPipe

/-- A pipe that hands back one byte per read. -/
def byteByByte : FifoPipe Bytes where
  receiveSome s _ := (s.take 1, s.drop 1)
  bytes s := s
  deliver _ _ hmax _ := ⟨1, Nat.one_pos, hmax, rfl, rfl⟩
  eof _ _ h := by simp [h]

theorem recvMany_frames_byteByByte :
    ∃ s', recvMany byteByByte.receiveSome 2 (frame [1, 2] ++ frame [] ++ [9]) = .ok [[1, 2], []] s' ∧
      byteByByte.bytes s' = [9] ∧
      ∀ m p q, m.length < 2 ^ 64 → p ++ q = frame m → q ≠ [] → [9] = p →
        ∃ s'', recv byteByByte.receiveSome s' =
          .error (.endOfChannel "got end of file during message") s'' :=
  byteByByte.recvMany_frames [[1, 2], []] [9] _ (by decide) rfl

end Wire

end TrioParallel
