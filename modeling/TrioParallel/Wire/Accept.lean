import TrioParallel.Wire.Recv
/-!
# What `_recv` accepts

`recv_frame` is the decoding half of the round trip: a frame on the pipe comes back as its message.
This is the converse. Over a FIFO pipe, under every chunking, a message that `_recv` returns came in
as `frame m`, or, for a message short enough for the four-byte header, as `-1`, the eight-byte length
and the message. `_send` never writes that second form, and `_recv` takes it as it does the first.
So a header with a negative length other than `-1` never yields a message: `_recv_exactly` fails on
a negative size, since `receive_some` hands back either nothing or more than was asked for.
-/

namespace TrioParallel

namespace Wire

variable {σ : Type}

theorem bind_eq_ok {ε α β : Type} {x : EStateM ε σ α} {f : α → EStateM ε σ β} {s s' : σ} {b : β}
    (h : (x >>= f) s = .ok b s') : ∃ a s₁, x s = .ok a s₁ ∧ f a s₁ = .ok b s' := by
  change EStateM.bind x f s = _ at h
  unfold EStateM.bind at h
  split at h
  · exact ⟨_, _, ‹_›, h⟩
  · cases h

theorem liftExcept_eq_ok {ε α : Type} {e : Except ε α} {s s' : σ} {a : α}
    (h : (liftExcept e : EStateM ε σ α) s = .ok a s') : e = .ok a ∧ s' = s := by
  cases e with
  | error e => cases h
  | ok a' => cases h; exact ⟨rfl, rfl⟩

namespace FifoPipe

variable (P : FifoPipe σ)

/-- What the loop returns is the bytes it had and the next `size` bytes of the pipe, which it
takes off the pipe. -/
theorem recvExactlyLoop_ok (size : Int) (resultBytes : Bytes) (s : σ) :
    ∀ r s', recvExactlyLoop P.receiveSome size resultBytes s = .ok r s' →
      ∃ xs, r = resultBytes ++ xs ∧ (xs.length : Int) = size ∧ P.bytes s = xs ++ P.bytes s' := by
  induction size, resultBytes, s using recvExactlyLoop.induct P.receiveSome with
  | case1 resultBytes s =>
    intro r s' h
    rw [recvExactlyLoop_zero] at h
    cases h
    exact ⟨[], by simp, rfl, rfl⟩
  | case2 size resultBytes s hsize c s'' hrecv hnum =>
    intro r s' h
    rw [recvExactlyLoop_of_ne _ hsize, hrecv] at h
    simp [hnum] at h
  | case3 size resultBytes s hsize c s'' hrecv hnum hover =>
    intro r s' h
    rw [recvExactlyLoop_of_ne _ hsize, hrecv] at h
    simp [hnum, hover] at h
  | case4 size resultBytes s hsize c s'' hrecv hnum hover ih =>
    intro r s' h
    rw [recvExactlyLoop_of_ne _ hsize, hrecv] at h
    simp only at h
    rw [if_neg hnum, if_neg hover] at h
    obtain ⟨xs, rfl, hlen, hbytes⟩ := ih r s' h
    have hne : P.bytes s ≠ [] := fun he => hnum (by simpa [hrecv] using (P.eof s size he).1)
    obtain ⟨k, -, -, hc, hrest⟩ := P.deliver s size (by omega) hne
    rw [hrecv] at hc hrest
    simp only at hc hrest
    refine ⟨c ++ xs, by simp, by simp only [List.length_append, Nat.cast_add]; omega, ?_⟩
    calc P.bytes s = c ++ P.bytes s'' := by rw [hc, hrest, List.take_append_drop]
      _ = c ++ xs ++ P.bytes s' := by rw [hbytes, List.append_assoc]

/-- `_recv_exactly(size)` returns the next `size` bytes of the pipe and takes them off it. -/
theorem recvExactly_ok {size : Int} {s s' : σ} {r : Bytes} (h : recvExactly P.receiveSome size s = .ok r s') :
    (r.length : Int) = size ∧ P.bytes s = r ++ P.bytes s' := by
  obtain ⟨xs, rfl, hlen, hbytes⟩ := P.recvExactlyLoop_ok size [] s r s' h
  exact ⟨hlen, hbytes⟩

/-- Over a FIFO pipe, under every chunking: a message `_recv` returns came off the pipe as its
frame, or, when it is short enough for the four-byte header, as `-1`, its eight-byte length and the
message. -/
theorem recv_accepts {s s' : σ} {m : Bytes} (h : recv P.receiveSome s = .ok m s') :
    P.bytes s = frame m ++ P.bytes s' ∨
      (m.length ≤ 2 ^ 31 - 1 ∧ P.bytes s = int32Bytes (-1) ++ beBytes 8 m.length ++ m ++ P.bytes s') := by
  obtain ⟨buf, s₁, h₁, hafter₁⟩ := bind_eq_ok h
  obtain ⟨size, s₂, h₂, hafter₂⟩ := bind_eq_ok hafter₁
  obtain ⟨hsize, rfl⟩ := liftExcept_eq_ok h₂
  obtain ⟨-, hs₁⟩ := P.recvExactly_ok h₁
  have hbuf := int32Bytes_of_unpackInt32 hsize
  split at hafter₂
  · rename_i hneg
    subst hneg
    obtain ⟨buf', s₃, h₃, hafter₃⟩ := bind_eq_ok hafter₂
    obtain ⟨n, s₄, h₄, hm⟩ := bind_eq_ok hafter₃
    obtain ⟨hn, rfl⟩ := liftExcept_eq_ok h₄
    obtain ⟨-, hs₃⟩ := P.recvExactly_ok h₃
    obtain ⟨hlen, hs'⟩ := P.recvExactly_ok hm
    have hbuf' := beBytes_of_unpackUInt64 hn
    obtain rfl : m.length = n := by omega
    have hs : P.bytes s = int32Bytes (-1) ++ beBytes 8 m.length ++ m ++ P.bytes s' := by
      rw [hs₁, hs₃, hs', hbuf, hbuf']
      simp only [List.append_assoc]
    by_cases hshort : m.length ≤ 2 ^ 31 - 1
    · exact .inr ⟨hshort, hs⟩
    · exact .inl (by rw [frame_of_gt hshort, hs])
  · obtain ⟨hlen, hs'⟩ := P.recvExactly_ok hafter₂
    have hshort : m.length ≤ 2 ^ 31 - 1 := by
      have := (unpackInt32_range hsize).2
      omega
    left
    rw [frame_of_le hshort, hs₁, hs', ← hbuf, hlen, List.append_assoc]

end FifoPipe

/-- A frame read one byte at a time comes back whole, by the first form. -/
theorem recv_accepts_frame_byteByByte :
    ∃ s', recv byteByByte.receiveSome (frame [1, 2]) = .ok [1, 2] s' ∧
      (byteByByte.bytes (frame [1, 2]) = frame [1, 2] ++ byteByByte.bytes s' ∨
        (([1, 2] : Bytes).length ≤ 2 ^ 31 - 1 ∧
          byteByByte.bytes (frame [1, 2]) = int32Bytes (-1) ++ beBytes 8 ([1, 2] : Bytes).length ++ [1, 2] ++
            byteByByte.bytes s')) :=
  have ⟨s', h, _⟩ := byteByByte.recv_frame (by decide)
    (show byteByByte.bytes (frame [1, 2]) = frame [1, 2] ++ [] from (List.append_nil _).symm)
  ⟨s', h, byteByByte.recv_accepts h⟩

end Wire

end TrioParallel
