import TrioParallel.Wire.Struct
/-!
# The send side of the framing

`PosixWorkerProc._send` writes one message as one, two or three `send_all` calls, depending on its
length: a single write of header and payload up to 16384 bytes (Nagle), header then payload up to
`2^31 - 1`, and the extended `-1` header, eight-byte length and payload beyond. `send` records the
buffers the code hands to `send_all`, in order; `frame` is the spec's one encoding of a message.
`send_flatten_eq_frame` says the three paths write the same bytes, and never an empty buffer, which
the code's comment asks for so as not to write zero bytes into a pipe whose reader has gone.
-/

namespace TrioParallel

namespace Wire

/-- The spec's framing of a message of `n` bytes: `n` as a four-byte big-endian signed number when
`n ≤ 2^31 - 1`, otherwise `-1` in that form and then `n` as an eight-byte big-endian unsigned
number; then the `n` bytes of the message. -/
def frame (m : Bytes) : Bytes :=
  if m.length ≤ 2 ^ 31 - 1 then int32Bytes m.length ++ m
  else int32Bytes (-1) ++ beBytes 8 m.length ++ m

/-- `PosixWorkerProc._send(buf)`: the buffers it hands to `send_all`, in order. -/
def send (buf : Bytes) : Except WireError (List Bytes) := do
  let n := buf.length
  if n > 0x7FFFFFFF then
    let preHeader ← packInt32 (-1)
    let header ← packUInt64 n
    pure [preHeader, header, buf]
  else
    let header ← packInt32 n
    if n > 16384 then
      pure [header, buf]
    else
      pure [header ++ buf]

theorem frame_of_le {m : Bytes} (h : m.length ≤ 2 ^ 31 - 1) : frame m = int32Bytes m.length ++ m :=
  if_pos h

theorem frame_of_gt {m : Bytes} (h : ¬ m.length ≤ 2 ^ 31 - 1) :
    frame m = int32Bytes (-1) ++ beBytes 8 m.length ++ m :=
  if_neg h

/-- The three write paths of `_send` put `frame buf` on the wire, in nonempty writes. -/
theorem send_flatten_eq_frame (buf : Bytes) (hlen : buf.length < 2 ^ 64) :
    ∃ writes, send buf = .ok writes ∧ writes.flatten = frame buf ∧ ∀ w ∈ writes, w ≠ [] := by
  by_cases hbig : buf.length > 0x7FFFFFFF
  · have hne : buf ≠ [] := by
      rintro rfl
      simp at hbig
    refine ⟨[int32Bytes (-1), beBytes 8 buf.length, buf], ?_, ?_, ?_⟩
    · simp only [send, if_pos hbig, packInt32_of_range (show (-2 ^ 31 : Int) ≤ -1 by omega) (by omega),
        packUInt64_of_lt hlen]
      rfl
    · rw [frame_of_gt (by omega)]
      simp
    · simp only [List.mem_cons, List.mem_singleton, List.not_mem_nil, or_false]
      rintro w (rfl | rfl | rfl)
      · exact beBytes_ne_nil _ (by omega)
      · exact beBytes_ne_nil _ (by omega)
      · exact hne
  · have hheader : packInt32 buf.length = .ok (int32Bytes buf.length) :=
      packInt32_of_range (by omega) (by omega)
    have hframe : frame buf = int32Bytes buf.length ++ buf := frame_of_le (by omega)
    have hheader_ne : int32Bytes buf.length ≠ [] := beBytes_ne_nil _ (by omega)
    by_cases hlarge : buf.length > 16384
    · have hne : buf ≠ [] := by
        rintro rfl
        simp at hlarge
      refine ⟨[int32Bytes buf.length, buf], ?_, by simp [hframe], ?_⟩
      · simp only [send, if_neg hbig, hheader, if_pos hlarge]
        rfl
      · simp only [List.mem_cons, List.mem_singleton, List.not_mem_nil, or_false]
        rintro w (rfl | rfl)
        · exact hheader_ne
        · exact hne
    · refine ⟨[int32Bytes buf.length ++ buf], ?_, by simp [hframe], ?_⟩
      · simp only [send, if_neg hbig, hheader, if_neg hlarge]
        rfl
      · simp only [List.mem_singleton]
        rintro w rfl
        simp [hheader_ne]

theorem send_flatten_eq_frame_three :
    ∃ writes, send [1, 2, 3] = .ok writes ∧ writes.flatten = frame [1, 2, 3] ∧ ∀ w ∈ writes, w ≠ [] :=
  send_flatten_eq_frame [1, 2, 3] (by decide)

end Wire

end TrioParallel
