import Mathlib.Data.List.Basic
import Mathlib.Tactic.Ring
/-!
# Byte strings and the two `struct` formats of the pipe framing

`PosixWorkerProc._send` and `_recv` in `_proc.py` frame every message with `struct.pack` and
`struct.unpack` in two formats only: `"!i"`, a four-byte big-endian signed length, and `"!Q"`, an
eight-byte big-endian unsigned one. Both are written here over one big-endian digit function,
`beBytes`, and its inverse `beValue`, so that the framing modules reason about the digits once.

A Python `bytes` or `bytearray` is a list of `UInt8`. `struct.error`, which Python raises for a
value out of the format's range or a buffer of the wrong length, is the constructor `structError`
of the framing's exception type, tagged with the format the code passed.
-/

namespace TrioParallel

/-- A Python `bytes` / `bytearray` value. -/
abbrev Bytes := List UInt8

namespace Wire

/-- The exceptions the framing code raises: `trio.EndOfChannel`, `RuntimeError` and
`struct.error`, with the text the code gives them. -/
inductive WireError where
  | endOfChannel (msg : String)
  | runtimeError (msg : String)
  | structError (format : String)
  deriving DecidableEq, Repr

/-- The `w` big-endian base-256 digits of `n % 256 ^ w`. -/
def beBytes : Nat → Nat → Bytes
  | 0, _ => []
  | w + 1, n => beBytes w (n / 256) ++ [UInt8.ofNat n]

/-- The number a string of big-endian base-256 digits spells. -/
def beValue (b : Bytes) : Nat := b.foldl (fun acc x => acc * 256 + x.toNat) 0

@[simp] theorem beBytes_length (w n : Nat) : (beBytes w n).length = w := by
  induction w generalizing n with
  | zero => rfl
  | succ w ih => simp [beBytes, ih]

theorem beValue_append_singleton (b : Bytes) (x : UInt8) :
    beValue (b ++ [x]) = beValue b * 256 + x.toNat := by
  simp [beValue, List.foldl_append]

theorem beValue_beBytes (w n : Nat) : beValue (beBytes w n) = n % 256 ^ w := by
  induction w generalizing n with
  | zero => simp [beBytes, beValue, Nat.mod_one]
  | succ w ih =>
    rw [beBytes, beValue_append_singleton, ih, pow_succ, mul_comm (256 ^ w), Nat.mod_mul]
    show n / 256 % 256 ^ w * 256 + n % 256 = _
    ring

theorem beValue_lt (b : Bytes) : beValue b < 256 ^ b.length := by
  induction b using List.reverseRecOn with
  | nil => simp [beValue]
  | append_singleton b x ih =>
    rw [beValue_append_singleton, List.length_append, List.length_singleton, pow_succ]
    have hx : x.toNat < 256 := x.val.isLt
    omega

/-- Reading a string of digits and writing the number back with as many digits gives the string. -/
theorem beBytes_beValue (b : Bytes) : beBytes b.length (beValue b) = b := by
  induction b using List.reverseRecOn with
  | nil => rfl
  | append_singleton b x ih =>
    have hx : x.toNat < 256 := x.val.isLt
    rw [List.length_append, List.length_singleton, beBytes, beValue_append_singleton,
      show (beValue b * 256 + x.toNat) / 256 = beValue b by omega, ih]
    congr
    apply UInt8.eq_of_val_eq
    apply Fin.ext
    show (beValue b * 256 + x.toNat) % 256 = x.toNat
    omega

theorem beBytes_ne_nil {w : Nat} (n : Nat) (hw : 0 < w) : beBytes w n ≠ [] := by
  intro h
  have := congrArg List.length h
  simp only [beBytes_length, List.length_nil] at this
  omega

/-! ### `struct.pack` and `struct.unpack` -/

/-- `struct.pack("!i", n)`: the four bytes of `n` in two's complement, or `struct.error` outside
the `int32` range. -/
def packInt32 (n : Int) : Except WireError Bytes :=
  if -2 ^ 31 ≤ n ∧ n < 2 ^ 31 then .ok (beBytes 4 (n % 2 ^ 32).toNat) else .error (.structError "!i")

/-- `struct.unpack("!i", buf)[0]`: a four-byte buffer read as a signed big-endian number. -/
def unpackInt32 (buf : Bytes) : Except WireError Int :=
  if buf.length = 4 then
    .ok (if beValue buf < 2 ^ 31 then (beValue buf : Int) else (beValue buf : Int) - 2 ^ 32)
  else .error (.structError "!i")

/-- `struct.pack("!Q", n)`: the eight big-endian bytes of `n`, or `struct.error` outside the
`uint64` range. -/
def packUInt64 (n : Nat) : Except WireError Bytes :=
  if n < 2 ^ 64 then .ok (beBytes 8 n) else .error (.structError "!Q")

/-- `struct.unpack("!Q", buf)[0]`: an eight-byte buffer read as an unsigned big-endian number. -/
def unpackUInt64 (buf : Bytes) : Except WireError Nat :=
  if buf.length = 8 then .ok (beValue buf) else .error (.structError "!Q")

/-- The bytes `struct.pack("!i", n)` produces for an `n` in range; the framing spec names them. -/
def int32Bytes (n : Int) : Bytes := beBytes 4 (n % 2 ^ 32).toNat

theorem packInt32_of_range {n : Int} (hlo : -2 ^ 31 ≤ n) (hhi : n < 2 ^ 31) :
    packInt32 n = .ok (int32Bytes n) := by
  rw [packInt32, if_pos ⟨hlo, hhi⟩, int32Bytes]

theorem packUInt64_of_lt {n : Nat} (h : n < 2 ^ 64) : packUInt64 n = .ok (beBytes 8 n) := by
  rw [packUInt64, if_pos h]

@[simp] theorem int32Bytes_length (n : Int) : (int32Bytes n).length = 4 := beBytes_length 4 _

theorem unpackInt32_int32Bytes {n : Int} (hlo : -2 ^ 31 ≤ n) (hhi : n < 2 ^ 31) :
    unpackInt32 (int32Bytes n) = .ok n := by
  have hval : beValue (int32Bytes n) = (n % 2 ^ 32).toNat := by
    rw [int32Bytes, beValue_beBytes]
    exact Nat.mod_eq_of_lt (by omega)
  simp only [unpackInt32, int32Bytes_length, if_true, hval]
  congr 1
  split <;> omega

theorem unpackUInt64_beBytes {n : Nat} (h : n < 2 ^ 64) : unpackUInt64 (beBytes 8 n) = .ok n := by
  simp only [unpackUInt64, beBytes_length, if_true, beValue_beBytes]
  exact congrArg Except.ok (Nat.mod_eq_of_lt (by omega))

/-- What `struct.unpack("!i", ...)` can read: every four-byte buffer is in the `int32` range. -/
theorem unpackInt32_range {buf : Bytes} {n : Int} (h : unpackInt32 buf = .ok n) :
    -2 ^ 31 ≤ n ∧ n < 2 ^ 31 := by
  simp only [unpackInt32] at h
  split at h
  · rename_i hlen
    have hlt := beValue_lt buf
    rw [hlen] at hlt
    injection h with h
    split at h <;> omega
  · cases h

theorem unpackUInt64_lt {buf : Bytes} {n : Nat} (h : unpackUInt64 buf = .ok n) : n < 2 ^ 64 := by
  simp only [unpackUInt64] at h
  split at h
  · rename_i hlen
    injection h with h
    have hlt := beValue_lt buf
    rw [hlen] at hlt
    omega
  · cases h

/-- A buffer `struct.unpack("!i", ...)` reads as `n` is the one `struct.pack("!i", n)` writes. -/
theorem int32Bytes_of_unpackInt32 {buf : Bytes} {n : Int} (h : unpackInt32 buf = .ok n) : int32Bytes n = buf := by
  simp only [unpackInt32] at h
  split at h
  · rename_i hlen
    injection h with h
    have hlt := beValue_lt buf
    rw [hlen] at hlt
    have hval : (n % 2 ^ 32).toNat = beValue buf := by split at h <;> omega
    have hback := beBytes_beValue buf
    rw [hlen] at hback
    rw [int32Bytes, hval, hback]
  · cases h

/-- A buffer `struct.unpack("!Q", ...)` reads as `n` is the one `struct.pack("!Q", n)` writes. -/
theorem beBytes_of_unpackUInt64 {buf : Bytes} {n : Nat} (h : unpackUInt64 buf = .ok n) : beBytes 8 n = buf := by
  simp only [unpackUInt64] at h
  split at h
  · rename_i hlen
    injection h with h
    subst h
    have hback := beBytes_beValue buf
    rwa [hlen] at hback
  · cases h

end Wire

end TrioParallel
