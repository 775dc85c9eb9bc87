import NTUSP.Friend.Model
import NTUSP.Library.Transfer

/-!
# `fully_read` and `fully_write`

Both are transfers in pieces. The pointer into the buffer and the number of bytes asked for come
from the same counter, so the pieces join without a gap or an overlap, however the descriptor
splits them. The command lines of `Meet` go through `fully_write`.
-/

namespace NTUSP.Friend

open NTUSP.Library

universe u

variable {Byte : Type u}

/-- Memory with room for `size` bytes. -/
structure Buffer (Byte : Type u) (size : Nat) where
  bytes : List Byte
  room : size ≤ bytes.length

/-- `text` stored from `offset` on. -/
def Buffer.fill {size : Nat} (buf : Buffer Byte size) (offset : Nat) (text : List Byte) :
    Buffer Byte size where
  bytes := buf.bytes.take offset ++ text ++ buf.bytes.drop (offset + text.length)
  room := by
    have room := buf.room
    simp only [List.length_append, List.length_take, List.length_drop]
    omega

/-- The bytes of a stream from `offset` on. -/
def streamFrom (stream : Nat → Byte) (offset count : Nat) : List Byte :=
  (List.range' offset count).map stream

/-- The buffer of `fully_read`, and how much of the stream has been read. -/
structure Reading (Byte : Type u) (readLen : Nat) where
  buf : Buffer Byte readLen
  consumed : Nat

/-- `read(read_fd, read_buf + readin, ...)` returns `result` bytes of the stream. -/
def Reading.read {readLen : Nat} (stream : Nat → Byte) (r : Reading Byte readLen)
    (readin result : Nat) : Reading Byte readLen where
  buf := r.buf.fill readin (streamFrom stream r.consumed result)
  consumed := r.consumed + result

/-- `fully_read`. -/
def fullyRead (stream : Nat → Byte) {readLen : Nat} (readBuf : Buffer Byte readLen) :
    Machine (Transfer (Reading Byte readLen)) Int :=
  Transfer.loop readLen (fun r readin result => r.read stream readin result)
    { buf := readBuf, consumed := 0 }

/-- `fully_write`, to a descriptor to which `sent` has gone before. -/
def fullyWrite {writeLen : Nat} (writeBuf : Buffer Byte writeLen) (sent : List Byte) :
    Machine (Transfer (List Byte)) Int :=
  Transfer.loop writeLen
    (fun delivered written result => delivered ++ (writeBuf.bytes.drop written).take result) sent

variable {stream : Nat → Byte} {readLen writeLen : Nat} {readBuf : Buffer Byte readLen}
  {writeBuf : Buffer Byte writeLen} {sent : List Byte}

@[simp] theorem length_streamFrom (stream : Nat → Byte) (offset count : Nat) :
    (streamFrom stream offset count).length = count := by
  simp [streamFrom]

theorem streamFrom_add (stream : Nat → Byte) (offset m n : Nat) :
    streamFrom stream offset (m + n) =
      streamFrom stream offset m ++ streamFrom stream (offset + m) n := by
  simp only [streamFrom, ← List.map_append, List.range'_append_1]

/-- The first `readin` bytes are those of the stream, and the others are as before. -/
structure Filled (stream : Nat → Byte) (readBuf : Buffer Byte readLen) (readin : Nat)
    (r : Reading Byte readLen) : Prop where
  bytes : r.buf.bytes = streamFrom stream 0 readin ++ readBuf.bytes.drop readin
  consumed : r.consumed = readin

/-- A piece is filled in behind the ones before. -/
theorem fullyRead_carries :
    Transfer.Carries readLen (fun r readin result => Reading.read stream r readin result)
      (Filled stream readBuf) where
  moves readin n r filled some inside := by
    obtain ⟨bytes, consumed⟩ := filled
    have front : r.buf.bytes.take readin = streamFrom stream 0 readin := by
      rw [bytes]
      exact List.take_left' (length_streamFrom ..)
    have behind : r.buf.bytes.drop (readin + n) = readBuf.bytes.drop (readin + n) := by
      rw [bytes, ← List.drop_drop, List.drop_left' (length_streamFrom ..), List.drop_drop]
    constructor
    · change r.buf.bytes.take readin ++ streamFrom stream r.consumed n ++
        r.buf.bytes.drop (readin + (streamFrom stream r.consumed n).length) = _
      rw [length_streamFrom, front, behind, consumed, streamFrom_add, Nat.zero_add]
    · change r.consumed + n = readin + n
      rw [consumed]

/-- A piece is delivered behind the ones before. -/
theorem fullyWrite_carries (writeBuf : Buffer Byte writeLen) (sent : List Byte) :
    Transfer.Carries writeLen
      (fun delivered written result => delivered ++ (writeBuf.bytes.drop written).take result)
      (fun written delivered => delivered = sent ++ writeBuf.bytes.take written) where
  moves written n delivered known some inside := by
    rw [known, List.take_add, List.append_assoc]

theorem filled_first : Filled stream readBuf 0 { buf := readBuf, consumed := 0 } where
  bytes := rfl
  consumed := rfl

/-- However the calls split it, `fully_read` fills the buffer with the next bytes of the stream
and `fully_write` delivers those of the buffer. A call that moves nothing ends the loop with
exactly the bytes before it. -/
theorem full_transfer (stream : Nat → Byte) (readBuf : Buffer Byte readLen)
    (writeBuf : Buffer Byte writeLen) (sent : List Byte) :
    Transfer.Full readLen (fullyRead stream readBuf) { buf := readBuf, consumed := 0 }
        (Filled stream readBuf) ∧
      Transfer.Full writeLen (fullyWrite writeBuf sent) sent
        (fun written delivered => delivered = sent ++ writeBuf.bytes.take written) := by
  constructor
  · exact fullyRead_carries.full filled_first
  · exact (fullyWrite_carries writeBuf sent).full (by simp)

/-- What a process hands over is what `fully_write` delivers. -/
theorem hand_of_fullyWrite (p : Proc) (text : List Char) :
    (fullyWrite { bytes := text, room := Nat.le_refl text.length } p.stdin).Inevitable
      Transfer.positive (fun s => s.ends = (p.hand text).stdin)
      { ends := p.stdin, moved := 0, phase := .loop } := by
  have carries := fullyWrite_carries { bytes := text, room := Nat.le_refl text.length } p.stdin
  refine (carries.inevitable (by simp)).mono fun s done => ?_
  obtain ⟨_, _, delivered⟩ := done
  rw [delivered, List.take_length]
  rfl

end NTUSP.Friend
