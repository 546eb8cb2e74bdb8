import GraduationServer.Codec.BinaryWriter
import GraduationServer.Foundations.Simulations

/-!
# The buffer of a connection

`Buffer` (`net/Buffer.h`, `net/Buffer.cc`): a vector of bytes with a read index and a write index. What
is between them is the content. In front of it are at first `kCheapPrepend` bytes for a header; what is
read is not moved out until there is no place behind the content, and then either the content is moved to
the front or the vector grows (`makeSpace`).

The indices are in order in every buffer, as its structure says. An operation is `none` where an
assertion of the source fails. So what is left to tell is the content, and how much room there is in
front of it.
-/

namespace GraduationServer

namespace Net

/-- `kCheapPrepend`: the bytes in front of an empty buffer. -/
def kCheapPrepend : ℕ := 8

/-- `sizeof extrabuf` in `readFd`. -/
def extrabufSize : ℕ := 65536

theorem length_resize (s : Bytes) (n : ℕ) : (resize s n).length = n := by
  rw [resize, List.length_append, List.length_take, List.length_replicate]
  omega

theorem length_overwrite {s bs : Bytes} {i : ℕ} (h : i + bs.length ≤ s.length) :
    (overwrite s i bs).length = s.length := by
  simp only [overwrite, List.length_append, List.length_take, List.length_drop]
  omega

theorem take_resize {s : Bytes} {n m : ℕ} (hm : m ≤ s.length) (hn : s.length ≤ n) :
    (resize s n).take m = s.take m := by
  rw [resize, List.take_of_length_le hn, List.take_append_of_le_length hm]

/-- The bytes up to the end of what has been written over. -/
theorem take_overwrite {s bs : Bytes} {i : ℕ} (h : i ≤ s.length) :
    (overwrite s i bs).take (i + bs.length) = s.take i ++ bs := by
  have hlength : (s.take i ++ bs).length = i + bs.length := by
    rw [List.length_append, List.length_take, min_eq_left h]
  rw [overwrite, ← hlength, List.take_left]

/-- The vector and the two indices. -/
structure Buffer where
  buffer : Bytes
  readerIndex : ℕ
  writerIndex : ℕ
  reader_le : readerIndex ≤ writerIndex
  writer_le : writerIndex ≤ buffer.length
  front_le : kCheapPrepend ≤ buffer.length

namespace Buffer

/-- `Buffer::Buffer`. -/
def new (initialSize : ℕ) : Buffer where
  buffer := List.replicate (kCheapPrepend + initialSize) 0
  readerIndex := kCheapPrepend
  writerIndex := kCheapPrepend
  reader_le := le_rfl
  writer_le := by simp
  front_le := by simp

def readableBytes (b : Buffer) : ℕ := b.writerIndex - b.readerIndex

def writableBytes (b : Buffer) : ℕ := b.buffer.length - b.writerIndex

def prependableBytes (b : Buffer) : ℕ := b.readerIndex

/-- The `readableBytes` bytes from `peek` on. -/
def content (b : Buffer) : Bytes := (b.buffer.take b.writerIndex).drop b.readerIndex

theorem length_content (b : Buffer) : b.content.length = b.readableBytes := by
  rw [content, List.length_drop, List.length_take, min_eq_left b.writer_le, readableBytes]

@[simp] theorem content_new (n : ℕ) : (new n).content = [] := by
  simp [content, new]

/-! ## Reading -/

/-- `retrieveAll`. -/
def retrieveAll (b : Buffer) : Buffer where
  buffer := b.buffer
  readerIndex := kCheapPrepend
  writerIndex := kCheapPrepend
  reader_le := le_rfl
  writer_le := b.front_le
  front_le := b.front_le

/-- `retrieve`. -/
def retrieve (b : Buffer) (len : ℕ) : Option Buffer :=
  if len ≤ b.readableBytes then
    if h : len < b.readableBytes then
      some { b with
        readerIndex := b.readerIndex + len
        reader_le := by unfold readableBytes at h; omega }
    else some b.retrieveAll
  else none

/-- `retrieveAsString`. -/
def retrieveAsString (b : Buffer) (len : ℕ) : Option (Bytes × Buffer) :=
  (b.retrieve len).map fun b' => (b.content.take len, b')

/-- `retrieveAllAsString`: the assertion of `retrieveAsString` is true of all bytes. -/
def retrieveAllAsString (b : Buffer) : Bytes × Buffer := (b.content, b.retrieveAll)

/-- `unwrite`. -/
def unwrite (b : Buffer) (len : ℕ) : Option Buffer :=
  if h : len ≤ b.readableBytes then
    some { b with
      writerIndex := b.writerIndex - len
      reader_le := by
        have := b.reader_le
        unfold readableBytes at h
        omega
      writer_le := le_trans (Nat.sub_le _ _) b.writer_le }
  else none

@[simp] theorem content_retrieveAll (b : Buffer) : b.retrieveAll.content = [] := by
  simp [content, retrieveAll]

theorem retrieve_eq_some {b b' : Buffer} {len : ℕ} (h : b.retrieve len = some b') :
    len ≤ b.content.length ∧ b'.content = b.content.drop len ∧
      min kCheapPrepend (b.prependableBytes + len) ≤ b'.prependableBytes := by
  rw [length_content]
  unfold retrieve at h
  split_ifs at h with hle hlt
  · cases h
    refine ⟨hle, ?_, min_le_right _ _⟩
    rw [content, content, List.drop_drop]
  · cases h
    refine ⟨hle, ?_, min_le_left _ _⟩
    rw [content_retrieveAll, List.drop_of_length_le]
    rw [length_content]
    omega

theorem isSome_retrieve {b : Buffer} {len : ℕ} (h : len ≤ b.content.length) :
    (b.retrieve len).isSome := by
  rw [length_content] at h
  unfold retrieve
  split_ifs <;> rfl

/-! ## Writing -/

/-- `makeSpace`, when fewer than `len` bytes are writable. Then there are more than `kCheapPrepend`
bytes in front of a content that is moved, as the source asserts. -/
def makeSpace (b : Buffer) (len : ℕ) (h : b.writableBytes < len) : Buffer :=
  if hmove : b.writableBytes + b.prependableBytes < len + kCheapPrepend then
    { b with
      buffer := resize b.buffer (b.writerIndex + len)
      writer_le := by rw [length_resize]; exact Nat.le_add_right _ _
      front_le := by
        have := b.front_le
        rw [length_resize]
        unfold writableBytes at h
        omega }
  else
    have hfront : kCheapPrepend < b.readerIndex := by
      unfold prependableBytes at hmove
      omega
    have hlength : (overwrite b.buffer kCheapPrepend b.content).length = b.buffer.length := by
      have := b.writer_le
      have := b.reader_le
      apply length_overwrite
      rw [length_content, readableBytes]
      omega
    { buffer := overwrite b.buffer kCheapPrepend b.content
      readerIndex := kCheapPrepend
      writerIndex := kCheapPrepend + b.readableBytes
      reader_le := Nat.le_add_right _ _
      writer_le := by
        have := b.writer_le
        have := b.reader_le
        rw [hlength, readableBytes]
        omega
      front_le := hlength ▸ b.front_le }

/-- `ensureWritableBytes`. -/
def ensureWritableBytes (b : Buffer) (len : ℕ) : Buffer :=
  if h : b.writableBytes < len then b.makeSpace len h else b

theorem content_makeSpace (b : Buffer) (len : ℕ) (h : b.writableBytes < len) :
    (b.makeSpace len h).content = b.content := by
  unfold makeSpace
  split
  · rw [content, content, take_resize b.writer_le]
    unfold writableBytes at h
    omega
  · have hmoved : (overwrite b.buffer kCheapPrepend b.content).take (kCheapPrepend + b.content.length) =
        b.buffer.take kCheapPrepend ++ b.content := take_overwrite b.front_le
    rw [length_content] at hmoved
    rw [content]
    simp only [hmoved]
    rw [List.drop_left' (by rw [List.length_take, min_eq_left b.front_le])]

@[simp] theorem content_ensureWritableBytes (b : Buffer) (len : ℕ) :
    (b.ensureWritableBytes len).content = b.content := by
  unfold ensureWritableBytes
  split
  · exact b.content_makeSpace len _
  · rfl

/-- There is room for what was asked for, and in front of the content there is still as much as there
was, up to the room of an empty buffer. -/
theorem room_makeSpace (b : Buffer) (len : ℕ) (h : b.writableBytes < len) :
    len ≤ (b.makeSpace len h).writableBytes ∧
      min kCheapPrepend b.prependableBytes ≤ (b.makeSpace len h).prependableBytes := by
  unfold makeSpace
  split
  · refine ⟨?_, min_le_right _ _⟩
    rw [writableBytes, length_resize]
    exact (Nat.add_sub_cancel_left ..).ge
  · next hmove =>
    have hreader := b.reader_le
    have hwriter := b.writer_le
    refine ⟨?_, min_le_left _ _⟩
    have hlength : (overwrite b.buffer kCheapPrepend b.content).length = b.buffer.length := by
      unfold writableBytes prependableBytes at *
      apply length_overwrite
      rw [length_content, readableBytes]
      omega
    unfold writableBytes prependableBytes readableBytes at *
    simp only [hlength]
    omega

theorem le_writableBytes_ensureWritableBytes (b : Buffer) (len : ℕ) :
    len ≤ (b.ensureWritableBytes len).writableBytes := by
  unfold ensureWritableBytes
  split
  · exact (b.room_makeSpace len _).1
  · omega

theorem room_ensureWritableBytes (b : Buffer) (len : ℕ) :
    min kCheapPrepend b.prependableBytes ≤ (b.ensureWritableBytes len).prependableBytes := by
  unfold ensureWritableBytes
  split
  · exact (b.room_makeSpace len _).2
  · exact min_le_right _ _

/-- Bytes are put behind the content and `hasWritten` is told. -/
def hasWritten (b : Buffer) (data : Bytes) (h : data.length ≤ b.writableBytes) : Buffer :=
  have hlength : (overwrite b.buffer b.writerIndex data).length = b.buffer.length := by
    have := b.writer_le
    unfold writableBytes at h
    exact length_overwrite (by omega)
  { buffer := overwrite b.buffer b.writerIndex data
    readerIndex := b.readerIndex
    writerIndex := b.writerIndex + data.length
    reader_le := le_trans b.reader_le (Nat.le_add_right _ _)
    writer_le := by
      have := b.writer_le
      unfold writableBytes at h
      rw [hlength]
      omega
    front_le := hlength ▸ b.front_le }

theorem content_hasWritten (b : Buffer) (data : Bytes) (h : data.length ≤ b.writableBytes) :
    (b.hasWritten data h).content = b.content ++ data := by
  have hreader : b.readerIndex ≤ (b.buffer.take b.writerIndex).length := by
    rw [List.length_take, min_eq_left b.writer_le]
    exact b.reader_le
  rw [hasWritten, content, content, take_overwrite b.writer_le,
    List.drop_append_of_le_length hreader]

/-- `append`. -/
def append (b : Buffer) (data : Bytes) : Buffer :=
  (b.ensureWritableBytes data.length).hasWritten data (b.le_writableBytes_ensureWritableBytes _)

@[simp] theorem content_append (b : Buffer) (data : Bytes) :
    (b.append data).content = b.content ++ data := by
  rw [append, content_hasWritten, content_ensureWritableBytes]

theorem room_append (b : Buffer) (data : Bytes) :
    min kCheapPrepend b.prependableBytes ≤ (b.append data).prependableBytes :=
  b.room_ensureWritableBytes data.length

/-- `prepend`. -/
def prepend (b : Buffer) (data : Bytes) : Option Buffer :=
  if h : data.length ≤ b.prependableBytes then
    have hlength : (overwrite b.buffer (b.readerIndex - data.length) data).length =
        b.buffer.length := by
      have := b.writer_le
      have := b.reader_le
      unfold prependableBytes at h
      exact length_overwrite (by omega)
    some {
      buffer := overwrite b.buffer (b.readerIndex - data.length) data
      readerIndex := b.readerIndex - data.length
      writerIndex := b.writerIndex
      reader_le := le_trans (Nat.sub_le _ _) b.reader_le
      writer_le := hlength ▸ b.writer_le
      front_le := hlength ▸ b.front_le }
  else none

theorem prepend_eq_some {b b' : Buffer} {data : Bytes} (h : b.prepend data = some b') :
    data.length ≤ b.prependableBytes ∧ b'.content = data ++ b.content ∧
      b'.prependableBytes = b.prependableBytes - data.length := by
  unfold prepend at h
  split_ifs at h with hle
  cases h
  have hreader := b.reader_le
  have hwriter := b.writer_le
  unfold prependableBytes at hle
  refine ⟨hle, ?_, rfl⟩
  have hend : b.readerIndex - data.length + data.length = b.readerIndex := by omega
  have hfront : (b.buffer.take (b.readerIndex - data.length)).length =
      b.readerIndex - data.length := by
    rw [List.length_take]
    omega
  have hrest : (b.buffer.drop b.readerIndex).take (b.writerIndex - b.readerIndex) = b.content := by
    rw [content, List.drop_take]
  have hkept : (b.buffer.take (b.readerIndex - data.length)).take b.writerIndex =
      b.buffer.take (b.readerIndex - data.length) := List.take_of_length_le (by omega)
  have hdata : data.take (b.writerIndex - (b.readerIndex - data.length)) = data :=
    List.take_of_length_le (by omega)
  have hwhole : (overwrite b.buffer (b.readerIndex - data.length) data).take b.writerIndex =
      b.buffer.take (b.readerIndex - data.length) ++ (data ++ b.content) := by
    rw [overwrite, hend, List.append_assoc, List.take_append, hkept, hfront, List.take_append, hdata,
      ← hrest]
    congr 3
    omega
  rw [content, hwhole, List.drop_left' hfront]

theorem isSome_prepend {b : Buffer} {data : Bytes} (h : data.length ≤ b.prependableBytes) :
    (b.prepend data).isSome := by
  unfold prepend
  rw [dif_pos h]
  rfl

/-- The bytes of a `StringPiece` whose length is cast to an `int`; none when the `int` is negative. -/
def pieceOf (content : Bytes) : Option Bytes :=
  let length := Int.bmod content.length (2 ^ 32)
  if 0 ≤ length then some (content.take length.toNat) else none

/-- Fewer bytes than an `int` can count are all there. -/
theorem pieceOf_of_lt {content : Bytes} (h : content.length < 2 ^ 31) : pieceOf content = some content := by
  have hlength : Int.bmod content.length (2 ^ 32) = content.length :=
    Int.bmod_eq_of_le (by omega) (by omega)
  unfold pieceOf
  rw [hlength]
  simp

/-- `toStringPiece`. -/
def toStringPiece (b : Buffer) : Option Bytes := pieceOf b.content

/-- `shrink`: a new buffer takes the place of this one. A negative length is one of almost `2 ^ 64` bytes, for
which an assertion of `makeSpace` fails or the vector throws. -/
def shrink (b : Buffer) (reserve : ℕ) : Option Buffer :=
  b.toStringPiece.map fun str =>
    ((new 1024).ensureWritableBytes (b.readableBytes + reserve)).append str

/-! ## Reading from a descriptor -/

/-- The bytes that `readFd` asks for: what is writable, and the bytes of `extrabuf` when that is less. -/
def readSize (b : Buffer) : ℕ :=
  if b.writableBytes < extrabufSize then b.writableBytes + extrabufSize else b.writableBytes

/-- `readFd` when some bytes arrive. Those that do not fit are appended from `extrabuf`. -/
def readFd (b : Buffer) (arrived : Bytes) : Buffer :=
  if h : arrived.length ≤ b.writableBytes then b.hasWritten arrived h
  else
    (b.hasWritten (arrived.take b.writableBytes) (List.length_take_le _ _)).append
      (arrived.drop b.writableBytes)

@[simp] theorem content_readFd (b : Buffer) (arrived : Bytes) :
    (b.readFd arrived).content = b.content ++ arrived := by
  unfold readFd
  split
  · exact b.content_hasWritten arrived _
  · rw [content_append, content_hasWritten, List.append_assoc, List.take_append_drop]

theorem room_readFd (b : Buffer) (arrived : Bytes) :
    min kCheapPrepend b.prependableBytes ≤ (b.readFd arrived).prependableBytes := by
  unfold readFd
  split
  · exact min_le_right _ _
  · exact room_append (b.hasWritten _ _) _

end Buffer

end Net

end GraduationServer
