import GraduationServer.Codec.BinaryReader
import GraduationServer.Codec.BinaryWriter

/-!
# The binary format

A message of the binary format is a list of `Field`s: 32-bit and 16-bit integers, written through
`htonl` and `htons`, and byte strings. `Field.encode` is what a field adds to the buffer
(`buffer_writeAll`), and a reader standing before an encoded field returns the field and moves
behind it (`read_encode`). By induction over the fields, what the writer writes the reader reads
(`readAll_writeAll`).
-/

namespace GraduationServer

open BinaryWriter BinaryReader

/-- The types of the fields of the format. -/
inductive FieldType
  | int32
  | int16
  | str
  deriving DecidableEq

/-- A field with its value. -/
inductive Field
  | int32 (v : BitVec 32)
  | int16 (v : BitVec 16)
  | str (s : Bytes)
  deriving DecidableEq

namespace FieldType

/-- The `ReadData` call of a type. -/
def read : FieldType → BinaryReader → Outcome Field
  | .int32, r => (r.readData 4).map Field.int32
  | .int16, r => (r.readData 2).map Field.int16
  | .str, r => r.readString.map Field.str

end FieldType

namespace Field

def type : Field → FieldType
  | .int32 _ => .int32
  | .int16 _ => .int16
  | .str _ => .str

/-- The `WriteData` call of a field; integers pass through `htonl` and `htons`. -/
def write (bw : BinaryWriter) : Field → BinaryWriter
  | .int32 v => bw.writeData 4 (htonl v)
  | .int16 v => bw.writeData 2 (htons v)
  | .str s => bw.writeString s

/-- The bytes of a field in the buffer. -/
def encode : Field → Bytes
  | .int32 v => (leBytes 4 v.toNat).reverse
  | .int16 v => (leBytes 2 v.toNat).reverse
  | .str s => compress s.length [] ++ s

end Field

/-- The fields written in order. -/
def writeAll (fs : List Field) (bw : BinaryWriter) : BinaryWriter := fs.foldl Field.write bw

/-- Fields of the given types read in order, and the reader behind them; `none` as soon as a call
does not return `true`. -/
def readAll : List FieldType → BinaryReader → Option (List Field × BinaryReader)
  | [], r => some ([], r)
  | t :: ts, r =>
    match t.read r with
    | .returns (some f) r => (readAll ts r).map fun p => (f :: p.1, p.2)
    | _ => none

/-! ## Writing -/

theorem buffer_write {bw : BinaryWriter} (h : bw.WellIndexed) (f : Field) :
    (f.write bw).buffer = bw.buffer ++ f.encode := by
  cases f with
  | int32 v => rw [Field.write, buffer_writeData h 4, htonl, leBytes_hton 4, Field.encode]
  | int16 v => rw [Field.write, buffer_writeData h 2, htons, leBytes_hton 2, Field.encode]
  | str s => rw [Field.write, buffer_writeString, Field.encode]

theorem wellIndexed_write {bw : BinaryWriter} (h : bw.WellIndexed) (f : Field)
    (hlt : (f.write bw).buffer.length < 2 ^ 32) : (f.write bw).WellIndexed := by
  rw [buffer_write h, List.length_append] at hlt
  cases f with
  | int32 v => exact wellIndexed_writeData h 4 _ (by simpa [Field.encode] using hlt)
  | int16 v => exact wellIndexed_writeData h 2 _ (by simpa [Field.encode] using hlt)
  | str s =>
    refine wellIndexed_writeString h s ?_
    rw [buffer_writeString, List.length_append]
    exact hlt

/-- The number of bytes the fields take in the buffer. -/
def encodedSize (fs : List Field) : ℕ := (fs.map Field.encode).flatten.length

theorem buffer_writeAll (fs : List Field) {bw : BinaryWriter} (h : bw.WellIndexed)
    (hlt : bw.buffer.length + encodedSize fs < 2 ^ 32) :
    (writeAll fs bw).buffer = bw.buffer ++ (fs.map Field.encode).flatten := by
  induction fs generalizing bw with
  | nil => simp [writeAll]
  | cons f fs ih =>
    simp only [encodedSize, List.map_cons, List.flatten_cons, List.length_append] at hlt ih
    have hlen : (f.write bw).buffer.length = bw.buffer.length + f.encode.length := by
      rw [buffer_write h, List.length_append]
    have hf := wellIndexed_write h f (by omega)
    rw [writeAll, List.foldl_cons, ← writeAll, ih hf (by omega), buffer_write h, List.map_cons,
      List.flatten_cons, List.append_assoc]

/-! ## Reading -/

theorem rest_advance {r : BinaryReader} {a b : Bytes} (h : r.rest = a ++ b)
    (hlt : r.index.toNat + a.length < 2 ^ 32) : (r.advance a.length).rest = b := by
  rw [rest, buffer_advance, toNat_index_advance, Nat.mod_eq_of_lt hlt, ← List.drop_drop]
  change r.rest.drop a.length = b
  rw [h, List.drop_left]

theorem length_rest {r : BinaryReader} {a b : Bytes} (h : r.rest = a ++ b)
    (hr : r.index.toNat ≤ r.buffer.length) :
    r.index.toNat + (a.length + b.length) = r.buffer.length := by
  have := congrArg List.length h
  rw [rest, List.length_drop, List.length_append] at this
  omega

theorem readData_eq {r : BinaryReader} (w : ℕ) (d : BitVec (8 * w)) {post : Bytes}
    (h : r.rest = (leBytes w d.toNat).reverse ++ post) (hr : r.index.toNat ≤ r.buffer.length) :
    r.readData w = .returns (some d) (r.advance w) := by
  have hlen := length_rest h hr
  have hd : d.toNat < 256 ^ w := two_pow_eight_mul w ▸ d.isLt
  have htake : r.rest.take w = (leBytes w d.toNat).reverse := by
    rw [h, List.take_append_of_le_length (by simp), List.take_of_length_le (by simp)]
  rw [List.length_reverse, length_leBytes] at hlen
  rw [readData, if_neg (by omega), htake, List.reverse_reverse, ofLeBytes_leBytes,
    Nat.mod_eq_of_lt hd, BitVec.ofNat_toNat, BitVec.setWidth_eq]

theorem readString_eq {r : BinaryReader} (s : Bytes) {post : Bytes}
    (h : r.rest = compress s.length [] ++ s ++ post) (hr : r.index.toNat ≤ r.buffer.length)
    (hlt : r.buffer.length < 2 ^ 31) :
    r.readString = .returns (some s) (r.advance (compress s.length [] ++ s).length) := by
  have hlen := length_rest h hr
  rw [List.length_append] at hlen
  rw [List.append_assoc] at h
  have hread : readGroups 0 r.rest = some (s.length, (compress s.length []).length) := by
    rw [h, compress_eq (by omega), readGroups_groupBytes _ _ _ _ (Or.inr rfl)]
    simp only [zero_mul, zero_add, Option.some.injEq, Prod.mk.injEq, and_true]
    exact Nat.mod_eq_of_lt (by omega)
  have hpos := (readGroups_bounds hread).1
  have hadv : (r.advance (compress s.length []).length).index.toNat =
      r.index.toNat + (compress s.length []).length := by
    rw [toNat_index_advance]
    omega
  have hrest := rest_advance h (by omega)
  have hs : (BitVec.ofNat 32 s.length).toNat = s.length := by
    rw [BitVec.toNat_ofNat]
    omega
  have hnonneg : ¬ (BitVec.ofNat 32 s.length).toInt < 0 := by
    rw [BitVec.toInt_eq_toNat_of_lt (by omega)]
    omega
  rw [readString, if_neg (by omega), show (0 : BitVec 32) = BitVec.ofNat 32 0 by rfl,
    lengthLoop_eq hread]
  simp only [zero_add, Nat.sub_add_cancel hpos, hs, hadv, buffer_advance, hrest, hnonneg, if_false]
  rw [if_pos (Or.inr (by omega)), List.take_left]
  simp only [Outcome.returns.injEq, true_and]
  -- two advances are one
  simp only [advance, List.length_append, UInt32.ofNat_add, UInt32.add_assoc]

/-- **A field reads back** where the buffer goes on with its bytes. -/
theorem read_encode {r : BinaryReader} (f : Field) {post : Bytes}
    (h : r.rest = f.encode ++ post) (hr : r.index.toNat ≤ r.buffer.length)
    (hlt : r.buffer.length < 2 ^ 31) :
    f.type.read r = .returns (some f) (r.advance f.encode.length) := by
  cases f with
  | int32 v =>
    rw [Field.type, FieldType.read, readData_eq 4 v h hr]
    simp [Outcome.map, Field.encode]
  | int16 v =>
    rw [Field.type, FieldType.read, readData_eq 2 v h hr]
    simp [Outcome.map, Field.encode]
  | str s =>
    rw [Field.type, FieldType.read, readString_eq s h hr hlt]
    simp [Outcome.map, Field.encode]

/-- The fields whose bytes end the buffer read back, and leave the index at its end. -/
theorem readAll_encode (fs : List Field) {r : BinaryReader}
    (h : r.rest = (fs.map Field.encode).flatten) (hr : r.index.toNat ≤ r.buffer.length)
    (hlt : r.buffer.length < 2 ^ 31) :
    ∃ r', readAll (fs.map Field.type) r = some (fs, r') ∧ r'.index.toNat = r.buffer.length := by
  induction fs generalizing r with
  | nil =>
    have := congrArg List.length h
    simp only [rest, List.length_drop, List.map_nil, List.flatten_nil, List.length_nil] at this
    exact ⟨r, rfl, by omega⟩
  | cons f fs ih =>
    rw [List.map_cons, List.flatten_cons] at h
    have hlen := length_rest h hr
    have hadv : (r.advance f.encode.length).index.toNat = r.index.toNat + f.encode.length := by
      rw [toNat_index_advance]
      omega
    obtain ⟨r', hread, hend⟩ := ih (rest_advance h (by omega))
      (by rw [hadv, buffer_advance]; omega) hlt
    refine ⟨r', ?_, hend⟩
    simp [readAll, read_encode f h hr hlt, hread]

/-- **The binary format round-trips.** Fields of fewer than `2 ^ 31` encoded bytes, written in order
to an empty writer, are what the reads of the same types return, and the reads end at the end of
the buffer. -/
theorem readAll_writeAll (fs : List Field) (h : encodedSize fs < 2 ^ 31) :
    ∃ r, readAll (fs.map Field.type) { buffer := (writeAll fs {}).buffer } = some (fs, r) ∧
      r.index.toNat = (writeAll fs {}).buffer.length := by
  have hbuf := buffer_writeAll fs wellIndexed_empty (by simp only [List.length_nil]; omega)
  rw [List.nil_append] at hbuf
  rw [hbuf]
  exact readAll_encode fs (by simp [rest]) (by simp) h

theorem readAll_writeAll_mixed :
    ∃ r, readAll [.int32, .str, .int16]
        { buffer := (writeAll [.int32 1000, .str (ascii "hello"), .int16 7] {}).buffer } =
          some ([.int32 1000, .str (ascii "hello"), .int16 7], r) ∧
      r.index.toNat = (writeAll [.int32 1000, .str (ascii "hello"), .int16 7] {}).buffer.length :=
  readAll_writeAll [.int32 1000, .str (ascii "hello"), .int16 7] (by decide)

end GraduationServer
