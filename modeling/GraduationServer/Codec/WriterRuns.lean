import GraduationServer.Codec.Frames
import GraduationServer.Foundations.Runs

/-!
# Runs of a writer

The operations of `BinaryWriter` one after the other. `WriteData` of an integer cuts the buffer behind
its index, `WriteData` of a string appends at the end of the buffer, so fields stay in their places for
as long as the index is the size of the buffer.

All operations keep it so but one: the assignment of a string puts the string into the buffer and
leaves the index at zero. `sound_run_iff`: a run keeps the index right exactly when it assigns no string
that is not empty.
-/

namespace GraduationServer

namespace BinaryWriter

/-- `operator=(const string&)`. -/
def assign (bw : BinaryWriter) (s : Bytes) : BinaryWriter :=
  let bw := bw.clear
  { bw with buffer := s }

/-- `writerFile`. The array that is appended has six bytes, which nothing has set. -/
def writerFile (bw : BinaryWriter) (str : Fin 6 → UInt8) : BinaryWriter :=
  let bw := { bw with buffer := [] }
  let bw := { bw with buffer := bw.buffer ++ List.ofFn str }
  { bw with index := 6 }

/-- `Size`. -/
def size (bw : BinaryWriter) : UInt32 := bw.index

end BinaryWriter

/-- The operations of a writer; that of a `w`-byte integer stands for `WriteData` of any integer type. -/
inductive WriterOp
  | assign (s : Bytes)
  | writeData (w : ℕ) (d : BitVec (8 * w))
  | writeString (data : Bytes)
  | clear
  | writerFile (str : Fin 6 → UInt8)

namespace WriterOp

/-- The writer behind an operation. -/
def run (bw : BinaryWriter) : WriterOp → BinaryWriter
  | assign s => bw.assign s
  | writeData w d => bw.writeData w d
  | writeString data => bw.writeString data
  | clear => bw.clear
  | writerFile str => bw.writerFile str

/-- A run of operations. -/
def next (bw : BinaryWriter) (op : WriterOp) : Option BinaryWriter := some (op.run bw)

/-- The operation is a call of `WriteData`. -/
def Writes : WriterOp → Prop
  | writeData _ _ | writeString _ => True
  | _ => False

/-- The operation leaves a buffer of fewer than 2^32 bytes, as the index can count. -/
def Fits (bw : BinaryWriter) (op : WriterOp) : Prop := (op.run bw).buffer.length < 2 ^ 32

instance (bw : BinaryWriter) (op : WriterOp) : Decidable (Fits bw op) :=
  inferInstanceAs (Decidable (_ < _))

/-- What is so behind an operation: the index is the size of the buffer, `Size` is the length of what
`toString` returns, and a call of `WriteData` has only appended. -/
structure Sound (bw : BinaryWriter) (op : WriterOp) : Prop where
  indexed : (op.run bw).WellIndexed
  sized : (op.run bw).size.toNat = (op.run bw).toString.length
  appends : op.Writes → bw.toString <+: (op.run bw).toString

/-- The operation does not assign a string, or an empty one. -/
def AssignsNothing (op : WriterOp) : Prop := ∀ s, op = assign s → s = []

variable {bw : BinaryWriter} {op : WriterOp}

/-! ## One operation -/

/-- Every operation leaves the index at the size of the buffer, but for an assignment. -/
theorem wellIndexed_run (h : bw.WellIndexed) (hfits : op.Fits bw) (hop : op.AssignsNothing) :
    (op.run bw).WellIndexed := by
  cases op with
  | assign s =>
    obtain rfl := hop s rfl
    rfl
  | writeData w d =>
    apply BinaryWriter.wellIndexed_writeData h
    rw [Fits, run, BinaryWriter.buffer_writeData h, List.length_append, length_leBytes] at hfits
    exact hfits
  | writeString data => exact BinaryWriter.wellIndexed_writeString h data hfits
  | clear => rfl
  | writerFile str => simp [run, BinaryWriter.writerFile, BinaryWriter.WellIndexed]

/-- A call of `WriteData` appends where the index is the size of the buffer. -/
theorem prefix_run (h : bw.WellIndexed) (hop : op.Writes) : bw.toString <+: (op.run bw).toString := by
  cases op with
  | writeData w d =>
    rw [run, BinaryWriter.toString, BinaryWriter.toString, BinaryWriter.buffer_writeData h]
    exact List.prefix_append _ _
  | writeString data =>
    rw [run, BinaryWriter.toString, BinaryWriter.toString, BinaryWriter.buffer_writeString]
    exact List.prefix_append _ _
  | _ => cases hop

/-- **One operation** behind which the index is right. -/
theorem sound_iff (h : bw.WellIndexed) (hfits : op.Fits bw) : op.Sound bw ↔ op.AssignsNothing := by
  constructor
  · rintro hsound s rfl
    have hindex : 0 = s.length := hsound.indexed
    exact List.length_eq_zero_iff.1 hindex.symm
  · intro hop
    have hindexed := wellIndexed_run h hfits hop
    exact ⟨hindexed, hindexed, prefix_run h⟩

/-! ## Runs -/

/-- The runs of a writer whose index is the size of its buffer, by induction on the operations. -/
theorem sound_run_iff_of_wellIndexed (ops : List WriterOp) (h : bw.WellIndexed)
    (hfits : Along next Fits bw ops) :
    Along next Sound bw ops ↔ ∀ op ∈ ops, op.AssignsNothing := by
  induction ops generalizing bw with
  | nil => simp
  | cons op ops ih =>
    obtain ⟨hop, hops⟩ := hfits
    rw [along_cons, List.forall_mem_cons, sound_iff h hop]
    refine and_congr_right fun hnothing => ?_
    have hnext := ih (wellIndexed_run h hop hnothing) (hops _ rfl)
    simpa [next] using hnext

/-- **Which runs keep the index right:** of the runs of a new writer whose buffers have fewer than 2^32
bytes, exactly those that assign no string but the empty one. -/
theorem sound_run_iff (ops : List WriterOp) (hfits : Along next Fits {} ops) :
    Along next Sound {} ops ↔ ∀ op ∈ ops, op.AssignsNothing :=
  sound_run_iff_of_wellIndexed ops BinaryWriter.wellIndexed_empty hfits

theorem sound_run_iff_example :
    Along next Sound {} [assign (ascii "hi"), writeData 4 7] ↔
      ∀ op ∈ [assign (ascii "hi"), writeData 4 7], op.AssignsNothing := by
  refine sound_run_iff [assign (ascii "hi"), writeData 4 7] ⟨by decide, ?_⟩
  rintro _ ⟨⟩
  exact ⟨by decide, fun _ _ => trivial⟩

/-- Behind an assignment of two bytes the index is zero. -/
theorem not_forall_sound_run :
    ¬ ∀ ops, Along next Fits {} ops → Along next Sound {} ops := by
  intro h
  have hsound := h [assign (ascii "hi")] ⟨by decide, fun _ _ => trivial⟩
  have hindex : 0 = (ascii "hi").length := hsound.1.indexed
  cases hindex

end WriterOp

end GraduationServer
