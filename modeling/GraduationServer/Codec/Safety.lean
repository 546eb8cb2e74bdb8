import GraduationServer.Codec.BinaryReader
import GraduationServer.Foundations.Runs

/-!
# What the reader does on malformed input

A run of the reader is a list of calls on one buffer. `ReadCall.Safe` is what a caller needs of each
call: no byte outside the buffer is read, the index stays in the buffer, and where the buffer does
not hold the whole field (`ReadCall.Complete`) the call returns `false` and leaves the index alone.

The integer reads are safe everywhere the index is in the buffer. `ReadData<string>` never returns
`false`, so it is safe exactly where a complete string field stands (`safe_readString_iff`), and a
run is safe exactly when each of its string reads meets one (`safe_run_iff`).
-/

namespace GraduationServer

open BinaryReader

/-- The calls of a reader. -/
inductive ReadCall
  | readInt32
  | readData (w : ℕ)
  | readString
  deriving DecidableEq

namespace ReadCall

/-- What a call does, its value aside. -/
def run (r : BinaryReader) : ReadCall → Outcome Unit
  | readInt32 => r.readInt32.map fun _ => ()
  | readData w => (r.readData w).map fun _ => ()
  | readString => r.readString.map fun _ => ()

/-- The reader after a call that ends, by a return or by an exception. -/
def next (r : BinaryReader) (c : ReadCall) : Option BinaryReader :=
  match c.run r with
  | .returns _ r' => some r'
  | .overread => none
  | .throws r' => some r'

/-- The buffer holds the whole field of the call at the index: for a string, the length up to its
last group and that many bytes behind it. -/
def Complete (r : BinaryReader) : ReadCall → Prop
  | readInt32 => r.index.toNat + 4 ≤ r.buffer.length
  | readData w => r.index.toNat + w ≤ r.buffer.length
  | readString => ∃ v k, readGroups 0 r.rest = some (v, k) ∧ k + v ≤ r.rest.length

/-- The index is in the buffer or at its end. -/
def InRange (r : BinaryReader) : Prop := r.index.toNat ≤ r.buffer.length

/-- The safety of one call. -/
def Safe (r : BinaryReader) (c : ReadCall) : Prop :=
  match c.run r with
  | .returns data r' => InRange r' ∧ (¬ c.Complete r → data = none ∧ r'.index = r.index)
  | .overread => False
  | .throws r' => InRange r' ∧ c.Complete r

/-! ## One call -/

theorem inRange_advance {r : BinaryReader} {n : ℕ} (h : r.index.toNat + n ≤ r.buffer.length) :
    InRange (r.advance n) := by
  rw [InRange, toNat_index_advance, buffer_advance]
  exact (Nat.mod_le _ _).trans h

theorem safe_readData {r : BinaryReader} (hr : InRange r) (w : ℕ) : Safe r (readData w) := by
  by_cases h : r.index.toNat + w > r.buffer.length
  · simp [Safe, run, BinaryReader.readData, h, Outcome.map, hr]
  · have hc : (readData w).Complete r := not_lt.1 h
    simp [Safe, run, BinaryReader.readData, h, Outcome.map, hc, inRange_advance (not_lt.1 h)]

theorem safe_readInt32 {r : BinaryReader} (hr : InRange r) : Safe r readInt32 := by
  by_cases h : r.index.toNat + 4 ≥ r.buffer.length
  · simp [Safe, run, BinaryReader.readInt32, h, Outcome.map, hr]
  · have hle : r.index.toNat + 4 ≤ r.buffer.length := (not_le.1 h).le
    have hc : readInt32.Complete r := hle
    simp [Safe, run, BinaryReader.readInt32, h, Outcome.map, hc, inRange_advance hle]

/-- The string reader never returns `false`. -/
theorem readString_ne_false (r r' : BinaryReader) : r.readString ≠ .returns none r' := by
  simp only [BinaryReader.readString]
  split_ifs <;> simp

/-- A string read of a complete field stays in the buffer, also where the length is no `int`. -/
theorem safe_readString_of_complete {r : BinaryReader} (hr : InRange r)
    (hc : readString.Complete r) : Safe r readString := by
  obtain ⟨v, k, hread, hle⟩ := id hc
  have hlen : r.rest.length = r.buffer.length - r.index.toNat := by
    simp [BinaryReader.rest]
  have hpos := (readGroups_bounds hread).1
  have hbound : r.index.toNat + (k + v) ≤ r.buffer.length := by
    have : r.index.toNat ≤ r.buffer.length := hr
    omega
  have hadv : (r.advance k).index.toNat ≤ r.index.toNat + k := by
    rw [toNat_index_advance]
    exact Nat.mod_le _ _
  have hv : (BitVec.ofNat 32 v).toNat ≤ v := by
    rw [BitVec.toNat_ofNat]
    exact Nat.mod_le _ _
  have hloop : lengthLoop r.rest 0 0 = (BitVec.ofNat 32 v, k - 1) := by
    have := lengthLoop_eq (i := 0) hread
    rwa [zero_add] at this
  simp only [Safe, run, BinaryReader.readString, if_neg (not_lt.2 hr), hloop,
    Nat.sub_add_cancel hpos, buffer_advance]
  by_cases hneg : (BitVec.ofNat 32 v).toInt < 0
  · simp only [hneg, if_true, Outcome.map]
    exact ⟨inRange_advance (by omega), hc⟩
  · simp only [hneg, if_false]
    rw [if_pos (Or.inr (by omega))]
    exact ⟨inRange_advance (by rw [buffer_advance]; omega), fun h => absurd hc h⟩

/-- **The string reader is safe exactly at a complete field.** -/
theorem safe_readString_iff {r : BinaryReader} (hr : InRange r) :
    Safe r readString ↔ readString.Complete r := by
  refine ⟨fun h => ?_, safe_readString_of_complete hr⟩
  by_contra hc
  rcases hrun : r.readString with ⟨data, r'⟩ | _ | r' <;>
    simp only [Safe, run, hrun, Outcome.map] at h
  · rw [Option.map_eq_none_iff] at h
    exact readString_ne_false r r' (hrun.trans (by rw [(h.2 hc).1]))
  · exact hc h.2

theorem inRange_next {r r' : BinaryReader} {c : ReadCall} (h : Safe r c) (hn : next r c = some r') :
    InRange r' := by
  simp only [Safe] at h
  simp only [next] at hn
  split at h <;> simp_all

/-! ## Runs -/

/-- The condition on a call: a string read stands at a complete field. -/
def StringComplete (r : BinaryReader) (c : ReadCall) : Prop := c = readString → c.Complete r

theorem safe_iff {r : BinaryReader} (hr : InRange r) (c : ReadCall) :
    Safe r c ↔ StringComplete r c := by
  cases c with
  | readInt32 => simp [StringComplete, safe_readInt32 hr]
  | readData w => simp [StringComplete, safe_readData hr]
  | readString => simp [StringComplete, safe_readString_iff hr]

/-- **A run of the reader is safe exactly when each of its string reads stands at a complete
field.** -/
theorem safe_run_iff (buffer : Bytes) (calls : List ReadCall) :
    Along next Safe { buffer } calls ↔ Along next StringComplete { buffer } calls :=
  along_iff InRange (fun _ c hr => safe_iff hr c)
    (fun _ c _ hr hc hn => inRange_next ((safe_iff hr c).2 hc) hn) calls { buffer } (Nat.zero_le _)

/-- A single byte with the high bit: the length never ends, the call returns `true` with the empty
string and leaves the index behind the buffer. -/
theorem not_safe_unterminated :
    BinaryReader.readString { buffer := [0x80] } =
        .returns (some []) { buffer := [0x80], index := 2 } ∧
      ¬ Along next Safe { buffer := [0x80] } [readString] := by
  refine ⟨by decide, fun h => ?_⟩
  have hrange : InRange { buffer := [0x80], index := 2 } := inRange_next h.1 (by decide)
  exact absurd hrange (by simp [InRange])

end ReadCall

end GraduationServer
