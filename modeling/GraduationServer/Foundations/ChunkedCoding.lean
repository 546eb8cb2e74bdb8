import GraduationServer.Foundations.Http
import GraduationServer.Foundations.Search

/-!
# Decoding a chunked body

The reader of a body in chunks: a line with a size, so many bytes of data and a line break, until a size
is zero; then the fields of the trailer up to a blank line. `decodeChunked_code`: it reads back the data
of every body, whatever bytes they are, and stops behind it. `ChunkedBody.exists_chunk`: the first size of
a body says how many bytes of it are data.
-/

namespace GraduationServer

namespace Http

/-- The data of a body. -/
def ChunkedBody.data (b : ChunkedBody) : Bytes := b.chunks.flatMap Chunk.data

/-- What follows the fields and the blank line behind them. -/
def skipFields : ℕ → Bytes → Option Bytes
  | 0, _ => none
  | n + 1, s => do
    let (line, rest) ← cut crlf s
    if line = [] then some rest else skipFields n rest

/-- The data of the chunks in front of a text, and what follows the body. -/
def decodeChunks : ℕ → Bytes → Option (Bytes × Bytes)
  | 0, _ => none
  | n + 1, s => do
    let (line, rest) ← cut crlf s
    let size ← chunkSize line
    if size = 0 then (skipFields n rest).map ([], ·)
    else if crlf <+: rest.drop size then
      (decodeChunks n (rest.drop (size + crlf.length))).map fun p => (rest.take size ++ p.1, p.2)
    else none

/-- The data of the body in front of a text, and what follows the body. -/
def decodeChunked (s : Bytes) : Option (Bytes × Bytes) := decodeChunks (s.length + 1) s

/-- A line is cut off. -/
theorem cut_code (l : Line) (s : Bytes) : cut crlf (l.code ++ s) = some (l.text, s) := by
  have hapart : Apart crlf l.text := by
    intro u hu hne heq
    obtain ⟨c, u, rfl⟩ := List.exists_cons_of_ne_nil hne
    have hc : c = 0x0D := (List.cons.inj heq).1.symm
    refine l.noReturn (((List.mem_tails _ _).1 hu).subset ?_)
    rw [hc]
    exact List.mem_cons_self
  have hcut : cut crlf (crlf ++ s) = some ([], s) := by simp [crlf, cut]
  rw [Line.code, List.append_assoc, cut_append hapart, hcut]
  simp

theorem skipFields_code (fields : List HeaderField) (s : Bytes) {n : ℕ}
    (hn : (fieldsCode fields).length ≤ n) : skipFields n (fieldsCode fields ++ s) = some s := by
  induction fields generalizing n with
  | nil =>
    obtain ⟨n, rfl⟩ : ∃ m, n = m + 1 := ⟨n - 1, by simp [fieldsCode, crlf] at hn; omega⟩
    have hcut : cut crlf (fieldsCode [] ++ s) = some ([], s) := cut_code ⟨[], by simp, by simp⟩ s
    simp [skipFields, hcut]
  | cons f fields ih =>
    have hsplit : fieldsCode (f :: fields) = f.line.code ++ fieldsCode fields := by
      simp [fieldsCode, HeaderField.code]
    have hline : f.line.text ≠ [] := by simp [HeaderField.line]
    rw [hsplit, List.length_append] at hn
    have hpos : 0 < f.line.code.length := by simp [Line.code, crlf]
    obtain ⟨n, rfl⟩ : ∃ m, n = m + 1 := ⟨n - 1, by omega⟩
    rw [skipFields, hsplit, List.append_assoc, cut_code]
    simp [hline, ih (n := n) (by omega)]

theorem decodeChunks_code (chunks : List Chunk) (last : Line) (trailer : List HeaderField)
    (hlast : chunkSize last.text = some 0) (s : Bytes) {n : ℕ}
    (hn : (chunks.flatMap Chunk.code ++ (last.code ++ fieldsCode trailer)).length ≤ n) :
    decodeChunks n (chunks.flatMap Chunk.code ++ (last.code ++ fieldsCode trailer) ++ s) =
      some (chunks.flatMap Chunk.data, s) := by
  induction chunks generalizing n with
  | nil =>
    have hpos : 0 < last.code.length := by simp [Line.code, crlf]
    simp only [List.flatMap_nil, List.nil_append, List.length_append] at hn ⊢
    obtain ⟨n, rfl⟩ : ∃ m, n = m + 1 := ⟨n - 1, by omega⟩
    rw [decodeChunks, List.append_assoc, cut_code]
    simp [hlast, skipFields_code trailer s (n := n) (by omega)]
  | cons c chunks ih =>
    have hpos : 0 < c.code.length := by simp [Chunk.code, Line.code, crlf]
    rw [List.flatMap_cons, List.append_assoc, List.length_append] at hn
    obtain ⟨n, rfl⟩ : ∃ m, n = m + 1 := ⟨n - 1, by omega⟩
    have ih := ih (n := n) (by omega)
    generalize hrest : chunks.flatMap Chunk.code ++ (last.code ++ fieldsCode trailer) = rest at ih
    have hsplit : (c :: chunks).flatMap Chunk.code ++ (last.code ++ fieldsCode trailer) ++ s =
        c.line.code ++ (c.data ++ (crlf ++ (rest ++ s))) := by
      rw [List.flatMap_cons, List.append_assoc c.code, hrest]
      simp [Chunk.code]
    have hsize : c.data.length ≠ 0 := fun h => c.nonempty (List.length_eq_zero_iff.1 h)
    have hdrop : (c.data ++ (crlf ++ (rest ++ s))).drop (c.data.length + crlf.length) = rest ++ s := by
      rw [← List.append_assoc, ← List.length_append, List.drop_left]
    rw [hsplit, decodeChunks, cut_code]
    simp only [Option.bind_eq_bind, Option.bind_some, c.sized, hsize, if_false, List.drop_left,
      List.prefix_append, if_true, hdrop, ih, Option.map_some, List.take_left, List.flatMap_cons]

/-- **A body is decoded** to its data, and what follows it is left. -/
theorem decodeChunked_code (b : ChunkedBody) (s : Bytes) :
    decodeChunked (b.code ++ s) = some (b.data, s) := by
  refine decodeChunks_code b.chunks b.last b.trailer b.ended s ?_
  rw [← ChunkedBody.code, List.length_append]
  omega

/-- A line with a size begins with a digit. -/
theorem exists_digit_of_chunkSize {l : Line} {n : ℕ} (h : chunkSize l.text = some n) (s : Bytes) :
    ∃ c, (l.code ++ s)[0]? = some c ∧ IsDigit 16 c := by
  unfold chunkSize at h
  dsimp only at h
  split_ifs at h with hdigits
  cases htext : l.text with
  | nil => simp [htext] at hdigits
  | cons c text =>
    refine ⟨c, by simp [Line.code, htext], ?_⟩
    by_contra hc
    simp [htext, hc] at hdigits

/-- A body begins with a digit. -/
theorem ChunkedBody.exists_digit (b : ChunkedBody) : ∃ c, b.code[0]? = some c ∧ IsDigit 16 c := by
  rw [code]
  cases b.chunks with
  | nil => exact exists_digit_of_chunkSize b.ended _
  | cons c chunks =>
    rw [List.flatMap_cons, Chunk.code, List.append_assoc, List.append_assoc]
    exact exists_digit_of_chunkSize c.sized _

/-- The size in front of a body tells how much of it is the data of its first chunk. -/
theorem ChunkedBody.exists_chunk {b : ChunkedBody} {l : Line} {n : ℕ} {rest : Bytes}
    (hcode : b.code = l.code ++ rest) (hsize : chunkSize l.text = some n) (hpos : 0 < n) :
    ∃ (data : Bytes) (b' : ChunkedBody), data.length = n ∧ b.data = data ++ b'.data ∧
      rest = data ++ (crlf ++ b'.code) := by
  obtain ⟨chunks, last, trailer, hlast⟩ := b
  cases chunks with
  | nil =>
    rw [code, List.flatMap_nil, List.nil_append] at hcode
    obtain ⟨hline, -⟩ := Line.prefixFree_code hcode
    have hzero := Option.some.inj (hlast.symm.trans (hline ▸ hsize))
    omega
  | cons c chunks =>
    rw [code, List.flatMap_cons, Chunk.code, List.append_assoc, List.append_assoc,
      List.append_assoc] at hcode
    obtain ⟨hline, hrest⟩ := Line.prefixFree_code hcode
    exact ⟨c.data, ⟨chunks, last, trailer, hlast⟩,
      Option.some.inj (c.sized.symm.trans (hline ▸ hsize)), rfl, hrest.symm⟩

end Http

end GraduationServer
