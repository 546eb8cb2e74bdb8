import GraduationServer.File.Responses
import GraduationServer.Foundations.ChunkedCoding
import GraduationServer.Foundations.Loops

/-!
# The chunks of a transport stream

`streamMedia_ts` reads the file in a loop over an `ifstream`: a round reads up to 4096 bytes and sends
them as a chunk, if the read has not failed or has got some bytes all the same. `ends_sendStep_iff`: the
loop ends for every file, and has then sent its blocks. The body of the response is decoded to the
content of the file (`streamMedia_ts_decodes`).
-/

namespace GraduationServer

open Http

/-- An open `ifstream`: what has not been read, and whether the stream is good. -/
structure IfStream where
  rest : Bytes
  good : Bool

/-- `read(buffer, n)`: the bytes that were read, of which `gcount` is the number. A stream that is not
good reads nothing, and one that comes to the end of the file is not good any more. -/
def IfStream.read (s : IfStream) (n : ℕ) : Bytes × IfStream :=
  if s.good then (s.rest.take n, ⟨s.rest.drop n, n ≤ s.rest.length⟩) else ([], s)

namespace FileSession

/-- `while (file.read(buffer, bufferSize) || file.gcount() > 0)`: a round of the loop, with the actions
so far. -/
def sendStep (s : IfStream × List Action) : (IfStream × List Action) ⊕ List Action :=
  let read := s.1.read 4096
  let buffer := read.1
  let file := read.2
  if file.good ∨ 0 < buffer.length then .inl (file, s.2 ++ chunk 16 buffer) else .inr s.2

/-- A file without anything left. -/
theorem sendStep_nil (good : Bool) (actions : List Action) :
    sendStep (⟨[], good⟩, actions) = .inr actions := by
  cases good <;> simp [sendStep, IfStream.read]

/-- The round after a read that has come to the end of the file. -/
theorem sendStep_of_not_good (rest : Bytes) (actions : List Action) :
    sendStep (⟨rest, false⟩, actions) = .inr actions := by
  simp [sendStep, IfStream.read]

theorem sendStep_of_good {rest : Bytes} (h : rest ≠ []) (actions : List Action) :
    sendStep (⟨rest, true⟩, actions) =
      .inl (⟨rest.drop 4096, 4096 ≤ rest.length⟩, actions ++ chunk 16 (rest.take 4096)) := by
  have hpos : 0 < (rest.take 4096).length := by
    have := List.length_pos_iff.2 h
    rw [List.length_take]
    omega
  simp only [sendStep, IfStream.read, if_true]
  exact if_pos (Or.inr hpos)

/-- **The loop ends for every file, and has sent its blocks.** The induction is on the number of bytes;
a read that is short comes to the end of the file. -/
theorem ends_sendStep_iff (n : ℕ) {content : Bytes} (hn : content.length ≤ n)
    (actions r : List Action) :
    Ends sendStep (⟨content, true⟩, actions) r ↔
      actions ++ (blocks 4096 n content).flatMap (chunk 16) = r := by
  induction n generalizing content actions with
  | zero =>
    obtain rfl := List.length_eq_zero_iff.1 (Nat.le_zero.1 hn)
    rw [ends_of_inr (sendStep_nil true actions)]
    simp
  | succ n ih =>
    by_cases hnil : content = []
    · rw [hnil, ends_of_inr (sendStep_nil true actions)]
      simp
    · have hpos := List.length_pos_iff.2 hnil
      rw [ends_of_inl (sendStep_of_good hnil actions), blocks_succ 4096 n hnil, List.flatMap_cons,
        ← List.append_assoc]
      by_cases hfull : 4096 ≤ content.length
      · rw [decide_eq_true hfull]
        exact ih (by rw [List.length_drop]; omega) _
      · have hdrop : content.drop 4096 = [] := List.drop_of_length_le (by omega)
        rw [decide_eq_false hfull, ends_of_inr (sendStep_of_not_good _ _), hdrop, blocks_nil,
          List.flatMap_nil, List.append_nil]

/-- The headers in front of the body. -/
def tsHeaders : Bytes :=
  ascii "HTTP/1.1 200 OK\r\nContent-Type: video/MP2T\r\nConnection: keep-alive\r\n" ++
    ascii "Transfer-Encoding: chunked\r\n\r\n"

/-- **The transport stream is decoded to the file:** for every file that opens the loop ends, and what is
sent behind the headers is a body in chunks, none of them empty, that is decoded to the content. -/
theorem streamMedia_ts_decodes (disk : Disk) (filePath content : Bytes)
    (h : disk (cStr filePath) = some content) :
    ∃ chunks, Ends sendStep (⟨content, true⟩, []) chunks ∧
      streamMedia_ts disk filePath = .ifstream (cStr filePath) :: .send tsHeaders ::
        (chunks ++ [.send (ascii "0\r\n\r\n")]) ∧
      (∃ b : ChunkedBody, b.code = sent (chunks ++ [.send (ascii "0\r\n\r\n")])) ∧
      decodeChunked (sent (chunks ++ [.send (ascii "0\r\n\r\n")])) = some (content, []) := by
  refine ⟨(blocks 4096 content.length content).flatMap (chunk 16),
    (ends_sendStep_iff content.length le_rfl [] _).2 rfl, ?_, ?_⟩
  · simp only [streamMedia_ts, h, tsHeaders]
  · rw [sent_chunks]
    have hnonempty : ∀ block ∈ blocks 4096 content.length content, block ≠ [] :=
      fun _ => ne_nil_of_mem_blocks (by decide)
    obtain ⟨b, hcode, hdata⟩ := exists_chunkedBody hnonempty
    have hcontent : b.data = content := by
      rw [ChunkedBody.data, List.flatMap_def, hdata, flatten_blocks (by decide) le_rfl]
    have hdecode := decodeChunked_code b []
    rw [List.append_nil, hcode, hcontent] at hdecode
    exact ⟨⟨b, hcode⟩, hdecode⟩

/-- A file with a line break in it. -/
theorem streamMedia_ts_decodes_example :
    ∃ chunks, Ends sendStep (⟨[0x30, 0x0D, 0x0A], true⟩, []) chunks ∧
      streamMedia_ts (fun _ => some [0x30, 0x0D, 0x0A]) (ascii "a.ts") =
        .ifstream (cStr (ascii "a.ts")) :: .send tsHeaders ::
          (chunks ++ [.send (ascii "0\r\n\r\n")]) ∧
      (∃ b : ChunkedBody, b.code = sent (chunks ++ [.send (ascii "0\r\n\r\n")])) ∧
      decodeChunked (sent (chunks ++ [.send (ascii "0\r\n\r\n")])) =
        some ([0x30, 0x0D, 0x0A], []) :=
  streamMedia_ts_decodes (fun _ => some [0x30, 0x0D, 0x0A]) (ascii "a.ts") _ rfl

end FileSession

end GraduationServer
