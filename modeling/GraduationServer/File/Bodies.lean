import GraduationServer.File.Transport

/-!
# The bodies of files

`sendFileData` and `sendChunkedData` read a file in the same loop: it goes on as long as the stream is
good behind a read, and the bytes of the last read, which has come short, are sent behind the loop
(`exists_ends_copyStep_iff`). A file is sent whole, in as many bytes as the head in front of it has told
(`sendFileData_whole`). In chunks the sizes are in decimal, and a body is decoded to its file only if it
has less than ten bytes (`sendChunkedData_decodes_iff`).
-/

namespace GraduationServer

open Http

namespace FileSession

/-! ## The loop -/

section Copy

variable {size : ℕ} {emit : Bytes → List Action}

/-- `while (file.read(buffer, size))`: a round of the loop, with the actions so far. The loop is left
with the bytes of the last read. -/
def copyStep (size : ℕ) (emit : Bytes → List Action) (s : IfStream × List Action) :
    (IfStream × List Action) ⊕ (Bytes × List Action) :=
  let read := s.1.read size
  let buffer := read.1
  let file := read.2
  if file.good then .inl (file, s.2 ++ emit buffer) else .inr (buffer, s.2)

/-- `if (file.gcount() > 0)`: the tail behind the loop. -/
def copyTail (emit : Bytes → List Action) (r : Bytes × List Action) : List Action :=
  if 0 < r.1.length then r.2 ++ emit r.1 else r.2

theorem copyStep_of_le {rest : Bytes} (h : size ≤ rest.length) (actions : List Action) :
    copyStep size emit (⟨rest, true⟩, actions) =
      .inl (⟨rest.drop size, true⟩, actions ++ emit (rest.take size)) := by
  simp [copyStep, IfStream.read, h]

/-- A read that comes short gets all that is left. -/
theorem copyStep_of_lt {rest : Bytes} (h : rest.length < size) (actions : List Action) :
    copyStep size emit (⟨rest, true⟩, actions) = .inr (rest, actions) := by
  simp [copyStep, IfStream.read, not_le.2 h, List.take_of_length_le h.le]

theorem blocks_of_ne_nil {n : ℕ} {content : Bytes} (hsize : 0 < size) (hne : content ≠ [])
    (hn : content.length ≤ n) :
    ∃ m, (content.drop size).length ≤ m ∧
      blocks size n content = content.take size :: blocks size m (content.drop size) := by
  have hpos := List.length_pos_iff.2 hne
  obtain ⟨m, rfl⟩ : ∃ m, n = m + 1 := ⟨n - 1, by omega⟩
  exact ⟨m, by rw [List.length_drop]; omega, blocks_succ size m hne⟩

/-- **The loop ends for every file, and with the tail behind it has emitted its blocks.** The induction is
on the number of bytes. -/
theorem exists_ends_copyStep_iff (hsize : 0 < size) (n : ℕ) {content : Bytes}
    (hn : content.length ≤ n) (actions r : List Action) :
    (∃ p, Ends (copyStep size emit) (⟨content, true⟩, actions) p ∧ copyTail emit p = r) ↔
      actions ++ (blocks size n content).flatMap emit = r := by
  induction n generalizing content actions with
  | zero =>
    obtain rfl := List.length_eq_zero_iff.1 (Nat.le_zero.1 hn)
    rw [exists_ends_of_inr (copyStep_of_lt hsize actions)]
    simp [copyTail]
  | succ n ih =>
    by_cases hnil : content = []
    · rw [hnil, exists_ends_of_inr (copyStep_of_lt hsize actions)]
      simp [copyTail]
    · have hpos := List.length_pos_iff.2 hnil
      rw [blocks_succ size n hnil, List.flatMap_cons, ← List.append_assoc]
      by_cases hfull : size ≤ content.length
      · simp only [ends_of_inl (copyStep_of_le hfull actions)]
        exact ih (by rw [List.length_drop]; omega) _
      · have hshort := not_le.1 hfull
        rw [exists_ends_of_inr (copyStep_of_lt hshort actions), copyTail, if_pos hpos,
          List.drop_of_length_le hshort.le, List.take_of_length_le hshort.le, blocks_nil,
          List.flatMap_nil, List.append_nil]

theorem length_le_of_mem_blocks {n : ℕ} {content block : Bytes} (h : block ∈ blocks size n content) :
    block.length ≤ size := by
  induction n generalizing content with
  | zero => cases content <;> cases h
  | succ n ih =>
    cases content with
    | nil => cases h
    | cons c content =>
      rcases List.mem_cons.1 h with rfl | h
      · exact List.length_take_le _ _
      · exact ih h

end Copy

/-! ## Whole files -/

/-- What a block of a file is sent as. -/
def plain (buff : Bytes) : List Action := [.send buff]

theorem flatMap_plain (l : List Bytes) : l.flatMap plain = l.map .send := by
  induction l with
  | nil => rfl
  | cons block l ih => rw [List.flatMap_cons, ih, plain, List.singleton_append, List.map_cons]

/-- **A file is sent whole.** The loop ends, the blocks that it and the tail send are the content, none is
empty or longer than the buffer, and the head tells how many bytes they are. -/
theorem sendFileData_whole (disk : Disk) (filePath contentType content : Bytes)
    (h : disk (cStr filePath) = some content) :
    ∃ p, ∃ data : List Bytes, Ends (copyStep (8 * 1024) plain) (⟨content, true⟩, []) p ∧
      sendFileData disk filePath = .ifstream (cStr filePath) :: copyTail plain p ∧
      copyTail plain p = data.map .send ∧
      data.flatten = content ∧
      (∀ block ∈ data, block ≠ [] ∧ block.length ≤ 8 * 1024) ∧
      (packHTTPResponse disk filePath contentType).2 =
        ascii "HTTP/1.1 200 OK\r\n" ++ (ascii "Content-Type: " ++ contentType ++ ascii "\r\n") ++
          (ascii "Content-Length: " ++ numeral 10 (data.map List.length).sum ++ ascii "\r\n") ++
          ascii "Connection: close\r\n" ++ ascii "\r\n" ∧
      (0x0D ∉ contentType ∧ 0x0A ∉ contentType → ∃ fields,
        (packHTTPResponse disk filePath contentType).2 = okStatus.code ++ fieldsCode fields ∧
        framing fields = some (.sized (data.map List.length).sum)) := by
  obtain ⟨p, hends, htail⟩ := (@exists_ends_copyStep_iff (8 * 1024) plain (by decide) content.length
    content le_rfl [] _).2 rfl
  have hdata := @flatten_blocks (8 * 1024) content.length content (by decide) le_rfl
  have hlength := congrArg List.length hdata
  rw [List.nil_append, flatMap_plain] at htail
  rw [List.length_flatten] at hlength
  refine ⟨p, _, hends, ?_, htail, hdata,
    fun _ hblock => ⟨ne_nil_of_mem_blocks (by decide) hblock, length_le_of_mem_blocks hblock⟩, ?_, ?_⟩
  · simp only [sendFileData, h, htail]
  · simp only [packHTTPResponse, h, hlength]
  · intro htype
    refine ⟨fileFields contentType htype content.length, ?_, ?_⟩
    · simp only [packHTTPResponse, h, code_fileFields]
    · rw [hlength, framing_fileFields]

/-- A file of three bytes. -/
theorem sendFileData_whole_example :
    ∃ p, ∃ data : List Bytes, Ends (copyStep (8 * 1024) plain) (⟨ascii "abc", true⟩, []) p ∧
      sendFileData (fun _ => some (ascii "abc")) (ascii "a.png") =
        .ifstream (cStr (ascii "a.png")) :: copyTail plain p ∧
      copyTail plain p = data.map .send ∧
      data.flatten = ascii "abc" ∧
      (∀ block ∈ data, block ≠ [] ∧ block.length ≤ 8 * 1024) ∧
      (packHTTPResponse (fun _ => some (ascii "abc")) (ascii "a.png") (ascii "image/png")).2 =
        ascii "HTTP/1.1 200 OK\r\n" ++ (ascii "Content-Type: " ++ ascii "image/png" ++ ascii "\r\n") ++
          (ascii "Content-Length: " ++ numeral 10 (data.map List.length).sum ++ ascii "\r\n") ++
          ascii "Connection: close\r\n" ++ ascii "\r\n" ∧
      (0x0D ∉ ascii "image/png" ∧ 0x0A ∉ ascii "image/png" → ∃ fields,
        (packHTTPResponse (fun _ => some (ascii "abc")) (ascii "a.png") (ascii "image/png")).2 =
          okStatus.code ++ fieldsCode fields ∧
        framing fields = some (.sized (data.map List.length).sum)) :=
  sendFileData_whole (fun _ => some (ascii "abc")) (ascii "a.png") (ascii "image/png") _ rfl

/-! ## Sizes in decimal -/

/-- The body that is sent for some blocks, with their sizes in a base. -/
def chunkedBytes (base : ℕ) (l : List Bytes) : Bytes :=
  sent (l.flatMap (chunk base) ++ [.send (ascii "0\r\n\r\n")])

/-- The line with a size. -/
def sizeLine (n : ℕ) : Line :=
  ⟨numeral 10 n, (noBreak_numeral (by decide) (by decide) n).1,
    (noBreak_numeral (by decide) (by decide) n).2⟩

theorem chunkedBytes_cons (block : Bytes) (l : List Bytes) :
    chunkedBytes 10 (block :: l) =
      (sizeLine block.length).code ++ (block ++ (crlf ++ chunkedBytes 10 l)) := by
  rw [chunkedBytes, List.flatMap_cons, chunk, ascii_crlf]
  simp [chunkedBytes, sizeLine, Line.code]

/-- A size is read in hexadecimal. -/
theorem chunkSize_sizeLine (n : ℕ) :
    chunkSize (sizeLine n).text = some (ofNumeral 16 (numeral 10 n)) :=
  chunkSize_of_digits (numeral_ne_nil n) fun _ hc =>
    (isDigit_of_mem_numeral (by decide) (by decide) hc).trans_le (by decide)

/-- The sizes below ten are the same in both bases. -/
theorem exists_chunkedBody_of_lt {n : ℕ} {content : Bytes} (hn : content.length ≤ n)
    (hlt : content.length < 10) :
    ∃ b : ChunkedBody, b.code = chunkedBytes 10 (blocks 4096 n content) ∧ b.data = content := by
  have hchunk : ∀ block ∈ blocks 4096 n content, chunk 10 block = chunk 16 block := by
    intro block hblock
    have hle := (List.sublist_flatten_of_mem hblock).length_le
    rw [flatten_blocks (by decide) hn] at hle
    rw [chunk, chunk, numeral_of_lt (by omega), numeral_of_lt (by omega)]
  obtain ⟨b, hcode, hdata⟩ := exists_chunkedBody fun _ => @ne_nil_of_mem_blocks 4096 n content
    (by decide) _
  refine ⟨b, ?_, ?_⟩
  · rw [hcode, ← sent_chunks, chunkedBytes, List.flatMap_congr hchunk]
  · rw [ChunkedBody.data, List.flatMap_def, hdata, flatten_blocks (by decide) hn]

/-- The body up to a full block, behind which the file goes on. -/
theorem exists_chunkedBytes_full {size c : ℕ} (hsize : 0 < size)
    (hc : (sizeLine size).code.length = c) (j : ℕ) {n : ℕ} {content : Bytes}
    (hn : content.length ≤ n) (hj : (j + 1) * size ≤ content.length) :
    ∃ (s : Bytes) (m : ℕ), s.length = j * (c + size + 2) + (c + size) ∧
      (content.drop ((j + 1) * size)).length ≤ m ∧
      chunkedBytes 10 (blocks size n content) =
        s ++ (crlf ++ chunkedBytes 10 (blocks size m (content.drop ((j + 1) * size)))) := by
  induction j with
  | zero =>
    rw [Nat.zero_add, Nat.one_mul] at hj ⊢
    have hne : content ≠ [] := List.ne_nil_of_length_pos (by omega)
    obtain ⟨m, hm, hblocks⟩ := blocks_of_ne_nil hsize hne hn
    have hblock : (content.take size).length = size := by rw [List.length_take]; omega
    refine ⟨(sizeLine size).code ++ content.take size, m, ?_, hm, ?_⟩
    · rw [List.length_append, hc, hblock]
      omega
    · rw [hblocks, chunkedBytes_cons, hblock, List.append_assoc]
  | succ j ih =>
    rw [Nat.succ_mul] at hj
    obtain ⟨s, m, hs, hm, hsplit⟩ := ih (by omega)
    have hlength : (content.drop ((j + 1) * size)).length = content.length - (j + 1) * size :=
      List.length_drop
    have hne : content.drop ((j + 1) * size) ≠ [] := List.ne_nil_of_length_pos (by omega)
    obtain ⟨m', hm', hblocks⟩ := blocks_of_ne_nil hsize hne hm
    have hblock : ((content.drop ((j + 1) * size)).take size).length = size := by
      rw [List.length_take]
      omega
    rw [List.drop_drop, ← Nat.succ_mul] at hm' hblocks
    refine ⟨s ++ (crlf ++ ((sizeLine size).code ++ (content.drop ((j + 1) * size)).take size)), m',
      ?_, hm', ?_⟩
    · rw [List.length_append, List.length_append, List.length_append, hc, hblock, hs, Nat.succ_mul]
      simp only [crlf, List.length_cons, List.length_nil]
      omega
    · rw [hsplit, hblocks, chunkedBytes_cons, hblock]
      simp only [List.append_assoc]

/-- A byte behind a prefix. -/
theorem getElem?_append_length_add (s t : Bytes) (i : ℕ) : (s ++ t)[s.length + i]? = t[i]? := by
  rw [List.getElem?_append_right (Nat.le_add_right _ _), Nat.add_sub_cancel_left]

/-- The sizes of three and of four digits. -/
theorem length_sizeLine {n : ℕ} (hlow : 100 ≤ n) (hhigh : n ≤ 4096) :
    (sizeLine n).text.length = 3 ∨ (sizeLine n).text.length = 4 := by
  have hle : (numeral 10 n).length ≤ 4 := length_numeral_le (by decide) (by omega) (by decide)
  have hlt := @lt_pow_length_numeral 10 (by decide) n
  change (numeral 10 n).length = 3 ∨ (numeral 10 n).length = 4
  by_contra h
  have hpow : 10 ^ (numeral 10 n).length ≤ 10 ^ 2 := Nat.pow_le_pow_right (by decide) (by omega)
  omega

/-- A file is sent behind a line with a size and read as data in front of the line. What is read there
is what was sent as much earlier as the line and the breaks are long. -/
theorem getElem?_repeat {head data tail s block rest content : Bytes} {l : Line}
    (hdata : data.length = 16534) (hbegin : data <+: content)
    (hblock : ∀ i < 150, content[16384 + i]? = block[i]?) (hlong : 150 ≤ block.length)
    (hs : s.length = head.length + 16408)
    (hsplit : head ++ (data ++ tail) = s ++ (crlf ++ (l.code ++ (block ++ rest)))) :
    (∀ i, (data ++ tail)[16408 + i]? = (crlf ++ (l.code ++ (block ++ rest)))[i]?) ∧
      ∀ i < 126, (data ++ tail)[16408 + i]? = (data ++ tail)[16408 + (28 + l.text.length + i)]? := by
  have hsent : ∀ i, (data ++ tail)[16408 + i]? = (crlf ++ (l.code ++ (block ++ rest)))[i]? := by
    intro i
    rw [← getElem?_append_length_add head, hsplit, ← Nat.add_assoc, ← hs, getElem?_append_length_add]
  refine ⟨hsent, fun i hi => ?_⟩
  have hfront : (crlf ++ l.code).length = l.text.length + 4 := by
    simp only [Line.code, crlf, List.length_append, List.length_cons, List.length_nil]
    omega
  calc (data ++ tail)[16408 + i]?
      = content[16384 + (24 + i)]? := by
        obtain ⟨t, rfl⟩ := hbegin
        rw [List.getElem?_append_left (by omega), List.getElem?_append_left (by omega),
          show 16408 + i = 16384 + (24 + i) by omega]
    _ = (block ++ rest)[24 + i]? := by
        rw [hblock _ (by omega), List.getElem?_append_left (by omega)]
    _ = (data ++ tail)[16408 + (28 + l.text.length + i)]? := by
        rw [hsent, ← List.append_assoc crlf, ← getElem?_append_length_add (crlf ++ l.code), hfront,
          show l.text.length + 4 + (24 + i) = 28 + l.text.length + i by omega]

/-- A file that begins with what its chunks would be read as repeats the line in front of its fifth block,
and there is no size where the next chunk would begin. -/
theorem not_begins_with_chunk {n : ℕ} {content data : Bytes} {b : ChunkedBody} (hn : content.length ≤ n)
    (hdata : data.length = 16534) (hbegin : data <+: content)
    (hcode : chunkedBytes 10 (blocks 4096 n content) =
      (sizeLine 4096).code ++ (data ++ (crlf ++ b.code))) : False := by
  have hline : (sizeLine 4096).code.length = 6 := by decide +kernel
  have hlong := hbegin.length_le
  obtain ⟨s, m, hs, hm, hsplit⟩ := @exists_chunkedBytes_full 4096 6 (by decide) hline 3 n content hn
    (by omega)
  have hrest : (content.drop ((3 + 1) * 4096)).length = content.length - (3 + 1) * 4096 :=
    List.length_drop
  obtain ⟨m', -, hblocks⟩ := @blocks_of_ne_nil 4096 m _ (by decide)
    (List.ne_nil_of_length_pos (by omega)) hm
  rw [hcode, hblocks, chunkedBytes_cons] at hsplit
  have hblock : ∀ i < 150, content[16384 + i]? = ((content.drop ((3 + 1) * 4096)).take 4096)[i]? := by
    intro i hi
    rw [List.getElem?_take_of_lt (by omega), List.getElem?_drop]
  have hsize : 150 ≤ ((content.drop ((3 + 1) * 4096)).take 4096).length := by
    rw [List.length_take]
    omega
  obtain ⟨hsent, hrepeat⟩ := getElem?_repeat hdata hbegin hblock hsize (by omega) hsplit
  -- the break behind the data, and the digit behind the break
  have hbreak : (data ++ (crlf ++ b.code))[16408 + 126]? = some 0x0D := by
    rw [show 16408 + 126 = data.length + 0 by omega, getElem?_append_length_add]
    rfl
  obtain ⟨c, hfirst, hc⟩ := b.exists_digit
  have hnext : (data ++ (crlf ++ b.code))[16408 + 128]? = some c := by
    rw [show 16408 + 128 = data.length + 2 by omega, getElem?_append_length_add, ← hfirst]
    rfl
  rcases length_sizeLine (le_trans (by decide) hsize) (List.length_take_le _ _) with hthree | hfour
  · rw [hthree] at hrepeat
    obtain ⟨d, hdigit, hd⟩ := exists_digit_of_chunkSize (chunkSize_sizeLine _) _
    have hlast : (data ++ (crlf ++ b.code))[16408 + 126]? = some d := by
      rw [← hrepeat 95 (by decide), ← hrepeat 64 (by decide), ← hrepeat 33 (by decide),
        ← hrepeat 2 (by decide), hsent, ← hdigit]
      rfl
    exact ne_of_isDigit le_rfl hd (by decide) (Option.some.inj (hlast.symm.trans hbreak))
  · rw [hfour] at hrepeat
    have hreturn : (data ++ (crlf ++ b.code))[16408 + 128]? = some 0x0D := by
      rw [← hrepeat 96 (by decide), ← hrepeat 64 (by decide), ← hrepeat 32 (by decide),
        ← hrepeat 0 (by decide), hsent]
      rfl
    exact ne_of_isDigit le_rfl hc (by decide) (Option.some.inj (hnext.symm.trans hreturn))

/-- From ten bytes on the first size is read as a greater one. -/
theorem length_lt_of_chunkedBody {n : ℕ} {content : Bytes} (hn : content.length ≤ n) {b : ChunkedBody}
    (hcode : b.code = chunkedBytes 10 (blocks 4096 n content)) (hdata : b.data = content) :
    content.length < 10 := by
  by_contra hlt
  obtain ⟨m, -, hblocks⟩ := @blocks_of_ne_nil 4096 n content (by decide)
    (List.ne_nil_of_length_pos (by omega)) hn
  have hblock : (content.take 4096).length = min 4096 content.length := List.length_take
  have hgreater := @lt_ofNumeral 10 16 (content.take 4096).length (by decide) (by decide) (by decide)
    (by omega)
  have hfirst := hcode
  rw [hblocks, chunkedBytes_cons] at hfirst
  obtain ⟨data, b', hlength, hsplit, hrest⟩ :=
    ChunkedBody.exists_chunk hfirst (chunkSize_sizeLine _) (by omega)
  have hbegin : data <+: content := ⟨b'.data, hsplit.symm.trans hdata⟩
  have hle := hbegin.length_le
  by_cases hshort : content.length ≤ 4096
  · omega
  · have hfull : (content.take 4096).length = 4096 := by omega
    rw [hfull] at hlength hfirst
    have hwide : ofNumeral 16 (numeral 10 4096) = 16534 := by decide +kernel
    refine @not_begins_with_chunk n content data b' hn (hlength.trans hwide) hbegin ?_
    rw [← hcode, hfirst, hrest]

theorem exists_chunkedBody_iff {n : ℕ} {content : Bytes} (hn : content.length ≤ n) :
    (∃ b : ChunkedBody, b.code = chunkedBytes 10 (blocks 4096 n content) ∧ b.data = content) ↔
      content.length < 10 :=
  ⟨fun ⟨_, hcode, hdata⟩ => length_lt_of_chunkedBody hn hcode hdata, exists_chunkedBody_of_lt hn⟩

/-- The headers in front of the body. -/
def mp4Headers : Bytes :=
  ascii "HTTP/1.1 200 OK\r\n" ++ ascii "Content-Type: video/mp4\r\n" ++
    ascii "Transfer-Encoding: chunked\r\n" ++ ascii "Connection: close\r\n" ++ ascii "\r\n"

/-- **A file in chunks is decoded to its content exactly if it has less than ten bytes.** The loop ends for
every file, and has then sent its blocks behind their sizes. -/
theorem sendChunkedData_decodes_iff (disk : Disk) (filePath content : Bytes)
    (h : disk (cStr filePath) = some content) :
    ∃ p, Ends (copyStep 4096 (chunk 10)) (⟨content, true⟩, []) p ∧
      sendChunkedData disk filePath = .ifstream (cStr filePath) :: .send mp4Headers ::
        (copyTail (chunk 10) p ++ [.send (ascii "0\r\n\r\n")]) ∧
      ((∃ b : ChunkedBody, b.code = sent (copyTail (chunk 10) p ++ [.send (ascii "0\r\n\r\n")]) ∧
          b.data = content) ↔ content.length < 10) := by
  obtain ⟨p, hends, htail⟩ := (@exists_ends_copyStep_iff 4096 (chunk 10) (by decide) content.length
    content le_rfl [] _).2 rfl
  rw [List.nil_append] at htail
  refine ⟨p, hends, ?_, ?_⟩
  · simp only [sendChunkedData, h, htail, mp4Headers]
  · rw [htail]
    exact exists_chunkedBody_iff le_rfl

/-- A file of three bytes. -/
theorem sendChunkedData_decodes_iff_example :
    ∃ p, Ends (copyStep 4096 (chunk 10)) (⟨ascii "abc", true⟩, []) p ∧
      sendChunkedData (fun _ => some (ascii "abc")) (ascii "a.mp4") =
        .ifstream (cStr (ascii "a.mp4")) :: .send mp4Headers ::
          (copyTail (chunk 10) p ++ [.send (ascii "0\r\n\r\n")]) ∧
      ((∃ b : ChunkedBody, b.code = sent (copyTail (chunk 10) p ++ [.send (ascii "0\r\n\r\n")]) ∧
          b.data = ascii "abc") ↔ (ascii "abc").length < 10) :=
  sendChunkedData_decodes_iff (fun _ => some (ascii "abc")) (ascii "a.mp4") _ rfl

/-- The size of a file of sixteen bytes is read as twenty-two. -/
theorem not_sendChunkedData_decodes :
    ¬ ∀ (disk : Disk) (filePath content : Bytes), disk (cStr filePath) = some content →
      ∃ b : ChunkedBody, mp4Headers ++ b.code = sent (sendChunkedData disk filePath) ∧
        b.data = content := by
  intro h
  obtain ⟨b, hcode, hdata⟩ := h (fun _ => some (ascii "0123456789abcdef")) (ascii "a.mp4") _ rfl
  have hsent : sent (sendChunkedData (fun _ => some (ascii "0123456789abcdef")) (ascii "a.mp4")) =
      mp4Headers ++ chunkedBytes 10 (blocks 4096 16 (ascii "0123456789abcdef")) := rfl
  rw [hsent] at hcode
  have hlt := length_lt_of_chunkedBody (by decide) (List.append_cancel_left hcode) hdata
  exact absurd hlt (by decide)

end FileSession

end GraduationServer
