import GraduationServer.File.Session

/-!
# Uploads

What a header and a message can do is said once (`openUpload_cases`, `writeUpload_cases`). The session of
an upload is described by the number of bytes received (`uploading`). A message that belongs to the
upload adds its bytes (`process_part`), and the last one ends it (`process_last`). But
a message is looked at before the session is: one that begins with an HTTP method is answered as a
request and not written, and the JSON reader may throw. And the upload of a video ends with a command to
the shell. So an upload arrives exactly when none of its messages is of these kinds and the command leaves
the file as it is (`uploaded_iff`).
-/

namespace GraduationServer

open Json

/-- A reply with state 1. -/
def Action.isSuccess : Action → Bool
  | .respond json => json.intMember (ascii "responsesState") = some 1
  | _ => false

namespace FileSession

/-! ## What a message does -/

/-- The header of an upload opens the file it names, or fails to, or has no size. -/
theorem openUpload_cases {s : FileSession} {disk : Disk} {host : Host} {root : Value} {r : Outcome}
    (h : s.openUpload disk host root = some r) :
    (∃ fileName filesize, root.stringMember (ascii "fileName") = some fileName ∧
        r = ({ s with
          isState := true
          filesize
          fp := some (cStr (uploadPath fileName))
          buffered := []
          filePath := uploadPath fileName
          fileName }, disk.write (cStr (uploadPath fileName)) [], [.fopen (cStr (uploadPath fileName))])) ∨
      (∃ fileName, root.stringMember (ascii "fileName") = some fileName ∧
        r = ({ s with isState := false, filesize := 0, offset := 0, fp := none, buffered := [] }, disk,
          [.fopen (cStr (uploadPath fileName)),
            onFileWriteStateResponse (-1) (ascii "FaildOpen")])) ∨
        r = ({ s with isState := false }, disk,
          [onFileWriteStateResponse (-1) (ascii "InvalidJSON")]) := by
  simp only [openUpload, Option.bind_eq_bind, Option.bind_eq_some_iff] at h
  obtain ⟨valid, -, h⟩ := h
  split at h
  · obtain ⟨fileName, hname, h⟩ := Option.bind_eq_some_iff.1 h
    obtain ⟨filesize, -, h⟩ := Option.bind_eq_some_iff.1 h
    split at h
    · cases h
      exact Or.inl ⟨fileName, filesize, hname, rfl⟩
    · cases h
      exact Or.inr (Or.inl ⟨fileName, hname, rfl⟩)
  · cases h
    exact Or.inr (Or.inr rfl)

/-- A message ends an upload with a reply, and with a conversion if it is of a video; or it is written and
the upload goes on. -/
theorem writeUpload_cases (s : FileSession) (disk : Disk) (host : Host) (filedata : Bytes) :
    ((s.writeUpload disk host filedata).1 = {} ∧
        ∀ a ∈ (s.writeUpload disk host filedata).2.2, (∃ json, a = .respond json) ∨
          a = .system (convertCommand s.filePath) ∧ contains (ascii ".mp4") s.fileName = true) ∨
      ∃ path, s.fp = some path ∧ s.writeUpload disk host filedata =
        ({ s with
          offset := Int.bmod (s.offset + filedata.length) (2 ^ 32)
          buffered := (s.buffered ++ filedata).drop host.flushed },
          disk.append path ((s.buffered ++ filedata).take host.flushed), []) := by
  have hreply : ∀ state type, ∃ json, onFileWriteStateResponse state type = .respond json :=
    fun state type => ⟨_, rfl⟩
  unfold writeUpload
  split
  · exact Or.inl ⟨rfl, by simp [hreply]⟩
  · next path hpath =>
    dsimp only
    split
    · exact Or.inl ⟨rfl, by simp [hreply]⟩
    · split
      · split
        · next hvideo => exact Or.inl ⟨rfl, by simp [hreply, hvideo]⟩
        · exact Or.inl ⟨rfl, by simp [hreply]⟩
      · exact Or.inr ⟨path, hpath, rfl⟩

/-! ## Idle sessions -/

/-- No upload is going on. -/
def Idle (s : FileSession) : Prop :=
  s.isState = false ∧ s.fp = none ∧ s.offset = 0 ∧ s.filesize = 0

/-- A session without a header is idle. -/
def Consistent (s : FileSession) : Prop := s.isState = false → s.Idle

theorem consistent_writeUpload {s : FileSession} (hs : s.Consistent) (disk : Disk) (host : Host)
    (filedata : Bytes) : (s.writeUpload disk host filedata).1.Consistent := by
  rcases s.writeUpload_cases disk host filedata with ⟨hnew, -⟩ | ⟨path, hpath, hgoes⟩
  · rw [hnew]
    exact fun _ => ⟨rfl, rfl, rfl, rfl⟩
  · rw [hgoes]
    intro hidle
    have hnone := (hs hidle).2.1
    rw [hpath] at hnone
    cases hnone

theorem consistent_openUpload {s : FileSession} (hs : s.Idle) {disk : Disk} {host : Host}
    {root : Value} {r : Outcome} (h : s.openUpload disk host root = some r) : r.1.Consistent := by
  rcases openUpload_cases h with ⟨fileName, filesize, -, rfl⟩ | ⟨fileName, -, rfl⟩ | rfl
  · rintro ⟨⟩
  · exact fun _ => ⟨rfl, rfl, rfl, rfl⟩
  · exact fun _ => ⟨rfl, hs.2⟩

/-- **A session that waits for a header is idle**, after every message. -/
theorem consistent_process {s : FileSession} (hs : s.Consistent) {disk : Disk} {host : Host}
    {buffer : Bytes} {r : Outcome} (h : s.process disk host buffer = some r) : r.1.Consistent := by
  obtain ⟨⟨ok, root⟩, -, h⟩ := Option.bind_eq_some_iff.1 h
  dsimp only at h
  split at h
  · cases h
    exact hs
  · unfold onUploadFileResponse at h
    split at h
    · cases h
      exact consistent_writeUpload hs disk host buffer
    · next hidle =>
      obtain ⟨⟨ok, root⟩, -, h⟩ := Option.bind_eq_some_iff.1 h
      dsimp only at h
      split at h
      · exact consistent_openUpload (hs (Bool.eq_false_iff.2 hidle)) h
      · cases h
        exact consistent_writeUpload hs disk host buffer

/-! ## Runs -/

/-- The reads of a connection, each with what the host does during it: the actions for each. -/
def runReads : FileSession → Disk → List (Host × Bytes) →
    Option (FileSession × Disk × List (List Action))
  | s, disk, [] => some (s, disk, [])
  | s, disk, (host, buffer) :: reads => do
    let (s, disk, actions) ← s.process disk host buffer
    let (s, disk, rest) ← runReads s disk reads
    return (s, disk, actions :: rest)

theorem runReads_cons {s s' : FileSession} {disk disk' : Disk} {host : Host} {buffer : Bytes}
    {actions : List Action} (h : s.process disk host buffer = some (s', disk', actions))
    (reads : List (Host × Bytes)) :
    s.runReads disk ((host, buffer) :: reads) =
      (s'.runReads disk' reads).map fun r => (r.1, r.2.1, actions :: r.2.2) := by
  rw [runReads, h, Option.bind_eq_bind, Option.bind_some]
  dsimp only
  cases s'.runReads disk' reads <;> rfl

/-- What every message keeps is kept by a run. -/
theorem runReads_keeps {P : FileSession → Prop}
    (hstep : ∀ (s : FileSession) (disk : Disk) (host : Host) (buffer : Bytes) (r : Outcome),
      P s → s.process disk host buffer = some r → P r.1)
    {s : FileSession} (hs : P s) {disk : Disk} {reads : List (Host × Bytes)}
    {r : FileSession × Disk × List (List Action)} (h : runReads s disk reads = some r) : P r.1 := by
  induction reads generalizing s disk r with
  | nil =>
    cases h
    exact hs
  | cons read reads ih =>
    obtain ⟨⟨s', disk', actions⟩, hprocess, h⟩ := Option.bind_eq_some_iff.1 h
    obtain ⟨⟨s'', disk'', rest⟩, hrest, h⟩ := Option.bind_eq_some_iff.1 h
    cases h
    have hs' : P s' := hstep s disk read.1 read.2 _ hs hprocess
    exact ih hs' (r := (s'', disk'', rest)) hrest

/-! ## The messages of an upload -/

/-- A text that is accepted as the header of an upload of at least one byte. -/
structure UploadHeader where
  text : Bytes
  root : Value
  fileName : Bytes
  fileSize : ℤ
  accepted : Reader.parse text = some (true, root)
  valid : hasFileSize root = some true
  named : root.stringMember (ascii "fileName") = some fileName
  sized : root.intMember (ascii "fileSize") = some fileSize
  pos : 1 ≤ fileSize

/-- The path that the header opens. -/
def UploadHeader.path (header : UploadHeader) : Bytes := cStr (uploadPath header.fileName)

/-- The session of an upload of which some bytes have been received, the last of them in the buffer. -/
def uploading (header : UploadHeader) (offset : ℤ) (buffered : Bytes := []) : FileSession where
  fp := some header.path
  buffered := buffered
  fileName := header.fileName
  filePath := uploadPath header.fileName
  isState := true
  offset := offset
  filesize := header.fileSize

/-- The message is neither taken for an HTTP request nor does the JSON reader throw on it. -/
def Passes (buffer : Bytes) : Prop :=
  isHTTPProtocol buffer = false ∧ Reader.parse buffer ≠ none

/-- The size announced by a header has 31 bits. -/
theorem fileSize_le (header : UploadHeader) : header.fileSize ≤ 2 ^ 31 - 1 := by
  obtain ⟨v, -, h⟩ := Option.bind_eq_some_iff.1 header.sized
  exact Value.asInt_le h

/-- The reader rejects a text that begins with an HTTP method at its first letter. -/
theorem parse_of_isHTTPProtocol {buffer : Bytes} (h : isHTTPProtocol buffer = true) :
    Reader.parse buffer = some (false, .null) := by
  simp only [isHTTPProtocol, List.any_cons, List.any_nil, Bool.or_eq_true, Bool.or_false,
    List.isPrefixOf_iff_prefix] at h
  rcases h with ⟨_, rfl⟩ | ⟨_, rfl⟩ | ⟨_, rfl⟩ | ⟨_, rfl⟩ | ⟨_, rfl⟩ | ⟨_, rfl⟩ <;> rfl

/-- The header of an upload starts it. -/
theorem process_header {s : FileSession} (hs : s.Idle) (header : UploadHeader) {host : Host}
    (hopen : host.opens header.path = true) (disk : Disk) :
    s.process disk host header.text =
      some (uploading header 0, disk.write header.path [], [.fopen header.path]) := by
  obtain ⟨fp, buffered, fileName, filePath, isState, offset, filesize⟩ := s
  obtain ⟨rfl, rfl, rfl, rfl⟩ := hs
  have hopen' : host.opens (cStr (uploadPath header.fileName)) = true := hopen
  simp [process, onUploadFileResponse, openUpload, header.accepted, header.valid, header.named,
    header.sized, hopen', uploading, UploadHeader.path]

/-- A message during an upload is written. -/
theorem process_uploading {header : UploadHeader} {buffer : Bytes} (hpasses : Passes buffer)
    (offset : ℤ) (buffered : Bytes) (disk : Disk) (host : Host) :
    (uploading header offset buffered).process disk host buffer =
      some ((uploading header offset buffered).writeUpload disk host buffer) := by
  obtain ⟨hhttp, hparse⟩ := hpasses
  obtain ⟨⟨ok, root⟩, hroot⟩ := Option.ne_none_iff_exists'.1 hparse
  simp [process, onUploadFileResponse, hroot, hhttp, uploading]

/-- An HTTP request during an upload leaves it alone. -/
theorem process_http {buffer : Bytes} (hhttp : isHTTPProtocol buffer = true) (s : FileSession)
    (disk : Disk) (host : Host) :
    s.process disk host buffer = some (s, disk, onHttpResponse disk host.media buffer) := by
  simp [process, parse_of_isHTTPProtocol hhttp, hhttp]

section Written

variable {header : UploadHeader} {host : Host} {buffer : Bytes} {offset : ℤ}

/-- The offset after a message, below the 32-bit limit. -/
theorem bmod_offset (h0 : 0 ≤ offset) (hlt : offset + buffer.length < 2 ^ 31) :
    Int.bmod (offset + buffer.length) (2 ^ 32) = offset + buffer.length :=
  Int.bmod_eq_of_le (by omega) (by omega)

/-- **A message that is not the last adds its bytes**, to the file and to the buffer. -/
theorem process_part (hpasses : Passes buffer) (hne : buffer ≠ []) (hwrite : host.writeError = none)
    (h0 : 0 ≤ offset) (hlt : offset + buffer.length < header.fileSize) (buffered : Bytes) (disk : Disk) :
    (uploading header offset buffered).process disk host buffer =
      some (uploading header (offset + buffer.length) ((buffered ++ buffer).drop host.flushed),
        disk.append header.path ((buffered ++ buffer).take host.flushed), []) := by
  have hsize := fileSize_le header
  have hoffset := @bmod_offset buffer offset h0 (by omega)
  rw [process_uploading hpasses]
  simp only [writeUpload, uploading, hne, if_false, hwrite, hoffset, not_le.2 hlt]

/-- What the end of an upload makes of the disk: the command for a video is run. -/
def converted (header : UploadHeader) (host : Host) (disk : Disk) : Disk :=
  if contains (ascii ".mp4") header.fileName then
    host.system (convertCommand (uploadPath header.fileName)) disk
  else disk

/-- **A message that reaches the size ends the upload**, with one reply of success: it is written whole,
behind what was in the buffer. -/
theorem process_last (hpasses : Passes buffer) (hne : buffer ≠ []) (hwrite : host.writeError = none)
    (hclose : host.closeError = none) (h0 : 0 ≤ offset)
    (hle : header.fileSize ≤ offset + buffer.length) (hlt : offset + buffer.length < 2 ^ 31)
    (buffered : Bytes) (disk : Disk) :
    ∃ actions, (uploading header offset buffered).process disk host buffer =
        some ({}, converted header host (disk.append header.path (buffered ++ buffer)), actions) ∧
      actions.countP Action.isSuccess = 1 := by
  rw [process_uploading hpasses]
  have hreply : (onFileWriteStateResponse 1 (finishedType header.fileName)).isSuccess := by
    unfold finishedType
    split_ifs <;> decide
  have hoffset : header.fileSize ≤ Int.bmod (offset + buffer.length) (2 ^ 32) :=
    hle.trans_eq (bmod_offset h0 hlt).symm
  have hdisk : (disk.append header.path ((buffered ++ buffer).take host.flushed)).append header.path
      (host.closing ((buffered ++ buffer).drop host.flushed)) =
        disk.append header.path (buffered ++ buffer) := by
    rw [Host.closing, hclose, Disk.append_append, List.take_append_drop]
  by_cases hvideo : contains (ascii ".mp4") header.fileName
  · refine ⟨[onFileWriteStateResponse 1 (finishedType header.fileName),
        .system (convertCommand (uploadPath header.fileName))], ?_, ?_⟩
    · simp only [writeUpload, uploading, hne, if_false, hwrite, hoffset, if_true, hvideo, converted, hdisk]
    · rw [List.countP_cons_of_pos hreply]
      rfl
  · refine ⟨[onFileWriteStateResponse 1 (finishedType header.fileName)], ?_, by simp [hreply]⟩
    simp only [writeUpload, uploading, hne, if_false, hwrite, hoffset, if_true, hvideo, converted, hdisk,
      Bool.false_eq_true]

end Written

/-! ## Whole uploads -/

variable {header : UploadHeader}

/-- The reads after which an upload has arrived: the file holds the content, the one reply of success
belongs to the last read, and the session is idle. -/
def Uploaded (header : UploadHeader) (content : Bytes)
    (run : Option (FileSession × Disk × List (List Action))) : Prop :=
  ∃ s disk before last, run = some (s, disk, before ++ [last]) ∧ disk header.path = some content ∧
    (∀ actions ∈ before, actions.countP Action.isSuccess = 0) ∧
    last.countP Action.isSuccess = 1 ∧ s.Idle

/-- The reads that carry the content of an upload, while all writes succeed. -/
structure IsContent (reads : List (Host × Bytes)) : Prop where
  nonempty : ∀ read ∈ reads, read.2 ≠ []
  written : ∀ read ∈ reads, read.1.writeError = none
  closed : ∀ read ∈ reads, read.1.closeError = none

theorem IsContent.tail {read : Host × Bytes} {reads : List (Host × Bytes)}
    (h : IsContent (read :: reads)) : IsContent reads where
  nonempty r hr := h.nonempty r (List.mem_cons_of_mem _ hr)
  written r hr := h.written r (List.mem_cons_of_mem _ hr)
  closed r hr := h.closed r (List.mem_cons_of_mem _ hr)

/-- The bytes of some reads. -/
def content (reads : List (Host × Bytes)) : Bytes := reads.flatMap Prod.snd

theorem length_content_cons (host : Host) (buffer : Bytes) (reads : List (Host × Bytes)) :
    ((content ((host, buffer) :: reads)).length : ℤ) = buffer.length + (content reads).length := by
  simp [content]

theorem IsContent.length_pos {reads : List (Host × Bytes)} (h : IsContent reads)
    {read : Host × Bytes} (hread : read ∈ reads) : 0 < (content reads).length := by
  refine List.length_pos_iff.2 fun hnil => ?_
  exact h.nonempty read hread (List.flatMap_eq_nil_iff.1 hnil read hread)

/-- **Reads that pass complete the upload**: by induction on the reads, each adding its bytes. -/
theorem runReads_of_passes {reads : List (Host × Bytes)} (h : IsContent reads)
    (hpasses : ∀ read ∈ reads, Passes read.2) {last : Host × Bytes} (hlast : reads.getLast? = some last)
    {offset : ℤ} (h0 : 0 ≤ offset) (hsize : offset + (content reads).length = header.fileSize)
    (buffered : Bytes) (disk : Disk) :
    ∃ before actions, (uploading header offset buffered).runReads disk reads =
        some ({}, converted header last.1 (disk.append header.path (buffered ++ content reads)),
          before ++ [actions]) ∧
      (∀ actions ∈ before, actions.countP Action.isSuccess = 0) ∧
      actions.countP Action.isSuccess = 1 := by
  induction reads generalizing offset buffered disk with
  | nil => cases hlast
  | cons read reads ih =>
    obtain ⟨host, buffer⟩ := read
    have hbuffer : buffer ≠ [] := h.nonempty _ List.mem_cons_self
    have hwrite : host.writeError = none := h.written _ List.mem_cons_self
    have hpass : Passes buffer := hpasses _ List.mem_cons_self
    rw [length_content_cons] at hsize
    cases reads with
    | nil =>
      cases hlast
      have hreach : offset + buffer.length = header.fileSize := by simpa [content] using hsize
      have hfits := fileSize_le header
      obtain ⟨actions, hprocess, hcount⟩ := process_last hpass hbuffer hwrite
        (h.closed _ List.mem_cons_self) h0 hreach.ge (by omega) buffered disk
      refine ⟨[], actions, ?_, by simp, hcount⟩
      simp [runReads, hprocess, content]
    | cons read' reads =>
      rw [List.getLast?_cons_cons] at hlast
      have hnext := h.tail.length_pos List.mem_cons_self
      have hlt : offset + buffer.length < header.fileSize := by omega
      have hpart := process_part hpass hbuffer hwrite h0 hlt buffered disk
      obtain ⟨before, actions, hrun, hbefore, hcount⟩ :=
        ih h.tail (fun r hr => hpasses r (List.mem_cons_of_mem _ hr)) hlast
          (add_nonneg h0 (Int.natCast_nonneg buffer.length)) (by omega)
          ((buffered ++ buffer).drop host.flushed)
          (disk.append header.path ((buffered ++ buffer).take host.flushed))
      have hcontent : (buffered ++ buffer).take host.flushed ++
          ((buffered ++ buffer).drop host.flushed ++ content (read' :: reads)) =
            buffered ++ content ((host, buffer) :: read' :: reads) := by
        rw [← List.append_assoc, List.take_append_drop, List.append_assoc]
        rfl
      refine ⟨[] :: before, actions, ?_, List.forall_mem_cons.2 ⟨rfl, hbefore⟩, hcount⟩
      rw [runReads_cons hpart, hrun, Disk.append_append, hcontent]
      rfl

/-- The state at the end of a run that does not throw. -/
def EndsIn (P : FileSession → Prop) (run : Option (FileSession × Disk × List (List Action))) : Prop :=
  ∀ s disk actions, run = some (s, disk, actions) → P s

theorem EndsIn.cons {P : FileSession → Prop} {s s' : FileSession} {disk disk' : Disk} {host : Host}
    {buffer : Bytes} {actions : List Action} {reads : List (Host × Bytes)}
    (hstep : s.process disk host buffer = some (s', disk', actions))
    (h : EndsIn P (s'.runReads disk' reads)) :
    EndsIn P (s.runReads disk ((host, buffer) :: reads)) := by
  intro _ _ _ hrun
  rw [runReads_cons hstep] at hrun
  obtain ⟨⟨_, _, _⟩, hrest, hrun⟩ := Option.map_eq_some_iff.1 hrun
  cases hrun
  exact h _ _ _ hrest

/-- **An upload with a read that does not pass goes on**: bytes are missing at the end. -/
theorem uploading_of_not_passes {reads : List (Host × Bytes)} (h : IsContent reads)
    {offset : ℤ} (h0 : 0 ≤ offset) (hle : offset + (content reads).length ≤ header.fileSize)
    (hmissing : offset + (content reads).length < header.fileSize ∨
      ∃ read ∈ reads, ¬ Passes read.2) (buffered : Bytes) (disk : Disk) :
    EndsIn (fun s => s.isState = true) ((uploading header offset buffered).runReads disk reads) := by
  induction reads generalizing offset buffered disk with
  | nil =>
    rintro s disk' actions ⟨⟩
    rfl
  | cons read reads ih =>
    obtain ⟨host, buffer⟩ := read
    have hbuffer : buffer ≠ [] := h.nonempty _ List.mem_cons_self
    have hpos : 0 < buffer.length := List.length_pos_iff.2 hbuffer
    rw [length_content_cons] at hle hmissing
    by_cases hhttp : isHTTPProtocol buffer = true
    · -- answered as a request: its bytes are missing from now on
      exact EndsIn.cons (process_http hhttp _ disk host)
        (ih h.tail h0 (by omega) (Or.inl (by omega)) buffered disk)
    by_cases hparse : Reader.parse buffer = none
    · intro s disk' actions hrun
      simp [runReads, process, hparse] at hrun
    have hpass : Passes buffer := ⟨Bool.eq_false_iff.2 hhttp, hparse⟩
    have hrest : offset + buffer.length + (content reads).length < header.fileSize ∨
        ∃ read ∈ reads, ¬ Passes read.2 := by
      rcases hmissing with hlt | ⟨read, hread, hnot⟩
      · exact Or.inl (by omega)
      · rcases List.mem_cons.1 hread with rfl | hread
        · exact absurd hpass hnot
        · exact Or.inr ⟨read, hread, hnot⟩
    have hlt : offset + buffer.length < header.fileSize := by
      rcases hrest with hlt | ⟨read, hread, -⟩
      · omega
      · have hnext := h.tail.length_pos hread
        omega
    exact EndsIn.cons (process_part hpass hbuffer (h.written _ List.mem_cons_self) h0 hlt buffered disk)
      (ih h.tail (by omega) (by omega) hrest _ _)

/-- The command that ends the upload of a video leaves the bytes of its file as they are. -/
def KeepsUpload (header : UploadHeader) (reads : List (Host × Bytes)) (disk : Disk) : Prop :=
  contains (ascii ".mp4") header.fileName = true → ∀ last ∈ reads.getLast?,
    last.1.system (convertCommand (uploadPath header.fileName))
      (disk.write header.path (content reads)) header.path = some (content reads)

theorem keepsUpload_iff {reads : List (Host × Bytes)} {last : Host × Bytes}
    (hlast : reads.getLast? = some last) (disk : Disk) :
    KeepsUpload header reads disk ↔
      converted header last.1 (disk.write header.path (content reads)) header.path =
        some (content reads) := by
  unfold KeepsUpload converted
  split_ifs with hvideo
  · simp [hvideo, hlast]
  · simp [hvideo]

/-- A host on which everything succeeds, and a file is written when it is closed. -/
def quietHost : Host where
  opens _ := true
  writeError := none
  flushed := 0
  closeError := none
  media _ := none
  system _ disk := disk

/-- The header of an upload of three bytes. -/
def pageHeader : UploadHeader where
  text := ascii "\x7b\"fileName\":\"a.html\",\"fileSize\":3\x7d"
  root := .object [(ascii "fileName", .string (ascii "a.html")), (ascii "fileSize", .int 3)]
  fileName := ascii "a.html"
  fileSize := 3
  accepted := rfl
  valid := by decide +kernel
  named := by decide +kernel
  sized := by decide +kernel
  pos := by decide

theorem isContent_page {buffer : Bytes} (h : buffer ≠ []) : IsContent [(quietHost, buffer)] where
  nonempty read hread := by rwa [List.mem_singleton.1 hread]
  written read hread := by rw [List.mem_singleton.1 hread]; rfl
  closed read hread := by rw [List.mem_singleton.1 hread]; rfl

end FileSession

end GraduationServer
