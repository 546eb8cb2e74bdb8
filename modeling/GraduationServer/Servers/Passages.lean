import GraduationServer.File.Received
import GraduationServer.File.Responses
import GraduationServer.File.Served
import GraduationServer.Servers.Handles

/-!
# What one message does

A message to a file session does one of four things with the disk and the streams (`Passage`): nothing, or
it opens a file, writes to the file of the session, or writes to it and closes it. So a file that is not the
session's stays as it is, unless the message opens it (`Passage.elsewhere`), and so do the buffers of the
other streams (`Passage.buffers_eq`).

For the session of an upload, a message adds its bytes, and the one that reaches the announced size closes
the file (`process_receiving`). The file of a name that is `Downloadable` is then what a request for the name
gets (`get_downloadable`).
-/

namespace GraduationServer

open Json Http

/-- The commands of the host leave a file alone. -/
def Host.Spares (host : Host) (path : Bytes) : Prop :=
  ∀ command disk, host.system command disk path = disk path

namespace FileSession

/-! ## Four kinds of messages -/

/-- A message to a session, with what it does. -/
inductive Passage (host : Host) (s : Fields) (w : World) : Fields → World → List Action → Prop
  | same (actions : List Action) : Passage host s w s w actions
  | opens (path fileName filePath : Bytes) (filesize : ℤ) (actions : List Action) (hfp : s.fp = none)
      (hmem : Action.fopen path ∈ actions) :
      Passage host s w
        { s with fp := some w.streams.next, fileName, filePath, isState := true, filesize }
        ⟨w.disk.write path [], w.streams.opened path, Function.update w.buffers w.streams.next []⟩ actions
  | writes (i : ℕ) (path data buffered : Bytes) (offset : ℤ) (hfp : s.fp = some i)
      (hfile : w.streams.file i = some path) :
      Passage host s w { s with offset }
        ⟨w.disk.append path data, w.streams, Function.update w.buffers i buffered⟩ []
  | closes (i : ℕ) (path data buffered : Bytes) (disk : Disk) (actions : List Action) (hfp : s.fp = some i)
      (hfile : w.streams.file i = some path)
      (hdisk : disk = w.disk.append path data ∨
        ∃ command, disk = host.system command (w.disk.append path data)) :
      Passage host s w {} ⟨disk, w.streams.closed i, Function.update w.buffers i buffered⟩ actions

/-- Between two messages a session has a stream exactly while an upload is going on, and without one it is
as it was made. -/
structure Fields.Settled (s : Fields) : Prop where
  state : s.isState = true ↔ s.fp ≠ none
  reset : s.fp = none → s = {}

theorem settled_new : ({} : Fields).Settled := ⟨by simp, fun _ => rfl⟩

variable {host : Host} {s s' : Fields} {w w' : World} {actions : List Action} {buffer : Bytes}

/-- What is written goes to the buffer of the stream and to the file behind it. -/
theorem of_fwrite {fp : Option ℕ} {data : Bytes} {written : Bool}
    (h : fwrite host w fp data = .ok (written, w')) :
    ∃ i path buffered disk, fp = some i ∧ w.streams.file i = some path ∧
      w' = ⟨disk, w.streams, Function.update w.buffers i buffered⟩ ∧
      (written = false ∧ disk = w.disk ∨ written = true ∧ ∃ data', disk = w.disk.append path data') := by
  unfold fwrite at h
  split at h
  · next i path hpath =>
    dsimp only at h
    split at h
    · cases h
      exact ⟨i, path, _, _, rfl, hpath, rfl, .inl ⟨rfl, rfl⟩⟩
    · cases h
      exact ⟨i, path, _, _, rfl, hpath, rfl, .inr ⟨rfl, _, rfl⟩⟩
  · cases h

theorem of_fclose {i : ℕ} {path : Bytes} (hpath : w.streams.file i = some path)
    (h : fclose host w (some i) = .ok w') :
    ∃ data, w' = ⟨w.disk.append path data, w.streams.closed i, w.buffers⟩ := by
  have htarget : w.streams.target (some i) = some path := hpath
  simp only [fclose, htarget] at h
  cases h
  exact ⟨_, rfl⟩

theorem passage_takeData (hs : s.Settled) (h : s.takeData w host buffer = .ok (s', w', actions)) :
    Passage host s w s' w' actions := by
  unfold Fields.takeData at h
  split at h
  · next hfp =>
    obtain rfl := hs.reset hfp
    cases h
    exact .same _
  · obtain ⟨⟨written, w₁⟩, hwrite, h⟩ := bind_eq_ok h
    obtain ⟨i, path, buffered, disk, hfp, hfile, rfl, hwritten⟩ := of_fwrite hwrite
    dsimp only at h
    rcases hwritten with ⟨rfl, rfl⟩ | ⟨rfl, data, rfl⟩
    · rw [if_neg Bool.false_ne_true] at h
      obtain ⟨w₂, hclose, h⟩ := bind_eq_ok h
      rw [hfp] at hclose
      obtain ⟨last, rfl⟩ := @of_fclose host
        ⟨w.disk, w.streams, Function.update w.buffers i buffered⟩ w₂ i path hfile hclose
      cases h
      exact .closes i path last buffered _ _ hfp hfile (.inl rfl)
    · rw [if_pos rfl] at h
      split at h
      · obtain ⟨w₂, hclose, h⟩ := bind_eq_ok h
        rw [hfp] at hclose
        obtain ⟨last, rfl⟩ := @of_fclose host
          ⟨w.disk.append path data, w.streams, Function.update w.buffers i buffered⟩ w₂ i path hfile hclose
        dsimp only at h
        rw [Disk.append_append] at h
        split at h
        · cases h
          exact .closes i path _ buffered _ _ hfp hfile (.inr ⟨_, rfl⟩)
        · cases h
          exact .closes i path _ buffered _ _ hfp hfile (.inl rfl)
      · cases h
        exact .writes i path data buffered _ hfp hfile

theorem passage_takeHeader {jsonStr : Value}
    (h : Fields.takeHeader {} w host jsonStr = .ok (s', w', actions)) :
    Passage host {} w s' w' actions := by
  unfold Fields.takeHeader at h
  obtain ⟨valid, -, h⟩ := bind_eq_ok h
  split at h
  · obtain ⟨fileName, -, h⟩ := bind_eq_ok h
    obtain ⟨filesize, -, h⟩ := bind_eq_ok h
    dsimp only [fopen] at h
    by_cases hopen : host.opens (cStr (uploadPath fileName)) = true
    · simp only [hopen, if_true, reduceCtorEq, if_false] at h
      cases h
      exact .opens _ fileName _ filesize _ rfl List.mem_cons_self
    · simp only [hopen, Bool.false_eq_true, if_false, if_true] at h
      cases h
      exact .same _
  · cases h
    exact .same _

/-- **A message does one of the four things.** -/
theorem passage_process (hs : s.Settled) (h : s.process w host buffer = .ok (s', w', actions)) :
    Passage host s w s' w' actions := by
  obtain ⟨⟨ok, root⟩, -, h⟩ := bind_eq_ok h
  dsimp only at h
  split at h
  · cases h
    exact .same _
  · unfold Fields.onUploadFileResponse at h
    split at h
    · exact passage_takeData hs h
    · next hstate =>
      obtain ⟨⟨ok, jsonStr⟩, -, h⟩ := bind_eq_ok h
      dsimp only at h
      split at h
      · obtain rfl := hs.reset (not_not.1 fun hfp => hstate (hs.state.2 hfp))
        exact passage_takeHeader h
      · exact passage_takeData hs h

theorem Passage.settled (h : Passage host s w s' w' actions) (hs : s.Settled) : s'.Settled := by
  cases h with
  | same => exact hs
  | opens => exact ⟨by simp, nofun⟩
  | writes i path data buffered offset hfp =>
    refine ⟨hs.state, fun hnone => ?_⟩
    cases hfp.symm.trans hnone
  | closes => exact settled_new

/-- The session uses its own stream. -/
theorem Passage.use (h : Passage host s w s' w' actions) : w.streams.Use s.fp w'.streams s'.fp := by
  cases h with
  | same => exact .keep _
  | opens path _ _ _ _ hfp =>
    rw [hfp]
    exact .gain path
  | writes => exact .keep _
  | closes i _ _ _ _ _ hfp =>
    rw [hfp]
    exact .lose i

theorem append_of_ne (disk : Disk) {path path' : Bytes} (data : Bytes) (h : path' ≠ path) :
    disk.append path data path' = disk path' := if_neg h

/-- **A message leaves a file alone** that is not the one of the session and that it does not open. -/
theorem Passage.elsewhere (h : Passage host s w s' w' actions) {path : Bytes}
    (hown : ∀ i, s.fp = some i → w.streams.file i ≠ some path) (hopen : Action.fopen path ∉ actions)
    (hspares : host.Spares path) :
    w'.disk path = w.disk path ∧ ∀ i, s'.fp = some i → w'.streams.file i ≠ some path := by
  cases h with
  | same => exact ⟨rfl, hown⟩
  | opens path' _ _ _ _ hfp hmem =>
    have hne : path ≠ path' := by
      rintro rfl
      exact hopen hmem
    refine ⟨if_neg hne, fun i hi => ?_⟩
    cases hi
    rw [show (w.streams.opened path').file w.streams.next = some path' from Streams.target_opened ..]
    exact fun heq => hne (Option.some_inj.1 heq).symm
  | writes i path' data buffered offset hfp hfile =>
    have hne : path ≠ path' := by
      rintro rfl
      exact hown i hfp hfile
    exact ⟨append_of_ne _ _ hne, hown⟩
  | closes i path' data buffered disk _ hfp hfile hdisk =>
    have hne : path ≠ path' := by
      rintro rfl
      exact hown i hfp hfile
    refine ⟨?_, nofun⟩
    rcases hdisk with rfl | ⟨command, rfl⟩
    · exact append_of_ne _ _ hne
    · exact (hspares _ _).trans (append_of_ne _ _ hne)

/-- **A message leaves the buffers of other streams alone.** -/
theorem Passage.buffers_eq (h : Passage host s w s' w' actions) {j : ℕ} (hlt : j < w.streams.next)
    (hj : s.fp ≠ some j) : w'.buffers j = w.buffers j := by
  cases h with
  | same => rfl
  | opens => exact Function.update_of_ne (Nat.ne_of_lt hlt) ..
  | writes i _ _ _ _ hfp | closes i _ _ _ _ _ hfp =>
    refine Function.update_of_ne ?_ ..
    rintro rfl
    exact hj hfp

/-- What has been given to a stream is in its file, and behind that in its buffer. -/
def World.Keeps (w : World) (i : ℕ) (path data : Bytes) : Prop :=
  ∃ written, w.disk path = some written ∧ written ++ w.buffers i = data

/-! ## The session of an upload -/

/-- The members in the middle of an upload. -/
def receiving (header : UploadHeader) (i : ℕ) (offset : ℤ) : Fields where
  fp := some i
  fileName := header.fileName
  filePath := uploadPath header.fileName
  isState := true
  offset := offset
  filesize := header.fileSize

variable {header : UploadHeader}

/-- The header of an upload opens the file. -/
theorem process_accepted (header : UploadHeader) (hopen : host.opens header.path = true) (w : World) :
    Fields.process {} w host header.text =
      .ok (receiving header w.streams.next 0,
        ⟨w.disk.write header.path [], w.streams.opened header.path,
          Function.update w.buffers w.streams.next []⟩, [.fopen header.path]) := by
  have hopen' : host.opens (cStr (uploadPath header.fileName)) = true := hopen
  simp [Fields.process, Fields.onUploadFileResponse, Fields.takeHeader, orThrow, bind, Except.bind, pure,
    Except.pure, fopen, header.accepted, header.valid, header.named, header.sized, hopen', receiving,
    UploadHeader.path]

/-- **A message of an upload adds its bytes**, and the one that reaches the announced size closes the
file, which then has them all. A video, which is converted behind that, is left out. -/
theorem process_receiving {i : ℕ} {data : Bytes} (hfile : w.streams.file i = some header.path)
    (hdata : w.Keeps i header.path data) (hpasses : Passes buffer) (hne : buffer ≠ [])
    (hwrite : host.writeError = none) (hclose : host.closeError = none)
    (hvideo : contains (ascii ".mp4") header.fileName = false)
    (hle : data.length + buffer.length ≤ header.fileSize) :
    ∃ s' w' actions, (receiving header i data.length).process w host buffer = .ok (s', w', actions) ∧
      if (data.length : ℤ) + buffer.length < header.fileSize then
        s' = receiving header i (data ++ buffer).length ∧ w'.streams = w.streams ∧
          w'.Keeps i header.path (data ++ buffer)
      else s' = {} ∧ w'.streams = w.streams.closed i ∧ w'.disk header.path = some (data ++ buffer) := by
  have hsize := fileSize_le header
  have hoffset : Int.bmod ((data.length : ℤ) + buffer.length) (2 ^ 32) = data.length + buffer.length :=
    @bmod_offset buffer _ (Int.natCast_nonneg _) (by omega)
  have htarget : w.streams.target (some i) = some header.path := hfile
  obtain ⟨written, hdisk, hkept⟩ := hdata
  have hfirst : w.disk.append header.path ((w.buffers i ++ buffer).take host.flushed) header.path =
      some (written ++ (w.buffers i ++ buffer).take host.flushed) := by
    rw [Disk.append, Disk.write_self, hdisk, Option.getD_some]
  have hall : written ++ ((w.buffers i ++ buffer).take host.flushed ++
      (w.buffers i ++ buffer).drop host.flushed) = data ++ buffer := by
    rw [List.take_append_drop, ← List.append_assoc, hkept]
  obtain ⟨hhttp, hparse⟩ := hpasses
  obtain ⟨⟨ok, root⟩, hroot⟩ := Option.ne_none_iff_exists'.1 hparse
  have hprocess : (receiving header i data.length).process w host buffer =
      (receiving header i data.length).takeData w host buffer := by
    simp [Fields.process, Fields.onUploadFileResponse, orThrow, bind, Except.bind, hroot, hhttp, receiving]
  rw [hprocess]
  by_cases hlt : (data.length : ℤ) + buffer.length < header.fileSize
  · refine ⟨receiving header i (data ++ buffer).length,
      ⟨w.disk.append header.path ((w.buffers i ++ buffer).take host.flushed), w.streams,
        Function.update w.buffers i ((w.buffers i ++ buffer).drop host.flushed)⟩, [], ?_, ?_⟩
    · simp only [Fields.takeData, receiving, reduceCtorEq, if_false, fwrite, htarget, hne, hwrite, bind,
        Except.bind, if_true, hoffset, not_le.2 hlt, List.length_append, Nat.cast_add]
      rfl
    · rw [if_pos hlt]
      refine ⟨rfl, rfl, _, hfirst, ?_⟩
      dsimp only
      rw [Function.update_self, List.append_assoc, hall]
  · refine ⟨{}, ⟨w.disk.append header.path (w.buffers i ++ buffer), w.streams.closed i,
        Function.update w.buffers i ((w.buffers i ++ buffer).drop host.flushed)⟩,
      [onFileWriteStateResponse 1 (finishedType header.fileName)], ?_, ?_⟩
    · simp only [Fields.takeData, receiving, reduceCtorEq, if_false, fwrite, htarget, hne, hwrite, bind,
        Except.bind, if_true, hoffset, not_lt.1 hlt, fclose, hvideo, Bool.false_eq_true, Host.closing,
        hclose, Function.update_self, Disk.append_append, List.take_append_drop]
      rfl
    · rw [if_neg hlt]
      refine ⟨rfl, rfl, ?_⟩
      dsimp only
      rw [Disk.append, Disk.write_self, hdisk, Option.getD_some, ← List.append_assoc, hkept]

/-! ## Requests for an uploaded file -/

/-- The names under which a file is stored and asked for: those of pages, sounds and images that are of one
kind. A video is asked for as a play list, and a segment is sent twice. -/
structure Downloadable (fileName : Bytes) : Prop extends Servable fileName where
  noVideo : contains (ascii ".mp4") fileName = false
  noSegment : contains (ascii ".ts") fileName = false
  oneKind : contains (ascii ".html") fileName = true → contains (ascii ".mp3") fileName = false

theorem requestPath_of_downloadable {fileName : Bytes} (h : Downloadable fileName) :
    requestPath fileName = uploadPath fileName := by
  have hdir : uploadDir fileName = (requestDir fileName).1 := by
    refine (uploadDir_eq_iff h.toServable).2 ?_
    rintro ⟨hpage, hvideo | hsound⟩
    · rw [h.noVideo] at hvideo
      cases hvideo
    · rw [h.oneKind hpage] at hsound
      cases hsound
  rw [requestPath_of_servable h.toServable, uploadPath_eq, hdir]

/-- A file is sent as the body of one response. -/
theorem exists_response {disk : Disk} {filePath contentType content : Bytes}
    (hfile : disk (cStr filePath) = some content) (h : 0x0D ∉ contentType ∧ 0x0A ∉ contentType) :
    ∃ r : Response, sent (sendResponse disk filePath contentType) = r.code ∧ r.body = content := by
  have hlong : ¬ (packHTTPResponse disk filePath contentType).2.length < 10 := by
    have hstatus : (ascii "HTTP/1.1 200 OK\r\n").length = 17 := rfl
    simp only [packHTTPResponse, hfile, List.length_append, hstatus]
    omega
  refine ⟨⟨okStatus, fileFields contentType h content.length, .sized content.length, content,
    isStatus_okStatus, framing_fileFields h content.length, rfl⟩, ?_, rfl⟩
  unfold sendResponse
  dsimp only
  rw [if_neg hlong, sent_append, sent_cons, sent_sendFileData, hfile, Option.getD_some]
  simp only [packHTTPResponse, hfile, sent_cons, sent_nil, Action.sent_ifstream, List.nil_append,
    Action.sent_send]
  rw [← code_fileFields h, Response.code, List.append_assoc]

/-- **A request for a file gets its content.** -/
theorem get_downloadable {fileName content : Bytes} (h : Downloadable fileName) {disk : Disk}
    (hfile : disk (cStr (uploadPath fileName)) = some content) (media : Media) (version rest : Bytes) :
    ∃ r : Response, sent (onHttpResponse disk media (getRequest fileName version rest)) = r.code ∧
      r.body = content := by
  have hname := parseHTTPRequest_getRequest version rest h.toServable
  rw [← requestPath_of_downloadable h] at hfile
  have hraw : rawContent disk (getRequest fileName version rest) = [] := by
    rw [rawContent, hname, h.noDownload]
    rfl
  rw [sent_onHttpResponse, hraw, List.nil_append, hname, afterDownload, h.noVideo, h.noSegment]
  exact exists_response hfile (noBreak_requestDir fileName)

end FileSession

end GraduationServer
