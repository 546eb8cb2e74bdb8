import GraduationServer.File.Http
import GraduationServer.Json.Reader

/-!
# The file session

`FileSession` (`FileServer/FileSession.cpp`): every read is one message. A message that is JSON, or
that does not begin with an HTTP method, belongs to an upload; any other is an HTTP request.

An upload is a JSON header, which opens the file, and then messages whose bytes are written to the
file until the announced size is reached. `m_isState` tells that a header has been accepted: then
nothing is taken for a header. What `fwrite` is given is in the buffer of the stream first; when it goes to
the file is left to the host, and `fclose` writes what is left in the buffer. `process` is `none` when the
JSON reader or an accessor throws.
-/

namespace GraduationServer

open Json

/-- What the session takes from the host: the paths that open for writing; of the bytes in the buffer of a
stream and behind them those of the message, how many `fwrite` takes when it fails, and how many it passes on
to the file when it succeeds; how many bytes of the buffer reach the file when `fclose` fails; the media
library, and the shell. -/
structure Host where
  opens : Bytes → Bool
  writeError : Option ℕ
  flushed : ℕ
  closeError : Option ℕ
  media : Media
  system : Bytes → Disk → Disk

/-- The bytes of a buffer that `fclose` writes. -/
def Host.closing (host : Host) (buffered : Bytes) : Bytes :=
  match host.closeError with
  | none => buffered
  | some n => buffered.take n

/-- The members of a session: the path of the open file with what is in the buffer of its stream, the names
and sizes. -/
structure FileSession where
  fp : Option Bytes := none
  buffered : Bytes := []
  fileName : Bytes := []
  filePath : Bytes := []
  isState : Bool := false
  offset : ℤ := 0
  filesize : ℤ := 0

/-- The disk with a content at a path. -/
def Disk.write (disk : Disk) (path content : Bytes) : Disk :=
  fun p => if p = path then some content else disk p

/-- The disk with bytes behind the content at a path. -/
def Disk.append (disk : Disk) (path data : Bytes) : Disk :=
  disk.write path ((disk path).getD [] ++ data)

@[simp] theorem Disk.write_self (disk : Disk) (path content : Bytes) :
    disk.write path content path = some content := if_pos rfl

/-- What is written behind a content is behind it. -/
@[simp] theorem Disk.append_write (disk : Disk) (path content data : Bytes) :
    (disk.write path content).append path data = disk.write path (content ++ data) := by
  funext p
  rw [Disk.append, Disk.write_self, Option.getD_some]
  simp only [Disk.write]
  split <;> rfl

@[simp] theorem Disk.append_append (disk : Disk) (path data data' : Bytes) :
    (disk.append path data).append path data' = disk.append path (data ++ data') := by
  have hfirst : disk.append path data = disk.write path ((disk path).getD [] ++ data) := rfl
  rw [hfirst, Disk.append_write, Disk.append, List.append_assoc]

namespace FileSession

/-- The session after a message, the disk, and what was done. -/
abbrev Outcome := FileSession × Disk × List Action

/-- `OnFileWriteStateResponse`. -/
def onFileWriteStateResponse (state : ℤ) (type : Bytes) : Action :=
  .respond (.ofMembers [(ascii "responsesState", .int state), (ascii "fileState", .string type)])

/-- The path of an upload: without one of the extensions there is no slash in front of the name. -/
def uploadPath (fileName : Bytes) : Bytes :=
  if contains (ascii ".html") fileName then sourceFile ++ ascii "/ptFile/" ++ fileName
  else if contains (ascii ".mp4") fileName then sourceFile ++ ascii "/video/" ++ fileName
  else if contains (ascii ".mp3") fileName then sourceFile ++ ascii "/audio/" ++ fileName
  else if contains (ascii ".png") fileName then sourceFile ++ ascii "/Img/" ++ fileName
  else sourceFile ++ fileName

/-- The command of `handleVideo`, which converts a video. -/
def convertCommand (fileName : Bytes) : Bytes :=
  ascii "ffmpeg -i " ++ fileName ++ ascii " -c:v copy -c:a copy -bsf:v h264_mp4toannexb -f mpegts " ++
    replaceFirst (ascii ".mp4") (ascii ".ts") fileName

/-- The member `fileSize` is there and an integer. -/
def hasFileSize (root : Value) : Option Bool :=
  (root.isMember (ascii "fileSize")).bind fun known =>
    if known then (root.member (ascii "fileSize")).map Value.isInt else some false

/-- The header of an upload has been parsed, and `m_isState` is set. -/
def openUpload (s : FileSession) (disk : Disk) (host : Host) (root : Value) : Option Outcome := do
  let valid ← hasFileSize root
  if valid then
    let fileName ← root.stringMember (ascii "fileName")
    let filesize ← root.intMember (ascii "fileSize")
    let dirStr := uploadPath fileName
    let path := cStr dirStr
    if host.opens path then
      return ({ s with
        isState := true, filesize, fp := some path, buffered := [], filePath := dirStr, fileName },
        disk.write path [], [.fopen path])
    else
      return ({ s with isState := false, filesize := 0, offset := 0, fp := none, buffered := [] }, disk,
        [.fopen path, onFileWriteStateResponse (-1) (ascii "FaildOpen")])
  else
    return ({ s with isState := false }, disk,
      [onFileWriteStateResponse (-1) (ascii "InvalidJSON")])

/-- The type in the reply to a finished upload. -/
def finishedType (fileName : Bytes) : Bytes :=
  if contains (ascii ".html") fileName then ascii "html"
  else if contains (ascii ".png") fileName then ascii "Next"
  else ascii "Ok"

/-- The message is written to the file. `m_offset` has 32 bits. An empty item is not written. -/
def writeUpload (s : FileSession) (disk : Disk) (host : Host) (filedata : Bytes) : Outcome :=
  match s.fp with
  | none => ({}, disk, [onFileWriteStateResponse (-1) (ascii "FaildOpen")])
  | some path =>
    let bytes := s.buffered ++ filedata
    let written := if filedata = [] then some s.buffered.length else host.writeError
    match written with
    | some n =>
      ({}, disk.append path (host.closing (bytes.take n)),
        [onFileWriteStateResponse (-1) (ascii "writeError")])
    | none =>
      let disk := disk.append path (bytes.take host.flushed)
      let buffered := bytes.drop host.flushed
      let offset := Int.bmod (s.offset + filedata.length) (2 ^ 32)
      if s.filesize ≤ offset then
        let disk := disk.append path (host.closing buffered)
        let reply := onFileWriteStateResponse 1 (finishedType s.fileName)
        if contains (ascii ".mp4") s.fileName then
          let command := convertCommand s.filePath
          ({}, host.system command disk, [reply, .system command])
        else ({}, disk, [reply])
      else ({ s with offset, buffered }, disk, [])

/-- `OnUploadFileResponse`. -/
def onUploadFileResponse (s : FileSession) (disk : Disk) (host : Host) (filedata : Bytes) :
    Option Outcome :=
  if s.isState then some (writeUpload s disk host filedata)
  else
    (Reader.parse filedata).bind fun (ok, jsonStr) =>
      if ok then openUpload s disk host jsonStr else some (writeUpload s disk host filedata)

/-- `Process`; it always returns `true`. -/
def process (s : FileSession) (disk : Disk) (host : Host) (buffer : Bytes) : Option Outcome :=
  (Reader.parse buffer).bind fun (ok, _) =>
    if !ok && isHTTPProtocol buffer then some (s, disk, onHttpResponse disk host.media buffer)
    else onUploadFileResponse s disk host buffer

end FileSession

end GraduationServer
