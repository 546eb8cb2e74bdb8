import GraduationServer.File.Served

/-!
# The command of a conversion

`handleVideo` hands the path of a stored video to the shell as a part of a text. Along every run of a
session the commands are those of the files that have been uploaded (`command_of_process`). The shell cuts
such a text into words: they are one invocation of `ffmpeg` with the path as its input and that of the
segment as its output (`Converts`) exactly if no byte in the name of the file means anything to the shell
(`converts_iff`). A zero byte in the name means something, too: it ends the text.
-/

namespace GraduationServer

open Shell

/-- The command that an action hands to the shell. -/
def Action.command : Action → Option Bytes
  | .system command => some command
  | _ => none

/-- The commands that some actions hand to the shell. -/
def commands (actions : List Action) : List Bytes := actions.filterMap Action.command

@[simp] theorem commands_nil : commands [] = [] := rfl

@[simp] theorem commands_append (actions actions' : List Action) :
    commands (actions ++ actions') = commands actions ++ commands actions' := List.filterMap_append

@[simp] theorem commands_send (data : Bytes) (actions : List Action) :
    commands (.send data :: actions) = commands actions := rfl

@[simp] theorem commands_ifstream (path : Bytes) (actions : List Action) :
    commands (.ifstream path :: actions) = commands actions := rfl

@[simp] theorem commands_openMedia (path : Bytes) (actions : List Action) :
    commands (.openMedia path :: actions) = commands actions := rfl

theorem mem_commands {actions : List Action} {command : Bytes} (h : command ∈ commands actions) :
    .system command ∈ actions := by
  obtain ⟨a, ha, hcommand⟩ := List.mem_filterMap.1 h
  cases a <;> cases hcommand
  exact ha

namespace FileSession

/-- The command, a C string, is one invocation of `ffmpeg` with the path as its input and the path of the
segment as its output, each a word of its own. -/
def Converts (command path : Bytes) : Prop :=
  ∃ options, shellWords (cStr command) = some (ascii "ffmpeg" :: ascii "-i" :: path ::
    (options ++ [replaceFirst (ascii ".mp4") (ascii ".ts") path]))

section Words

variable {fileName path : Bytes}

/-- The text up to the options, which are all plain. -/
theorem convertCommand_eq_append (path : Bytes) :
    convertCommand path = ascii "ffmpeg" ++ 0x20 :: (ascii "-i" ++ 0x20 :: (path ++ 0x20 ::
      (ascii "-c:v" ++ 0x20 :: (ascii "copy -c:a copy -bsf:v h264_mp4toannexb -f mpegts " ++
        replaceFirst (ascii ".mp4") (ascii ".ts") path)))) := by
  have hfront : ascii "ffmpeg -i" = ascii "ffmpeg" ++ 0x20 :: ascii "-i" := rfl
  have hoptions : ascii "-c:v copy -c:a copy -bsf:v h264_mp4toannexb -f mpegts" ++ [0x20] =
      ascii "-c:v" ++ 0x20 :: ascii "copy -c:a copy -bsf:v h264_mp4toannexb -f mpegts " := rfl
  rw [convertCommand_eq, hfront, List.append_cons _ 0x20 (replaceFirst _ _ _), hoptions]
  simp only [List.append_assoc, List.cons_append]

/-- The path of an upload begins with a slash, and ends with the name. -/
theorem uploadPath_slash (fileName : Bytes) :
    ∃ p, uploadPath fileName = 0x2F :: p ∧ ∀ c ∈ fileName, c ∈ p := by
  unfold uploadPath
  split_ifs <;> exact ⟨_, rfl, fun c hc => List.mem_append_right _ hc⟩

/-- With a zero byte in it the words of the path are longer than the text. -/
theorem not_converts_of_zero (hzero : 0 ∈ path) : ¬ Converts (convertCommand path) path := by
  rintro ⟨options, hwords⟩
  have hsize := size_shellWords_le hwords
  have hcut : (cStr path).length ≤ path.length := (List.takeWhile_sublist _).length_le
  have hffmpeg : (ascii "ffmpeg").length = 6 := rfl
  have hinput : (ascii "-i").length = 2 := rfl
  have hfront : (ascii "ffmpeg -i").length = 9 := rfl
  rw [cStr_convertCommand_of_zero hzero] at hsize
  simp only [size_cons, size_append, List.length_append, List.length_cons, hffmpeg, hinput,
    hfront] at hsize
  omega

/-- **The command is one conversion exactly if every byte of the name stands for itself.** -/
theorem converts_convertCommand_iff (fileName : Bytes) :
    Converts (convertCommand (uploadPath fileName)) (uploadPath fileName) ↔
      ∀ c ∈ fileName, isPlain c = true := by
  refine ⟨fun hconverts => ?_, fun h => ⟨conversionOptions, shellWords_convertCommand h⟩⟩
  have hzero : 0 ∉ uploadPath fileName := fun hmem => not_converts_of_zero hmem hconverts
  obtain ⟨options, hwords⟩ := hconverts
  obtain ⟨p, hpath, hname⟩ := uploadPath_slash fileName
  rw [cStr_of_notMem (zero_notMem_convertCommand hzero), convertCommand_eq_append, shellWords,
    scan_word_iff (by decide +kernel) (by decide +kernel),
    scan_word_iff (by decide +kernel) (by decide +kernel)] at hwords
  obtain ⟨-, -, hscan⟩ := hwords
  rw [hpath, List.cons_append] at hscan
  have hplain := isPlain_of_scan (by decide) (by decide) (by decide +kernel) (by decide +kernel)
    (by simp only [size_append, size_cons, size_nil]; omega) hscan
  exact fun c hc => hplain c (hname c hc)

end Words

/-! ## Runs -/

section Requests

variable (disk : Disk) (media : Media) (filePath contentType : Bytes)

theorem commands_map_send (l : List Bytes) : commands (l.map .send) = [] := by
  induction l with
  | nil => rfl
  | cons data l ih => exact ih

theorem commands_chunks (base : ℕ) (l : List Bytes) : commands (l.flatMap (chunk base)) = [] := by
  induction l with
  | nil => rfl
  | cons data l ih => exact ih

theorem commands_sendFileData : commands (sendFileData disk filePath) = [] := by
  unfold sendFileData
  cases disk (cStr filePath) <;> simp [commands_map_send]

theorem commands_streamMedia_ts : commands (streamMedia_ts disk filePath) = [] := by
  unfold streamMedia_ts
  cases disk (cStr filePath) <;> simp [commands_chunks]

theorem commands_streamMedia_m3u8Str : commands (streamMedia_m3u8Str media filePath) = [] := by
  unfold streamMedia_m3u8Str
  cases media (cStr filePath) <;> rfl

theorem commands_sendResponse : commands (sendResponse disk filePath contentType) = [] := by
  have hchunked : commands (sendChunkedData disk filePath) = [] := by
    unfold sendChunkedData
    cases disk (cStr filePath) <;> simp [commands_chunks]
  unfold sendResponse packHTTPResponse
  dsimp only
  split_ifs <;> simp [hchunked, commands_sendFileData]

/-- A request gives no command. -/
theorem commands_onHttpResponse (buff : Bytes) : commands (onHttpResponse disk media buff) = [] := by
  have hdownload : ∀ path, commands (onDownloadFileResponse disk path) = [] := by
    intro path
    unfold onDownloadFileResponse
    split_ifs <;> simp [commands_sendFileData]
  unfold onHttpResponse
  dsimp only
  split_ifs <;> simp [hdownload, commands_streamMedia_m3u8Str, commands_streamMedia_ts,
    commands_sendResponse]

end Requests

variable {s : FileSession} {disk disk' : Disk} {host : Host} {buffer command : Bytes}

/-- Without an upload nothing is written, and with one the file of its name is open. -/
structure Stored (s : FileSession) : Prop where
  consistent : s.Consistent
  opened : s.isState = true → s.Opened

theorem stored_process (hs : s.Stored) {r : Outcome} (h : s.process disk host buffer = some r) :
    r.1.Stored := by
  refine ⟨consistent_process hs.consistent h, fun hr => ?_⟩
  cases hstate : s.isState with
  | false => exact opened_of_process hstate h hr
  | true =>
    obtain ⟨⟨ok, root⟩, -, h⟩ := Option.bind_eq_some_iff.1 h
    dsimp only at h
    split at h
    · cases h
      exact hs.opened hstate
    · rw [onUploadFileResponse, if_pos hstate] at h
      cases h
      rcases s.writeUpload_cases disk host buffer with ⟨hnew, -⟩ | ⟨path, -, hgoes⟩
      · rw [hnew] at hr
        cases hr
      · rw [hgoes]
        exact hs.opened hstate

theorem stored_runReads (hs : s.Stored) {reads : List (Host × Bytes)}
    {r : FileSession × Disk × List (List Action)} (h : runReads s disk reads = some r) :
    r.1.Stored :=
  runReads_keeps (fun _ _ _ _ _ hs => stored_process hs) hs h

/-- The command at the end of an upload is that of its file. -/
theorem command_of_writeUpload (hs : s.Stored)
    (h : command ∈ commands (s.writeUpload disk host buffer).2.2) :
    command = convertCommand (uploadPath s.fileName) := by
  cases hstate : s.isState with
  | false =>
    obtain ⟨-, hfp, -, -⟩ := hs.consistent hstate
    simp [writeUpload, hfp, commands, onFileWriteStateResponse, Action.command] at h
  | true =>
    rcases s.writeUpload_cases disk host buffer with ⟨-, hactions⟩ | ⟨path, -, hgoes⟩
    · rcases hactions _ (mem_commands h) with ⟨json, hjson⟩ | ⟨hcommand, -⟩
      · cases hjson
      · cases hcommand
        rw [(hs.opened hstate).2]
    · rw [hgoes] at h
      cases h

/-- **The shell gets the commands of uploaded files only.** -/
theorem command_of_process (hs : s.Stored) {r : Outcome} (h : s.process disk host buffer = some r)
    (hcommand : command ∈ commands r.2.2) : command = convertCommand (uploadPath s.fileName) := by
  obtain ⟨⟨ok, root⟩, -, h⟩ := Option.bind_eq_some_iff.1 h
  dsimp only at h
  split at h
  · cases h
    rw [commands_onHttpResponse] at hcommand
    cases hcommand
  · unfold onUploadFileResponse at h
    split at h
    · cases h
      exact command_of_writeUpload hs hcommand
    · obtain ⟨⟨ok, root⟩, -, h⟩ := Option.bind_eq_some_iff.1 h
      dsimp only at h
      split at h
      · rcases openUpload_cases h with ⟨fileName, filesize, -, rfl⟩ | ⟨fileName, -, rfl⟩ | rfl <;>
          simp [commands, onFileWriteStateResponse, Action.command] at hcommand
      · cases h
        exact command_of_writeUpload hs hcommand

theorem stored_new : ({} : FileSession).Stored where
  consistent _ := ⟨rfl, rfl, rfl, rfl⟩
  opened h := by cases h

/-- The header of a video of two bytes. -/
def videoHeader : UploadHeader where
  text := ascii "\x7b\"fileName\":\"a.mp4\",\"fileSize\":2\x7d"
  root := .object [(ascii "fileName", .string (ascii "a.mp4")), (ascii "fileSize", .int 2)]
  fileName := ascii "a.mp4"
  fileSize := 2
  accepted := rfl
  valid := rfl
  named := rfl
  sized := rfl
  pos := by decide

/-- The header of a video with a blank in its name. -/
def blankHeader : UploadHeader where
  text := ascii "\x7b\"fileName\":\"a b.mp4\",\"fileSize\":2\x7d"
  root := .object [(ascii "fileName", .string (ascii "a b.mp4")), (ascii "fileSize", .int 2)]
  fileName := ascii "a b.mp4"
  fileSize := 2
  accepted := rfl
  valid := rfl
  named := rfl
  sized := rfl
  pos := by decide

theorem runReads_header (header : UploadHeader) (disk : Disk) :
    runReads {} disk [(quietHost, header.text)] =
      some (uploading header 0, disk.write header.path [], [[.fopen header.path]]) := by
  rw [runReads_cons (process_new header disk)]
  rfl

theorem process_letters (header : UploadHeader) (disk : Disk) :
    (uploading header 0).process disk quietHost (ascii "xy") =
      some ((uploading header 0).writeUpload disk quietHost (ascii "xy")) :=
  process_uploading ⟨by decide, Option.ne_none_iff_isSome.2 (by decide +kernel)⟩ 0 [] disk quietHost

/-- The bytes end the upload of a video of two bytes. -/
theorem mem_commands_letters {header : UploadHeader} (hsize : header.fileSize = 2)
    (hvideo : contains (ascii ".mp4") header.fileName = true) (disk : Disk) :
    convertCommand (uploadPath header.fileName) ∈
      commands ((uploading header 0).writeUpload disk quietHost (ascii "xy")).2.2 := by
  have hne : ascii "xy" ≠ [] := by decide
  have hend : header.fileSize ≤ Int.bmod (0 + (ascii "xy").length) (2 ^ 32) := by
    rw [hsize]
    decide
  simp only [writeUpload, uploading, hne, if_false, quietHost, hend, if_true, hvideo]
  exact List.mem_cons_self

end FileSession

end GraduationServer
