import GraduationServer.File.Containment
import GraduationServer.Foundations.ShellWords
import Mathlib.Data.List.TakeWhile

/-!
# Stored files and their requests

A stored file is asked for by its name. The directory of an upload and that of a request are chosen by
the same extensions, but in different orders: an upload looks for `.html` first, a request for `.mp4` and
`.mp3`. A video is stored twice, as it came and as the segment into which `ffmpeg` converts it, and a
request for it uses the segment. The path of the segment is a word of a command: the shell takes it as it is
only when none of its bytes means anything to the shell.

* `storedPath` is where the session of an upload leaves the file that is to be served;
* `servedPath` is the one path that a request opens (`mem_opened_get_iff`);
* `servedBack_iff` says for which names they are the same.
-/

namespace GraduationServer

open Shell

theorem cStr_of_notMem {s : Bytes} (h : 0 ∉ s) : cStr s = s :=
  List.takeWhile_eq_self_iff.2 fun _ hc => decide_eq_true fun hzero => h (hzero ▸ hc)

/-- The C library sees nothing behind a zero byte. -/
theorem cStr_append_of_mem {s : Bytes} (h : 0 ∈ s) (t : Bytes) : cStr (s ++ t) = cStr s := by
  induction s with
  | nil => cases h
  | cons c s ih =>
    by_cases hc : c = 0
    · subst hc
      rfl
    · have htail : 0 ∈ s := (List.mem_cons.1 h).resolve_left (Ne.symm hc)
      have hcons : ∀ u, cStr (c :: u) = c :: cStr u := fun u =>
        List.takeWhile_cons_of_pos (decide_eq_true hc)
      rw [List.cons_append, hcons, hcons, ih htail]

namespace FileSession

open Json

/-! ## Where a file is stored -/

/-- The options of `handleVideo`. -/
def conversionOptions : List Bytes :=
  [ascii "-c:v", ascii "copy", ascii "-c:a", ascii "copy", ascii "-bsf:v", ascii "h264_mp4toannexb",
    ascii "-f", ascii "mpegts"]

/-- The words that `handleVideo` writes. -/
def conversionWords (path : Bytes) : List Bytes :=
  ascii "ffmpeg" :: ascii "-i" :: path ::
    (conversionOptions ++ [replaceFirst (ascii ".mp4") (ascii ".ts") path])

/-- The output path that a command, a C string, gives to `ffmpeg` behind an input and the options of
`handleVideo`; none when the words of the command are not those of one conversion, or are not told by its
text alone. -/
def ffmpegOutput (command : Bytes) : Option Bytes := do
  let words ← shellWords (cStr command)
  let input ← words[2]?
  let output ← words.getLast?
  if words = ascii "ffmpeg" :: ascii "-i" :: input :: (conversionOptions ++ [output]) then some output
  else none

theorem ffmpegOutput_eq_some_iff {command output : Bytes} :
    ffmpegOutput command = some output ↔ ∃ input, shellWords (cStr command) =
      some (ascii "ffmpeg" :: ascii "-i" :: input :: (conversionOptions ++ [output])) := by
  constructor
  · intro h
    simp only [ffmpegOutput, Option.bind_eq_bind, Option.bind_eq_some_iff] at h
    obtain ⟨words, hwords, input, -, output', -, h⟩ := h
    split_ifs at h with heq
    cases h
    exact ⟨input, hwords.trans (congrArg some heq)⟩
  · rintro ⟨input, hwords⟩
    simp [ffmpegOutput, hwords, List.getLast?_cons]

/-- The path of the file that the upload of a session leaves to be served: that of the upload, or for a
video the output of `handleVideo`. -/
def storedPath (s : FileSession) : Option Bytes :=
  if contains (ascii ".mp4") s.fileName then ffmpegOutput (convertCommand s.filePath) else s.fp

section Command

variable {path : Bytes}

theorem convertCommand_eq (path : Bytes) :
    convertCommand path = ascii "ffmpeg -i" ++ 0x20 :: (path ++ 0x20 ::
      (ascii "-c:v copy -c:a copy -bsf:v h264_mp4toannexb -f mpegts" ++ 0x20 ::
        replaceFirst (ascii ".mp4") (ascii ".ts") path)) := by
  have hfront : ascii "ffmpeg -i " = ascii "ffmpeg -i" ++ [0x20] := rfl
  have hoptions : ascii " -c:v copy -c:a copy -bsf:v h264_mp4toannexb -f mpegts " =
      0x20 :: (ascii "-c:v copy -c:a copy -bsf:v h264_mp4toannexb -f mpegts" ++ [0x20]) := rfl
  rw [convertCommand, hfront, hoptions]
  simp only [List.append_assoc, List.cons_append, List.nil_append]

theorem notMem_segment {c : UInt8} (hts : c ∉ ascii ".ts") (hpath : c ∉ path) :
    c ∉ replaceFirst (ascii ".mp4") (ascii ".ts") path :=
  fun h => (mem_or_mem_of_mem_replaceFirst h).elim hts hpath

theorem zero_notMem_convertCommand (hzero : 0 ∉ path) : 0 ∉ convertCommand path := by
  have hsegment := notMem_segment (by decide) hzero
  have hfront : 0 ∉ ascii "ffmpeg -i" := by decide
  have hoptions : 0 ∉ ascii "-c:v copy -c:a copy -bsf:v h264_mp4toannexb -f mpegts" := by decide
  simp [convertCommand_eq, hfront, hoptions, hzero, hsegment]

/-- A zero byte in the path ends the command there. -/
theorem cStr_convertCommand_of_zero (hzero : 0 ∈ path) :
    cStr (convertCommand path) = ascii "ffmpeg -i" ++ 0x20 :: cStr path := by
  have hfront : 0 ∉ ascii "ffmpeg -i" ++ [0x20] := by decide
  rw [convertCommand_eq, List.append_cons, cStr_append hfront, cStr_append_of_mem hzero,
    ← List.append_cons]

theorem convertCommand_eq_intercalate (path : Bytes) :
    convertCommand path = [0x20].intercalate (conversionWords path) := by
  have hfront : ascii "ffmpeg -i" = ascii "ffmpeg" ++ 0x20 :: ascii "-i" := rfl
  have hoptions : ascii "-c:v copy -c:a copy -bsf:v h264_mp4toannexb -f mpegts" =
      [0x20].intercalate conversionOptions := by
    decide
  rw [convertCommand_eq, hfront, hoptions]
  simp [conversionWords, conversionOptions, List.intercalate_cons_cons, List.intercalate_singleton]

/-- The command ends with the path of the segment. -/
theorem convertCommand_eq_last (path : Bytes) :
    convertCommand path = (ascii "ffmpeg -i" ++ 0x20 :: (path ++ 0x20 ::
      ascii "-c:v copy -c:a copy -bsf:v h264_mp4toannexb -f mpegts")) ++ 0x20 ::
        replaceFirst (ascii ".mp4") (ascii ".ts") path := by
  simp [convertCommand_eq]

end Command

/-! ## Requests for a file -/

/-- The request for a file by its name. -/
def getRequest (fileName version rest : Bytes) : Bytes :=
  ascii "GET /" ++ fileName ++ 0x20 :: (version ++ ascii "\r\n" ++ rest)

/-- The names of the stored files that can be asked for. -/
structure Servable (fileName : Bytes) : Prop where
  kind : contains (ascii ".html") fileName = true ∨ contains (ascii ".mp4") fileName = true ∨
    contains (ascii ".mp3") fileName = true ∨ contains (ascii ".png") fileName = true
  noBlank : 0x20 ∉ fileName
  noReturn : 0x0D ∉ fileName
  noFeed : 0x0A ∉ fileName
  noDownload : contains (ascii "download") fileName = false
  relative : fileName.head? ≠ some 0x2F

/-- The path that a request for a name opens. -/
def servedPath (fileName : Bytes) : Bytes :=
  cStr (if contains (ascii ".mp4") fileName then
    replaceFirst (ascii ".mp4") (ascii ".ts") (requestPath fileName) else requestPath fileName)

section Requests

variable {fileName : Bytes} (version rest : Bytes)

theorem isHTTPProtocol_getRequest (fileName : Bytes) :
    isHTTPProtocol (getRequest fileName version rest) = true := rfl

/-- The name comes out of the request line. -/
theorem parseHTTPRequest_getRequest (h : Servable fileName) :
    parseHTTPRequest (getRequest fileName version rest) = fileName := by
  have hbreak : 0x0D ∈ getRequest fileName version rest ∨ 0x0A ∈ getRequest fileName version rest :=
    Or.inl (List.mem_append_right _ (List.mem_cons_of_mem _ (List.mem_append_left _
      (List.mem_append_right _ (by decide)))))
  -- the request line goes on behind the name with a blank
  have hline : ∃ behind, ((getRequest fileName version rest).takeWhile
      fun c => c ≠ 0x0D && c ≠ 0x0A) = ascii "GET /" ++ fileName ++ 0x20 :: behind := by
    have hfront : ∀ c ∈ ascii "GET /" ++ fileName, (c ≠ 0x0D && c ≠ 0x0A) = true := by
      intro c hc
      have hreturn : c ≠ 0x0D := by
        rintro rfl
        exact (List.mem_append.1 hc).elim (by decide) h.noReturn
      have hfeed : c ≠ 0x0A := by
        rintro rfl
        exact (List.mem_append.1 hc).elim (by decide) h.noFeed
      simp [hreturn, hfeed]
    refine ⟨(version ++ ascii "\r\n" ++ rest).takeWhile fun c => c ≠ 0x0D && c ≠ 0x0A, ?_⟩
    rw [getRequest, List.takeWhile_append_of_pos hfront, List.takeWhile_cons_of_pos (by decide)]
  obtain ⟨behind, hline⟩ := hline
  have huri : ((ascii "GET /" ++ fileName ++ 0x20 :: behind).dropWhile (· ≠ 0x20)).drop 1 =
      0x2F :: (fileName ++ 0x20 :: behind) := rfl
  have hname : (0x2F :: (fileName ++ 0x20 :: behind)).dropWhile (· = 0x2F) =
      fileName ++ 0x20 :: behind := by
    rw [List.dropWhile_cons_of_pos (by decide)]
    cases hfile : fileName with
    | nil => rfl
    | cons c name =>
      have hc : c ≠ 0x2F := fun hc => h.relative (by rw [hfile, hc]; rfl)
      rw [List.cons_append, List.dropWhile_cons_of_neg (by simp [hc])]
  rw [parseHTTPRequest, if_pos hbreak, hline]
  dsimp only
  rw [huri, hname, List.takeWhile_append_of_pos, List.takeWhile_cons_of_neg (by decide),
    List.append_nil]
  exact fun c hc => decide_eq_true fun hblank => h.noBlank (hblank ▸ hc)

/-- **A request opens one path**, once or several times. -/
theorem mem_opened_get_iff (h : Servable fileName) (disk : Disk) (media : Media) (path : Bytes) :
    path ∈ opened (onHttpResponse disk media (getRequest fileName version rest)) ↔
      path = servedPath fileName := by
  unfold onHttpResponse servedPath
  rw [parseHTTPRequest_getRequest version rest h]
  dsimp only
  rw [h.noDownload]
  by_cases hvideo : contains (ascii ".mp4") fileName = true
  · simp [hvideo, opened_streamMedia_m3u8Str]
  · by_cases hsegment : contains (ascii ".ts") fileName = true
    · simp [hvideo, hsegment, opened_streamMedia_ts, opened_sendResponse]
    · simp [hvideo, hsegment, opened_sendResponse]

end Requests

/-! ## The same path -/

/-- A message that is written does not start an upload. -/
theorem isState_writeUpload {s : FileSession} (hs : s.isState = false) (disk : Disk) (host : Host)
    (filedata : Bytes) : (s.writeUpload disk host filedata).1.isState = false := by
  rcases s.writeUpload_cases disk host filedata with ⟨hnew, -⟩ | ⟨path, -, hgoes⟩
  · rw [hnew]
  · rw [hgoes]
    exact hs

/-- The session of an accepted header has the file of this name open. -/
def Opened (s : FileSession) : Prop :=
  s.fp = some (cStr (uploadPath s.fileName)) ∧ s.filePath = uploadPath s.fileName

theorem opened_of_openUpload {s : FileSession} {disk : Disk} {host : Host} {root : Value} {r : Outcome}
    (h : s.openUpload disk host root = some r) (hr : r.1.isState = true) : r.1.Opened := by
  rcases openUpload_cases h with ⟨fileName, filesize, -, rfl⟩ | ⟨fileName, -, rfl⟩ | rfl
  · exact ⟨rfl, rfl⟩
  · cases hr
  · cases hr

theorem opened_of_process {s : FileSession} {disk : Disk} {host : Host} {text : Bytes} {r : Outcome}
    (hs : s.isState = false) (h : s.process disk host text = some r) (hr : r.1.isState = true) :
    r.1.Opened := by
  obtain ⟨⟨ok, root⟩, -, h⟩ := Option.bind_eq_some_iff.1 h
  dsimp only at h
  split at h
  · cases h
    rw [hs] at hr
    cases hr
  · rw [onUploadFileResponse, hs, if_neg Bool.false_ne_true] at h
    obtain ⟨⟨ok, root⟩, -, h⟩ := Option.bind_eq_some_iff.1 h
    dsimp only at h
    split at h
    · exact opened_of_openUpload h hr
    · cases h
      rw [isState_writeUpload hs] at hr
      cases hr

/-- Whoever asks for the name of the file of a session gets that file opened and no other. -/
def ServedBack (s : FileSession) (version rest : Bytes) : Prop :=
  ∀ (t : FileSession) (disk : Disk) (host : Host), ∃ actions,
    t.process disk host (getRequest s.fileName version rest) = some (t, disk, actions) ∧
      opened actions ≠ [] ∧ ∀ path ∈ opened actions, s.storedPath = some path

theorem servedBack_iff_storedPath {s : FileSession} (h : Servable s.fileName) (version rest : Bytes) :
    s.ServedBack version rest ↔ s.storedPath = some (servedPath s.fileName) := by
  have hmem := fun disk media => mem_opened_get_iff version rest h disk media
  constructor
  · intro hserved
    obtain ⟨actions, hprocess, -, hpath⟩ := hserved {} (fun _ => none) quietHost
    rw [process_http (isHTTPProtocol_getRequest version rest s.fileName)] at hprocess
    cases hprocess
    exact hpath _ ((hmem _ _ _).2 rfl)
  · intro hstored t disk host
    refine ⟨_, process_http (isHTTPProtocol_getRequest version rest s.fileName) t disk host, ?_, ?_⟩
    · exact List.ne_nil_of_mem ((hmem _ _ _).2 rfl)
    · intro path hpath
      rw [hstored, (hmem _ _ _).1 hpath]

/-- The directories of uploads and of requests for videos and other files are one when the extensions
do not compete. -/
theorem uploadDir_eq_iff {fileName : Bytes} (h : Servable fileName) :
    uploadDir fileName = (requestDir fileName).1 ↔
      ¬ (contains (ascii ".html") fileName = true ∧
        (contains (ascii ".mp4") fileName = true ∨ contains (ascii ".mp3") fileName = true)) := by
  have hkind := h.kind
  have hvideo : sourceFile ++ ascii "/ptFile/" ≠ sourceFile ++ ascii "/video/" := by decide +kernel
  have haudio : sourceFile ++ ascii "/ptFile/" ≠ sourceFile ++ ascii "/audio/" := by decide +kernel
  unfold uploadDir requestDir
  split_ifs <;> simp_all

/-- The directory of an upload is without the extension of a video. -/
theorem plain_uploadDir (fileName : Bytes) :
    0 ∉ uploadDir fileName ∧ Apart (ascii ".mp4") (uploadDir fileName) := by
  unfold uploadDir
  split_ifs <;> decide +kernel

theorem isPlain_uploadDir (fileName : Bytes) : ∀ c ∈ uploadDir fileName, isPlain c = true := by
  unfold uploadDir
  split_ifs <;> decide +kernel

theorem begins_uploadDir_append (fileName s : Bytes) : Begins (uploadDir fileName ++ s) := by
  unfold uploadDir
  split_ifs <;> rfl

/-- The path of a plain name is one word, and so is the path of its segment. -/
theorem shellWords_convertCommand {fileName : Bytes} (h : ∀ c ∈ fileName, isPlain c = true) :
    shellWords (cStr (convertCommand (uploadPath fileName))) =
      some (conversionWords (uploadPath fileName)) := by
  have happend : ∀ s, (∀ c ∈ s, isPlain c = true) → ∀ c ∈ uploadDir fileName ++ s, isPlain c = true :=
    fun s hs c hc => (List.mem_append.1 hc).elim (isPlain_uploadDir fileName c) (hs c)
  have hsegment : ∀ c ∈ replaceFirst (ascii ".mp4") (ascii ".ts") fileName, isPlain c = true := by
    intro c hc
    rcases mem_or_mem_of_mem_replaceFirst hc with hts | hname
    · exact (show ∀ c ∈ ascii ".ts", isPlain c = true by decide +kernel) c hts
    · exact h c hname
  have hzero : 0 ∉ uploadPath fileName := by
    rw [uploadPath_eq]
    exact fun hmem => absurd (happend fileName h 0 hmem) (by decide)
  have hfront : ∀ w ∈ [ascii "ffmpeg", ascii "-i"], Begins w ∧ ∀ c ∈ w, isPlain c = true := by
    decide +kernel
  have hoptions : ∀ w ∈ conversionOptions, Begins w ∧ ∀ c ∈ w, isPlain c = true := by
    decide +kernel
  rw [cStr_of_notMem (zero_notMem_convertCommand hzero), convertCommand_eq_intercalate]
  refine shellWords_intercalate fun w hw => ?_
  rw [conversionWords, uploadPath_eq, replaceFirst_append (plain_uploadDir fileName).2] at hw
  simp only [List.mem_cons, List.mem_append, List.mem_nil_iff, or_false] at hw
  rcases hw with rfl | rfl | rfl | hw | rfl
  · exact hfront _ (by decide)
  · exact hfront _ (by decide)
  · exact ⟨begins_uploadDir_append fileName _, happend _ h⟩
  · exact hoptions w hw
  · exact ⟨begins_uploadDir_append fileName _, happend _ hsegment⟩

theorem notMem_requestDir (fileName : Bytes) : 0 ∉ (requestDir fileName).1 := by
  unfold requestDir
  split_ifs <;> decide +kernel

theorem requestPath_of_servable {fileName : Bytes} (h : Servable fileName) :
    requestPath fileName = (requestDir fileName).1 ++ fileName := by
  rw [requestPath_eq, requestName, h.noDownload, if_neg Bool.false_ne_true]

/-- The directories of a video. -/
theorem dirs_of_video {fileName : Bytes} (hvideo : contains (ascii ".mp4") fileName = true) :
    (requestDir fileName).1 = sourceFile ++ ascii "/video/" ∧
      (uploadDir fileName = sourceFile ++ ascii "/video/" ∨
        uploadDir fileName = sourceFile ++ ascii "/ptFile/") := by
  unfold requestDir uploadDir
  rw [if_pos hvideo, if_pos hvideo]
  refine ⟨rfl, ?_⟩
  split_ifs
  · exact .inr rfl
  · exact .inl rfl

/-- A request for a video uses the segment. -/
theorem servedPath_of_video {fileName : Bytes} (h : Servable fileName)
    (hvideo : contains (ascii ".mp4") fileName = true) :
    servedPath fileName =
      (requestDir fileName).1 ++ cStr (replaceFirst (ascii ".mp4") (ascii ".ts") fileName) := by
  rw [servedPath, if_pos hvideo, requestPath_of_servable h, replaceFirst_append (apart_requestDir _).2,
    cStr_append (notMem_requestDir _)]

/-- The name of the segment is shorter by one byte, at most. -/
theorem length_cStr_le {fileName : Bytes} (hvideo : contains (ascii ".mp4") fileName = true) :
    (cStr fileName).length ≤
      (cStr (replaceFirst (ascii ".mp4") (ascii ".ts") fileName)).length + 1 := by
  obtain ⟨before, behind, hname, hsegment⟩ := exists_of_contains hvideo (ascii ".ts")
  rw [hsegment]
  conv_lhs => rw [hname]
  rw [List.append_assoc, List.append_assoc]
  by_cases hzero : 0 ∈ before
  · rw [cStr_append_of_mem hzero, cStr_append_of_mem hzero]
    exact Nat.le_succ _
  · have hmp4 : 0 ∉ ascii ".mp4" := by decide
    have hts : 0 ∉ ascii ".ts" := by decide
    rw [cStr_append hzero, cStr_append hzero, cStr_append hmp4, cStr_append hts]
    have hlong : (ascii ".mp4").length = 4 := rfl
    have hshort : (ascii ".ts").length = 3 := rfl
    simp only [List.length_append, hlong, hshort]
    omega

/-- **With a zero byte in the name the command has no such output**: it ends before the options. -/
theorem ffmpegOutput_ne_of_zero {fileName : Bytes} (h : Servable fileName)
    (hvideo : contains (ascii ".mp4") fileName = true) (hzero : 0 ∈ fileName) :
    ffmpegOutput (convertCommand (uploadPath fileName)) ≠ some (servedPath fileName) := by
  intro houtput
  obtain ⟨input, hwords⟩ := ffmpegOutput_eq_some_iff.1 houtput
  have hsize := size_shellWords_le hwords
  have hname := length_cStr_le hvideo
  have hoptions : size conversionOptions = 54 := by decide
  have hdirs : (uploadDir fileName).length ≤ (requestDir fileName).1.length + 1 := by
    obtain ⟨hrequest, hupload | hupload⟩ := dirs_of_video hvideo <;> rw [hrequest, hupload] <;> decide
  have hffmpeg : (ascii "ffmpeg").length = 6 := rfl
  have hinput : (ascii "-i").length = 2 := rfl
  have hfront : (ascii "ffmpeg -i").length = 9 := rfl
  rw [uploadPath_eq, cStr_convertCommand_of_zero (List.mem_append_right _ hzero),
    cStr_append (plain_uploadDir fileName).1, servedPath_of_video h hvideo] at hsize
  simp only [size_cons, size_append, size_nil, List.length_append, List.length_cons, hffmpeg, hinput,
    hfront, hoptions] at hsize
  omega

/-- A name is plain if the name of its segment is. -/
theorem isPlain_of_segment {fileName : Bytes} (hvideo : contains (ascii ".mp4") fileName = true)
    (h : ∀ c ∈ replaceFirst (ascii ".mp4") (ascii ".ts") fileName, isPlain c = true) :
    ∀ c ∈ fileName, isPlain c = true := by
  obtain ⟨before, behind, hname, hsegment⟩ := exists_of_contains hvideo (ascii ".ts")
  have hmp4 : ∀ c ∈ ascii ".mp4", isPlain c = true := by decide +kernel
  intro c hc
  rw [hname, List.mem_append, List.mem_append] at hc
  rcases hc with (hc | hc) | hc
  · exact h c (by rw [hsegment]; simp [hc])
  · exact hmp4 c hc
  · exact h c (by rw [hsegment]; simp [hc])

/-- **The output of the command is where a request looks for it only when the directories are one and the
name is plain**: it is the last word of the command, which begins with the directory of the upload and goes on
with what the shell makes of the name. -/
theorem plain_of_ffmpegOutput {fileName : Bytes} (h : Servable fileName)
    (hvideo : contains (ascii ".mp4") fileName = true) (hzero : 0 ∉ fileName)
    (houtput : ffmpegOutput (convertCommand (uploadPath fileName)) =
      some ((requestDir fileName).1 ++ replaceFirst (ascii ".mp4") (ascii ".ts") fileName)) :
    uploadDir fileName = (requestDir fileName).1 ∧ ∀ c ∈ fileName, isPlain c = true := by
  obtain ⟨hupload, hapart⟩ := plain_uploadDir fileName
  obtain ⟨hrequest, hdir⟩ := dirs_of_video hvideo
  obtain ⟨input, hwords⟩ := ffmpegOutput_eq_some_iff.1 houtput
  have hpath : 0 ∉ uploadDir fileName ++ fileName := fun hmem =>
    (List.mem_append.1 hmem).elim hupload hzero
  rw [uploadPath_eq, cStr_of_notMem (zero_notMem_convertCommand hpath), convertCommand_eq_last,
    replaceFirst_append hapart] at hwords
  have hblank : 0x20 ∉ (requestDir fileName).1 ++
      replaceFirst (ascii ".mp4") (ascii ".ts") fileName := by
    refine fun hmem => (List.mem_append.1 hmem).elim ?_ (notMem_segment (by decide) h.noBlank)
    rw [hrequest]
    decide +kernel
  obtain ⟨w, hword, hscan⟩ := scan_last
    (by simpa using begins_uploadDir_append fileName []) (isPlain_uploadDir fileName) hwords
    (by simp [List.getLast?_cons]) hblank (by
      rw [List.length_append, hrequest]
      exact Nat.lt_add_of_pos_left (by decide))
  rcases hdir with hdir | hdir
  · rw [hrequest, hdir, List.append_cancel_left_eq] at hword
    rw [← hword] at hscan
    exact ⟨hdir.trans hrequest.symm, isPlain_of_segment hvideo (isPlain_of_last hscan)⟩
  · -- the output is in one directory, and the video in the other
    rw [hrequest, hdir, List.append_assoc, List.append_assoc, List.append_cancel_left_eq] at hword
    cases hword

/-- **The segment of a video is where the request looks for it** exactly when the directories are one and the
shell takes the name as it is. -/
theorem stored_video_iff {s : FileSession} (hopened : s.Opened) (h : Servable s.fileName)
    (hvideo : contains (ascii ".mp4") s.fileName = true) :
    s.storedPath = some (servedPath s.fileName) ↔
      uploadDir s.fileName = (requestDir s.fileName).1 ∧ ∀ c ∈ s.fileName, isPlain c = true := by
  rw [storedPath, if_pos hvideo, hopened.2]
  by_cases hzero : 0 ∈ s.fileName
  · refine iff_of_false (ffmpegOutput_ne_of_zero h hvideo hzero) fun hand => ?_
    exact absurd (hand.2 0 hzero) (by decide)
  have hserved : servedPath s.fileName =
      (requestDir s.fileName).1 ++ replaceFirst (ascii ".mp4") (ascii ".ts") s.fileName := by
    rw [servedPath_of_video h hvideo, cStr_of_notMem (notMem_segment (by decide) hzero)]
  rw [hserved]
  constructor
  · exact plain_of_ffmpegOutput h hvideo hzero
  · rintro ⟨hdir, hplain⟩
    refine ffmpegOutput_eq_some_iff.2 ⟨uploadPath s.fileName, ?_⟩
    rw [shellWords_convertCommand hplain, conversionWords, uploadPath_eq,
      replaceFirst_append (plain_uploadDir s.fileName).2, hdir]

/-- Another file is where the request looks for it when the directories are one. -/
theorem stored_file_iff {s : FileSession} (hopened : s.Opened) (h : Servable s.fileName)
    (hvideo : ¬ contains (ascii ".mp4") s.fileName = true) :
    s.storedPath = some (servedPath s.fileName) ↔
      uploadDir s.fileName = (requestDir s.fileName).1 := by
  rw [storedPath, if_neg hvideo, hopened.1, servedPath, if_neg hvideo, requestPath_of_servable h,
    uploadPath_eq, cStr_append (plain_uploadDir _).1, cStr_append (notMem_requestDir _),
    Option.some_inj, List.append_cancel_right_eq]

/-- The header of a file whose name has the extensions of a page and of a video. -/
def ambiguousHeader : UploadHeader where
  text := ascii "\x7b\"fileName\":\"a.html.mp4\",\"fileSize\":1\x7d"
  root := .object [(ascii "fileName", .string (ascii "a.html.mp4")), (ascii "fileSize", .int 1)]
  fileName := ascii "a.html.mp4"
  fileSize := 1
  accepted := rfl
  valid := by decide +kernel
  named := by decide +kernel
  sized := by decide +kernel
  pos := by decide

theorem servable_ambiguous : Servable (ascii "a.html.mp4") :=
  ⟨by decide, by decide, by decide, by decide, by decide, by decide⟩

theorem servable_page : Servable (ascii "a.html") :=
  ⟨by decide, by decide, by decide, by decide, by decide, by decide⟩

end FileSession

end GraduationServer
