import GraduationServer.File.Upload
import GraduationServer.Foundations.LexicalPaths

/-!
# Where files are opened

A file session opens the files of uploads and requests under the name in the message, without a look at
what the name says. The path is a directory and the name behind it (`Asks`). For a name with one of the
extensions of its kind of message the directory is one of four in `source_File` (`classDirs`); the path
stays in `source_File` exactly when the name goes up no further than to `source_File`, or down again
where it came from (`inside_iff`).
-/

namespace GraduationServer

open Json

/-- The path that an action opens. -/
def Action.opened : Action → Option Bytes
  | .fopen path | .ifstream path | .openMedia path => some path
  | _ => none

/-- The paths that some actions open. -/
def opened (actions : List Action) : List Bytes := actions.filterMap Action.opened

@[simp] theorem opened_nil : opened [] = [] := rfl

@[simp] theorem opened_append (actions actions' : List Action) :
    opened (actions ++ actions') = opened actions ++ opened actions' := List.filterMap_append

@[simp] theorem opened_send (data : Bytes) (actions : List Action) :
    opened (.send data :: actions) = opened actions := rfl

@[simp] theorem opened_ifstream (path : Bytes) (actions : List Action) :
    opened (.ifstream path :: actions) = path :: opened actions := rfl

@[simp] theorem opened_openMedia (path : Bytes) (actions : List Action) :
    opened (.openMedia path :: actions) = path :: opened actions := rfl

namespace FileSession

/-- The place of a path is in `source_File`, for a server that was started in the given directory. -/
def Inside (cwd : List Bytes) (path : Bytes) : Prop := location [] sourceFile <+: location cwd path

instance (cwd : List Bytes) (path : Bytes) : Decidable (Inside cwd path) :=
  inferInstanceAs (Decidable (_ <+: _))

/-! ## Directories and names -/

/-- The directories of the kinds of files. -/
def classDirs : List Bytes :=
  [sourceFile ++ ascii "/video/", sourceFile ++ ascii "/audio/", sourceFile ++ ascii "/ptFile/",
    sourceFile ++ ascii "/Img/"]

/-- The directory of an upload. -/
def uploadDir (fileName : Bytes) : Bytes :=
  if contains (ascii ".html") fileName then sourceFile ++ ascii "/ptFile/"
  else if contains (ascii ".mp4") fileName then sourceFile ++ ascii "/video/"
  else if contains (ascii ".mp3") fileName then sourceFile ++ ascii "/audio/"
  else if contains (ascii ".png") fileName then sourceFile ++ ascii "/Img/"
  else sourceFile

theorem uploadPath_eq (fileName : Bytes) : uploadPath fileName = uploadDir fileName ++ fileName := by
  unfold uploadPath uploadDir
  split_ifs <;> rfl

/-- The name of a requested file: that of a download has no `download/`. -/
def requestName (filename : Bytes) : Bytes :=
  if contains (ascii "download") filename then replaceFirst (ascii "download/") [] filename
  else filename

theorem apart_requestDir (filename : Bytes) :
    Apart (ascii "download/") (requestDir filename).1 ∧
      Apart (ascii ".mp4") (requestDir filename).1 := by
  unfold requestDir
  split_ifs <;> decide +kernel

theorem requestPath_eq (filename : Bytes) :
    requestPath filename = (requestDir filename).1 ++ requestName filename := by
  unfold requestPath requestName
  dsimp only
  split
  · exact replaceFirst_append (apart_requestDir filename).1
  · rfl

/-- The directory and the name of a file for which a message asks. A play list needs the segment of a
video. -/
inductive Asks (buffer : Bytes) : Bytes → Bytes → Prop
  | upload {root : Value} {fileName : Bytes} (hparse : Reader.parse buffer = some (true, root))
      (hname : root.stringMember (ascii "fileName") = some fileName) :
      Asks buffer (uploadDir fileName) fileName
  | file (hhttp : isHTTPProtocol buffer = true) :
      Asks buffer (requestDir (parseHTTPRequest buffer)).1 (requestName (parseHTTPRequest buffer))
  | media (hhttp : isHTTPProtocol buffer = true)
      (hvideo : contains (ascii ".mp4") (parseHTTPRequest buffer) = true) :
      Asks buffer (requestDir (parseHTTPRequest buffer)).1
        (replaceFirst (ascii ".mp4") (ascii ".ts") (requestName (parseHTTPRequest buffer)))

/-- A file without one of the extensions is put behind `source_File` or where the server was started. -/
theorem Asks.dir {buffer dir name : Bytes} (h : Asks buffer dir name) :
    dir ∈ classDirs ∨ dir = sourceFile ∨ dir = [] := by
  have hrequest : ∀ filename, (requestDir filename).1 ∈ classDirs ∨ (requestDir filename).1 = [] := by
    intro filename
    unfold requestDir
    split_ifs <;> simp [classDirs]
  cases h with
  | upload hparse hname =>
    unfold uploadDir
    split_ifs <;> simp [classDirs]
  | file hhttp => exact (hrequest _).imp_right Or.inr
  | media hhttp hvideo => exact (hrequest _).imp_right Or.inr

/-! ## The paths that are opened -/

section Paths

variable (disk : Disk) (media : Media) (filePath contentType : Bytes)

theorem opened_map_send (l : List Bytes) : opened (l.map .send) = [] := by
  induction l with
  | nil => rfl
  | cons data l ih => exact ih

theorem opened_chunks (base : ℕ) (l : List Bytes) : opened (l.flatMap (chunk base)) = [] := by
  induction l with
  | nil => rfl
  | cons data l ih => exact ih

theorem opened_sendFileData : opened (sendFileData disk filePath) = [cStr filePath] := by
  unfold sendFileData
  cases disk (cStr filePath) <;> simp [opened_map_send]

theorem opened_sendChunkedData : opened (sendChunkedData disk filePath) = [cStr filePath] := by
  unfold sendChunkedData
  cases disk (cStr filePath) <;> simp [opened_chunks]

theorem opened_streamMedia_ts : opened (streamMedia_ts disk filePath) = [cStr filePath] := by
  unfold streamMedia_ts
  cases disk (cStr filePath) <;> simp [opened_chunks]

theorem opened_streamMedia_m3u8Str :
    opened (streamMedia_m3u8Str media filePath) = [cStr filePath] := by
  unfold streamMedia_m3u8Str
  cases media (cStr filePath) <;> rfl

theorem opened_sendResponse :
    opened (sendResponse disk filePath contentType) = [cStr filePath, cStr filePath] := by
  have hpack : (packHTTPResponse disk filePath contentType).1 = [.ifstream (cStr filePath)] := rfl
  unfold sendResponse
  dsimp only
  rw [opened_append, hpack]
  refine congrArg (cStr filePath :: ·) ?_
  split
  · exact opened_sendChunkedData disk filePath
  · exact opened_sendFileData disk filePath

theorem opened_onDownloadFileResponse :
    opened (onDownloadFileResponse disk filePath) ⊆ [cStr filePath] := by
  unfold onDownloadFileResponse
  split
  · exact List.nil_subset _
  · rw [opened_sendFileData]
    exact List.Subset.refl _

end Paths

/-- A request opens its file, or the segment of its video. -/
theorem of_mem_opened_onHttpResponse {disk : Disk} {media : Media} {buff path : Bytes}
    (h : path ∈ opened (onHttpResponse disk media buff)) :
    path = cStr (requestPath (parseHTTPRequest buff)) ∨
      (contains (ascii ".mp4") (parseHTTPRequest buff) = true ∧
        path = cStr (replaceFirst (ascii ".mp4") (ascii ".ts")
          (requestPath (parseHTTPRequest buff)))) := by
  have hdownload : ∀ path ∈ opened (if contains (ascii "download") (parseHTTPRequest buff) then
      onDownloadFileResponse disk (requestPath (parseHTTPRequest buff)) else []),
        path = cStr (requestPath (parseHTTPRequest buff)) := by
    intro path hpath
    split at hpath
    · exact List.mem_singleton.1 (opened_onDownloadFileResponse _ _ hpath)
    · cases hpath
  unfold onHttpResponse at h
  dsimp only at h
  split at h
  · next hvideo =>
    rw [opened_append, opened_streamMedia_m3u8Str] at h
    rcases List.mem_append.1 h with h | h
    · exact Or.inl (hdownload path h)
    · exact Or.inr ⟨hvideo, List.mem_singleton.1 h⟩
  · refine Or.inl ?_
    split at h
    · rw [opened_append, opened_append, opened_streamMedia_ts, opened_sendResponse] at h
      rcases List.mem_append.1 h with h | h
      · rcases List.mem_append.1 h with h | h
        · exact hdownload path h
        · exact List.mem_singleton.1 h
      · simpa using h
    · rw [opened_append, opened_sendResponse] at h
      rcases List.mem_append.1 h with h | h
      · exact hdownload path h
      · simpa using h

/-- A header opens the file it names. -/
theorem of_mem_opened_openUpload {s : FileSession} {disk : Disk} {host : Host} {root : Value}
    {r : Outcome} (h : s.openUpload disk host root = some r) {path : Bytes}
    (hpath : path ∈ opened r.2.2) :
    ∃ fileName, root.stringMember (ascii "fileName") = some fileName ∧
      path = cStr (uploadPath fileName) := by
  rcases openUpload_cases h with ⟨fileName, filesize, hname, rfl⟩ | ⟨fileName, hname, rfl⟩ | rfl
  · exact ⟨fileName, hname, List.mem_singleton.1 hpath⟩
  · exact ⟨fileName, hname, List.mem_singleton.1 hpath⟩
  · cases hpath

theorem opened_writeUpload (s : FileSession) (disk : Disk) (host : Host) (filedata : Bytes) :
    opened (s.writeUpload disk host filedata).2.2 = [] := by
  rcases s.writeUpload_cases disk host filedata with ⟨-, hactions⟩ | ⟨path, -, hgoes⟩
  · refine List.filterMap_eq_nil_iff.2 fun a ha => ?_
    rcases hactions a ha with ⟨json, rfl⟩ | ⟨rfl, -⟩
    · rfl
    · rfl
  · rw [hgoes]
    rfl

/-- **Every path that a message opens is a directory with the name behind it for which it asks.** -/
theorem asks_of_opened {s : FileSession} {disk : Disk} {host : Host} {buffer : Bytes} {r : Outcome}
    (h : s.process disk host buffer = some r) {path : Bytes} (hpath : path ∈ opened r.2.2) :
    ∃ dir name, Asks buffer dir name ∧ path = cStr (dir ++ name) := by
  obtain ⟨⟨ok, root⟩, hparse, h⟩ := Option.bind_eq_some_iff.1 h
  dsimp only at h
  split at h
  · next hhttp =>
    cases h
    rw [Bool.and_eq_true] at hhttp
    rcases of_mem_opened_onHttpResponse hpath with rfl | ⟨hvideo, rfl⟩
    · exact ⟨_, _, .file hhttp.2, by rw [requestPath_eq]⟩
    · refine ⟨_, _, .media hhttp.2 hvideo, ?_⟩
      rw [requestPath_eq, replaceFirst_append (apart_requestDir _).2]
  · unfold onUploadFileResponse at h
    split at h
    · cases h
      rw [opened_writeUpload] at hpath
      cases hpath
    · rw [hparse, Option.bind_some] at h
      dsimp only at h
      split at h
      · next hok =>
        cases hok
        obtain ⟨fileName, hname, rfl⟩ := of_mem_opened_openUpload h hpath
        exact ⟨_, _, .upload hparse hname, by rw [uploadPath_eq]⟩
      · cases h
        rw [opened_writeUpload] at hpath
        cases hpath

/-! ## Containment -/

/-- The name goes up to `source_File` at most, from a directory there; or it goes down again along the
directories that it has gone up from. -/
def Stays (name : Bytes) : Prop :=
  (route (moves name)).ups ≤ 1 ∨
    (location [] sourceFile).drop (9 - (route (moves name)).ups) <+: (route (moves name)).downs

instance (name : Bytes) : Decidable (Stays name) := inferInstanceAs (Decidable (_ ∨ _))

/-- The directories of the kinds of files are in `source_File`. -/
theorem of_mem_classDirs {dir : Bytes} (h : dir ∈ classDirs) :
    ∃ parent, dir = parent ++ [0x2F] ∧ parent.head? = some 0x2F ∧ 0 ∉ dir ∧
      location [] sourceFile <+: location [] parent ∧ (location [] parent).length = 9 := by
  have hdirs : ∀ dir ∈ classDirs, dir = dir.dropLast ++ [0x2F] ∧
      dir.dropLast.head? = some 0x2F ∧ 0 ∉ dir ∧
        location [] sourceFile <+: location [] dir.dropLast ∧
          (location [] dir.dropLast).length = 9 := by
    decide +kernel
  exact ⟨_, hdirs dir h⟩

/-- The C library sees the whole directory. -/
theorem cStr_append {dir : Bytes} (h : 0 ∉ dir) (name : Bytes) :
    cStr (dir ++ name) = dir ++ cStr name := by
  rw [cStr, List.takeWhile_append_of_pos]
  · rfl
  · intro c hc
    exact decide_eq_true fun hzero => h (hzero ▸ hc)

/-- A name behind one of these directories. -/
theorem inside_iff_stays (cwd : List Bytes) {dir : Bytes} (h : dir ∈ classDirs) (name : Bytes) :
    Inside cwd (cStr (dir ++ name)) ↔ Stays (cStr name) := by
  obtain ⟨parent, rfl, hhead, hzero, hbase, hlength⟩ := of_mem_classDirs h
  have hparent : location cwd parent = location [] parent := by
    rw [location, location, hhead]
    rfl
  rw [cStr_append hzero, List.append_assoc, Inside, List.singleton_append,
    location_append _ _ _ hhead, walk_eq_follow, hparent, Route.prefix_follow_iff hbase, hlength,
    Stays]
  constructor
  · exact Or.inr
  · rintro (hups | hdown)
    · have hnine : (location [] sourceFile).length = 8 := by decide +kernel
      rw [List.drop_eq_nil_of_le (by omega)]
      exact List.nil_prefix
    · exact hdown

/-- **Every path that a message opens is a directory with the name behind it for which the message asks.
In one of the directories of the kinds of files the path stays in `source_File` exactly when the name
does.** -/
theorem inside_iff (cwd : List Bytes) {s : FileSession} {disk : Disk} {host : Host} {buffer : Bytes}
    {r : Outcome} (h : s.process disk host buffer = some r) {path : Bytes}
    (hpath : path ∈ opened r.2.2) :
    ∃ dir name, Asks buffer dir name ∧ path = cStr (dir ++ name) ∧
      (dir ∈ classDirs ∨ dir = sourceFile ∨ dir = []) ∧
        (dir ∈ classDirs → (Inside cwd path ↔ Stays (cStr name))) := by
  obtain ⟨dir, name, hasks, rfl⟩ := asks_of_opened h hpath
  exact ⟨dir, name, hasks, rfl, hasks.dir, fun hdir => inside_iff_stays cwd hdir name⟩

/-! ## A page beside the directory -/

/-- The header of a page that is to stand beside `source_File`. -/
def climbingHeader : UploadHeader where
  text := ascii "\x7b\"fileName\":\"../../a.html\",\"fileSize\":4\x7d"
  root := .object [(ascii "fileName", .string (ascii "../../a.html")), (ascii "fileSize", .int 4)]
  fileName := ascii "../../a.html"
  fileSize := 4
  accepted := rfl
  valid := by decide +kernel
  named := by decide +kernel
  sized := by decide +kernel
  pos := by decide

/-- A header is opened in a new session. -/
theorem process_new (header : UploadHeader) (disk : Disk) :
    process {} disk quietHost header.text =
      some (uploading header 0, disk.write header.path [], [.fopen header.path]) :=
  process_header ⟨rfl, rfl, rfl, rfl⟩ header rfl disk

/-- A page whose name goes up two levels is opened outside of `source_File`. -/
theorem not_inside :
    ¬ ∀ (cwd : List Bytes) (s : FileSession) (disk : Disk) (host : Host) (buffer : Bytes)
      (r : Outcome), s.process disk host buffer = some r →
        ∀ path ∈ opened r.2.2, Inside cwd path := by
  intro h
  have hinside := h [] {} (fun _ => none) quietHost climbingHeader.text _
    (process_new climbingHeader _) climbingHeader.path List.mem_cons_self
  revert hinside
  decide +kernel

/-- The page of three bytes is opened in `source_File`. -/
theorem inside_page :
    ∃ dir name, Asks pageHeader.text dir name ∧ pageHeader.path = cStr (dir ++ name) ∧
      (dir ∈ classDirs ∨ dir = sourceFile ∨ dir = []) ∧
        (dir ∈ classDirs → (Inside [] pageHeader.path ↔ Stays (cStr name))) :=
  inside_iff [] (process_new pageHeader fun _ => none) List.mem_cons_self

end FileSession

end GraduationServer
