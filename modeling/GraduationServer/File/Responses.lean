import GraduationServer.File.Http
import GraduationServer.Foundations.Http

/-!
# The responses to a request

What `OnHttpResponse` sends for a request, taken together. A file that is there is one response
(`isResponse_sendResponse`), and so is a play list; a segment is one response even when its file is
missing. But a segment that is there is sent a second time as any other file, a missing file is answered
with nothing, and a download is sent without a head. `responds_once` says when a request gets one
response.
-/

namespace GraduationServer

open Http

/-- The bytes that an action sends. -/
def Action.sent : Action → Bytes
  | .send data => data
  | _ => []

/-- The bytes that some actions send. -/
def sent (actions : List Action) : Bytes := actions.flatMap Action.sent

@[simp] theorem Action.sent_send (data : Bytes) : (send data).sent = data := rfl

@[simp] theorem Action.sent_ifstream (path : Bytes) : (ifstream path).sent = [] := rfl

@[simp] theorem Action.sent_openMedia (path : Bytes) : (openMedia path).sent = [] := rfl

@[simp] theorem sent_nil : sent [] = [] := rfl

@[simp] theorem sent_cons (action : Action) (actions : List Action) :
    sent (action :: actions) = action.sent ++ sent actions := rfl

@[simp] theorem sent_append (actions actions' : List Action) :
    sent (actions ++ actions') = sent actions ++ sent actions' := List.flatMap_append

namespace FileSession

theorem ascii_crlf : ascii "\r\n" = crlf := rfl

/-! ## Blocks -/

section Blocks

variable {size n : ℕ} {content : Bytes}

@[simp] theorem blocks_nil (size n : ℕ) : blocks size n [] = [] := by
  cases n <;> rfl

theorem blocks_succ (size n : ℕ) (h : content ≠ []) :
    blocks size (n + 1) content = content.take size :: blocks size n (content.drop size) := by
  rw [blocks]
  exact h

theorem flatten_blocks (hsize : 0 < size) (h : content.length ≤ n) :
    (blocks size n content).flatten = content := by
  induction n generalizing content with
  | zero =>
    rw [List.length_eq_zero_iff.1 (Nat.le_zero.1 h)]
    rfl
  | succ n ih =>
    cases content with
    | nil => rfl
    | cons c content =>
      have hdrop : ((c :: content).drop size).length ≤ n := by
        rw [List.length_drop]
        rw [List.length_cons] at h ⊢
        omega
      rw [blocks_succ size n (List.cons_ne_nil c content), List.flatten_cons, ih hdrop,
        List.take_append_drop]

theorem ne_nil_of_mem_blocks (hsize : 0 < size) {block : Bytes} (h : block ∈ blocks size n content) :
    block ≠ [] := by
  induction n generalizing content with
  | zero => cases content <;> cases h
  | succ n ih =>
    cases content with
    | nil => cases h
    | cons c content =>
      rcases List.mem_cons.1 h with rfl | h
      · rw [ne_eq, List.take_eq_nil_iff]
        rintro (hzero | hnil)
        · omega
        · cases hnil
      · exact ih h

theorem sent_map_send (l : List Bytes) : sent (l.map .send) = l.flatten := by
  induction l with
  | nil => rfl
  | cons data l ih => rw [List.map_cons, sent_cons, ih, List.flatten_cons, Action.sent_send]

/-- A file is sent as it is. -/
theorem sent_sendFileData (disk : Disk) (filePath : Bytes) :
    sent (sendFileData disk filePath) = (disk (cStr filePath)).getD [] := by
  rw [sendFileData, sent_cons, Action.sent_ifstream, List.nil_append]
  cases disk (cStr filePath) with
  | none => rfl
  | some content =>
    dsimp only
    rw [sent_map_send, flatten_blocks (by decide) le_rfl, Option.getD_some]

/-- The chunks of a file have their sizes in hexadecimal. -/
theorem sent_chunks (l : List Bytes) :
    sent (l.flatMap (chunk 16) ++ [.send (ascii "0\r\n\r\n")]) = chunksCode l := by
  have hlast : ascii "0\r\n\r\n" = numeral 16 0 ++ crlf ++ crlf := rfl
  rw [sent_append, chunksCode]
  refine congrArg₂ _ ?_ (by rw [sent_cons, Action.sent_send, hlast, sent_nil, List.append_nil])
  induction l with
  | nil => rfl
  | cons data l ih =>
    rw [List.flatMap_cons, sent_append, ih, List.flatMap_cons, chunk, ascii_crlf]
    simp

end Blocks

/-! ## Single responses -/

/-- The status of the responses that carry something. -/
def okStatus : Line := ⟨ascii "HTTP/1.1 200 OK", by decide, by decide⟩

/-- The status of the response for a segment that is missing. -/
def errorStatus : Line := ⟨ascii "HTTP/1.1 500 Internal Server Error", by decide, by decide⟩

theorem isStatus_okStatus : IsStatus okStatus.text :=
  ⟨ascii "200", ascii "OK", rfl, rfl, by decide +kernel⟩

theorem isStatus_errorStatus : IsStatus errorStatus.text :=
  ⟨ascii "500", ascii "Internal Server Error", rfl, rfl, by decide +kernel⟩

/-- The field with the length of a body. -/
def lengthField (n : ℕ) : HeaderField :=
  .ofValue (ascii "Content-Length") (numeral 10 n) (by decide)
    (noBreak_numeral (by decide) (by decide) n)

/-- The field with the type of a body. -/
def typeField (contentType : Bytes) (h : 0x0D ∉ contentType ∧ 0x0A ∉ contentType) : HeaderField :=
  .ofValue (ascii "Content-Type") contentType (by decide) h

def closeField : HeaderField := .ofValue (ascii "Connection") (ascii "close") (by decide) (by decide)

def keepAliveField : HeaderField :=
  .ofValue (ascii "Connection") (ascii "keep-alive") (by decide) (by decide)

def chunkedField : HeaderField :=
  .ofValue (ascii "Transfer-Encoding") (ascii "chunked") (by decide) (by decide)

theorem code_lengthField (n : ℕ) :
    (lengthField n).code = ascii "Content-Length: " ++ numeral 10 n ++ ascii "\r\n" :=
  HeaderField.code_ofValue _ _

theorem code_typeField {contentType : Bytes} (h : 0x0D ∉ contentType ∧ 0x0A ∉ contentType) :
    (typeField contentType h).code = ascii "Content-Type: " ++ contentType ++ ascii "\r\n" :=
  HeaderField.code_ofValue _ _

theorem code_closeField : closeField.code = ascii "Connection: close\r\n" := rfl

/-- Among fields with these names the length is told once. -/
theorem framing_sized {fields : List HeaderField} {n : ℕ}
    (hchunked : fields.filter (HeaderField.named (ascii "transfer-encoding")) = [])
    (hsized : fields.filter (HeaderField.named (ascii "content-length")) = [lengthField n]) :
    framing fields = some (.sized n) := by
  rw [framing, hchunked]
  dsimp only
  rw [hsized]
  dsimp only
  rw [show (lengthField n).value = 0x20 :: numeral 10 n from rfl, decimal_numeral, Option.map_some]

/-- The fields of the head in front of a file. -/
def fileFields (contentType : Bytes) (h : 0x0D ∉ contentType ∧ 0x0A ∉ contentType) (n : ℕ) :
    List HeaderField :=
  [typeField contentType h, lengthField n, closeField]

theorem code_fileFields {contentType : Bytes} (h : 0x0D ∉ contentType ∧ 0x0A ∉ contentType) (n : ℕ) :
    okStatus.code ++ fieldsCode (fileFields contentType h n) =
      ascii "HTTP/1.1 200 OK\r\n" ++ (ascii "Content-Type: " ++ contentType ++ ascii "\r\n") ++
        (ascii "Content-Length: " ++ numeral 10 n ++ ascii "\r\n") ++
        ascii "Connection: close\r\n" ++ ascii "\r\n" := by
  have hstatus : ascii "HTTP/1.1 200 OK\r\n" = okStatus.code := rfl
  rw [hstatus, ← code_typeField h, ← code_lengthField, ← code_closeField, ascii_crlf]
  simp [fileFields, fieldsCode]

theorem framing_fileFields {contentType : Bytes} (h : 0x0D ∉ contentType ∧ 0x0A ∉ contentType) (n : ℕ) :
    framing (fileFields contentType h n) = some (.sized n) :=
  framing_sized rfl rfl

/-- A file with a head in front. -/
theorem isResponse_file {contentType : Bytes} (h : 0x0D ∉ contentType ∧ 0x0A ∉ contentType)
    (content : Bytes) :
    IsResponse (ascii "HTTP/1.1 200 OK\r\n" ++
      (ascii "Content-Type: " ++ contentType ++ ascii "\r\n") ++
      (ascii "Content-Length: " ++ numeral 10 content.length ++ ascii "\r\n") ++
      ascii "Connection: close\r\n" ++ ascii "\r\n" ++ content) := by
  refine ⟨⟨okStatus, fileFields contentType h content.length, .sized content.length, content,
    isStatus_okStatus, framing_fileFields h content.length, rfl⟩, ?_⟩
  rw [← code_fileFields h, Response.code, List.append_assoc]

/-- The play list of a media file. -/
theorem isResponse_playList (m3u8Content : Bytes) :
    IsResponse (ascii "HTTP/1.1 200 OK\r\nContent-Type: application/vnd.apple.mpegurl\r\n" ++
      ascii "Content-Length: " ++ numeral 10 m3u8Content.length ++
      ascii "\r\nConnection: keep-alive\r\n\r\n" ++ m3u8Content) := by
  refine ⟨⟨okStatus, [typeField (ascii "application/vnd.apple.mpegurl") (by decide),
    lengthField m3u8Content.length, keepAliveField], .sized m3u8Content.length, m3u8Content,
    isStatus_okStatus, framing_sized rfl rfl, rfl⟩, ?_⟩
  have hhead : ascii "HTTP/1.1 200 OK\r\nContent-Type: application/vnd.apple.mpegurl\r\n" =
      okStatus.code ++ (typeField (ascii "application/vnd.apple.mpegurl") (by decide)).code := rfl
  have hend : ascii "\r\nConnection: keep-alive\r\n\r\n" =
      ascii "\r\n" ++ keepAliveField.code ++ crlf := rfl
  rw [hhead, hend]
  simp [Response.code, fieldsCode, code_lengthField]

/-- A segment in chunks. -/
theorem isResponse_segment {l : List Bytes} (h : ∀ data ∈ l, data ≠ []) :
    IsResponse (ascii "HTTP/1.1 200 OK\r\nContent-Type: video/MP2T\r\nConnection: keep-alive\r\n" ++
      ascii "Transfer-Encoding: chunked\r\n\r\n" ++ chunksCode l) := by
  refine ⟨⟨okStatus, [typeField (ascii "video/MP2T") (by decide), keepAliveField, chunkedField],
    .chunked, chunksCode l, isStatus_okStatus, by decide,
    (exists_chunkedBody h).imp fun _ hb => hb.1⟩, ?_⟩
  have hhead : ascii "HTTP/1.1 200 OK\r\nContent-Type: video/MP2T\r\nConnection: keep-alive\r\n" ++
      ascii "Transfer-Encoding: chunked\r\n\r\n" = okStatus.code ++
        fieldsCode [typeField (ascii "video/MP2T") (by decide), keepAliveField, chunkedField] := rfl
  rw [hhead, Response.code, List.append_assoc]

/-- The answer for a segment that is missing. -/
theorem isResponse_error :
    IsResponse (ascii "HTTP/1.1 500 Internal Server Error\r\nContent-Length: 0\r\n\r\n") :=
  ⟨⟨errorStatus, [lengthField 0], .sized 0, [], isStatus_errorStatus, framing_sized rfl rfl, rfl⟩,
    rfl⟩

/-! ## What the functions send -/

variable {disk : Disk} {media : Media} {filePath contentType content : Bytes}

/-- A file that is there is sent as one response. -/
theorem isResponse_sendResponse (hfile : disk (cStr filePath) = some content)
    (h : 0x0D ∉ contentType ∧ 0x0A ∉ contentType) :
    IsResponse (sent (sendResponse disk filePath contentType)) := by
  have hlong : ¬ (packHTTPResponse disk filePath contentType).2.length < 10 := by
    have hstatus : (ascii "HTTP/1.1 200 OK\r\n").length = 17 := rfl
    simp only [packHTTPResponse, hfile, List.length_append, hstatus]
    omega
  unfold sendResponse
  dsimp only
  rw [if_neg hlong, sent_append, sent_cons, sent_sendFileData, hfile, Option.getD_some]
  simp only [packHTTPResponse, hfile, sent_cons, sent_nil, Action.sent_ifstream, List.nil_append,
    Action.sent_send]
  exact isResponse_file h content

/-- Nothing is sent for a file that is missing. -/
theorem sent_sendResponse (hfile : disk (cStr filePath) = none) :
    sent (sendResponse disk filePath contentType) = [] := by
  simp [sendResponse, packHTTPResponse, sendChunkedData, hfile]

/-- A segment is sent as one response, whether it is there or not. -/
theorem isResponse_streamMedia_ts (disk : Disk) (filePath : Bytes) :
    IsResponse (sent (streamMedia_ts disk filePath)) := by
  rw [streamMedia_ts]
  cases disk (cStr filePath) with
  | none =>
    simp only [sent_cons, sent_nil, Action.sent_ifstream, List.nil_append, Action.sent_send,
      List.append_nil]
    exact isResponse_error
  | some content =>
    dsimp only
    rw [sent_cons, sent_cons, sent_chunks, Action.sent_ifstream, Action.sent_send, List.nil_append]
    exact isResponse_segment fun _ => ne_nil_of_mem_blocks (by decide)

theorem sent_streamMedia_m3u8Str_none {fileName : Bytes} (hmedia : media (cStr fileName) = none) :
    sent (streamMedia_m3u8Str media fileName) = [] := by
  rw [streamMedia_m3u8Str, hmedia, sent_cons, sent_nil, Action.sent_openMedia, List.append_nil]

theorem isResponse_streamMedia_m3u8Str {fileName duration : Bytes}
    (hmedia : media (cStr fileName) = some duration) :
    IsResponse (sent (streamMedia_m3u8Str media fileName)) := by
  rw [streamMedia_m3u8Str, hmedia]
  dsimp only
  rw [sent_cons, sent_cons, sent_nil, Action.sent_openMedia, Action.sent_send, List.nil_append,
    List.append_nil]
  exact isResponse_playList _

/-- The types of the files have no line break. -/
theorem noBreak_requestDir (filename : Bytes) :
    0x0D ∉ (requestDir filename).2 ∧ 0x0A ∉ (requestDir filename).2 := by
  unfold requestDir
  split_ifs <;> decide

/-! ## One response -/

/-- The file of a download, which is sent without a head. -/
def rawContent (disk : Disk) (buff : Bytes) : Bytes :=
  let filePath := requestPath (parseHTTPRequest buff)
  if contains (ascii "download") (parseHTTPRequest buff) ∧ filePath ≠ [] then
    (disk (cStr filePath)).getD []
  else []

/-- What a name asks for is sent as one response: the media file of a play list opens, a segment is
missing, and any other file is there. -/
def Single (disk : Disk) (media : Media) (filename : Bytes) : Prop :=
  let filePath := requestPath filename
  if contains (ascii ".mp4") filename then
    (media (cStr (replaceFirst (ascii ".mp4") (ascii ".ts") filePath))).isSome
  else if contains (ascii ".ts") filename then disk (cStr filePath) = none
  else (disk (cStr filePath)).isSome

/-- What is done behind the download. -/
def afterDownload (disk : Disk) (media : Media) (filename : Bytes) : List Action :=
  let contentType := (requestDir filename).2
  let filePath := requestPath filename
  if contains (ascii ".mp4") filename then
    streamMedia_m3u8Str media (replaceFirst (ascii ".mp4") (ascii ".ts") filePath)
  else if contains (ascii ".ts") filename then
    streamMedia_ts disk filePath ++ sendResponse disk filePath contentType
  else sendResponse disk filePath contentType

/-- A download comes first. -/
theorem sent_onHttpResponse (disk : Disk) (media : Media) (buff : Bytes) :
    sent (onHttpResponse disk media buff) =
      rawContent disk buff ++ sent (afterDownload disk media (parseHTTPRequest buff)) := by
  have hraw : sent (if contains (ascii "download") (parseHTTPRequest buff) then
      onDownloadFileResponse disk (requestPath (parseHTTPRequest buff)) else []) =
        rawContent disk buff := by
    unfold rawContent onDownloadFileResponse
    dsimp only
    by_cases hdownload : contains (ascii "download") (parseHTTPRequest buff) = true
    · by_cases hpath : requestPath (parseHTTPRequest buff) = []
      · simp [hpath]
      · rw [if_pos hdownload, if_neg hpath, if_pos ⟨hdownload, hpath⟩, sent_sendFileData]
    · rw [if_neg hdownload, if_neg fun h => hdownload h.1, sent_nil]
  unfold onHttpResponse afterDownload
  dsimp only
  rw [← hraw]
  split
  · rw [sent_append]
  · split
    · rw [sent_append, sent_append, sent_append, List.append_assoc]
    · rw [sent_append]

theorem isResponse_afterDownload_iff (disk : Disk) (media : Media) (filename : Bytes) :
    IsResponse (sent (afterDownload disk media filename)) ↔ Single disk media filename := by
  have htype := noBreak_requestDir filename
  unfold afterDownload Single
  dsimp only
  split
  · cases hmedia : media (cStr (replaceFirst (ascii ".mp4") (ascii ".ts") (requestPath filename))) with
    | none =>
      rw [sent_streamMedia_m3u8Str_none hmedia]
      exact iff_of_false not_isResponse_nil Bool.false_ne_true
    | some duration => exact iff_of_true (isResponse_streamMedia_m3u8Str hmedia) rfl
  · split
    · rw [sent_append]
      have hsegment := isResponse_streamMedia_ts disk (requestPath filename)
      cases hfile : disk (cStr (requestPath filename)) with
      | none =>
        rw [sent_sendResponse hfile, List.append_nil]
        exact iff_of_true hsegment rfl
      | some content =>
        -- the segment is a response, and the file behind it is another one
        refine iff_of_false (fun h => ?_) (by simp)
        have hnil := eq_nil_of_isResponse hsegment h
        have hfile := isResponse_sendResponse hfile htype
        rw [hnil] at hfile
        exact not_isResponse_nil hfile
    · cases hfile : disk (cStr (requestPath filename)) with
      | none =>
        rw [sent_sendResponse hfile]
        exact iff_of_false not_isResponse_nil Bool.false_ne_true
      | some content => exact iff_of_true (isResponse_sendResponse hfile htype) rfl

/-- **A request gets one response if nothing is sent without a head and what it asks for is sent once.**
There is no other way, but for a download of a file that itself is the beginning of a response. -/
theorem responds_once (disk : Disk) (media : Media) (buff : Bytes) :
    (rawContent disk buff = [] ∧ Single disk media (parseHTTPRequest buff) →
        IsResponse (sent (onHttpResponse disk media buff))) ∧
      (IsResponse (sent (onHttpResponse disk media buff)) →
        (rawContent disk buff = [] ∧ Single disk media (parseHTTPRequest buff)) ∨
          (rawContent disk buff ≠ [] ∧ ∃ rest, IsResponse (rawContent disk buff ++ rest))) := by
  rw [sent_onHttpResponse, ← isResponse_afterDownload_iff]
  constructor
  · rintro ⟨hraw, hafter⟩
    rwa [hraw, List.nil_append]
  · intro h
    by_cases hraw : rawContent disk buff = []
    · rw [hraw, List.nil_append] at h
      exact Or.inl ⟨hraw, h⟩
    · exact Or.inr ⟨hraw, _, h⟩

/-- A segment that is there gets two responses. -/
theorem not_responds_once :
    ¬ ∀ (disk : Disk) (media : Media) (buff : Bytes), isHTTPProtocol buff = true →
      IsResponse (sent (onHttpResponse disk media buff)) := by
  intro h
  have hone := h (fun _ => some (ascii "x")) (fun _ => none) (ascii "GET /a.ts HTTP/1.1\r\n\r\n")
    (by decide)
  have hraw : rawContent (fun _ => some (ascii "x")) (ascii "GET /a.ts HTTP/1.1\r\n\r\n") = [] := by
    decide +kernel
  rw [sent_onHttpResponse, hraw, List.nil_append, isResponse_afterDownload_iff] at hone
  revert hone
  unfold Single
  decide +kernel

end FileSession

end GraduationServer
