import GraduationServer.File.Upload
import GraduationServer.Foundations.Streams

/-!
# The streams of a file session

The members of `FileSession` as the class has them, where `m_fp` is a stream that `fopen` gave out, with a
buffer of its own, and `OnUploadFileResponse` exit by exit: each exit resets some of the members, and
`fwrite` and `fclose` are undefined on a stream that is null or closed already. A session holds a stream exactly while an upload
is going on, and everything else is reset when it holds none (`Holds`). So it behaves as the session of
`File.Session` (`agrees_process`), and never uses a stream that is not open (`stream_invariant`).
-/

namespace GraduationServer

open Json

namespace FileSession

/-- What ends the server: an exception of the JSON library, or the use of a stream that is not open. -/
inductive Stop
  | exception
  | badStream
  deriving DecidableEq

/-- The members of the class. -/
structure Fields where
  fp : Option ℕ := none
  fileName : Bytes := []
  filePath : Bytes := []
  isState : Bool := false
  offset : ℤ := 0
  filesize : ℤ := 0

/-- The disk, and the streams of the server, each with what is in its buffer. -/
structure World where
  disk : Disk
  streams : Streams Bytes
  buffers : ℕ → Bytes := fun _ => []

/-- `fopen` for writing. -/
def fopen (host : Host) (w : World) (path : Bytes) : Option ℕ × World :=
  if host.opens path then
    (some w.streams.next, {
      disk := w.disk.write path []
      streams := w.streams.opened path
      buffers := Function.update w.buffers w.streams.next [] })
  else (none, w)

/-- `fwrite` of one item, and whether it was written. An empty item is not. -/
def fwrite (host : Host) (w : World) (fp : Option ℕ) (data : Bytes) : Except Stop (Bool × World) :=
  match fp, w.streams.target fp with
  | some i, some path =>
    let bytes := w.buffers i ++ data
    match if data = [] then some (w.buffers i).length else host.writeError with
    | some n => .ok (false, { w with buffers := Function.update w.buffers i (bytes.take n) })
    | none => .ok (true, { w with
        disk := w.disk.append path (bytes.take host.flushed)
        buffers := Function.update w.buffers i (bytes.drop host.flushed) })
  | _, _ => .error .badStream

/-- `fclose`, which writes what is in the buffer. -/
def fclose (host : Host) (w : World) (fp : Option ℕ) : Except Stop World :=
  match fp, w.streams.target fp with
  | some i, some path => .ok { w with
      disk := w.disk.append path (host.closing (w.buffers i))
      streams := w.streams.closed i }
  | _, _ => .error .badStream

/-- The value of an accessor of the JSON library. -/
def orThrow {α : Type*} : Option α → Except Stop α
  | none => .error .exception
  | some a => .ok a

/-- The session after a message, the disk and the streams, and what was done. -/
abbrev Exit := Fields × World × List Action

namespace Fields

/-- `OnUploadFileResponse` on a header. -/
def takeHeader (s : Fields) (w : World) (host : Host) (jsonStr : Value) : Except Stop Exit := do
  let s := { s with isState := true }
  let valid ← orThrow (hasFileSize jsonStr)
  if valid then
    let fileName ← orThrow (jsonStr.stringMember (ascii "fileName"))
    let dirStr := uploadPath fileName
    let filesize ← orThrow (jsonStr.intMember (ascii "fileSize"))
    let (fp, w) := fopen host w (cStr dirStr)
    let s := { s with filesize, fp }
    if fp = none then
      return ({ s with offset := 0, filesize := 0, isState := false }, w,
        [.fopen (cStr dirStr), onFileWriteStateResponse (-1) (ascii "FaildOpen")])
    else return ({ s with filePath := dirStr, fileName }, w, [.fopen (cStr dirStr)])
  else
    return ({ s with isState := false }, w, [onFileWriteStateResponse (-1) (ascii "InvalidJSON")])

/-- `OnUploadFileResponse` on the content of a file. -/
def takeData (s : Fields) (w : World) (host : Host) (filedata : Bytes) : Except Stop Exit := do
  if s.fp = none then
    return ({ s with offset := 0, filesize := 0, isState := false, fileName := [], filePath := [] }, w,
      [onFileWriteStateResponse (-1) (ascii "FaildOpen")])
  else
    let (written, w) ← fwrite host w s.fp filedata
    if written then
      let s := { s with offset := Int.bmod (s.offset + filedata.length) (2 ^ 32) }
      if s.filesize ≤ s.offset then
        let w ← fclose host w s.fp
        let s := { s with fp := none, offset := 0, filesize := 0, isState := false }
        let reply := onFileWriteStateResponse 1 (finishedType s.fileName)
        if contains (ascii ".mp4") s.fileName then
          let command := convertCommand s.filePath
          return ({ s with fileName := [], filePath := [] },
            { w with disk := host.system command w.disk }, [reply, .system command])
        else return ({ s with fileName := [], filePath := [] }, w, [reply])
      else return (s, w, [])
    else
      let w ← fclose host w s.fp
      let s := { s with fp := none, offset := 0, filesize := 0, isState := false }
      return ({ s with fileName := [], filePath := [] }, w,
        [onFileWriteStateResponse (-1) (ascii "writeError")])

/-- `OnUploadFileResponse`. -/
def onUploadFileResponse (s : Fields) (w : World) (host : Host) (filedata : Bytes) :
    Except Stop Exit :=
  if s.isState then s.takeData w host filedata
  else do
    let (ok, jsonStr) ← orThrow (Reader.parse filedata)
    if ok then s.takeHeader w host jsonStr else s.takeData w host filedata

/-- `Process`. -/
def process (s : Fields) (w : World) (host : Host) (buffer : Bytes) : Except Stop Exit := do
  let (ok, _) ← orThrow (Reader.parse buffer)
  if !ok && isHTTPProtocol buffer then
    return (s, w, onHttpResponse w.disk host.media buffer)
  else s.onUploadFileResponse w host buffer

/-- The reads of a connection: the actions for each. -/
def runReads : Fields → World → List (Host × Bytes) →
    Except Stop (Fields × World × List (List Action))
  | s, w, [] => .ok (s, w, [])
  | s, w, (host, buffer) :: reads => do
    let (s, w, actions) ← s.process w host buffer
    let (s, w, rest) ← runReads s w reads
    return (s, w, actions :: rest)

/-! ## The streams that are open -/

/-- The session that the members describe, with the file behind the stream and what is in its buffer. -/
def session (s : Fields) (w : World) : FileSession where
  fp := w.streams.target s.fp
  buffered := s.fp.elim [] w.buffers
  fileName := s.fileName
  filePath := s.filePath
  isState := s.isState
  offset := s.offset
  filesize := s.filesize

/-- The streams are those that were open before the session began, and its own one while an upload is
going on. -/
structure Holds (before : Streams Bytes) (s : Fields) (w : World) : Prop where
  state : s.isState = true ↔ s.fp ≠ none
  reset : s.fp = none → s.offset = 0 ∧ s.filesize = 0 ∧ s.fileName = [] ∧ s.filePath = []
  later : before.next ≤ w.streams.next
  own : ∀ i, s.fp = some i → before.next ≤ i ∧ w.streams.file i = some (cStr s.filePath)
  others : ∀ i, s.fp ≠ some i → w.streams.file i = before.file i

/-- A session that is given the outcome of the abstract one agrees with it: they throw together, and
otherwise do the same and describe the same session and disk. -/
def Agrees {α : Type*} (before : Streams Bytes) (abstract : Option (FileSession × Disk × α))
    (concrete : Except Stop (Fields × World × α)) : Prop :=
  match abstract, concrete with
  | none, .error stop => stop = .exception
  | some (t, disk, a), .ok (s, w, b) => Holds before s w ∧ s.session w = t ∧ w.disk = disk ∧ b = a
  | _, _ => False

variable {before : Streams Bytes} {s : Fields} {w : World}

/-- Without an upload all members have their first values. -/
theorem Holds.eq_of_fp (h : Holds before s w) (hfp : s.fp = none) : s = {} := by
  obtain ⟨fp, fileName, filePath, isState, offset, filesize⟩ := s
  obtain rfl : fp = none := hfp
  obtain ⟨rfl, rfl, rfl, rfl⟩ := h.reset rfl
  have hstate : isState = false := Bool.eq_false_iff.2 fun hstate => h.state.1 hstate rfl
  rw [hstate]

theorem Holds.target (h : Holds before s w) {i : ℕ} (hfp : s.fp = some i) :
    w.streams.target (some i) = some (cStr s.filePath) := (h.own i hfp).2

/-- The streams before the session, while it has none. -/
theorem holds_new (hlater : before.next ≤ w.streams.next)
    (hfile : ∀ i, w.streams.file i = before.file i) : Holds before {} w where
  state := by simp
  reset _ := ⟨rfl, rfl, rfl, rfl⟩
  later := hlater
  own _ hi := by cases hi
  others i _ := hfile i

/-- An upload begins with a stream that was not in use. -/
theorem Holds.opened (h : Holds before {} w) (disk : Disk) (buffers : ℕ → Bytes)
    (fileName filePath : Bytes) (filesize : ℤ) :
    Holds before ⟨some w.streams.next, fileName, filePath, true, 0, filesize⟩
      ⟨disk, w.streams.opened (cStr filePath), buffers⟩ where
  state := by simp
  reset hfp := by cases hfp
  later := Nat.le_succ_of_le h.later
  own i hi := by
    cases hi
    exact ⟨h.later, Streams.target_opened ..⟩
  others i hi := by
    have hne : i ≠ w.streams.next := fun hi' => hi (congrArg some hi'.symm)
    exact (Streams.file_opened_of_ne _ _ hne).trans (h.others i (by simp))

/-- The end of an upload closes its stream. -/
theorem Holds.closed (h : Holds before s w) {i : ℕ} (hfp : s.fp = some i) (disk : Disk)
    (buffers : ℕ → Bytes) : Holds before {} ⟨disk, w.streams.closed i, buffers⟩ := by
  refine holds_new h.later fun j => ?_
  rcases eq_or_ne j i with rfl | hne
  · exact (Function.update_self ..).trans (before.unused j (h.own j hfp).1).symm
  · refine (Streams.file_closed_of_ne _ hne).trans (h.others j fun hj => hne ?_)
    exact Option.some_injective _ (hj.symm.trans hfp)

/-- Bytes that are received and written leave the streams alone. -/
theorem Holds.received (h : Holds before s w) {i : ℕ} (hfp : s.fp = some i) (disk : Disk)
    (buffers : ℕ → Bytes) (offset : ℤ) :
    Holds before { s with offset } ⟨disk, w.streams, buffers⟩ where
  state := h.state
  reset hnone := by cases hfp.symm.trans hnone
  later := h.later
  own := h.own
  others := h.others

/-! ## Agreement -/

/-- **The content of a file is written to an open stream**, and the exits that close the stream find it
open. -/
theorem agrees_takeData (h : Holds before s w) (host : Host) (filedata : Bytes) :
    Agrees before (some ((s.session w).writeUpload w.disk host filedata))
      (s.takeData w host filedata) := by
  cases hfp : s.fp with
  | none =>
    obtain rfl := h.eq_of_fp hfp
    exact ⟨h, rfl, rfl, rfl⟩
  | some i =>
    obtain ⟨fp, fileName, filePath, isState, offset, filesize⟩ := s
    obtain rfl : fp = some i := hfp
    have htarget : w.streams.target (some i) = some (cStr filePath) := h.target rfl
    have hclosed := h.closed rfl
    have hupdate (bytes : Bytes) : Function.update w.buffers i bytes i = bytes :=
      Function.update_self ..
    simp only [takeData, writeUpload, session, fwrite, htarget, reduceCtorEq, if_false, Option.elim_some]
    cases if filedata = [] then some (w.buffers i).length else host.writeError with
    | some n =>
      simp only [bind, Except.bind, Bool.false_eq_true, if_false, fclose, htarget, hupdate]
      exact ⟨hclosed _ _, rfl, rfl, rfl⟩
    | none =>
      simp only [bind, Except.bind, if_true, fclose, htarget, hupdate]
      split
      · split
        · exact ⟨hclosed _ _, rfl, rfl, rfl⟩
        · exact ⟨hclosed _ _, rfl, rfl, rfl⟩
      · refine ⟨h.received rfl _ _ _, ?_, rfl, rfl⟩
        simp only [session, htarget, Option.elim_some, hupdate]

theorem agrees_takeHeader (h : Holds before {} w) (host : Host) (jsonStr : Value) :
    Agrees before (openUpload {} w.disk host jsonStr) (takeHeader {} w host jsonStr) := by
  unfold openUpload takeHeader
  cases hasFileSize jsonStr with
  | none => rfl
  | some valid =>
    cases valid with
    | false => exact ⟨h, rfl, rfl, rfl⟩
    | true =>
      cases jsonStr.stringMember (ascii "fileName") with
      | none => rfl
      | some fileName =>
        cases jsonStr.intMember (ascii "fileSize") with
        | none => rfl
        | some filesize =>
          cases hopen : host.opens (cStr (uploadPath fileName)) with
          | false =>
            simp only [fopen, hopen, orThrow, bind, Option.bind, Except.bind, if_true,
              Bool.false_eq_true, if_false]
            exact ⟨h, rfl, rfl, rfl⟩
          | true =>
            simp only [fopen, hopen, orThrow, bind, Option.bind, Except.bind, if_true, reduceCtorEq,
              if_false]
            refine ⟨h.opened _ _ fileName (uploadPath fileName) filesize, ?_, rfl, rfl⟩
            simp only [session, Streams.target_opened, Option.elim_some, Function.update_self]

/-- **A message keeps the agreement.** -/
theorem agrees_process (h : Holds before s w) (host : Host) (buffer : Bytes) :
    Agrees before ((s.session w).process w.disk host buffer) (s.process w host buffer) := by
  unfold FileSession.process process
  cases hparse : Reader.parse buffer with
  | none => rfl
  | some p =>
    obtain ⟨ok, root⟩ := p
    simp only [orThrow, bind, Option.bind, Except.bind]
    split
    · exact ⟨h, rfl, rfl, rfl⟩
    · unfold FileSession.onUploadFileResponse onUploadFileResponse
      rw [hparse]
      by_cases hstate : s.isState = true
      · have hstate' : (s.session w).isState = true := hstate
        rw [if_pos hstate, if_pos hstate']
        exact agrees_takeData h host buffer
      · have hstate' : ¬ (s.session w).isState = true := hstate
        rw [if_neg hstate, if_neg hstate']
        cases ok with
        | false => exact agrees_takeData h host buffer
        | true =>
          have hfp : s.fp = none := not_not.1 fun hfp => hstate (h.state.2 hfp)
          obtain rfl := h.eq_of_fp hfp
          exact agrees_takeHeader h host root

theorem Agrees.ne_badStream {α : Type} {abstract : Option (FileSession × Disk × α)}
    {concrete : Except Stop (Fields × World × α)} (h : Agrees before abstract concrete) :
    concrete ≠ .error .badStream := by
  rintro rfl
  match abstract with
  | none => cases h
  | some _ => exact h

theorem Agrees.holds {α : Type} {abstract : Option (FileSession × Disk × α)} {a : α}
    (h : Agrees before abstract (.ok (s, w, a))) : Holds before s w := by
  match abstract with
  | none => exact h.elim
  | some _ => exact h.1

/-- Agreement passes through a sequence of two steps. -/
theorem Agrees.bind {α β : Type} {abstract : Option (FileSession × Disk × α)}
    {concrete : Except Stop (Fields × World × α)} (h : Agrees before abstract concrete)
    {f : FileSession × Disk × α → Option (FileSession × Disk × β)}
    {g : Fields × World × α → Except Stop (Fields × World × β)}
    (hnext : ∀ s w a, Holds before s w → Agrees before (f (s.session w, w.disk, a)) (g (s, w, a))) :
    Agrees before (abstract >>= f) (concrete >>= g) := by
  match abstract, concrete with
  | none, .error stop => exact h
  | some (t, disk, a), .ok (s, w, b) =>
    obtain ⟨hholds, rfl, rfl, rfl⟩ := h
    exact hnext s w b hholds
  | none, .ok _ => exact h.elim
  | some _, .error _ => exact h.elim

/-- **A run keeps the agreement**: every read by `agrees_process`. -/
theorem agrees_runReads (h : Holds before s w) (reads : List (Host × Bytes)) :
    Agrees before ((s.session w).runReads w.disk reads) (s.runReads w reads) := by
  induction reads generalizing s w with
  | nil => exact ⟨h, rfl, rfl, rfl⟩
  | cons read reads ih =>
    obtain ⟨host, buffer⟩ := read
    refine Agrees.bind (agrees_process h host buffer) fun s' w' actions h' => ?_
    exact Agrees.bind (ih h') fun s'' w'' rest h'' => ⟨h'', rfl, rfl, rfl⟩

/-- **Between two reads a session has a file exactly while an upload is going on**, and without one all
is reset; no read uses a stream that is not open. -/
theorem stream_invariant (w : World) (reads : List (Host × Bytes)) :
    runReads {} w reads ≠ .error .badStream ∧
      ∀ s w' actions, runReads {} w reads = .ok (s, w', actions) →
        (s.isState = true ↔ s.fp ≠ none) ∧
          (s.fp = none → s.offset = 0 ∧ s.filesize = 0 ∧ s.fileName = [] ∧ s.filePath = []) := by
  have hagrees := agrees_runReads (holds_new le_rfl fun _ => rfl : Holds w.streams {} w) reads
  refine ⟨hagrees.ne_badStream, fun s w' actions hrun => ?_⟩
  rw [hrun] at hagrees
  exact ⟨hagrees.holds.state, hagrees.holds.reset⟩

/-- The page that has been announced is open. -/
theorem stream_invariant_page :
    ∃ s w actions, runReads {} { disk := fun _ => none, streams := .empty } [(quietHost, pageHeader.text)] =
      .ok (s, w, actions) ∧ s.isState = true ∧ s.fp ≠ none := by
  obtain ⟨s, w, actions, hrun, hstate⟩ :
      ∃ s w actions, runReads {} { disk := fun _ => none, streams := .empty } [(quietHost, pageHeader.text)] =
        .ok (s, w, actions) ∧ s.isState = true := ⟨_, _, _, rfl, rfl⟩
  exact ⟨s, w, actions, hrun, hstate, ((stream_invariant _ _).2 s w actions hrun).1.1 hstate⟩

end Fields

end FileSession

end GraduationServer
