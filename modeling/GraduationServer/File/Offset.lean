import GraduationServer.File.Upload
import GraduationServer.Foundations.Runs

/-!
# The offset of an upload

`m_offset` is an `int32_t` to which the size of each chunk is added. It is the exact number of bytes
written as long as that number stays below `2 ^ 31`; the chunk that takes it there from below the size
of the file leaves a negative offset behind, and the upload goes on. `exact_iff` says so along every
upload, whatever size its header has announced.
-/

namespace GraduationServer

namespace FileSession

/-- A chunk of the data of an upload, and the host on which it is written. -/
structure DataChunk where
  host : Host
  data : Bytes
  writes : host.writeError = none
  nonempty : data ≠ []
  short : data.length < 2 ^ 31

/-- A session that receives an upload, with the number of bytes that it has written. -/
structure Receiving where
  session : FileSession
  disk : Disk
  written : ℕ

namespace Receiving

/-- A chunk is received, as long as the upload has not ended. -/
def step (r : Receiving) (c : DataChunk) : Option Receiving :=
  if r.session.isState then
    (r.session.onUploadFileResponse r.disk c.host c.data).map fun o =>
      ⟨o.1, o.2.1, r.written + c.data.length⟩
  else none

/-- The chunk ends the upload exactly when the number of bytes written reaches the size of the file, and
otherwise leaves this number in the offset. -/
def Exact (r : Receiving) (c : DataChunk) : Prop :=
  ∀ r', r.step c = some r' →
    (r'.session.isState = false ↔ r.session.filesize ≤ r'.written) ∧
      (r'.session.isState = true → r'.session.offset = r'.written)

/-- The chunk that reaches the size of the file leaves the number of bytes below the limit of the
offset. -/
def BelowLimit (r : Receiving) (c : DataChunk) : Prop :=
  r.session.isState = true → r.session.filesize ≤ (r.written + c.data.length : ℕ) →
    r.written + c.data.length < 2 ^ 31

/-- What is so before each chunk of an upload whose chunks so far were below the limit. -/
structure Counting (r : Receiving) : Prop where
  state : r.session.isState = true
  opened : r.session.fp ≠ none
  offset : r.session.offset = r.written
  size : r.session.filesize < 2 ^ 31
  below : r.written = 0 ∨ (r.written : ℤ) < r.session.filesize

variable {r : Receiving} {c : DataChunk}

/-- A chunk is written, and the sum in 32 bits decides whether it is the last one. -/
theorem step_of_counting (h : r.Counting) (c : DataChunk) :
    ∃ r', r.step c = some r' ∧ r'.written = r.written + c.data.length ∧
      ((r.session.filesize ≤ Int.bmod r'.written (2 ^ 32) ∧ r'.session.isState = false) ∨
        (Int.bmod r'.written (2 ^ 32) < r.session.filesize ∧
          r'.session = { r.session with
            offset := Int.bmod r'.written (2 ^ 32)
            buffered := r'.session.buffered })) := by
  obtain ⟨path, hpath⟩ := Option.ne_none_iff_exists'.1 h.opened
  have hcast : ((r.written + c.data.length : ℕ) : ℤ) = r.session.offset + c.data.length := by
    rw [h.offset]
    push_cast
    rfl
  rw [step, if_pos h.state, onUploadFileResponse, if_pos h.state]
  refine ⟨_, rfl, rfl, ?_⟩
  simp only [writeUpload, hpath, c.nonempty, if_false, c.writes, hcast]
  by_cases hlast : r.session.filesize ≤ Int.bmod (r.session.offset + c.data.length) (2 ^ 32)
  · refine Or.inl ⟨hlast, ?_⟩
    rw [if_pos hlast]
    split <;> rfl
  · refine Or.inr ⟨not_le.1 hlast, ?_⟩
    rw [if_neg hlast]

/-- From the limit on the sum is negative in 32 bits. -/
theorem bmod_neg {n : ℕ} (hn : 2 ^ 31 ≤ n ∧ n < 2 ^ 32) : Int.bmod n (2 ^ 32) < 0 := by
  have hmod : (n : ℤ) % (2 ^ 32 : ℕ) = n := Int.emod_eq_of_lt (by omega) (by omega)
  rw [Int.bmod_eq_emod, hmod]
  split <;> omega

/-- What a chunk does, below the limit and from there on. -/
theorem step_cases (h : r.Counting) (c : DataChunk) :
    ∃ r', r.step c = some r' ∧ r'.written = r.written + c.data.length ∧
      ((r'.written < 2 ^ 31 ∧ r.session.filesize ≤ r'.written ∧ r'.session.isState = false) ∨
        (r'.written < 2 ^ 31 ∧ r'.written < r.session.filesize ∧
          r'.session = { r.session with offset := r'.written, buffered := r'.session.buffered }) ∨
        (2 ^ 31 ≤ r'.written ∧ r.session.filesize ≤ r'.written ∧ r'.session.isState = true)) := by
  obtain ⟨r', hstep, hwritten, hr'⟩ := step_of_counting h c
  have hshort := c.short
  have hpos := List.length_pos_iff.2 c.nonempty
  have hsize := h.size
  refine ⟨r', hstep, hwritten, ?_⟩
  have hbelow := h.below
  by_cases hlimit : r'.written < 2 ^ 31
  · rw [Int.bmod_eq_of_le (by omega) (by omega)] at hr'
    rcases hr' with ⟨hlast, hends⟩ | ⟨hmore, hsession⟩
    · exact Or.inl ⟨hlimit, hlast, hends⟩
    · exact Or.inr (Or.inl ⟨hlimit, hmore, hsession⟩)
  · -- the first chunk is shorter than that, so the size of the file is positive
    have hneg := @bmod_neg r'.written (by omega)
    refine Or.inr (Or.inr ⟨by omega, by omega, ?_⟩)
    rcases hr' with ⟨hlast, -⟩ | ⟨-, hsession⟩
    · omega
    · rw [hsession]
      exact h.state

/-- Before each chunk the two properties agree. -/
theorem exact_iff_belowLimit (h : r.Counting) (c : DataChunk) : r.Exact c ↔ r.BelowLimit c := by
  obtain ⟨r', hstep, hwritten, hcases⟩ := step_cases h c
  have hexact : r.Exact c ↔ (r'.session.isState = false ↔ r.session.filesize ≤ r'.written) ∧
      (r'.session.isState = true → r'.session.offset = r'.written) := by
    unfold Exact
    rw [hstep]
    simp only [Option.some.injEq, forall_eq']
  rw [hexact, BelowLimit, ← hwritten, h.state]
  rcases hcases with ⟨hlimit, hlast, hstate⟩ | ⟨hlimit, hmore, hsession⟩ | ⟨hlimit, hlast, hstate⟩
  · simp only [hstate, hlast, hlimit, true_and, Bool.false_eq_true, false_implies,
      forall_const]
  · refine iff_of_true ⟨?_, fun _ => by rw [hsession]⟩ fun _ _ => hlimit
    rw [hsession]
    exact iff_of_false (by simp [h.state]) (not_le.2 hmore)
  · refine iff_of_false ?_ fun hbelow => absurd (hbelow rfl hlast) (not_lt.2 hlimit)
    rw [hstate]
    rintro ⟨hends, -⟩
    cases hends.2 hlast

/-- A chunk below the limit keeps the count, unless it ends the upload. -/
theorem counting_of_step (h : r.Counting) (hlimit : r.BelowLimit c) {r' : Receiving}
    (hstep : r.step c = some r') (hgoes : r'.session.isState = true) : r'.Counting := by
  obtain ⟨r'', hstep', hwritten, hcases⟩ := step_cases h c
  obtain rfl : r' = r'' := Option.some.inj (hstep.symm.trans hstep')
  rw [BelowLimit, ← hwritten, h.state] at hlimit
  rcases hcases with ⟨-, -, hends⟩ | ⟨-, hmore, hsession⟩ | ⟨habove, hlast, -⟩
  · rw [hgoes] at hends
    cases hends
  · refine ⟨hgoes, ?_, ?_, ?_, ?_⟩
    · rw [hsession]
      exact h.opened
    · rw [hsession]
    · rw [hsession]
      exact h.size
    · rw [hsession]
      exact Or.inr hmore
  · exact absurd (hlimit rfl hlast) (not_lt.2 habove)

/-- The session of an upload whose header has just been accepted. -/
def started (s : FileSession) (disk : Disk) : Receiving := ⟨s, disk, 0⟩

end Receiving

/-- An idle session that accepts a header has counted nothing yet. -/
theorem counting_of_header {s : FileSession} (hs : s.Idle) {disk : Disk} {host : Host} {text : Bytes}
    {r : Outcome} (h : s.onUploadFileResponse disk host text = some r) (hstate : r.1.isState = true) :
    (Receiving.started r.1 r.2.1).Counting := by
  unfold onUploadFileResponse at h
  rw [hs.1, if_neg Bool.false_ne_true] at h
  obtain ⟨⟨ok, root⟩, -, h⟩ := Option.bind_eq_some_iff.1 h
  dsimp only at h
  split at h
  · simp only [openUpload, Option.bind_eq_bind, Option.bind_eq_some_iff] at h
    obtain ⟨valid, -, h⟩ := h
    split at h
    · obtain ⟨fileName, -, h⟩ := Option.bind_eq_some_iff.1 h
      obtain ⟨filesize, hsize, h⟩ := Option.bind_eq_some_iff.1 h
      obtain ⟨v, -, hv⟩ := Option.bind_eq_some_iff.1 hsize
      have hlt : filesize < 2 ^ 31 := (Json.Value.asInt_le hv).trans_lt (by decide)
      split at h
      · cases h
        exact ⟨rfl, Option.some_ne_none _, hs.2.2.1, hlt, Or.inl rfl⟩
      · cases h
        cases hstate
    · cases h
      cases hstate
  · -- without a header nothing is open
    cases h
    rw [writeUpload, hs.2.1] at hstate
    cases hstate

theorem exact_iff_of_counting {r : Receiving} (h : r.Counting) (chunks : List DataChunk) :
    Along Receiving.step Receiving.Exact r chunks ↔
      Along Receiving.step Receiving.BelowLimit r chunks := by
  refine along_iff (fun r => r.session.isState = true → r.Counting) ?_ ?_ chunks r fun _ => h
  · intro r c hr
    cases hgoes : r.session.isState with
    | true => exact Receiving.exact_iff_belowLimit (hr hgoes) c
    | false =>
      -- after the end of the upload nothing is received
      refine iff_of_true ?_ ?_
      · intro r' hstep
        rw [Receiving.step, hgoes] at hstep
        cases hstep
      · intro hstate
        rw [hgoes] at hstate
        cases hstate
  · intro r c r' hr hlimit hstep hgoes
    cases hstate : r.session.isState with
    | true => exact Receiving.counting_of_step (hr hstate) hlimit hstep hgoes
    | false =>
      rw [Receiving.step, hstate] at hstep
      cases hstep

/-- **When the offset is exact:** along every upload, exactly when each chunk at which the number of
bytes written reaches the size of the file leaves it below `2 ^ 31`. -/
theorem exact_iff (s : FileSession) (hs : s.Idle) (disk : Disk) (host : Host) (text : Bytes)
    (r : Outcome) (h : s.onUploadFileResponse disk host text = some r)
    (hstate : r.1.isState = true) (chunks : List DataChunk) :
    Along Receiving.step Receiving.Exact (.started r.1 r.2.1) chunks ↔
      Along Receiving.step Receiving.BelowLimit (.started r.1 r.2.1) chunks :=
  exact_iff_of_counting (counting_of_header hs h hstate) chunks

/-! ## A file of the greatest size -/

/-- The header of an upload of `2 ^ 31 - 1` bytes. -/
def greatestHeader : Bytes := ascii "\x7b\"fileName\":\"a.mp4\",\"fileSize\":2147483647\x7d"

theorem exists_started : ∃ r, onUploadFileResponse {} (fun _ => none) quietHost greatestHeader = some r ∧
    r.1.isState = true ∧ r.1.filesize = 2 ^ 31 - 1 := by
  have hheader : (onUploadFileResponse {} (fun _ => none) quietHost greatestHeader).map
      (fun r => (r.1.isState, r.1.filesize)) = some (true, 2 ^ 31 - 1) := by
    decide +kernel
  obtain ⟨r, hr, heq⟩ := Option.map_eq_some_iff.1 hheader
  obtain ⟨hstate, hsize⟩ := Prod.mk.inj heq
  exact ⟨r, hr, hstate, hsize⟩

theorem idle_new : ({} : FileSession).Idle := ⟨rfl, rfl, rfl, rfl⟩

/-- There are chunks of any length. -/
theorem exists_dataChunk {n : ℕ} (hpos : 0 < n) (hlt : n < 2 ^ 31) :
    ∃ c : DataChunk, c.data.length = n := by
  have hlength : (List.replicate n (0 : UInt8)).length = n := List.length_replicate
  exact ⟨⟨quietHost, List.replicate n 0, rfl, List.ne_nil_of_length_pos (by omega), by omega⟩, hlength⟩

/-- Two bytes more than the offset can count, of a file that is one byte shorter. -/
theorem not_forall_exact :
    ¬ ∀ (s : FileSession), s.Idle → ∀ disk host text r,
      s.onUploadFileResponse disk host text = some r → r.1.isState = true →
        ∀ chunks, Along Receiving.step Receiving.Exact (.started r.1 r.2.1) chunks := by
  intro h
  obtain ⟨r, hr, hstate, hsize⟩ := exists_started
  obtain ⟨c, hc⟩ := exists_dataChunk (n := 2 ^ 31 - 2) (by decide) (by decide)
  obtain ⟨c', hc'⟩ := exists_dataChunk (n := 2) (by decide) (by decide)
  have hcounting := counting_of_header idle_new hr hstate
  obtain ⟨-, hlimit⟩ :=
    (exact_iff_of_counting hcounting [c, c']).1 (h {} idle_new _ _ _ r hr hstate [c, c'])
  obtain ⟨r', hstep, hwritten, hcases⟩ := Receiving.step_cases hcounting c
  obtain ⟨hlimit, -⟩ := hlimit r' hstep
  have hstart : (Receiving.started r.1 r.2.1).session = r.1 := rfl
  have hzero : (Receiving.started r.1 r.2.1).written = 0 := rfl
  rw [hstart, hsize] at hcases
  rw [hzero] at hwritten
  rcases hcases with ⟨-, hlast, -⟩ | ⟨-, -, hsession⟩ | ⟨habove, -, -⟩
  · omega
  · have hgoes : r'.session.isState = true := by
      rw [hsession]
      exact hstate
    have hsame : r'.session.filesize = 2 ^ 31 - 1 := by
      rw [hsession]
      exact hsize
    have hbelow := hlimit hgoes (by omega)
    omega
  · omega

theorem exact_iff_example : ∃ r,
    onUploadFileResponse {} (fun _ => none) quietHost greatestHeader = some r ∧
      ∀ chunks, Along Receiving.step Receiving.Exact (.started r.1 r.2.1) chunks ↔
        Along Receiving.step Receiving.BelowLimit (.started r.1 r.2.1) chunks := by
  obtain ⟨r, hr, hstate, -⟩ := exists_started
  exact ⟨r, hr, exact_iff {} idle_new (fun _ => none) quietHost greatestHeader r hr hstate⟩

end FileSession

end GraduationServer
