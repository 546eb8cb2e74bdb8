import GraduationServer.File.Upload

/-!
# What an upload receives

A read is written whole before the size is compared, so an upload takes whole reads: those up to the
first by which the announced number of bytes has followed the header (`own`). That read closes the
file, and the next one is a new message (`upload_takes_reads`). The file gets exactly the announced
number of bytes only when a read ends there.
-/

namespace GraduationServer

namespace FileSession

/-! ## The reads of an upload -/

/-- The reads that an upload takes while `n` bytes are missing: up to the first by which they have
come. -/
def own (n : ℤ) : List (Host × Bytes) → List (Host × Bytes)
  | [] => []
  | read :: reads =>
    if n ≤ read.2.length then [read] else read :: own (n - read.2.length) reads

theorem own_cons (n : ℤ) (host : Host) (buffer : Bytes) (reads : List (Host × Bytes)) :
    own n ((host, buffer) :: reads) =
      if n ≤ buffer.length then [(host, buffer)] else (host, buffer) :: own (n - buffer.length) reads :=
  rfl

/-- The reads behind those. -/
def rest (n : ℤ) (reads : List (Host × Bytes)) : List (Host × Bytes) :=
  reads.drop (own n reads).length

theorem own_append_rest (n : ℤ) (reads : List (Host × Bytes)) : own n reads ++ rest n reads = reads := by
  induction reads generalizing n with
  | nil => rfl
  | cons read reads ih =>
    unfold own rest
    split
    · rw [own, if_pos ‹_›]
      rfl
    · rw [own, if_neg ‹_›, List.length_cons, List.drop_succ_cons, List.cons_append]
      exact congrArg _ (ih _)

theorem content_append (xs ys : List (Host × Bytes)) :
    content (xs ++ ys) = content xs ++ content ys := List.flatMap_append

theorem content_cons (read : Host × Bytes) (reads : List (Host × Bytes)) :
    content (read :: reads) = read.2 ++ content reads := List.flatMap_cons

/-- The upload takes enough reads, if there are enough. -/
theorem le_content_own {n : ℤ} {reads : List (Host × Bytes)} (h : n ≤ (content reads).length) :
    n ≤ (content (own n reads)).length := by
  induction reads generalizing n with
  | nil => exact h
  | cons read reads ih =>
    rw [content_cons, List.length_append, Nat.cast_add] at h
    unfold own
    split
    · next hle =>
      rw [content_cons, List.length_append]
      omega
    · rw [content_cons, List.length_append]
      have hrest := ih (n := n - read.2.length) (by omega)
      omega

/-- The upload takes no more reads than are needed. -/
theorem length_own_le {n : ℤ} (hn : 1 ≤ n) {reads : List (Host × Bytes)} {k : ℕ}
    (h : n ≤ (content (reads.take k)).length) : (own n reads).length ≤ k := by
  induction reads generalizing n k with
  | nil => exact Nat.zero_le k
  | cons read reads ih =>
    cases k with
    | zero =>
      have hzero : (content ((read :: reads).take 0)).length = 0 := rfl
      omega
    | succ k =>
      rw [List.take_succ_cons, content_cons, List.length_append, Nat.cast_add] at h
      unfold own
      split
      · exact Nat.succ_le_succ (Nat.zero_le k)
      · exact Nat.succ_le_succ (ih (by omega) (by omega))

/-- **The reads taken are exactly the announced bytes exactly when a read ends there.** -/
theorem content_own_eq_take_iff {n : ℤ} (hn : 1 ≤ n) {reads : List (Host × Bytes)}
    (h : n ≤ (content reads).length) :
    content (own n reads) = (content reads).take n.toNat ↔
      ∃ k, ((content (reads.take k)).length : ℤ) = n := by
  have hown : own n reads = reads.take (own n reads).length :=
    List.prefix_iff_eq_take.1 ⟨_, own_append_rest n reads⟩
  have hcontent : content (own n reads) <+: content reads :=
    ⟨content (rest n reads), by rw [← content_append, own_append_rest]⟩
  constructor
  · intro heq
    refine ⟨(own n reads).length, ?_⟩
    rw [← hown, heq, List.length_take]
    omega
  · rintro ⟨k, hk⟩
    have hprefix : own n reads <+: reads.take k := by
      rw [hown]
      exact List.take_prefix_take_left (length_own_le hn hk.ge)
    have hlength : (content (own n reads)).length ≤ (content (reads.take k)).length := by
      obtain ⟨reads', hreads'⟩ := hprefix
      rw [← hreads', content_append, List.length_append]
      exact Nat.le_add_right _ _
    have hreach := le_content_own h
    rw [List.prefix_iff_eq_take.1 hcontent]
    congr 1
    omega

/-! ## The run of an upload -/

theorem runReads_append {s s' : FileSession} {disk disk' : Disk} {reads : List (Host × Bytes)}
    {actions : List (List Action)} (h : s.runReads disk reads = some (s', disk', actions))
    (reads' : List (Host × Bytes)) :
    s.runReads disk (reads ++ reads') =
      (s'.runReads disk' reads').map fun r => (r.1, r.2.1, actions ++ r.2.2) := by
  induction reads generalizing s disk actions with
  | nil =>
    cases h
    rw [List.nil_append]
    cases s'.runReads disk' reads' <;> rfl
  | cons read reads ih =>
    obtain ⟨host, buffer⟩ := read
    obtain ⟨⟨s₁, disk₁, first⟩, hstep, h⟩ := Option.bind_eq_some_iff.1 h
    obtain ⟨⟨s₂, disk₂, more⟩, hmore, h⟩ := Option.bind_eq_some_iff.1 h
    cases h
    rw [List.cons_append, runReads_cons hstep, ih hmore, Option.map_map]
    rfl

variable {header : UploadHeader}

/-- What the reads of an upload leave behind, of which some bytes have then come: a session that is done,
with all of them in the file, on which the command for a video works then; or, while bytes are missing, a
session that goes on, with those that have come in the file and behind it in the buffer. -/
def Received (header : UploadHeader) (disk : Disk) (reads : List (Host × Bytes)) (data : Bytes)
    (offset : ℤ) (s : FileSession) (disk' : Disk) : Prop :=
  (header.fileSize ≤ offset → s = {} ∧ ∃ last ∈ reads.getLast?,
    disk' = converted header last.1 (disk.write header.path data)) ∧
  (offset < header.fileSize → ∃ written buffered, written ++ buffered = data ∧
    s = uploading header offset buffered ∧ disk' = disk.write header.path written)

/-- **The reads of an upload are written one behind the other**, by induction on the reads; the one
that reaches the size ends the upload. -/
theorem runReads_own {reads : List (Host × Bytes)} {offset : ℤ}
    (hown : IsContent (own (header.fileSize - offset) reads))
    (hpasses : ∀ read ∈ own (header.fileSize - offset) reads, Passes read.2) (h0 : 0 ≤ offset)
    (hlt : offset < header.fileSize)
    (hfits : offset + (content (own (header.fileSize - offset) reads)).length < 2 ^ 31)
    (disk : Disk) (written buffered : Bytes) :
    ∃ s' disk' actions,
      (uploading header offset buffered).runReads (disk.write header.path written)
        (own (header.fileSize - offset) reads) = some (s', disk', actions) ∧
      Received header disk (own (header.fileSize - offset) reads)
        (written ++ buffered ++ content (own (header.fileSize - offset) reads))
        (offset + (content reads).length) s' disk' := by
  induction reads generalizing offset written buffered with
  | nil =>
    have hzero : ((content []).length : ℤ) = 0 := rfl
    refine ⟨_, _, [], rfl, fun hle => absurd hle (by omega), fun _ => ⟨written, buffered, ?_, ?_, rfl⟩⟩
    · rw [own]
      exact (List.append_nil _).symm
    · rw [hzero, add_zero]
  | cons read reads ih =>
    obtain ⟨host, buffer⟩ := read
    have hlength := length_content_cons host buffer reads
    by_cases hle : header.fileSize - offset ≤ buffer.length
    · rw [own_cons, if_pos hle] at hown hpasses hfits ⊢
      have hmem : (host, buffer) ∈ [(host, buffer)] := List.mem_singleton_self _
      have hbuffer : content [(host, buffer)] = buffer := List.append_nil _
      have hreach : header.fileSize ≤ offset + buffer.length := by omega
      rw [hbuffer] at hfits ⊢
      obtain ⟨actions, hlast, -⟩ := process_last (hpasses _ hmem) (hown.nonempty _ hmem)
        (hown.written _ hmem) (hown.closed _ hmem) h0 hreach hfits buffered
        (disk.write header.path written)
      rw [Disk.append_write, ← List.append_assoc] at hlast
      refine ⟨_, _, [actions], by rw [runReads_cons hlast]; rfl, fun _ => ⟨rfl, (host, buffer), rfl, rfl⟩,
        fun hmissing => absurd hmissing (not_lt.2 (by omega))⟩
    · rw [own_cons, if_neg hle, sub_sub] at hown hpasses hfits ⊢
      rw [length_content_cons, ← add_assoc] at hfits
      have hlater : offset + buffer.length < header.fileSize := by omega
      have hpart := process_part (hpasses _ List.mem_cons_self) (hown.nonempty _ List.mem_cons_self)
        (hown.written _ List.mem_cons_self) h0 hlater buffered (disk.write header.path written)
      rw [Disk.append_write] at hpart
      obtain ⟨s', disk', actions, hrun, hreceived⟩ := ih hown.tail
        (fun r hr => hpasses r (List.mem_cons_of_mem _ hr)) (by omega) hlater hfits
        (written ++ (buffered ++ buffer).take host.flushed) ((buffered ++ buffer).drop host.flushed)
      have hdata : written ++ (buffered ++ buffer).take host.flushed ++
          (buffered ++ buffer).drop host.flushed = written ++ buffered ++ buffer := by
        rw [List.append_assoc, List.take_append_drop, List.append_assoc]
      rw [hdata, List.append_assoc, ← content_cons (host, buffer), add_assoc, ← hlength] at hreceived
      refine ⟨s', disk', [] :: actions, by rw [runReads_cons hpart, hrun]; rfl, fun hdone => ?_,
        hreceived.2⟩
      obtain ⟨hs', last, hlast, hdisk⟩ := hreceived.1 hdone
      refine ⟨hs', last, ?_, hdisk⟩
      rw [List.getLast?_cons, Option.mem_def.1 hlast]
      rfl

theorem passes_longPage : Passes (ascii "<p>ab") :=
  ⟨by decide, Option.ne_none_iff_isSome.2 (by decide +kernel)⟩

end FileSession

end GraduationServer
