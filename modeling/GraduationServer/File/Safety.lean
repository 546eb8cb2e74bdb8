import GraduationServer.Client.Safety
import GraduationServer.File.Session

/-!
# When a server throws

The file session reads few members, and asks `isInt` before it converts the size; but a header that is
no object and a name that is no text make it throw, as the deep nesting does that the parser refuses
(`FileSession.isSome_process_iff`). With the client session this settles which messages end one of the
two servers (`returns_iff_safe`).
-/

namespace GraduationServer

open Json

namespace FileSession

/-- The header of an upload has members, and if its size is an integer its name is a text. -/
def SafeHeader (root : Value) : Prop :=
  root.HasMembers ∧ ∀ size, root.member (ascii "fileSize") = some size → size.isInt = true →
    root.TextAt (ascii "fileName")

/-- Nothing throws on the message: the parser returns, and a message that is taken for a header is
safe. -/
def Safe (s : FileSession) (buffer : Bytes) : Prop :=
  ∃ ok root, Reader.parse buffer = some (ok, root) ∧
    (s.isState = false → ok = true → SafeHeader root)

/-- A size that is an integer is there. -/
theorem hasFileSize_eq {root size : Value} (h : root.member (ascii "fileSize") = some size) :
    hasFileSize root = some size.isInt := by
  unfold Value.member at h
  split at h
  · cases h
    rfl
  · next members =>
    cases h
    simp only [hasFileSize, Value.isMember, Value.member, Option.bind_some, Value.lookup]
    cases members.lookup (ascii "fileSize") <;> rfl
  · cases h

variable {s : FileSession} {disk : Disk} {host : Host}

theorem isSome_openUpload {root : Value} :
    (s.openUpload disk host root).isSome ↔ SafeHeader root := by
  unfold SafeHeader
  rw [← @Value.isSome_member root (ascii "fileSize")]
  cases hsize : root.member (ascii "fileSize") with
  | none =>
    have hmembers : ¬ root.HasMembers := by
      rw [← Value.isSome_member, hsize]
      simp
    have hnone : hasFileSize root = none := by
      rw [hasFileSize, Option.bind_eq_none_iff]
      intro known hknown
      exact absurd (Value.isSome_isMember.1 (by rw [hknown]; rfl)) hmembers
    simp [openUpload, hnone]
  | some size =>
    rw [openUpload, hasFileSize_eq hsize, Option.bind_eq_bind, Option.bind_some]
    cases hint : size.isInt with
    | false => simp [hint]
    | true =>
      have hfits : root.intMember (ascii "fileSize") = size.asInt := by
        rw [Value.intMember, hsize, Option.bind_some]
      obtain ⟨filesize, hfilesize⟩ :=
        Option.isSome_iff_exists.1 (Value.isSome_asInt_of_isInt hint)
      simp only [if_true, Option.isSome_some, true_and, Option.some.injEq, forall_eq', hint,
        true_imp_iff]
      rw [← Value.isSome_stringMember]
      refine isSome_bind_of_forall fun fileName _ => ?_
      simp only [hfits, hfilesize]
      split <;> rfl

theorem isSome_onUploadFileResponse {buffer : Bytes} {ok : Bool} {root : Value}
    (hparse : Reader.parse buffer = some (ok, root)) :
    (s.onUploadFileResponse disk host buffer).isSome ↔
      (s.isState = false → ok = true → SafeHeader root) := by
  rw [onUploadFileResponse, hparse]
  cases s.isState with
  | true => simp
  | false =>
    cases ok with
    | false => simp
    | true => simp [isSome_openUpload]

/-- A message that is answered as an HTTP request was not accepted by the parser. -/
theorem isSome_process {buffer : Bytes} {ok : Bool} {root : Value}
    (hparse : Reader.parse buffer = some (ok, root)) :
    (s.process disk host buffer).isSome ↔ (s.isState = false → ok = true → SafeHeader root) := by
  rw [process, hparse, Option.bind_some]
  dsimp only
  split
  · next h =>
    rw [Bool.and_eq_true, Bool.not_eq_true'] at h
    exact iff_of_true rfl fun _ hok => absurd (h.1.symm.trans hok) (by decide)
  · exact isSome_onUploadFileResponse hparse

/-- **`Process` of the file session returns exactly on the safe messages.** -/
theorem isSome_process_iff (s : FileSession) (disk : Disk) (host : Host) (buffer : Bytes) :
    (s.process disk host buffer).isSome ↔ s.Safe buffer := by
  constructor
  · intro h
    cases hparse : Reader.parse buffer with
    | none => simp [process, hparse] at h
    | some p => exact ⟨p.1, p.2, hparse, (isSome_process hparse).1 h⟩
  · rintro ⟨ok, root, hparse, h⟩
    exact (isSome_process hparse).2 h

end FileSession

/-- **No exception leaves `Process` exactly on the safe messages**, in the client session and in the
file session. -/
theorem returns_iff_safe (s : Server) (e : Surroundings) (t : FileSession) (disk : Disk)
    (host : Host) (message : Bytes) :
    ((ClientSession.process s e message).isSome ↔ ClientSession.Safe s e message) ∧
      ((t.process disk host message).isSome ↔ t.Safe message) :=
  ⟨ClientSession.isSome_process_iff s e message, FileSession.isSome_process_iff t disk host message⟩

/-- An array is no message: every client session throws on it, and every file session that waits for a
header. -/
theorem throws_on_array :
    (∀ (s : Server) (e : Surroundings), ClientSession.process s e (ascii "[]") = none) ∧
      ∀ (disk : Disk) (host : Host), FileSession.process {} disk host (ascii "[]") = none :=
  ⟨fun _ _ => rfl, fun _ _ => rfl⟩

end GraduationServer
