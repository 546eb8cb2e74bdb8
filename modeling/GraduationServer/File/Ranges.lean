import GraduationServer.File.Http
import GraduationServer.Foundations.Loops

/-!
# Ranges of a file

`httpServer` registers a content provider for each file, and `write_content` of the HTTP library calls it
for the part of the file that is asked for, until the end of that part has been written. The provider
writes blocks of 4096 bytes, whatever it is asked for, and stops only at the end of the file: a range is
rounded up to whole blocks (`ends_writeContentStep_iff`), and it is served exactly if it consists of
whole blocks or goes to the end of the file (`writeContent_exact_iff`).
-/

namespace GraduationServer

namespace FileServer

/-- A content provider: what it writes to the sink for an offset and a length, none if it gives up. -/
abbrev ContentProvider := ℕ → ℕ → Option Bytes

/-- The provider that `httpServer` registers. It does not look at the length. -/
def contentProvider (disk : Disk) (filePath : Bytes) : ContentProvider := fun offset _ =>
  match disk (cStr filePath) with
  | none => none
  | some content =>
    let fileSize := content.length
    if fileSize ≤ offset then none
    else
      let chunkSize := 4 * 1024
      let readSize := if chunkSize < fileSize - offset then chunkSize else fileSize - offset
      some ((content.drop offset).take readSize)

/-- A round of the loop of `write_content`, with the offset and what has been written so far. The result
tells whether the provider has not given up. -/
def writeContentStep (provider : ContentProvider) (endOffset : ℕ) (s : ℕ × Bytes) :
    (ℕ × Bytes) ⊕ (Bool × Bytes) :=
  if s.1 < endOffset then
    match provider s.1 (endOffset - s.1) with
    | none => .inr (false, s.2)
    | some data => .inl (s.1 + data.length, s.2 ++ data)
  else .inr (true, s.2)

/-- A length rounded up to whole blocks. -/
def roundUp (length : ℕ) : ℕ := (length + 4095) / 4096 * 4096

theorem roundUp_of_le {length : ℕ} (hpos : 0 < length) (hle : length ≤ 4096) :
    roundUp length = 4096 := by
  unfold roundUp
  omega

theorem roundUp_add (length : ℕ) : roundUp (4096 + length) = 4096 + roundUp length := by
  unfold roundUp
  omega

theorem le_roundUp (length : ℕ) : length ≤ roundUp length := by
  unfold roundUp
  omega

theorem roundUp_eq_self_iff {length : ℕ} : roundUp length = length ↔ 4096 ∣ length := by
  unfold roundUp
  omega

section Loop

variable {disk : Disk} {filePath content : Bytes}

/-- A block of the file, or all that is left of it. -/
theorem contentProvider_of_lt (hfile : disk (cStr filePath) = some content) {offset : ℕ} (len : ℕ)
    (h : offset < content.length) :
    contentProvider disk filePath offset len = some ((content.drop offset).take 4096) := by
  simp only [contentProvider, hfile, if_neg (not_le.2 h)]
  split
  · rfl
  · have hrest : (content.drop offset).length = content.length - offset := List.length_drop
    rw [List.take_of_length_le hrest.le, List.take_of_length_le (by omega)]

theorem writeContentStep_of_lt (hfile : disk (cStr filePath) = some content) {offset endOffset : ℕ}
    (hlt : offset < endOffset) (hend : endOffset ≤ content.length) (written : Bytes) :
    writeContentStep (contentProvider disk filePath) endOffset (offset, written) =
      .inl (offset + min 4096 (content.length - offset), written ++ (content.drop offset).take 4096) := by
  rw [writeContentStep, if_pos hlt, contentProvider_of_lt hfile _ (by omega)]
  simp

theorem writeContentStep_of_le {provider : ContentProvider} {offset endOffset : ℕ}
    (hle : endOffset ≤ offset) (written : Bytes) :
    writeContentStep provider endOffset (offset, written) = .inr (true, written) := by
  rw [writeContentStep, if_neg (not_lt.2 hle)]

/-- **The loop ends, and has written the range in whole blocks** up to the end of the file. The induction
is on the length. -/
theorem ends_writeContentStep_iff (hfile : disk (cStr filePath) = some content) (n : ℕ)
    {offset length : ℕ} (hn : length ≤ n) (h : offset + length ≤ content.length) (written : Bytes)
    (r : Bool × Bytes) :
    Ends (writeContentStep (contentProvider disk filePath) (offset + length)) (offset, written) r ↔
      (true, written ++ (content.drop offset).take (roundUp length)) = r := by
  induction n generalizing offset length written with
  | zero =>
    obtain rfl := Nat.le_zero.1 hn
    rw [Nat.add_zero, ends_of_inr (writeContentStep_of_le le_rfl written)]
    simp [roundUp]
  | succ n ih =>
    rcases Nat.eq_zero_or_pos length with rfl | hpos
    · rw [Nat.add_zero, ends_of_inr (writeContentStep_of_le le_rfl written)]
      simp [roundUp]
    · rw [ends_of_inl (writeContentStep_of_lt hfile (by omega) h written)]
      rcases Nat.lt_or_ge 4096 length with hlong | hshort
      · obtain ⟨length, rfl⟩ := Nat.exists_eq_add_of_le hlong.le
        rw [show min 4096 (content.length - offset) = 4096 by omega, ← Nat.add_assoc,
          ih (by omega) (by omega), roundUp_add, List.take_add, List.drop_drop, List.append_assoc]
      · -- the last block, which may go behind the end of the range
        rw [ends_of_inr (writeContentStep_of_le (by omega) _), roundUp_of_le hpos hshort]

/-- What is written is the range if the last block ends with it, or with the file. -/
theorem take_roundUp_eq_iff {offset length : ℕ} (h : offset + length ≤ content.length) :
    (content.drop offset).take (roundUp length) = (content.drop offset).take length ↔
      4096 ∣ length ∨ offset + length = content.length := by
  have hrest : (content.drop offset).length = content.length - offset := List.length_drop
  have hle := le_roundUp length
  constructor
  · intro heq
    have hlength := congrArg List.length heq
    rw [List.length_take, List.length_take, hrest] at hlength
    rw [← roundUp_eq_self_iff]
    omega
  · rintro (hdvd | hlast)
    · rw [roundUp_eq_self_iff.2 hdvd]
    · rw [List.take_of_length_le (by omega), List.take_of_length_le (by omega)]

end Loop

/-- **A range is served exactly if it consists of whole blocks or goes to the end of the file.** The loop
ends for every range. -/
theorem writeContent_exact_iff (disk : Disk) (filePath content : Bytes)
    (hfile : disk (cStr filePath) = some content) (offset length : ℕ)
    (h : offset + length ≤ content.length) :
    (∃ r, Ends (writeContentStep (contentProvider disk filePath) (offset + length)) (offset, []) r) ∧
      (Ends (writeContentStep (contentProvider disk filePath) (offset + length)) (offset, [])
          (true, (content.drop offset).take length) ↔
        4096 ∣ length ∨ offset + length = content.length) := by
  have hends := ends_writeContentStep_iff hfile length le_rfl h []
  refine ⟨⟨_, (hends _).2 rfl⟩, ?_⟩
  rw [hends, ← take_roundUp_eq_iff h, List.nil_append, Prod.mk.injEq]
  exact and_iff_right rfl

/-- The end of a file of three bytes. -/
theorem writeContent_exact_iff_example :
    (∃ r, Ends (writeContentStep (contentProvider (fun _ => some (ascii "abc")) (ascii "a.png")) (1 + 2))
        (1, []) r) ∧
      (Ends (writeContentStep (contentProvider (fun _ => some (ascii "abc")) (ascii "a.png")) (1 + 2))
          (1, []) (true, ((ascii "abc").drop 1).take 2) ↔
        4096 ∣ 2 ∨ 1 + 2 = (ascii "abc").length) :=
  writeContent_exact_iff (fun _ => some (ascii "abc")) (ascii "a.png") _ rfl 1 2 (by decide)

/-- A range of one byte in front of another: both are written. -/
theorem not_writeContent_exact :
    ¬ ∀ (disk : Disk) (filePath content : Bytes), disk (cStr filePath) = some content →
      ∀ offset length : ℕ, offset + length ≤ content.length →
        Ends (writeContentStep (contentProvider disk filePath) (offset + length)) (offset, [])
          (true, (content.drop offset).take length) := by
  intro h
  have hends := h (fun _ => some (ascii "ab")) (ascii "a.png") _ rfl 0 1 (by decide)
  have hiff := @ends_writeContentStep_iff (fun _ => some (ascii "ab")) (ascii "a.png") _ rfl 1 0 1 le_rfl
    (by decide) [] (true, ((ascii "ab").drop 0).take 1)
  exact absurd (hiff.1 hends) (by decide)

end FileServer

end GraduationServer
