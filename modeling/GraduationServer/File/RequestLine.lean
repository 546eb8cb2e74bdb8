import GraduationServer.File.Http
import GraduationServer.Foundations.Find

/-!
# The request line

`parseHTTPRequest` in the steps of the source: the end of the request line, the blank behind the method,
the first byte that is no slash and the blank behind the name are positions that are found or not, and
between them parts of the text are taken. No `substr` throws, and the steps come to the name that
`parseHTTPRequest` gives (`parseHTTPRequestSteps_eq`); `parseHTTPRequest_exact` says what that is for
every request.
-/

namespace GraduationServer

namespace FileSession

/-- `parseHTTPRequest`, none when a `substr` throws. -/
def parseHTTPRequestSteps (request : Bytes) : Option Bytes :=
  match findFirstOf (ascii "\r\n") request with
  | none => some []
  | some requestLineEnd => do
    let requestLine ← substr request 0 (some requestLineEnd)
    match findFirstOf (ascii " ") requestLine with
    | none => some []
    | some methodUriSeparator => do
      let uri ← substr requestLine (methodUriSeparator + 1) none
      match findFirstNotOf (ascii "/") uri with
      | none => some []
      | some fileNameStart => do
        let fileName ← substr uri fileNameStart none
        substr fileName 0 (find (ascii " ") fileName)

/-- The bytes in front of the first break of a line. -/
def firstLine (request : Bytes) : Bytes := request.takeWhile fun c => c ≠ 0x0D && c ≠ 0x0A

theorem parseHTTPRequestSteps_eq (request : Bytes) :
    parseHTTPRequestSteps request = some (parseHTTPRequest request) := by
  have hbreak : ∀ c : UInt8, (c ≠ 0x0D && c ≠ 0x0A) = !(ascii "\r\n").contains c := by
    intro c
    rw [show ascii "\r\n" = [0x0D, 0x0A] from rfl]
    simp
  have hblank : ∀ c : UInt8, decide (c ≠ 0x20) = !(ascii " ").contains c := by
    intro c
    rw [show ascii " " = [0x20] from rfl]
    simp
  have hslash : ∀ c : UInt8, decide (c = 0x2F) = !!(ascii "/").contains c := by
    intro c
    rw [show ascii "/" = [0x2F] from rfl]
    simp
  unfold parseHTTPRequestSteps parseHTTPRequest
  cases hend : findFirstOf (ascii "\r\n") request with
  | none =>
    have hnone := findFirstOf_eq_none_iff.1 hend
    rw [if_neg (not_or.2 ⟨hnone 0x0D (by decide), hnone 0x0A (by decide)⟩)]
  | some requestLineEnd =>
    have hsome : 0x0D ∈ request ∨ 0x0A ∈ request := by
      by_contra h
      rw [not_or] at h
      have hnone : findFirstOf (ascii "\r\n") request = none :=
        findFirstOf_eq_none_iff.2 (List.forall_mem_cons.2 ⟨h.1, List.forall_mem_singleton.2 h.2⟩)
      rw [hnone] at hend
      cases hend
    rw [if_pos hsome]
    dsimp only
    rw [substr_zero_of_findIdx? hbreak hend, Option.bind_eq_bind, Option.bind_some]
    generalize (request.takeWhile fun c => c ≠ 0x0D && c ≠ 0x0A) = requestLine
    cases hseparator : findFirstOf (ascii " ") requestLine with
    | none =>
      rw [dropWhile_of_findIdx?_eq_none hblank hseparator]
      rfl
    | some methodUriSeparator =>
      dsimp only
      rw [substr_succ_of_findIdx? hblank hseparator, Option.bind_some]
      generalize (requestLine.dropWhile (· ≠ 0x20)).drop 1 = uri
      cases hstart : findFirstNotOf (ascii "/") uri with
      | none =>
        rw [dropWhile_of_findIdx?_eq_none hslash hstart]
        rfl
      | some fileNameStart =>
        dsimp only
        rw [substr_of_findIdx? hslash hstart, Option.bind_some]
        exact substr_zero_find_singleton 0x20 _

/-! ## Request lines -/

section Lines

variable {m u v r : Bytes}

/-- Bytes without a break. -/
def NoBreak (s : Bytes) : Prop := 0x0D ∉ s ∧ 0x0A ∉ s

instance (s : Bytes) : Decidable (NoBreak s) := inferInstanceAs (Decidable (_ ∧ _))

theorem NoBreak.append (hm : NoBreak m) (hu : NoBreak u) : NoBreak (m ++ u) :=
  ⟨fun h => (List.mem_append.1 h).elim hm.1 hu.1, fun h => (List.mem_append.1 h).elim hm.2 hu.2⟩

theorem NoBreak.blank_cons (hm : NoBreak m) : NoBreak (0x20 :: m) :=
  ⟨fun h => (List.mem_cons.1 h).elim (by decide) hm.1,
    fun h => (List.mem_cons.1 h).elim (by decide) hm.2⟩

/-- The first line goes up to the break. -/
theorem firstLine_append (hm : NoBreak m) (hr : r.head? = some 0x0D ∨ r.head? = some 0x0A) :
    firstLine (m ++ r) = m := by
  have hpass : ∀ c ∈ m, (c ≠ 0x0D && c ≠ 0x0A) = true := by
    intro c hc
    have hreturn : c ≠ 0x0D := fun h => hm.1 (h ▸ hc)
    have hfeed : c ≠ 0x0A := fun h => hm.2 (h ▸ hc)
    simp [hreturn, hfeed]
  rw [firstLine, List.takeWhile_append_of_pos hpass]
  cases r with
  | nil => simp at hr
  | cons c r =>
    rw [List.head?_cons, Option.some_inj, Option.some_inj] at hr
    rcases hr with rfl | rfl <;> simp

theorem ne_blank (hm : 0x20 ∉ m) : ∀ c ∈ m, decide (c ≠ 0x20) = true := by
  intro c hc
  exact decide_eq_true fun h => hm (h ▸ hc)

/-- A blank ends what has none. -/
theorem dropWhile_blank (hm : 0x20 ∉ m) (s : Bytes) :
    (m ++ 0x20 :: s).dropWhile (· ≠ 0x20) = 0x20 :: s := by
  rw [List.dropWhile_append_of_pos (ne_blank hm)]
  rfl

theorem takeWhile_blank (hm : 0x20 ∉ m) (s : Bytes) :
    (m ++ 0x20 :: s).takeWhile (· ≠ 0x20) = m := by
  rw [List.takeWhile_append_of_pos (ne_blank hm)]
  simp

/-- The slashes in front of a blank. -/
theorem dropWhile_slash (u s : Bytes) :
    (u ++ 0x20 :: s).dropWhile (· = 0x2F) = u.dropWhile (· = 0x2F) ++ 0x20 :: s := by
  induction u with
  | nil => rfl
  | cons c u ih =>
    by_cases hc : c = 0x2F
    · simp only [hc, List.cons_append, List.dropWhile_cons_of_pos, decide_true, ih]
    · simp [hc]

/-- The target of a request line, without its leading slashes. -/
theorem parseHTTPRequest_line (hm : NoBreak m) (hu : NoBreak u) (hv : NoBreak v) (hmBlank : 0x20 ∉ m)
    (huBlank : 0x20 ∉ u) (hr : r.head? = some 0x0D ∨ r.head? = some 0x0A) :
    parseHTTPRequest (m ++ 0x20 :: (u ++ 0x20 :: (v ++ r))) = u.dropWhile (· = 0x2F) := by
  have hline : m ++ 0x20 :: (u ++ 0x20 :: (v ++ r)) = (m ++ 0x20 :: (u ++ 0x20 :: v)) ++ r := by simp
  have hfirst := firstLine_append (hm.append (hu.append hv.blank_cons).blank_cons) hr
  have hbreak : 0x0D ∈ r ∨ 0x0A ∈ r := hr.imp List.mem_of_mem_head? List.mem_of_mem_head?
  have hmem := hbreak.imp (List.mem_append_right (m ++ 0x20 :: (u ++ 0x20 :: v)))
    (List.mem_append_right (m ++ 0x20 :: (u ++ 0x20 :: v)))
  have huDrop : 0x20 ∉ u.dropWhile (· = 0x2F) := fun h => huBlank ((List.dropWhile_sublist _).subset h)
  rw [firstLine] at hfirst
  rw [parseHTTPRequest, hline, if_pos hmem]
  dsimp only
  rw [hfirst, dropWhile_blank hmBlank, List.drop_one, List.tail_cons, dropWhile_slash,
    takeWhile_blank huDrop]

/-- Without a blank in the first line there is no name. -/
theorem parseHTTPRequest_of_no_blank {request : Bytes} (h : 0x20 ∉ firstLine request) :
    parseHTTPRequest request = [] := by
  unfold parseHTTPRequest
  split
  · have hdrop := List.dropWhile_eq_nil_iff.2 (ne_blank h)
    rw [firstLine] at hdrop
    dsimp only
    rw [hdrop]
    rfl
  · rfl

end Lines

/-- **Parsing is exact.** The name is the target of the request line without its leading slashes, and it
is empty for a request without a break and for one whose first line has no blank. -/
theorem parseHTTPRequest_exact :
    (∀ m u v r : Bytes, NoBreak m → NoBreak u → NoBreak v → 0x20 ∉ m → 0x20 ∉ u →
      (r.head? = some 0x0D ∨ r.head? = some 0x0A) →
      parseHTTPRequestSteps (m ++ 0x20 :: (u ++ 0x20 :: (v ++ r))) =
        some (u.dropWhile (· = 0x2F))) ∧
      (∀ request : Bytes, NoBreak request → parseHTTPRequestSteps request = some []) ∧
      (∀ request : Bytes, 0x20 ∉ firstLine request → parseHTTPRequestSteps request = some []) := by
  refine ⟨fun m u v r hm hu hv hmBlank huBlank hr => ?_, fun request h => ?_, fun request h => ?_⟩
  · rw [parseHTTPRequestSteps_eq, parseHTTPRequest_line hm hu hv hmBlank huBlank hr]
  · rw [parseHTTPRequestSteps_eq, parseHTTPRequest, if_neg (not_or.2 h)]
  · rw [parseHTTPRequestSteps_eq, parseHTTPRequest_of_no_blank h]

/-- A target with slashes in front and inside, a request without a break and one without a blank. -/
theorem parseHTTPRequest_exact_example :
    parseHTTPRequestSteps (ascii "GET" ++ 0x20 ::
        (ascii "//a/b.ts" ++ 0x20 :: (ascii "HTTP/1.1" ++ ascii "\r\n"))) =
        some ((ascii "//a/b.ts").dropWhile (· = 0x2F)) ∧
      parseHTTPRequestSteps (ascii "GET /a.ts") = some [] ∧
      parseHTTPRequestSteps (ascii "GET\r\n") = some [] :=
  ⟨parseHTTPRequest_exact.1 _ _ _ _ (by decide) (by decide) (by decide) (by decide) (by decide)
      (by decide),
    parseHTTPRequest_exact.2.1 _ (by decide), parseHTTPRequest_exact.2.2 _ (by decide)⟩

end FileSession

end GraduationServer
