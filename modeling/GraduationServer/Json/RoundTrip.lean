import GraduationServer.Json.Characters
import GraduationServer.Json.ReaderBounds
import Mathlib.Data.List.TakeWhile

/-!
# What the writer writes is read back

`parse_write`: a value whose texts are in UTF-8 and whose numbers are integers is read back from what the
writer writes for it, with its members and elements in their order, through every layout that the writer
chooses. The one thing that changes is how an integer is stored: signed when it is at most `maxInt`, and
unsigned otherwise (`Value.stored`).

The writer hands on a document that grows. So what is shown of each of its functions is that it appends a
text, and that the text is read as the value wherever it stands (`ReadsAs`).
-/

namespace GraduationServer

namespace Json

/-! ## What can be read back -/

mutual

/-- A value as the reader stores it. -/
def Value.stored : Value → Value
  | .int i => if i ≤ maxInt then .int i else .uint i.toNat
  | .uint n => if (n : ℤ) ≤ maxInt then .int n else .uint n
  | .array elements => .array (storedElements elements)
  | .object members => .object (storedMembers members)
  | v => v

def storedElements : List Value → List Value
  | [] => []
  | v :: elements => v.stored :: storedElements elements

def storedMembers : List (Bytes × Value) → List (Bytes × Value)
  | [] => []
  | (key, v) :: members => (key, v.stored) :: storedMembers members

end

/-- A key that can be read back. -/
structure IsKey (key : Bytes) : Prop where
  utf8 : IsUtf8 key
  ended : 0 ∉ key
  length_lt : key.length < 2 ^ 30

/-- A value that can be read back when at most `depth` values are open. -/
def Readable : ℕ → Value → Prop
  | 0, _ => False
  | _ + 1, .null | _ + 1, .bool _ => True
  | _ + 1, .int i => -2 ^ 63 ≤ i ∧ i < 2 ^ 63
  | _ + 1, .uint n => n < 2 ^ 64
  | _ + 1, .real _ => False
  | _ + 1, .string s => IsUtf8 s ∧ s.length ≤ 2 ^ 31 - 6
  | depth + 1, .array elements => ∀ v ∈ elements, Readable depth v
  | depth + 1, .object members =>
    (members.map Prod.fst).Pairwise (· < ·) ∧ ∀ m ∈ members, IsKey m.1 ∧ Readable depth m.2

namespace Writer

open Reader

/-! ## Blanks -/

/-- White space. -/
def Blank (s : Bytes) : Prop := ∀ c ∈ s, (c = 0x20 || c = 0x09 || c = 0x0D || c = 0x0A) = true

theorem blank_nil : Blank [] := by simp [Blank]

theorem blank_append {g h : Bytes} (hg : Blank g) (hh : Blank h) : Blank (g ++ h) := by
  intro c hc
  exact (List.mem_append.1 hc).elim (hg c) (hh c)

theorem blank_replicate (n : ℕ) : Blank (List.replicate n 0x20) := by
  intro c hc
  rw [List.eq_of_mem_replicate hc]
  rfl

/-- The writer makes a line ready by blanks. -/
theorem blank_writeIndent (document : Bytes) (n : ℕ) :
    ∃ g, Blank g ∧ writeIndent document n = document ++ g := by
  have hline : Blank [0x0A] := by
    intro c hc
    rw [List.mem_singleton.1 hc]
    rfl
  unfold writeIndent
  split_ifs with hnil hblank hend
  · exact ⟨_, blank_replicate n, by rw [hnil, List.nil_append]⟩
  · exact ⟨[], blank_nil, (List.append_nil _).symm⟩
  · exact ⟨_, blank_replicate n, rfl⟩
  · exact ⟨[0x0A] ++ List.replicate n 0x20, blank_append hline (blank_replicate n), by simp⟩

section Blank

variable {g : Bytes} (h : Blank g) (s : Bytes)

include h

theorem skipSpaces_blank : skipSpaces (g ++ s) = skipSpaces s := List.dropWhile_append_of_pos h

theorem readToken_blank : readToken (g ++ s) = readToken s := by
  unfold readToken
  rw [skipSpaces_blank h]

theorem skipCommentTokens_blank :
    skipCommentTokens (g ++ s).length (g ++ s) = skipCommentTokens s.length s := by
  have hfuel : skipCommentTokens (g ++ s).length s = skipCommentTokens s.length s :=
    skipCommentTokens_eq (by simp)
  rw [← hfuel]
  cases (g ++ s).length with
  | zero => exact readToken_blank h s
  | succ n => simp only [skipCommentTokens, readToken_blank h]

/-- The blanks in front of a value do not matter. -/
theorem readValue_blank (d : ℕ) (old : Value) : readValue d old (g ++ s) = readValue d old s := by
  cases d with
  | zero => rfl
  | succ d => simp only [readValue, skipCommentTokens_blank h]

theorem readElements_blank (d k : ℕ) (elements : List Value) :
    readElements (readValue d) (k + 1) elements (g ++ s) =
      readElements (readValue d) (k + 1) elements s := by
  simp only [readElements, readValue_blank h]

end Blank

/-! ## Scalars -/

/-- A text that does not go on with a number. -/
def Stops (s : Bytes) : Prop :=
  ∀ c ∈ s.head?, c ∈ ([0x20, 0x09, 0x0D, 0x0A, 0x2C, 0x5D, 0x7D] : List UInt8)

/-- A text that is read as a value, wherever it stands, when at most `depth` values are open. -/
def ReadsAs (depth : ℕ) (text : Bytes) (v : Value) : Prop :=
  ∀ d old rest, depth ≤ d → Stops rest → readValue d old (text ++ rest) = some (true, v, rest)

theorem ReadsAs.blank {depth : ℕ} {text g : Bytes} {v : Value} (h : ReadsAs depth text v)
    (hg : Blank g) : ReadsAs depth (g ++ text) v := by
  intro d old rest hd hrest
  rw [List.append_assoc, readValue_blank hg]
  exact h d old rest hd hrest

/-- A token that is a value by itself. -/
theorem readsAs_of_token (token : Token) {depth : ℕ} {text : Bytes} {v : Value}
    (htoken : ∀ rest, Stops rest → readToken (text ++ rest) = (token, rest))
    (hcomment : token ≠ .comment)
    (hvalue : ∀ d old s s', skipCommentTokens s.length s = (token, s') →
      readValue (d + 1) old s = some (true, v, s')) : ReadsAs (depth + 1) text v := by
  intro d old rest hd hrest
  obtain ⟨d, rfl⟩ : ∃ k, d = k + 1 := ⟨d - 1, by omega⟩
  apply hvalue
  rw [skipCommentTokens_of_ne (by rwa [htoken rest hrest]), htoken rest hrest]

theorem readWord_append (token : Token) (pattern s : Bytes) :
    readWord token pattern (pattern ++ s) = (token, s) := by
  rw [readWord, matchPattern, List.dropPrefix?_append_of_beq _ (beq_self_eq_true pattern)]

theorem readsAs_null (depth : ℕ) : ReadsAs (depth + 1) (ascii "null") .null := by
  refine readsAs_of_token .null (fun rest _ => readWord_append .null (ascii "ull") rest)
    (by decide) fun d old s s' h => ?_
  simp only [readValue, h]

theorem readsAs_bool (depth : ℕ) (b : Bool) :
    ReadsAs (depth + 1) (ascii (if b then "true" else "false")) (.bool b) := by
  cases b with
  | false =>
    refine readsAs_of_token .false
      (fun rest _ => readWord_append .false (ascii "alse") rest) (by decide) fun d old s s' h => ?_
    simp only [readValue, h]
  | true =>
    refine readsAs_of_token .true
      (fun rest _ => readWord_append .true (ascii "rue") rest) (by decide) fun d old s s' h => ?_
    simp only [readValue, h]

/-- A text between quotes that is decoded. -/
theorem readsAs_quoted (depth : ℕ) {s t : Bytes}
    (hquoted : ∀ rest, readString (s ++ 0x22 :: rest) = some (s, rest)) (hdecode : decodeString s = some t)
    (hlength : t.length ≤ 2 ^ 31 - 6) : ReadsAs (depth + 1) (0x22 :: (s ++ [0x22])) (.string t) := by
  refine readsAs_of_token (.string s) (fun rest _ => ?_) (by simp) fun d old u u' h => ?_
  · rw [List.cons_append, List.append_assoc, List.singleton_append]
    exact readToken_string (hquoted rest)
  · have hmod : t.length % 2 ^ 32 = t.length := Nat.mod_eq_of_lt (by omega)
    have hstored : Value.ofString t = some (.string t) := by
      rw [Value.ofString, if_pos (by rw [Storable, hmod]; exact hlength), hmod, List.take_length]
    simp only [readValue, h, hdecode, hstored, Option.map_some]

/-- A string in UTF-8. -/
theorem readsAs_string (depth : ℕ) {s : Bytes} (hutf8 : IsUtf8 s) (hlength : s.length ≤ 2 ^ 31 - 6) :
    ReadsAs (depth + 1) (valueToQuotedString s) (.string s) := by
  have hquoted : valueToQuotedString s = 0x22 :: (escape s ++ [0x22]) := by simp [valueToQuotedString]
  rw [hquoted]
  exact readsAs_quoted depth (readString_escape s) ((decodeString_escape_iff s).2 hutf8) hlength

/-! ## Numbers -/

/-- A digit is one of the ten bytes that the lexer takes for digits. -/
theorem digit_of_isDigit {c : UInt8} (h : IsDigit 10 c) : 0x30 ≤ c ∧ c ≤ 0x39 := by
  unfold IsDigit digitValue at h
  split_ifs at h with h₁ h₂ h₃
  · exact h₁
  · have := UInt8.le_iff_toNat_le.1 h₂.1
    have : (0x61 : UInt8).toNat = 0x61 := rfl
    omega
  · have := UInt8.le_iff_toNat_le.1 h₃.1
    have : (0x41 : UInt8).toNat = 0x41 := rfl
    omega
  · omega

/-- What stops a number is no part of one. -/
theorem Stops.ne {c : UInt8} {s : Bytes} (h : Stops (c :: s)) :
    (0x30 ≤ c && c ≤ 0x39) = false ∧ c ∉ ([0x2E] : List UInt8) ∧ c ∉ ([0x65, 0x45] : List UInt8) := by
  have hc := h c rfl
  simp only [List.mem_cons, List.not_mem_nil, or_false] at hc
  rcases hc with rfl | rfl | rfl | rfl | rfl | rfl | rfl <;> decide

theorem spanOne_stops {cs : List UInt8} {s : Bytes} (h : ∀ c ∈ s.head?, c ∉ cs) :
    spanOne cs s = ([], s) := by
  cases s with
  | nil => rfl
  | cons c s => rw [spanOne, if_neg (h c rfl)]

/-- A number is read up to where it stops. -/
theorem readNumber_digits {ds rest : Bytes} (hds : ∀ c ∈ ds, IsDigit 10 c) (hrest : Stops rest) :
    readNumber (ds ++ rest) = (ds, rest) := by
  have hspan : spanDigits (ds ++ rest) = (ds, rest) := by
    have hdigits : ∀ c ∈ ds, (0x30 ≤ c && c ≤ 0x39) = true := by
      intro c hc
      simpa using digit_of_isDigit (hds c hc)
    have hnone : rest.takeWhile (fun c => 0x30 ≤ c && c ≤ 0x39) = [] := by
      cases rest with
      | nil => rfl
      | cons c rest => rw [List.takeWhile_cons, hrest.ne.1]; rfl
    have hall : rest.dropWhile (fun c => 0x30 ≤ c && c ≤ 0x39) = rest := by
      cases rest with
      | nil => rfl
      | cons c rest => rw [List.dropWhile_cons, hrest.ne.1]; rfl
    rw [spanDigits, List.span_eq_takeWhile_dropWhile, List.takeWhile_append_of_pos hdigits,
      List.dropWhile_append_of_pos hdigits, hnone, hall, List.append_nil]
  have hpoint : spanOne [0x2E] rest = ([], rest) := by
    apply spanOne_stops
    cases rest with
    | nil => simp
    | cons c rest =>
      rintro _ ⟨⟩
      exact hrest.ne.2.1
  have hmark : spanOne [0x65, 0x45] rest = ([], rest) := by
    apply spanOne_stops
    cases rest with
    | nil => simp
    | cons c rest =>
      rintro _ ⟨⟩
      exact hrest.ne.2.2
  simp only [readNumber, hspan, hpoint, hmark, if_true, List.append_nil]

/-- Digits are decoded to their number when that is not too great. -/
theorem decodeDigits_eq {limit : ℕ} (hlimit : 10 ≤ limit) {value : ℕ} {ds : Bytes}
    (hds : ∀ c ∈ ds, IsDigit 10 c) (hle : ofNumeralFrom 10 value ds ≤ limit) :
    decodeDigits limit value ds = some (ofNumeralFrom 10 value ds) := by
  induction ds generalizing value with
  | nil => rfl
  | cons c ds ih =>
    have hc := hds c List.mem_cons_self
    obtain ⟨hlow, hhigh⟩ := digit_of_isDigit hc
    have hvalue : digitValue c = c.toNat - 0x30 := by rw [digitValue, if_pos ⟨hlow, hhigh⟩]
    have hfrom : ofNumeralFrom 10 value (c :: ds) =
        ofNumeralFrom 10 (value * 10 + (c.toNat - 0x30)) ds := by
      change ofNumeralFrom 10 (10 * value + digitValue c) ds = _
      rw [hvalue, Nat.mul_comm]
    have hgrows : ∀ n (t : Bytes), n ≤ ofNumeralFrom 10 n t := by
      intro n t
      induction t generalizing n with
      | nil => exact le_rfl
      | cons d t iht => exact le_trans (by omega) (iht (10 * n + digitValue d))
    have hgrows' : ds ≠ [] → (value * 10 + (c.toNat - 0x30)) * 10 ≤
        ofNumeralFrom 10 (value * 10 + (c.toNat - 0x30)) ds := by
      intro hne
      obtain ⟨d, t, rfl⟩ := List.exists_cons_of_ne_nil hne
      exact le_trans (by omega) (hgrows (10 * (value * 10 + (c.toNat - 0x30)) + digitValue d) t)
    rw [hfrom] at hle ⊢
    have hstep := hgrows (value * 10 + (c.toNat - 0x30)) ds
    have hbyte : ¬ (c < 0x30 ∨ 0x39 < c) := not_or.2 ⟨UInt8.not_lt.2 hlow, UInt8.not_lt.2 hhigh⟩
    have hfits : ¬ (limit / 10 ≤ value ∧
        (limit / 10 < value ∨ ds ≠ [] ∨ limit % 10 < c.toNat - 0x30)) := by
      rintro ⟨hreached, habove | hne | hdigit⟩
      · omega
      · have := hgrows' hne
        omega
      · omega
    simp only [decodeDigits, if_neg hbyte, if_neg hfits]
    exact ih (fun d hd => hds d (List.mem_cons_of_mem _ hd)) hle

theorem digits_numeral (n : ℕ) : ∀ c ∈ numeral 10 n, IsDigit 10 c :=
  fun _ hc => isDigit_of_mem_numeral (by decide) (by decide) hc

/-- A number is one token. -/
theorem readToken_number {c : UInt8} (hc : (0x30 ≤ c ∧ c ≤ 0x39) ∨ c = 0x2D) (s : Bytes) :
    readToken (c :: s) = (.number (c :: (readNumber s).1), (readNumber s).2) := by
  have hne : ∀ x : UInt8, ¬ ((0x30 ≤ x ∧ x ≤ 0x39) ∨ x = 0x2D) → c ≠ x := by
    rintro x hx rfl
    exact hx hc
  have hspaces : skipSpaces (c :: s) = c :: s := by
    refine List.dropWhile_cons_of_neg ?_
    simp [hne 0x20 (by decide), hne 0x09 (by decide), hne 0x0D (by decide), hne 0x0A (by decide)]
  unfold readToken
  rw [hspaces]
  simp only [if_neg (hne 0x7B (by decide)), if_neg (hne 0x7D (by decide)), if_neg (hne 0x5B (by decide)),
    if_neg (hne 0x5D (by decide)), if_neg (hne 0x22 (by decide)), if_neg (hne 0x2F (by decide)), if_pos hc]

/-- A number token whose text is decoded. -/
theorem readsAs_number {depth : ℕ} {c : UInt8} {ds : Bytes} {v : Value}
    (hc : (0x30 ≤ c ∧ c ≤ 0x39) ∨ c = 0x2D)
    (hread : ∀ rest, Stops rest → readNumber (ds ++ rest) = (ds, rest))
    (hdecode : decodeNumber (c :: ds) = some v) : ReadsAs (depth + 1) (c :: ds) v := by
  refine readsAs_of_token (.number (c :: ds)) (fun rest hrest => ?_) (by simp)
    fun d old s s' h => ?_
  · rw [List.cons_append, readToken_number hc, hread rest hrest]
  · simp only [readValue, h, hdecode]

/-- A natural number, as it is stored. -/
theorem readsAs_numeral (depth : ℕ) {n : ℕ} (hn : n < 2 ^ 64) :
    ReadsAs (depth + 1) (numeral 10 n) (if (n : ℤ) ≤ maxInt then .int n else .uint n) := by
  obtain ⟨c, ds, hnumeral⟩ := List.exists_cons_of_ne_nil (show numeral 10 n ≠ [] from numeral_ne_nil n)
  have hdigits := digits_numeral n
  have hvalue : ofNumeralFrom 10 0 (numeral 10 n) = n := ofNumeral_numeral (by decide) (by decide) n
  have hdecode : decodeDigits (2 ^ 64 - 1) 0 (numeral 10 n) = some n := by
    rw [decodeDigits_eq (by decide) hdigits (by omega), hvalue]
  rw [hnumeral] at hdigits hdecode ⊢
  have hc := digit_of_isDigit (hdigits c List.mem_cons_self)
  refine readsAs_number (.inl hc)
    (fun _ hrest => readNumber_digits (fun d hd => hdigits d (List.mem_cons_of_mem _ hd)) hrest) ?_
  have hminus : (c :: ds).head? ≠ some 0x2D := by
    intro h
    cases h
    exact absurd hc (by decide)
  rw [decodeNumber, if_neg hminus, hdecode]

/-- A negative number. -/
theorem readsAs_negative (depth : ℕ) {n : ℕ} (hn : n ≤ 2 ^ 63) :
    ReadsAs (depth + 1) (0x2D :: numeral 10 n) (.int (-(n : ℤ))) := by
  refine readsAs_number (.inr rfl) (fun _ hrest => readNumber_digits (digits_numeral n) hrest) ?_
  have hvalue : ofNumeralFrom 10 0 (numeral 10 n) = n := ofNumeral_numeral (by decide) (by decide) n
  have hdecode : decodeDigits (2 ^ 63) 0 (numeral 10 n) = some n := by
    rw [decodeDigits_eq (by decide) (digits_numeral n) (by omega), hvalue]
  rw [decodeNumber, List.head?_cons, if_pos rfl, List.tail_cons, hdecode]

theorem readsAs_int (depth : ℕ) {i : ℤ} (hlow : -2 ^ 63 ≤ i) (hhigh : i < 2 ^ 63) :
    ReadsAs (depth + 1) (Value.intToString i) (Value.int i).stored := by
  rw [Value.intToString, Value.stored]
  by_cases hneg : i < 0
  · have hmax : i ≤ maxInt := by
      rw [maxInt]
      omega
    have habs : i = -(i.natAbs : ℤ) := by omega
    rw [if_pos hneg, if_pos hmax]
    have hread := readsAs_negative depth (n := i.natAbs) (by omega)
    rwa [← habs] at hread
  · obtain ⟨n, rfl⟩ := Int.eq_ofNat_of_zero_le (not_lt.1 hneg)
    rw [if_neg hneg, List.nil_append, Int.natAbs_natCast, Int.toNat_natCast]
    exact readsAs_numeral depth (by omega)

/-! ## Arrays and objects -/

theorem stops_cons {c : UInt8} {s : Bytes}
    (h : c ∈ ([0x20, 0x09, 0x0D, 0x0A, 0x2C, 0x5D, 0x7D] : List UInt8)) : Stops (c :: s) := by
  rintro _ ⟨⟩
  exact h

theorem stops_blank {g s : Bytes} (hg : Blank g) (hs : Stops s) : Stops (g ++ s) := by
  cases g with
  | nil => exact hs
  | cons c g =>
    apply stops_cons
    have hc := hg c List.mem_cons_self
    simp only [Bool.or_eq_true, decide_eq_true_eq] at hc
    rcases hc with ((rfl | rfl) | rfl) | rfl <;> decide

/-- The elements of an array up to its end. -/
def ReadsElements (depth : ℕ) (text : Bytes) (vs : List Value) : Prop :=
  ∀ d k elements rest, depth ≤ d → vs.length ≤ k →
    readElements (readValue d) k elements (text ++ rest) = some (true, .array (elements ++ vs), rest)

/-- The members of an object up to its end. -/
def ReadsMembers (depth : ℕ) (text : Bytes) (ms : List (Bytes × Value)) : Prop :=
  ∀ d k members name rest, depth ≤ d → ms.length ≤ k →
    readObject (readValue d) k members name (text ++ rest) =
      some (true, .object (ms.foldl (fun ms m => Value.setMember m.1 m.2 ms) members), rest)

/-- A text up to the colon that is read as a name. -/
structure ReadsName (text key : Bytes) : Prop where
  read : ∀ name rest, readName name (text ++ rest) = .more key rest
  length_lt : key.length < 2 ^ 30

section Arrays

variable {depth : ℕ} {t text g : Bytes} {v : Value} {vs : List Value}

/-- The token behind blanks is no comment. -/
theorem skipCommentTokens_token (token : Token) {s rest : Bytes} (hg : Blank g)
    (h : readToken s = (token, rest)) (hcomment : token ≠ .comment) :
    skipCommentTokens (g ++ s).length (g ++ s) = (token, rest) := by
  rw [skipCommentTokens_blank hg, skipCommentTokens_of_ne (by rwa [h]), h]

theorem readsElements_last (h : ReadsAs depth t v) (hg : Blank g) :
    ReadsElements depth (t ++ (g ++ [0x5D])) [v] := by
  intro d k elements rest hd hk
  obtain ⟨k, rfl⟩ : ∃ j, k = j + 1 := ⟨k - 1, by simp at hk; omega⟩
  have hvalue := h d .null (g ++ 0x5D :: rest) hd (stops_blank hg (stops_cons (by decide)))
  have hend := skipCommentTokens_token .arrayEnd (s := 0x5D :: rest) hg rfl (by decide)
  rw [List.append_assoc, List.append_assoc, List.singleton_append]
  simp only [readElements, hvalue, hend, Bool.not_true, Bool.false_eq_true, if_false, if_true]

theorem readsElements_cons (h : ReadsAs depth t v) (hg : Blank g) (hvs : ReadsElements depth text vs) :
    ReadsElements depth (t ++ (g ++ (0x2C :: text))) (v :: vs) := by
  intro d k elements rest hd hk
  obtain ⟨k, rfl⟩ : ∃ j, k = j + 1 := ⟨k - 1, by simp at hk; omega⟩
  have hvalue := h d .null (g ++ 0x2C :: (text ++ rest)) hd (stops_blank hg (stops_cons (by decide)))
  have hcomma := skipCommentTokens_token .arraySeparator (s := 0x2C :: (text ++ rest)) hg rfl
    (by decide)
  have hrest := hvs d k (elements ++ [v]) rest hd (by simpa using hk)
  rw [List.append_assoc, List.append_assoc, List.cons_append]
  simp only [readElements, hvalue, hcomma, hrest, Bool.not_true, Bool.false_eq_true, if_false, if_true,
    reduceCtorEq, List.append_assoc, List.singleton_append]

theorem ReadsElements.blank (h : ReadsElements depth text (v :: vs)) (hg : Blank g) :
    ReadsElements depth (g ++ text) (v :: vs) := by
  intro d k elements rest hd hk
  obtain ⟨k, rfl⟩ : ∃ j, k = j + 1 := ⟨k - 1, by simp at hk; omega⟩
  rw [List.append_assoc, readElements_blank hg]
  exact h d (k + 1) elements rest hd hk

theorem skipSpaces_eq (s : Bytes) : ∃ g, Blank g ∧ s = g ++ skipSpaces s := by
  refine ⟨_, fun c hc => ?_, (List.takeWhile_append_dropWhile).symm⟩
  exact List.all_eq_true.1 List.all_takeWhile c hc

/-- **An array** is read from its elements. -/
theorem readsAs_array (h : ReadsElements depth text (v :: vs)) :
    ReadsAs (depth + 1) (0x5B :: text) (.array (v :: vs)) := by
  intro d old rest hd hrest
  obtain ⟨d, rfl⟩ : ∃ k, d = k + 1 := ⟨d - 1, by omega⟩
  have hbegin : skipCommentTokens (0x5B :: (text ++ rest)).length (0x5B :: (text ++ rest)) =
      (.arrayBegin, text ++ rest) :=
    skipCommentTokens_token _ (g := []) blank_nil rfl (by decide)
  obtain ⟨g, hg, hs⟩ := skipSpaces_eq (text ++ rest)
  have hread : ∀ k, (v :: vs).length ≤ k →
      readElements (readValue d) k [] (skipSpaces (text ++ rest)) =
        some (true, .array (v :: vs), rest) := by
    intro k hk
    have helements := h d k [] rest (by omega) hk
    obtain ⟨k, rfl⟩ : ∃ j, k = j + 1 := ⟨k - 1, by simp at hk; omega⟩
    rwa [hs, readElements_blank hg] at helements
  -- the first token is no closing bracket
  have hfirst : ∀ s, skipSpaces (text ++ rest) ≠ 0x5D :: s := by
    intro s hclose
    have helements := hread (vs.length + 1) le_rfl
    rw [hclose] at helements
    cases d with
    | zero => simp [readElements, readValue] at helements
    | succ d =>
      have hend : skipCommentTokens (0x5D :: s).length (0x5D :: s) = (.arrayEnd, s) :=
        skipCommentTokens_token _ (g := []) blank_nil rfl (by decide)
      have hvalue : readValue (d + 1) .null (0x5D :: s) = some (false, .null, s) := by
        simp only [readValue, hend]
      simp [readElements, hvalue, fail] at helements
  have hfuel :
      readElements (readValue d) ((skipSpaces (text ++ rest)).length + 1) [] (skipSpaces (text ++ rest)) =
        readElements (readValue d) ((skipSpaces (text ++ rest)).length + 1 + (v :: vs).length) []
          (skipSpaces (text ++ rest)) :=
    readElements_eq (advances_readValue d) (by omega) (by omega)
  rw [List.cons_append]
  simp only [readValue, hbegin, readArray]
  rw [hfuel]
  exact hread _ (by omega)

end Arrays

section Objects

variable {depth : ℕ} {p key t text g : Bytes} {v : Value} {ms : List (Bytes × Value)}

/-- A key above the others is the last one. -/
theorem setMember_of_forall_lt {members : List (Bytes × Value)} (h : ∀ p ∈ members, p.1 < key) :
    Value.setMember key v members = members ++ [(key, v)] := by
  induction members with
  | nil => rfl
  | cons m members ih =>
    have hlt : m.1 < key := h m List.mem_cons_self
    have hne : key ≠ m.1 := by
      rintro rfl
      exact absurd hlt (List.lt_irrefl _)
    rw [Value.setMember, if_neg hne, if_neg (List.lt_asymm hlt),
      ih fun p hp => h p (List.mem_cons_of_mem _ hp)]
    rfl

/-- Members in the order of their keys stay as they are. -/
theorem ofMembers_of_pairwise (h : (ms.map Prod.fst).Pairwise (· < ·)) :
    Value.ofMembers ms = .object ms := by
  have hfold : ∀ members : List (Bytes × Value), (∀ p ∈ members, ∀ q ∈ ms, p.1 < q.1) →
      ms.foldl (fun ms m => Value.setMember m.1 m.2 ms) members = members ++ ms := by
    induction ms with
    | nil => exact fun members _ => (List.append_nil _).symm
    | cons m ms ih =>
      rw [List.map_cons, List.pairwise_cons] at h
      intro members hlt
      rw [List.foldl_cons, setMember_of_forall_lt fun p hp => hlt p hp m List.mem_cons_self,
        ih h.2 _ fun p hp q hq => ?_, List.append_assoc]
      · rfl
      · rcases List.mem_append.1 hp with hp | hp
        · exact hlt p hp q (List.mem_cons_of_mem _ hq)
        · rw [List.mem_singleton.1 hp]
          exact h.1 _ (List.mem_map_of_mem hq)
  rw [Value.ofMembers, hfold [] (by simp)]
  rfl

/-- The name of a member and the colon. -/
theorem readsName_quoted {s g' : Bytes} (hg : Blank g)
    (hquoted : ∀ rest, readString (s ++ 0x22 :: rest) = some (s, rest))
    (hdecode : decodeString s = some key) (hlength : key.length < 2 ^ 30) (hg' : Blank g') :
    ReadsName (g ++ (0x22 :: (s ++ 0x22 :: (g' ++ [0x3A])))) key := by
  refine ⟨fun name rest => ?_, hlength⟩
  have htext : g ++ (0x22 :: (s ++ 0x22 :: (g' ++ [0x3A]))) ++ rest =
      g ++ (0x22 :: (s ++ 0x22 :: (g' ++ 0x3A :: rest))) := by simp
  have hname := skipCommentTokens_token (.string s) hg
    (readToken_string (hquoted (g' ++ 0x3A :: rest))) (by simp)
  have hcolon : readToken (g' ++ 0x3A :: rest) = (.memberSeparator, rest) := readToken_blank hg' _
  rw [htext]
  simp only [readName, hname, hdecode, hcolon, reduceCtorEq, false_and, if_false, if_true]

/-- A turn of the loop over the members, up to what stands behind the value. -/
theorem readObject_member (hname : ReadsName p key) (h : ReadsAs depth t v) {d k : ℕ} (hd : depth ≤ d)
    (members : List (Bytes × Value)) (name : Bytes) {s : Bytes} (hs : Stops s) :
    readObject (readValue d) (k + 1) members name (p ++ (t ++ s)) =
      match readComma key s with
      | .close s => some (true, .object (Value.setMember key v members), s)
      | .bad s => fail (.object (Value.setMember key v members)) .objectEnd s
      | .more name s => readObject (readValue d) k (Value.setMember key v members) name s := by
  have hstored : key.take (key.length % 2 ^ 30) = key := by
    rw [Nat.mod_eq_of_lt hname.length_lt, List.take_length]
  have hvalue : readValue d (Value.lookup members key) (t ++ s) = some (true, v, s) := h d _ s hd hs
  cases hcomma : readComma key s <;>
    simp only [readObject, hname.read, hstored, hvalue, hcomma, Bool.not_true, Bool.false_eq_true, if_false]

theorem readsMembers_last (hname : ReadsName p key) (h : ReadsAs depth t v) (hg : Blank g) :
    ReadsMembers depth (p ++ (t ++ (g ++ [0x7D]))) [(key, v)] := by
  intro d k members name rest hd hk
  obtain ⟨k, rfl⟩ : ∃ j, k = j + 1 := ⟨k - 1, by simp at hk; omega⟩
  have hclose : readComma key (g ++ 0x7D :: rest) = .close rest := by
    have htoken : readToken (g ++ 0x7D :: rest) = (.objectEnd, rest) := readToken_blank hg _
    simp only [readComma, htoken, if_true]
  have hmember := readObject_member hname h (k := k) hd members name
    (stops_blank hg (stops_cons (s := rest) (c := 0x7D) (by decide)))
  rw [hclose] at hmember
  simpa only [List.append_assoc, List.singleton_append, List.foldl_cons, List.foldl_nil] using hmember

theorem readsMembers_cons (hname : ReadsName p key) (h : ReadsAs depth t v) (hg : Blank g)
    (hms : ReadsMembers depth text ms) :
    ReadsMembers depth (p ++ (t ++ (g ++ (0x2C :: text)))) ((key, v) :: ms) := by
  intro d k members name rest hd hk
  obtain ⟨k, rfl⟩ : ∃ j, k = j + 1 := ⟨k - 1, by simp at hk; omega⟩
  have hcomma : readComma key (g ++ 0x2C :: (text ++ rest)) = .more key (text ++ rest) := by
    have htoken : readToken (g ++ 0x2C :: (text ++ rest)) = (.arraySeparator, text ++ rest) :=
      readToken_blank hg _
    simp only [readComma, htoken, reduceCtorEq, if_false, if_true]
  have hmember := readObject_member hname h (k := k) hd members name
    (stops_blank hg (stops_cons (s := text ++ rest) (c := 0x2C) (by decide)))
  have hrest := hms d k (Value.setMember key v members) key rest hd (by simpa using hk)
  rw [hcomma] at hmember
  simp only [hrest] at hmember
  simpa only [List.append_assoc, List.cons_append, List.foldl_cons] using hmember

/-- **An object** is read from its members. -/
theorem readsAs_object (h : ReadsMembers depth text ms) :
    ReadsAs (depth + 1) (0x7B :: text) (Value.ofMembers ms) := by
  intro d old rest hd hrest
  obtain ⟨d, rfl⟩ : ∃ k, d = k + 1 := ⟨d - 1, by omega⟩
  have hbegin : skipCommentTokens (0x7B :: (text ++ rest)).length (0x7B :: (text ++ rest)) =
      (.objectBegin, text ++ rest) :=
    skipCommentTokens_token _ (g := []) blank_nil rfl (by decide)
  have hfuel : readObject (readValue d) ((text ++ rest).length + 1) [] [] (text ++ rest) =
      readObject (readValue d) ((text ++ rest).length + 1 + ms.length) [] [] (text ++ rest) :=
    readObject_eq (advances_readValue d) (by omega) (by omega)
  rw [List.cons_append]
  simp only [readValue, hbegin, hfuel]
  exact h d _ [] [] rest (by omega) (by omega)

end Objects

theorem readsAs_emptyArray (depth : ℕ) {g : Bytes} (hg : Blank g) :
    ReadsAs (depth + 1) (0x5B :: (g ++ [0x5D])) (.array []) := by
  intro d old rest hd hrest
  obtain ⟨d, rfl⟩ : ∃ k, d = k + 1 := ⟨d - 1, by omega⟩
  rw [List.cons_append, List.append_assoc, List.singleton_append]
  have hbegin : skipCommentTokens (0x5B :: (g ++ 0x5D :: rest)).length (0x5B :: (g ++ 0x5D :: rest)) =
      (.arrayBegin, g ++ 0x5D :: rest) :=
    skipCommentTokens_token _ (g := []) blank_nil rfl (by decide)
  have hend : skipSpaces (g ++ 0x5D :: rest) = 0x5D :: rest := skipSpaces_blank hg _
  simp only [readValue, hbegin, readArray, hend]

theorem readsAs_emptyObject (depth : ℕ) {g : Bytes} (hg : Blank g) :
    ReadsAs (depth + 1) (0x7B :: (g ++ [0x7D])) (.object []) := by
  intro d old rest hd hrest
  obtain ⟨d, rfl⟩ : ∃ k, d = k + 1 := ⟨d - 1, by omega⟩
  rw [List.cons_append, List.append_assoc, List.singleton_append]
  have hbegin : skipCommentTokens (0x7B :: (g ++ 0x7D :: rest)).length (0x7B :: (g ++ 0x7D :: rest)) =
      (.objectBegin, g ++ 0x7D :: rest) :=
    skipCommentTokens_token _ (g := []) blank_nil rfl (by decide)
  have hend : skipCommentTokens (g ++ 0x7D :: rest).length (g ++ 0x7D :: rest) = (.objectEnd, rest) :=
    skipCommentTokens_token _ hg rfl (by decide)
  simp only [readValue, hbegin, readObject, readName, hend, and_self, if_true]

/-! ## The writer -/

section Values

variable {depth : ℕ} {text : Bytes} {v : Value}

theorem readsAs_scalar (h : scalar v = some text) (hv : Readable (depth + 1) v) :
    ReadsAs (depth + 1) text v.stored := by
  cases v with
  | null =>
    cases h
    exact readsAs_null depth
  | bool b =>
    cases h
    exact readsAs_bool depth b
  | int i =>
    cases h
    exact readsAs_int depth hv.1 hv.2
  | uint n =>
    cases h
    exact readsAs_numeral depth hv
  | real d => exact hv.elim
  | string s =>
    cases h
    exact readsAs_string depth hv.1 hv.2
  | array elements =>
    cases elements with
    | cons e elements => cases h
    | nil =>
      cases h
      exact readsAs_emptyArray depth blank_nil
  | object members =>
    cases members with
    | cons m members => cases h
    | nil =>
      cases h
      exact readsAs_emptyObject depth blank_nil

theorem writeValue_scalar (h : scalar v = some text) (n : ℕ) (document : Bytes) :
    writeValue n document v = document ++ text := by
  rw [writeValue, h, Option.getD_some]
  · rintro e elements rfl
    cases h
  · rintro m members rfl
    cases h

/-- The writer appends a text that is read as the value. -/
def Writes (depth : ℕ) (v : Value) : Prop :=
  ∀ n document, ∃ text, writeValue n document v = document ++ text ∧ ReadsAs depth text v.stored

/-- The elements of an array on several lines. -/
theorem readsElements_writeElements {e : Value} {elements : List Value}
    (h : ∀ v ∈ e :: elements, Writes depth v) (n : ℕ) (document : Bytes) :
    ∃ text, writeElements n document (e :: elements) = document ++ text ∧
      ∀ g, Blank g → ReadsElements depth (text ++ (g ++ [0x5D])) (storedElements (e :: elements)) := by
  induction elements generalizing e document with
  | nil =>
    obtain ⟨g₀, hg₀, hline⟩ := blank_writeIndent document n
    obtain ⟨t, ht, hreads⟩ := h e List.mem_cons_self n (document ++ g₀)
    refine ⟨g₀ ++ t, ?_, fun g hg => readsElements_last (hreads.blank hg₀) hg⟩
    rw [writeElements, hline, ht, List.append_assoc]
  | cons f elements ih =>
    obtain ⟨g₀, hg₀, hline⟩ := blank_writeIndent document n
    obtain ⟨t, ht, hreads⟩ := h e List.mem_cons_self n (document ++ g₀)
    obtain ⟨text, htext, helements⟩ := ih (fun v hv => h v (List.mem_cons_of_mem _ hv))
      (document ++ g₀ ++ t ++ ascii ",")
    refine ⟨g₀ ++ t ++ ([] ++ (0x2C :: text)), ?_, fun g hg => ?_⟩
    · rw [writeElements, hline, ht, htext]
      have hcomma : ascii "," = [0x2C] := by decide
      simp [hcomma]
    · have hcons := readsElements_cons (hreads.blank hg₀) blank_nil (helements g hg)
      rw [storedElements]
      simpa only [List.append_assoc, List.nil_append, List.cons_append] using hcons

/-- Texts of elements that have been written before. -/
theorem readsElements_writeChildren {c : Bytes} {cs : List Bytes} {vs : List Value}
    (h : List.Forall₂ (ReadsAs depth) (c :: cs) (v :: vs)) (n : ℕ) (document : Bytes) :
    ∃ text, writeChildren n document (c :: cs) = document ++ text ∧
      ∀ g, Blank g → ReadsElements depth (text ++ (g ++ [0x5D])) (v :: vs) := by
  induction cs generalizing c v vs document with
  | nil =>
    obtain ⟨hreads, hnil⟩ := List.forall₂_cons.1 h
    cases hnil
    obtain ⟨g₀, hg₀, hline⟩ := blank_writeIndent document n
    refine ⟨g₀ ++ c, ?_, fun g hg => readsElements_last (hreads.blank hg₀) hg⟩
    rw [writeChildren, hline, List.append_assoc]
  | cons d cs ih =>
    obtain ⟨hreads, hrest⟩ := List.forall₂_cons.1 h
    cases vs with
    | nil => cases hrest
    | cons w vs =>
      obtain ⟨g₀, hg₀, hline⟩ := blank_writeIndent document n
      obtain ⟨text, htext, helements⟩ := ih hrest (document ++ g₀ ++ c ++ ascii ",")
      refine ⟨g₀ ++ c ++ ([] ++ (0x2C :: text)), ?_, fun g hg => ?_⟩
      · rw [writeChildren, hline, htext]
        have hcomma : ascii "," = [0x2C] := by decide
        simp [hcomma]
      · have hcons := readsElements_cons (hreads.blank hg₀) blank_nil (helements g hg)
        simpa only [List.append_assoc, List.nil_append, List.cons_append] using hcons

/-- An array on one line. -/
theorem readsElements_intercalate {c : Bytes} {cs : List Bytes} {vs : List Value} {g : Bytes}
    (h : List.Forall₂ (ReadsAs depth) (c :: cs) (v :: vs)) (hg : Blank g) :
    ReadsElements depth ([0x2C, 0x20].intercalate (c :: cs) ++ (g ++ [0x5D])) (v :: vs) := by
  induction cs generalizing c v vs with
  | nil =>
    obtain ⟨hreads, hnil⟩ := List.forall₂_cons.1 h
    cases hnil
    simpa using readsElements_last hreads hg
  | cons d cs ih =>
    obtain ⟨hreads, hrest⟩ := List.forall₂_cons.1 h
    cases vs with
    | nil => cases hrest
    | cons w vs =>
      have hblank : Blank [0x20] := blank_replicate 1
      have hcons := readsElements_cons hreads blank_nil ((ih hrest).blank hblank)
      simpa only [List.intercalate_cons_cons, List.append_assoc, List.nil_append, List.cons_append]
        using hcons

/-- The texts of elements on one line each. -/
theorem forall₂_mapM_scalar {elements : List Value} {children : List Bytes}
    (h : elements.mapM scalar = some children) (hv : ∀ v ∈ elements, Readable (depth + 1) v) :
    List.Forall₂ (ReadsAs (depth + 1)) children (storedElements elements) := by
  induction elements generalizing children with
  | nil =>
    cases h
    exact .nil
  | cons e elements ih =>
    rw [List.mapM_cons] at h
    obtain ⟨c, hc, h⟩ := Option.bind_eq_some_iff.1 h
    obtain ⟨cs, hcs, h⟩ := Option.bind_eq_some_iff.1 h
    cases h
    exact .cons (readsAs_scalar hc (hv e List.mem_cons_self))
      (ih hcs fun v hmem => hv v (List.mem_cons_of_mem _ hmem))

theorem keys_storedMembers (members : List (Bytes × Value)) :
    (storedMembers members).map Prod.fst = members.map Prod.fst := by
  induction members with
  | nil => rfl
  | cons m members ih =>
    rw [storedMembers, List.map_cons, List.map_cons, ih]

/-- The members of an object. -/
theorem readsMembers_writeMembers {m : Bytes × Value} {members : List (Bytes × Value)}
    (h : ∀ p ∈ m :: members, IsKey p.1 ∧ Writes depth p.2) (n : ℕ) (document : Bytes) :
    ∃ text, writeMembers n document (m :: members) = document ++ text ∧
      ∀ g, Blank g → ReadsMembers depth (text ++ (g ++ [0x7D])) (storedMembers (m :: members)) := by
  obtain ⟨key, v⟩ := m
  obtain ⟨hkey, hwrites⟩ := h (key, v) List.mem_cons_self
  have hended : cStr key = key := by
    refine List.takeWhile_eq_self_iff.2 fun c hc => ?_
    simpa using ne_of_mem_of_not_mem hc hkey.ended
  obtain ⟨g₀, hg₀, hline⟩ := blank_writeIndent document n
  have hblank : Blank [0x20] := blank_replicate 1
  have hname := readsName_quoted hg₀ (readString_escape key) ((decodeString_escape_iff key).2 hkey.utf8)
    hkey.length_lt hblank
  have hcolon : ascii " : " = [0x20, 0x3A, 0x20] := by decide
  obtain ⟨t, ht, hreads⟩ := hwrites n (document ++ g₀ ++ valueToQuotedString key ++ ascii " : ")
  cases members with
  | nil =>
    refine ⟨g₀ ++ (0x22 :: (escape key ++ 0x22 :: ([0x20] ++ [0x3A]))) ++ ([0x20] ++ t), ?_, fun g hg => ?_⟩
    · rw [writeMembers, hended, hline, ht, hcolon]
      simp [valueToQuotedString]
    · rw [List.append_assoc]
      exact readsMembers_last hname (hreads.blank hblank) hg
  | cons p members =>
    obtain ⟨text, htext, hmembers⟩ := readsMembers_writeMembers
      (fun q hq => h q (List.mem_cons_of_mem _ hq)) n
      (document ++ g₀ ++ valueToQuotedString key ++ ascii " : " ++ t ++ ascii ",")
    refine ⟨g₀ ++ (0x22 :: (escape key ++ 0x22 :: ([0x20] ++ [0x3A]))) ++
      (([0x20] ++ t) ++ ([] ++ (0x2C :: text))), ?_, fun g hg => ?_⟩
    · have hcomma : ascii "," = [0x2C] := by decide
      rw [writeMembers, hended, hline, ht, htext, hcolon, hcomma]
      simp [valueToQuotedString]
    · have hcons := readsMembers_cons hname (hreads.blank hblank) blank_nil (hmembers g hg)
      rw [storedMembers]
      simpa only [List.append_assoc, List.nil_append, List.cons_append] using hcons

/-- The layouts of an array. -/
theorem childValues_cases (elements : List Value) :
    childValues elements = (some [], []) ∨ ∃ children, elements.mapM scalar = some children ∧
      (childValues elements = (some children, children) ∨ childValues elements = (none, children)) := by
  unfold childValues
  split_ifs
  · exact .inl rfl
  · cases hchildren : elements.mapM scalar with
    | none => exact .inl rfl
    | some children =>
      refine .inr ⟨children, rfl, ?_⟩
      simp only
      split_ifs
      · exact .inl rfl
      · exact .inr rfl

/-- An array with elements, in each of its layouts. -/
theorem writes_array {e : Value} {elements : List Value}
    (hreadable : ∀ v ∈ e :: elements, Readable depth v) (h : ∀ v ∈ e :: elements, Writes depth v) :
    Writes (depth + 1) (.array (e :: elements)) := by
  intro n document
  obtain ⟨g₀, hg₀, hline⟩ := blank_writeIndent document n
  have hopen : ascii "[" = [0x5B] := by decide
  have hclose : ascii "]" = [0x5D] := by decide
  rw [Value.stored]
  rcases childValues_cases (e :: elements) with hcase | ⟨children, hchildren, hcase⟩
  · obtain ⟨text, htext, hreads⟩ :=
      readsElements_writeElements h (n + indentSize) (document ++ g₀ ++ ascii "[")
    obtain ⟨g, hg, hend⟩ := blank_writeIndent (document ++ g₀ ++ ascii "[" ++ text) n
    refine ⟨g₀ ++ (0x5B :: (text ++ (g ++ [0x5D]))), ?_, (readsAs_array (hreads g hg)).blank hg₀⟩
    rw [writeValue, hcase]
    simp only [hline, htext, hend]
    simp [hopen, hclose]
  · obtain ⟨d, rfl⟩ : ∃ d, depth = d + 1 := by
      cases depth with
      | zero => cases e <;> exact (hreadable _ List.mem_cons_self).elim
      | succ d => exact ⟨d, rfl⟩
    have hforall := forall₂_mapM_scalar hchildren hreadable
    rw [storedElements] at hforall ⊢
    cases children with
    | nil => cases hforall
    | cons c cs =>
      rcases hcase with hcase | hcase
      · obtain ⟨text, htext, hreads⟩ :=
          readsElements_writeChildren hforall (n + indentSize) (document ++ g₀ ++ ascii "[")
        obtain ⟨g, hg, hend⟩ := blank_writeIndent (document ++ g₀ ++ ascii "[" ++ text) n
        refine ⟨g₀ ++ (0x5B :: (text ++ (g ++ [0x5D]))), ?_, (readsAs_array (hreads g hg)).blank hg₀⟩
        rw [writeValue, hcase]
        simp only [hline, htext, hend]
        simp [hopen, hclose]
      · have hblank : Blank [0x20] := blank_replicate 1
        have hreads := (readsElements_intercalate hforall hblank).blank hblank
        refine ⟨_, ?_, readsAs_array hreads⟩
        rw [writeValue, hcase]
        have hbegin : ascii "[ " = [0x5B, 0x20] := by decide
        have hfinish : ascii " ]" = [0x20, 0x5D] := by decide
        simp [hbegin, hfinish]

/-- An object with members. -/
theorem writes_object {m : Bytes × Value} {members : List (Bytes × Value)}
    (hkeys : ((m :: members).map Prod.fst).Pairwise (· < ·))
    (h : ∀ p ∈ m :: members, IsKey p.1 ∧ Writes depth p.2) :
    Writes (depth + 1) (.object (m :: members)) := by
  intro n document
  obtain ⟨g₀, hg₀, hline⟩ := blank_writeIndent document n
  obtain ⟨text, htext, hreads⟩ :=
    readsMembers_writeMembers h (n + indentSize) (document ++ g₀ ++ ascii "\x7b")
  obtain ⟨g, hg, hend⟩ := blank_writeIndent (document ++ g₀ ++ ascii "\x7b" ++ text) n
  have hopen : ascii "\x7b" = [0x7B] := by decide
  have hclose : ascii "\x7d" = [0x7D] := by decide
  refine ⟨g₀ ++ (0x7B :: (text ++ (g ++ [0x7D]))), ?_, ?_⟩
  · rw [writeValue]
    simp only [hline, htext, hend]
    simp [hopen, hclose]
  · have hstored := readsAs_object (hreads g hg)
    rw [ofMembers_of_pairwise (by rwa [keys_storedMembers])] at hstored
    exact hstored.blank hg₀

/-- **The writer appends what is read as the value.** -/
theorem writes_of_readable (h : Readable depth v) : Writes depth v := by
  induction depth generalizing v with
  | zero => cases v <;> exact h.elim
  | succ depth ih =>
    intro n document
    cases hscalar : scalar v with
    | some text => exact ⟨text, writeValue_scalar hscalar n document, readsAs_scalar hscalar h⟩
    | none =>
      cases v with
      | null | bool b | int i | uint m | real d | string s => cases hscalar
      | array elements =>
        cases elements with
        | nil => cases hscalar
        | cons e elements => exact writes_array h (fun v hv => ih (h v hv)) n document
      | object members =>
        cases members with
        | nil => cases hscalar
        | cons m members =>
          exact writes_object h.1 (fun p hp => ⟨(h.2 p hp).1, ih (h.2 p hp).2⟩) n document

theorem parse_of_writes (h : Writes stackLimit v) : parse (write v) = some (true, v.stored) := by
  obtain ⟨text, htext, hreads⟩ := h 0 []
  rw [write, htext, List.nil_append, parse,
    hreads stackLimit .null [0x0A] le_rfl (stops_cons (by decide))]
  rfl

/-- **What the writer writes is read back.** -/
theorem parse_write (h : Readable stackLimit v) : parse (write v) = some (true, v.stored) :=
  parse_of_writes (writes_of_readable h)

theorem isKey_of_ascii {key : Bytes} (h : ∀ c ∈ key, 0 < c.toNat ∧ c.toNat < 0x80)
    (hlength : key.length < 2 ^ 30) : IsKey key where
  utf8 := isUtf8_of_ascii fun c hc => (h c hc).2
  ended hzero := absurd (h 0 hzero).1 (by decide)
  length_lt := hlength

theorem parse_write_title : parse (write (.object [(ascii "data", .array [.uint 5, .null]),
    (ascii "title", .string [0xC3, 0xA9])])) =
      some (true, .object [(ascii "data", .array [.int 5, .null]),
        (ascii "title", .string [0xC3, 0xA9])]) := by
  have hdata : ∀ v ∈ [Value.uint 5, .null], Readable 998 v := by simp [Readable]
  refine parse_write ⟨by decide, fun m hm => ?_⟩
  simp only [List.mem_cons, List.not_mem_nil, or_false] at hm
  rcases hm with rfl | rfl
  · exact ⟨isKey_of_ascii (by decide +kernel) (by decide +kernel), hdata⟩
  · exact ⟨isKey_of_ascii (by decide +kernel) (by decide +kernel), isUtf8_char (Char.ofNat 0xE9), by decide⟩

end Values

/-! ## Objects as the servers make them -/

/-- What `setMember` leaves is what was there and the new member. -/
theorem eq_of_mem_setMember {key : Bytes} {v : Value} {members : List (Bytes × Value)}
    {p : Bytes × Value} (h : p ∈ Value.setMember key v members) : p = (key, v) ∨ p ∈ members := by
  induction members with
  | nil => exact .inl (List.mem_singleton.1 h)
  | cons q members ih =>
    unfold Value.setMember at h
    split_ifs at h
    · exact (List.mem_cons.1 h).imp_right (List.mem_cons_of_mem _)
    · exact List.mem_cons.1 h
    · rcases List.mem_cons.1 h with rfl | h
      · exact .inr List.mem_cons_self
      · exact (ih h).imp_right (List.mem_cons_of_mem _)

/-- The members stay in the order of their keys. -/
theorem pairwise_setMember {key : Bytes} {v : Value} {members : List (Bytes × Value)}
    (h : (members.map Prod.fst).Pairwise (· < ·)) :
    ((Value.setMember key v members).map Prod.fst).Pairwise (· < ·) := by
  induction members with
  | nil => exact List.pairwise_singleton _ _
  | cons q members ih =>
    rw [List.map_cons, List.pairwise_cons] at h
    unfold Value.setMember
    split_ifs with heq hlt
    · rw [List.map_cons, List.pairwise_cons, heq]
      exact h
    · rw [List.map_cons, List.map_cons, List.pairwise_cons, List.pairwise_cons]
      refine ⟨fun k hk => ?_, h⟩
      rcases List.mem_cons.1 hk with rfl | hk
      · exact hlt
      · exact List.lt_trans hlt (h.1 k hk)
    · rw [List.map_cons, List.pairwise_cons]
      refine ⟨fun k hk => ?_, ih h.2⟩
      obtain ⟨p, hp, rfl⟩ := List.mem_map.1 hk
      rcases eq_of_mem_setMember hp with rfl | hp
      · exact (List.le_iff_lt_or_eq.1 (show q.1 ≤ key from hlt)).resolve_right (Ne.symm heq)
      · exact h.1 _ (List.mem_map_of_mem hp)

/-- A value that is read back as it is. -/
structure RoundTrips (depth : ℕ) (v : Value) : Prop where
  readable : Readable depth v
  stored : v.stored = v

section RoundTrips

variable {depth : ℕ}

theorem storedElements_eq {elements : List Value} (h : ∀ v ∈ elements, v.stored = v) :
    storedElements elements = elements := by
  induction elements with
  | nil => rfl
  | cons v elements ih =>
    rw [storedElements, h v List.mem_cons_self, ih fun w hw => h w (List.mem_cons_of_mem _ hw)]

theorem storedMembers_eq {members : List (Bytes × Value)} (h : ∀ p ∈ members, p.2.stored = p.2) :
    storedMembers members = members := by
  induction members with
  | nil => rfl
  | cons p members ih =>
    obtain ⟨key, v⟩ := p
    rw [storedMembers, h (key, v) List.mem_cons_self, ih fun q hq => h q (List.mem_cons_of_mem _ hq)]

theorem roundTrips_string {s : Bytes} (hutf8 : IsUtf8 s) (hlength : s.length ≤ 2 ^ 31 - 6) :
    RoundTrips (depth + 1) (.string s) :=
  ⟨⟨hutf8, hlength⟩, rfl⟩

theorem roundTrips_int {i : ℤ} (hlow : minInt ≤ i) (hhigh : i ≤ maxInt) :
    RoundTrips (depth + 1) (.int i) := by
  refine ⟨?_, if_pos hhigh⟩
  rw [minInt] at hlow
  rw [maxInt] at hhigh
  exact ⟨by omega, by omega⟩

theorem roundTrips_array {elements : List Value} (h : ∀ v ∈ elements, RoundTrips depth v) :
    RoundTrips (depth + 1) (.array elements) :=
  ⟨fun v hv => (h v hv).readable,
    congrArg Value.array (storedElements_eq fun v hv => (h v hv).stored)⟩

theorem roundTrips_ofElements {elements : List Value} (h : ∀ v ∈ elements, RoundTrips depth v) :
    RoundTrips (depth + 1) (Value.ofElements elements) := by
  cases elements with
  | nil => exact ⟨trivial, rfl⟩
  | cons v elements => exact roundTrips_array h

theorem roundTrips_ofMembers {members : List (Bytes × Value)}
    (h : ∀ p ∈ members, IsKey p.1 ∧ RoundTrips depth p.2) :
    RoundTrips (depth + 1) (Value.ofMembers members) := by
  have hfold : ∀ acc : List (Bytes × Value), (acc.map Prod.fst).Pairwise (· < ·) →
      (∀ p ∈ acc, IsKey p.1 ∧ RoundTrips depth p.2) →
      ((members.foldl (fun ms m => Value.setMember m.1 m.2 ms) acc).map Prod.fst).Pairwise (· < ·) ∧
        ∀ p ∈ members.foldl (fun ms m => Value.setMember m.1 m.2 ms) acc,
          IsKey p.1 ∧ RoundTrips depth p.2 := by
    induction members with
    | nil => exact fun acc hsorted hacc => ⟨hsorted, hacc⟩
    | cons m members ih =>
      intro acc hsorted hacc
      refine ih (fun p hp => h p (List.mem_cons_of_mem _ hp)) _ (pairwise_setMember hsorted) ?_
      intro p hp
      rcases eq_of_mem_setMember hp with rfl | hp
      · exact h m List.mem_cons_self
      · exact hacc p hp
  obtain ⟨hsorted, hall⟩ := hfold [] List.Pairwise.nil (by simp)
  exact ⟨⟨hsorted, fun p hp => ⟨(hall p hp).1, (hall p hp).2.readable⟩⟩,
    congrArg Value.object (storedMembers_eq fun p hp => (hall p hp).2.stored)⟩

end RoundTrips

end Writer

end Json

end GraduationServer
