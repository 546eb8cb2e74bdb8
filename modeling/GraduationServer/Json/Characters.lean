import GraduationServer.Json.Written

/-!
# Characters in written strings

A string is written with its bytes decoded as if from UTF-8. The decoder does not look at the first bits of
continuation bytes, and gives the character U+FFFD for what it rejects. So a written string is read back as a
text in UTF-8 (`reencode`), whatever it was before, and it is read back as it was when it is such a text, and
only then (`decodeString_escape_iff`).
-/

namespace GraduationServer

namespace Json

/-- The UTF-8 encoding of a list of characters. -/
def IsUtf8 (s : Bytes) : Prop := ∃ cs : List Char, s = cs.flatMap String.utf8EncodeChar

theorem isUtf8_nil : IsUtf8 [] := ⟨[], rfl⟩

theorem IsUtf8.append {s t : Bytes} (hs : IsUtf8 s) (ht : IsUtf8 t) : IsUtf8 (s ++ t) := by
  obtain ⟨cs, rfl⟩ := hs
  obtain ⟨ds, rfl⟩ := ht
  exact ⟨cs ++ ds, List.flatMap_append.symm⟩

theorem isUtf8_char (c : Char) : IsUtf8 (String.utf8EncodeChar c) := ⟨[c], by simp⟩

/-- Plain ASCII is UTF-8. -/
theorem isUtf8_of_ascii {s : Bytes} (h : ∀ c ∈ s, c.toNat < 0x80) : IsUtf8 s := by
  induction s with
  | nil => exact isUtf8_nil
  | cons c s ih =>
    have hc := h c List.mem_cons_self
    have hvalid : c.toNat.isValidChar := .inl (by omega)
    have henc : String.utf8EncodeChar (Char.ofNatAux c.toNat hvalid) = [c] := by
      unfold String.utf8EncodeChar
      change (if c.toNat ≤ 0x7F then [UInt8.ofNat c.toNat] else _) = _
      rw [if_pos (by omega), UInt8.ofNat_toNat]
    have happend := (isUtf8_char (Char.ofNatAux c.toNat hvalid)).append
      (ih fun d hd => h d (List.mem_cons_of_mem _ hd))
    rwa [henc] at happend

namespace Writer

open Reader

/-! ## Code points -/

/-- The code points of characters. -/
theorem toNat_char (c : Char) : c.toNat < 0xD800 ∨ 0xDFFF < c.toNat ∧ c.toNat < 0x110000 := c.valid

theorem codePointToUTF8_char (c : Char) : codePointToUTF8 c.toNat = String.utf8EncodeChar c := by
  have hle : c.toNat ≤ 0x10FFFF := by
    rcases toNat_char c with h | h <;> omega
  unfold codePointToUTF8 String.utf8EncodeChar
  rw [if_pos hle]
  change _ = if c.toNat ≤ 0x7F then _ else _
  simp only [Nat.add_comm, Char.toNat]

/-- What is read for a code point that has been written. Two halves of ten bits write a great one. -/
def reread (cp : ℕ) : ℕ := if cp < 0x10000 then cp else 0x10000 + (cp - 0x10000) % 0x100000

/-- Every code point that is written is read as one of a character. -/
theorem exists_char_reread (c : UInt8) (s : Bytes) :
    ∃ ch : Char, ch.toNat = reread (utf8ToCodepoint c s).1 := by
  have hvalid : reread (utf8ToCodepoint c s).1 < 0xD800 ∨
      0xDFFF < reread (utf8ToCodepoint c s).1 ∧ reread (utf8ToCodepoint c s).1 < 0x110000 := by
    simp only [utf8ToCodepoint, reread]
    split_ifs <;> simp only at * <;> omega
  exact ⟨Char.ofNatAux _ hvalid, rfl⟩

/-- A byte of a code point, as it is read. -/
theorem toNat_lead {a x n : ℕ} (h : x < n) (hle : a + n ≤ 0x100) : (UInt8.ofNat (a + x)).toNat = a + x :=
  UInt8.toNat_ofNat_of_lt' (by change _ < 0x100; omega)

/-- The code point at the front of a text in UTF-8 is that of its first character. -/
theorem utf8ToCodepoint_encoded {cp : ℕ} (h : cp < 0xD800 ∨ 0xDFFF < cp ∧ cp < 0x110000) (s : Bytes) :
    ∃ b bs, codePointToUTF8 cp = b :: bs ∧ utf8ToCodepoint b (bs ++ s) = (cp, bs.length + 1) := by
  unfold codePointToUTF8
  split_ifs with h₁ h₂ h₃ h₄
  · refine ⟨_, [], rfl, ?_⟩
    have hb : (UInt8.ofNat cp).toNat = cp := UInt8.toNat_ofNat_of_lt' (by change _ < 0x100; omega)
    simp only [utf8ToCodepoint, hb]
    rw [if_pos (by omega)]
    rfl
  · refine ⟨_, [_], rfl, ?_⟩
    have hb := toNat_lead (a := 0xC0) (Nat.mod_lt (cp / 0x40) (by decide : 0 < 0x20)) (by decide)
    have h0 := toNat_lead (a := 0x80) (Nat.mod_lt cp (by decide : 0 < 0x40)) (by decide)
    simp only [utf8ToCodepoint, hb, List.singleton_append, List.getD_cons_zero, h0, List.length_cons]
    rw [if_neg (by omega), if_pos (by omega), if_neg (by omega)]
    refine Prod.ext ?_ rfl
    simp only
    rw [if_neg (by omega)]
    omega
  · refine ⟨_, [_, _], rfl, ?_⟩
    have hb := toNat_lead (a := 0xE0) (Nat.mod_lt (cp / 0x1000) (by decide : 0 < 0x10)) (by decide)
    have h0 := toNat_lead (a := 0x80) (Nat.mod_lt (cp / 0x40) (by decide : 0 < 0x40)) (by decide)
    have h1 := toNat_lead (a := 0x80) (Nat.mod_lt cp (by decide : 0 < 0x40)) (by decide)
    simp only [utf8ToCodepoint, hb, List.cons_append, List.nil_append, List.getD_cons_zero,
      List.getD_cons_succ, h0, h1, List.length_cons]
    rw [if_neg (by omega), if_neg (by omega), if_pos (by omega), if_neg (by omega)]
    refine Prod.ext ?_ rfl
    simp only
    rw [if_neg (by omega)]
    omega
  · refine ⟨_, [_, _, _], rfl, ?_⟩
    have hb := toNat_lead (a := 0xF0) (Nat.mod_lt (cp / 0x40000) (by decide : 0 < 8)) (by decide)
    have h0 := toNat_lead (a := 0x80) (Nat.mod_lt (cp / 0x1000) (by decide : 0 < 0x40)) (by decide)
    have h1 := toNat_lead (a := 0x80) (Nat.mod_lt (cp / 0x40) (by decide : 0 < 0x40)) (by decide)
    have h2 := toNat_lead (a := 0x80) (Nat.mod_lt cp (by decide : 0 < 0x40)) (by decide)
    simp only [utf8ToCodepoint, hb, List.cons_append, List.nil_append, List.getD_cons_zero,
      List.getD_cons_succ, h0, h1, h2, List.length_cons]
    rw [if_neg (by omega), if_neg (by omega), if_neg (by omega), if_pos (by omega), if_neg (by omega)]
    refine Prod.ext ?_ rfl
    simp only
    rw [if_neg (by omega)]
    omega
  · omega

/-! ## What a written string is read as -/

/-- A text of at most `n` bytes decoded, and encoded again. -/
def reencodeLoop : ℕ → Bytes → Bytes
  | n + 1, c :: s =>
    let (cp, len) := utf8ToCodepoint c s
    codePointToUTF8 (reread cp) ++ reencodeLoop n (s.drop (len - 1))
  | _, _ => []

def reencode (s : Bytes) : Bytes := reencodeLoop s.length s

theorem isUtf8_reencodeLoop (n : ℕ) (s : Bytes) : IsUtf8 (reencodeLoop n s) := by
  induction n generalizing s with
  | zero => exact isUtf8_nil
  | succ n ih =>
    cases s with
    | nil => exact isUtf8_nil
    | cons c s =>
      obtain ⟨ch, hch⟩ := exists_char_reread c s
      simp only [reencodeLoop, ← hch, codePointToUTF8_char]
      exact (isUtf8_char ch).append (ih _)

/-- A text in UTF-8 is left as it is. -/
theorem reencodeLoop_flatMap (cs : List Char) {n : ℕ}
    (hn : (cs.flatMap String.utf8EncodeChar).length ≤ n) :
    reencodeLoop n (cs.flatMap String.utf8EncodeChar) = cs.flatMap String.utf8EncodeChar := by
  induction cs generalizing n with
  | nil => cases n <;> rfl
  | cons c cs ih =>
    obtain ⟨b, bs, henc, hcp⟩ := utf8ToCodepoint_encoded (toNat_char c) (cs.flatMap String.utf8EncodeChar)
    rw [codePointToUTF8_char] at henc
    rw [List.flatMap_cons, henc, List.cons_append] at hn ⊢
    rw [List.length_cons, List.length_append] at hn
    obtain ⟨n, rfl⟩ : ∃ k, n = k + 1 := ⟨n - 1, by omega⟩
    have hreread : reread c.toNat = c.toNat := by
      have := toNat_char c
      unfold reread
      split_ifs <;> omega
    simp only [reencodeLoop, hcp, hreread]
    rw [codePointToUTF8_char, henc, Nat.add_sub_cancel, List.drop_left, ih (by omega)]
    rfl

/-- A text that the loop of `decodeString` turns into another one. -/
def Decodes (p t : Bytes) : Prop :=
  ∀ s r, (∀ m, s.length ≤ m → decodeStringLoop m s = some r) →
    ∀ m, (p ++ s).length ≤ m → decodeStringLoop m (p ++ s) = some (t ++ r)

theorem decodes_of_turn {c : UInt8} {p t : Bytes}
    (h : ∀ s m r, decodeStringLoop m s = some r →
      decodeStringLoop (m + 1) (c :: p ++ s) = some (t ++ r)) : Decodes (c :: p) t := by
  intro s r hs m hm
  rw [List.cons_append, List.length_cons, List.length_append] at hm
  obtain ⟨m, rfl⟩ : ∃ k, m = k + 1 := ⟨m - 1, by omega⟩
  exact h s m r (hs m (by omega))

theorem decodes_nil : Decodes [] [] := fun _ _ hs m hm => hs m hm

theorem Decodes.append {p q t u : Bytes} (hp : Decodes p t) (hq : Decodes q u) :
    Decodes (p ++ q) (t ++ u) := by
  intro s r hs
  rw [List.append_assoc, List.append_assoc]
  exact hp _ _ (hq s r hs)

theorem decodes_byte {c : UInt8} (hquote : c ≠ 0x22) (hbackslash : c ≠ 0x5C) : Decodes [c] [c] := by
  refine decodes_of_turn fun s m r hs => ?_
  simp only [List.singleton_append, decodeStringLoop, if_neg hquote, if_neg hbackslash, hs,
    Option.map_some]

theorem decodes_escape {c d : UInt8} (hd : d ≠ 0x75) (hsimple : simpleEscape d = some c) :
    Decodes [0x5C, d] [c] := by
  refine decodes_of_turn fun s m r hs => ?_
  simp only [List.cons_append, List.nil_append, decodeStringLoop, if_neg hd, hsimple, Option.bind_some,
    hs, Option.map_some, show ¬ (0x5C : UInt8) = 0x22 by decide, if_false, if_true]

/-- What is read as a code point is decoded to its bytes. -/
theorem decodes_codepoint {p : Bytes} {cp : ℕ}
    (h : ∀ s, decodeUnicodeCodePoint (p ++ s) = some (cp, s)) :
    Decodes (0x5C :: 0x75 :: p) (codePointToUTF8 cp) := by
  refine decodes_of_turn fun s m r hs => ?_
  simp only [List.cons_append, decodeStringLoop, h, Option.bind_some, hs, Option.map_some,
    show ¬ (0x5C : UInt8) = 0x22 by decide, if_false, if_true]

theorem decodes_hex16 {x : ℕ} (hx : x < 0x10000) (hsurrogate : ¬ (0xD800 ≤ x ∧ x ≤ 0xDBFF)) :
    Decodes (hex16 x) (codePointToUTF8 x) := by
  refine decodes_codepoint fun s => ?_
  have hread := decodeUnicodeEscapeSequence_digits x s
  rw [Nat.mod_eq_of_lt hx] at hread
  simp only [List.cons_append, List.nil_append, decodeUnicodeCodePoint, hread, Option.bind_some,
    if_neg hsurrogate]

/-- Two halves are read as one code point. -/
theorem decodes_pair {x y : ℕ} (hx : x < 0x400) (hy : y < 0x400) :
    Decodes (hex16 (0xD800 + x) ++ hex16 (0xDC00 + y)) (codePointToUTF8 (0x10000 + x * 0x400 + y)) := by
  refine decodes_codepoint fun s => ?_
  have hfirst := decodeUnicodeEscapeSequence_digits (0xD800 + x) (hex16 (0xDC00 + y) ++ s)
  have hsecond := decodeUnicodeEscapeSequence_digits (0xDC00 + y) s
  rw [Nat.mod_eq_of_lt (show 0xD800 + x < 0x10000 by omega)] at hfirst
  rw [Nat.mod_eq_of_lt (show 0xDC00 + y < 0x10000 by omega)] at hsecond
  change decodeUnicodeCodePoint (digitChar ((0xD800 + x) / 0x1000 % 0x10) ::
    digitChar ((0xD800 + x) / 0x100 % 0x10) :: digitChar ((0xD800 + x) / 0x10 % 0x10) ::
    digitChar ((0xD800 + x) % 0x10) :: (hex16 (0xDC00 + y) ++ s)) = _
  rw [decodeUnicodeCodePoint, hfirst, Option.bind_some]
  simp only [hex16, List.cons_append, List.nil_append]
  rw [if_pos (by omega)]
  simp only [hsecond, Option.map_some]
  rw [show (0xD800 + x) % 0x400 = x by omega, show (0xDC00 + y) % 0x400 = y by omega]

theorem decodes_escapeCodepoint {c : UInt8} {s : Bytes} (h : shortEscape c = none) :
    Decodes (escapeCodepoint (utf8ToCodepoint c s).1)
      (codePointToUTF8 (reread (utf8ToCodepoint c s).1)) := by
  have hsingle := utf8ToCodepoint_surrogate c s
  generalize hcp : (utf8ToCodepoint c s).1 = cp at hsingle
  unfold escapeCodepoint reread
  by_cases h₁ : cp < 0x20
  · rw [if_pos h₁, if_pos (by omega)]
    exact decodes_hex16 (by omega) hsingle
  rw [if_neg h₁]
  by_cases h₂ : cp < 0x80
  · rw [if_pos h₂, if_pos (by omega)]
    have hascii := utf8ToCodepoint_ascii (hcp ▸ h₂)
    rw [hcp] at hascii
    rw [codePointToUTF8, if_pos (by omega), hascii, UInt8.ofNat_toNat]
    apply decodes_byte
    · rintro rfl
      exact absurd h (by decide)
    · rintro rfl
      exact absurd h (by decide)
  rw [if_neg h₂]
  by_cases h₃ : cp < 0x10000
  · rw [if_pos h₃, if_pos h₃]
    exact decodes_hex16 h₃ hsingle
  · rw [if_neg h₃, if_neg h₃]
    have hpair := decodes_pair (Nat.mod_lt ((cp - 0x10000) / 0x400) (by decide : 0 < 0x400))
      (Nat.mod_lt (cp - 0x10000) (by decide : 0 < 0x400))
    have hsum : 0x10000 + (cp - 0x10000) / 0x400 % 0x400 * 0x400 + (cp - 0x10000) % 0x400 =
        0x10000 + (cp - 0x10000) % 0x100000 := by omega
    rwa [hsum] at hpair

/-- A byte with an escape of its own is read back, and is a character. -/
theorem simpleEscape_of_shortEscape {c d : UInt8} (h : shortEscape c = some d) :
    simpleEscape d = some c ∧ ∀ s, utf8ToCodepoint c s = (c.toNat, 1) ∧
      codePointToUTF8 (reread c.toNat) = [c] := by
  unfold shortEscape at h
  split_ifs at h with h₁ h₂ h₃ h₄ h₅ h₆ <;> cases h
  · rcases h₁ with rfl | rfl <;> exact ⟨by decide, fun s => ⟨rfl, by decide⟩⟩
  all_goals
    subst_vars
    exact ⟨by decide, fun s => ⟨rfl, by decide⟩⟩

/-- **A written string is read back as the text in UTF-8 that it is taken for.** -/
theorem decodeString_escape (s : Bytes) : decodeString (escape s) = some (reencode s) := by
  have hloop : ∀ n s m, (escapeLoop n s).length ≤ m →
      decodeStringLoop m (escapeLoop n s) = some (reencodeLoop n s) := by
    intro n
    induction n with
    | zero => exact fun _ _ _ => by simp [escapeLoop, decodeStringLoop, reencodeLoop]
    | succ n ih =>
      intro s
      cases s with
      | nil => exact fun _ _ => by simp [escapeLoop, decodeStringLoop, reencodeLoop]
      | cons c s =>
        rw [escapeLoop, reencodeLoop]
        split
        · next d hd =>
          obtain ⟨hsimple, hchar⟩ := simpleEscape_of_shortEscape hd
          obtain ⟨hcp, hbyte⟩ := hchar s
          simp only [hcp, hbyte]
          exact decodes_escape (shortEscape_ne hd).2 hsimple _ _ (ih s)
        · next hnone => exact decodes_escapeCodepoint hnone _ _ (ih _)
  exact hloop _ s _ le_rfl

/-- **A string is read back as it was when it is a text in UTF-8, and only then.** -/
theorem decodeString_escape_iff (s : Bytes) : decodeString (escape s) = some s ↔ IsUtf8 s := by
  rw [decodeString_escape, Option.some_inj]
  constructor
  · intro h
    rw [← h]
    exact isUtf8_reencodeLoop ..
  · rintro ⟨cs, rfl⟩
    exact reencodeLoop_flatMap cs le_rfl

end Writer

end Json

end GraduationServer
