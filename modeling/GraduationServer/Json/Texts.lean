import GraduationServer.Foundations.JsonTexts
import GraduationServer.Json.RoundTrip

/-!
# JSON texts are read as what they say

`parse_text`: every text of the JSON grammar that is shorter than `2 ^ 30` bytes and opens at most a
thousand values is accepted, whatever its layout, and read as what it says (`Value.ofTree`): an integer as
one when it fits into 64 bits, any other number as the nearest double, a string as its characters in UTF-8,
and an object with its members in the order of the keys, where the last member of a key counts.
-/

namespace GraduationServer

open JsonText

namespace Json

/-! ## The value of a text -/

/-- A number as it is stored. -/
def Value.ofNumber (n : Number) : Value :=
  if n.behind = [] ∧ n.negative = true ∧ n.digits ≤ 2 ^ 63 then .int (-(n.digits : ℤ))
  else if n.behind = [] ∧ n.negative = false ∧ n.digits < 2 ^ 64 then
    if (n.digits : ℤ) ≤ maxInt then .int n.digits else .uint n.digits
  else .real (Binary64.ofDecimal n.negative n.digits n.scale)

mutual

/-- What a text says, as it is stored. -/
def Value.ofTree : Tree → Value
  | .null => .null
  | .bool b => .bool b
  | .number n => .ofNumber n
  | .string cs => .string (cs.flatMap String.utf8EncodeChar)
  | .array elements => .array (ofTrees elements)
  | .object members => .ofMembers (ofMemberTrees members)

def ofTrees : List Tree → List Value
  | [] => []
  | v :: elements => Value.ofTree v :: ofTrees elements

def ofMemberTrees : List (List Char × Tree) → List (Bytes × Value)
  | [] => []
  | (key, v) :: members => (key.flatMap String.utf8EncodeChar, Value.ofTree v) :: ofMemberTrees members

end

namespace Writer

open Reader

/-! ## Numbers -/

theorem spanDigits_append {ds s : Bytes} (hds : ∀ c ∈ ds, IsDigit 10 c)
    (hs : ∀ c ∈ s.head?, (0x30 ≤ c && c ≤ 0x39) = false) : spanDigits (ds ++ s) = (ds, s) := by
  have hdigits : ∀ c ∈ ds, (0x30 ≤ c && c ≤ 0x39) = true := by
    intro c hc
    simpa using digit_of_isDigit (hds c hc)
  have hnone : s.takeWhile (fun c => 0x30 ≤ c && c ≤ 0x39) = [] := by
    cases s with
    | nil => rfl
    | cons c s => rw [List.takeWhile_cons, hs c rfl]; rfl
  have hall : s.dropWhile (fun c => 0x30 ≤ c && c ≤ 0x39) = s := by
    cases s with
    | nil => rfl
    | cons c s => rw [List.dropWhile_cons, hs c rfl]; rfl
  rw [spanDigits, List.span_eq_takeWhile_dropWhile, List.takeWhile_append_of_pos hdigits,
    List.dropWhile_append_of_pos hdigits, hnone, hall, List.append_nil]

theorem spanOne_cons {cs : List UInt8} {c : UInt8} (h : c ∈ cs) (s : Bytes) :
    spanOne cs (c :: s) = ([c], s) := if_pos h

/-- The parts of an exponent. -/
theorem span_exponent (e : Exponent) (s : Bytes) :
    spanOne [0x65, 0x45] (e.text ++ s) = ([e.mark], e.sign ++ (e.digits ++ s)) ∧
      spanOne [0x2B, 0x2D] (e.sign ++ (e.digits ++ s)) = (e.sign, e.digits ++ s) := by
  constructor
  · rw [Exponent.text, List.cons_append, spanOne_cons e.mark_mem, List.append_assoc]
  · have hsign := e.sign_mem
    simp only [List.mem_cons, List.not_mem_nil, or_false] at hsign
    rcases hsign with h | h | h
    · rw [h, List.nil_append]
      exact spanOne_stops (e.isDigits.head_notMem (by decide +kernel))
    · rw [h]
      exact spanOne_cons (by decide) _
    · rw [h]
      exact spanOne_cons (by decide) _

/-- What ends the digits of a number, and is no point. -/
def Ends (s : Bytes) : Prop := ∀ c ∈ s.head?, (0x30 ≤ c && c ≤ 0x39) = false ∧ c ∉ ([0x2E] : List UInt8)

theorem Stops.ends {s : Bytes} (h : Stops s) : Ends s := by
  cases s with
  | nil => simp [Ends]
  | cons c s =>
    rintro _ ⟨⟩
    exact ⟨h.ne.1, h.ne.2.1⟩

theorem ends_exponent (e : Exponent) (s : Bytes) : Ends (e.text ++ s) := by
  have hmark := e.mark_mem
  rintro _ ⟨⟩
  simp only [List.mem_cons, List.not_mem_nil, or_false] at hmark
  rcases hmark with h | h <;> rw [h] <;> decide

/-- The digits in front of the exponent. -/
theorem span_fraction {ds : Bytes} (hds : ∀ c ∈ ds, IsDigit 10 c) {fraction : Option Bytes}
    (hfraction : ∀ f ∈ fraction, IsDigits f) {s : Bytes} (hs : Ends s) :
    let t := (fraction.elim [] fun f => 0x2E :: f) ++ s
    spanDigits (ds ++ t) = (ds, t) ∧ ∃ u, spanOne [0x2E] t = ((fraction.elim [] fun _ => [0x2E]), u) ∧
      (if (fraction.elim [] fun _ => [0x2E]) = ([] : Bytes) then ([], u) else spanDigits u) =
        (fraction.getD [], s) := by
  intro t
  cases fraction with
  | none =>
    refine ⟨spanDigits_append hds fun c hc => (hs c hc).1, s, spanOne_stops fun c hc => (hs c hc).2, ?_⟩
    rfl
  | some f =>
    refine ⟨spanDigits_append hds ?_, f ++ s, spanOne_cons (by decide) _, ?_⟩
    · rintro _ ⟨⟩
      decide
    · exact spanDigits_append (hfraction f rfl).digit fun c hc => (hs c hc).1

/-- **A number is one token**, up to where it stops. -/
theorem readNumber_behind {ds rest : Bytes} (hds : ∀ c ∈ ds, IsDigit 10 c) (n : Number)
    (hrest : Stops rest) : readNumber (ds ++ (n.behind ++ rest)) = (ds ++ n.behind, rest) := by
  have hpoint : (n.fraction.elim [] fun _ => [0x2E]) ++ n.fraction.getD [] =
      n.fraction.elim [] fun f => 0x2E :: f := by
    cases n.fraction <;> rfl
  rw [Number.behind, List.append_assoc]
  cases hexponent : n.exponent with
  | none =>
    obtain ⟨hdigits, u, hone, hfraction⟩ :=
      span_fraction hds n.fraction_isDigits (s := rest) (Stops.ends hrest)
    have hmark : spanOne [0x65, 0x45] rest = ([], rest) := by
      apply spanOne_stops
      cases rest with
      | nil => simp
      | cons c rest =>
        rintro _ ⟨⟩
        exact hrest.ne.2.2
    simp only [readNumber, Option.elim_none, List.nil_append, List.append_nil, hdigits, hone, hfraction,
      hmark, if_true, List.append_assoc, hpoint]
  | some e =>
    obtain ⟨hdigits, u, hone, hfraction⟩ :=
      span_fraction hds n.fraction_isDigits (ends_exponent e rest)
    obtain ⟨hmark, hsign⟩ := span_exponent e rest
    have hlast : spanDigits (e.digits ++ rest) = (e.digits, rest) :=
      spanDigits_append e.isDigits.digit fun c hc => (Stops.ends hrest c hc).1
    have htext : [e.mark] ++ (e.sign ++ e.digits) = e.text := rfl
    simp only [readNumber, Option.elim_some, hdigits, hone, hfraction, hmark, hsign, hlast,
      List.cons_ne_nil, if_false, List.append_assoc, htext]
    rw [← hpoint, List.append_assoc]

theorem isDigit_of_byte {c : UInt8} (hlow : 0x30 ≤ c) (hhigh : c ≤ 0x39) : IsDigit 10 c := by
  rw [IsDigit, digitValue, if_pos ⟨hlow, hhigh⟩]
  have := UInt8.le_iff_toNat_le.1 hhigh
  have : (0x39 : UInt8).toNat = 0x39 := rfl
  omega

/-- What is decoded as an integer is one in range. -/
theorem of_decodeDigits {limit value n : ℕ} {s : Bytes} (hvalue : value ≤ limit)
    (h : decodeDigits limit value s = some n) :
    (∀ c ∈ s, IsDigit 10 c) ∧ ofNumeralFrom 10 value s = n ∧ n ≤ limit := by
  induction s generalizing value with
  | nil =>
    cases h
    exact ⟨by simp, rfl, hvalue⟩
  | cons c s ih =>
    simp only [decodeDigits] at h
    split at h
    · cases h
    · next hbyte =>
      split at h
      · cases h
      · next hfits =>
        rw [not_or, UInt8.not_lt, UInt8.not_lt] at hbyte
        have hdigit : digitValue c = c.toNat - 0x30 := by rw [digitValue, if_pos hbyte]
        have hhigh := UInt8.le_iff_toNat_le.1 hbyte.2
        have hnine : (0x39 : UInt8).toNat = 0x39 := rfl
        have hnext : value * 10 + (c.toNat - 0x30) ≤ limit := by
          by_contra hgt
          apply hfits
          refine ⟨by omega, ?_⟩
          by_cases habove : limit / 10 < value
          · exact .inl habove
          · exact .inr (.inr (by omega))
        obtain ⟨hdigits, hnumber, hle⟩ := ih hnext h
        refine ⟨List.forall_mem_cons.2 ⟨isDigit_of_byte hbyte.1 hbyte.2, hdigits⟩, ?_, hle⟩
        change ofNumeralFrom 10 (10 * value + digitValue c) s = n
        rw [hdigit, Nat.mul_comm]
        exact hnumber

/-- A point or an exponent does not begin with a digit. -/
theorem head_behind (n : Number) : ∀ c ∈ n.behind.head?, ¬ IsDigit 10 c := by
  intro c hc hdigit
  have hbyte := digit_of_isDigit hdigit
  rw [Number.behind] at hc
  cases hfraction : n.fraction with
  | none =>
    cases hexponent : n.exponent with
    | none => simp [hfraction, hexponent] at hc
    | some e =>
      rw [hfraction, hexponent] at hc
      have hends := (ends_exponent e [] c (by simpa using hc)).1
      simp [hbyte] at hends
  | some f =>
    rw [hfraction] at hc
    cases hc
    exact absurd hbyte (by decide)

/-- Digits with something behind them are no integer in range. -/
theorem decodeDigits_behind {n : Number} (h : n.behind ≠ []) {limit : ℕ} :
    decodeDigits limit 0 (n.integral ++ n.behind) = none := by
  rw [Option.eq_none_iff_forall_ne_some]
  intro m hm
  obtain ⟨hdigits, -⟩ := of_decodeDigits (Nat.zero_le _) hm
  obtain ⟨c, s, hbehind⟩ := List.exists_cons_of_ne_nil h
  refine head_behind n c (by rw [hbehind]; rfl) (hdigits c ?_)
  rw [hbehind]
  simp

/-- The digits of an integer, in and out of range. -/
theorem decodeDigits_integral {n : Number} (h : n.behind = []) {limit : ℕ} (hlimit : 10 ≤ limit) :
    decodeDigits limit 0 (n.integral ++ n.behind) = if n.digits ≤ limit then some n.digits else none := by
  have hdigits : n.digits = ofNumeralFrom 10 0 n.integral := Number.digits_of_behind h
  rw [h, List.append_nil]
  split
  · next hle =>
    rw [hdigits] at hle ⊢
    exact decodeDigits_eq hlimit n.integral_isDigits.digit hle
  · next hgt =>
    rw [Option.eq_none_iff_forall_ne_some]
    intro m hm
    obtain ⟨-, hnumber, hle⟩ := of_decodeDigits (Nat.zero_le _) hm
    exact hgt (by rw [hdigits, hnumber]; exact hle)

/-- The first byte of a number. -/
theorem head_text (n : Number) : n.text.head? = some 0x2D ↔ n.negative = true := by
  cases hnegative : n.negative with
  | true => simp [Number.text, hnegative]
  | false =>
    have hne : ∀ c ∈ (n.integral ++ n.behind).head?, c ∉ ([0x2D] : List UInt8) :=
      n.integral_isDigits.head_notMem (by decide +kernel)
    simp only [Number.text, hnegative, Bool.false_eq_true, if_false, List.nil_append, iff_false]
    intro h
    exact hne 0x2D h List.mem_cons_self

/-- The text behind the sign. -/
theorem text_unsigned (n : Number) :
    (if n.text.head? = some 0x2D then n.text.tail else n.text) = n.integral ++ n.behind := by
  simp only [head_text]
  cases hnegative : n.negative <;> simp [Number.text, hnegative]

/-- **Any number is decoded as a double.** -/
theorem decodeDouble_text (n : Number) :
    decodeDouble n.text = some (.real (Binary64.ofDecimal n.negative n.digits n.scale)) := by
  have hnegative : decide (n.text.head? = some 0x2D) = n.negative := by
    rw [Bool.eq_iff_iff, decide_eq_true_eq, head_text]
  have hne : ∀ s, n.integral ++ s ≠ [] := fun s h =>
    n.integral_isDigits.ne_nil (List.append_eq_nil_iff.1 h).1
  simp only [decodeDouble, text_unsigned, hnegative, Number.behind]
  cases hexponent : n.exponent with
  | none =>
    obtain ⟨hdigits, u, hone, hfraction⟩ :=
      span_fraction n.integral_isDigits.digit n.fraction_isDigits (s := []) (by simp [Ends])
    have hmark : spanOne [0x65, 0x45] [] = ([], []) := rfl
    have hsign : spanOne [0x2B, 0x2D] [] = ([], []) := rfl
    simp only [Option.elim_none, hdigits, hone, hfraction, hmark, hsign, hne, ne_eq, not_true,
      false_and, or_self, if_false, Number.digits, Number.scale, hexponent]
    rfl
  | some e =>
    obtain ⟨hdigits, u, hone, hfraction⟩ :=
      span_fraction n.integral_isDigits.digit n.fraction_isDigits (ends_exponent e [])
    obtain ⟨hmark, hsign⟩ := span_exponent e []
    rw [List.append_nil] at hdigits hone hfraction hmark
    rw [List.append_nil] at hmark hsign
    simp only [Option.elim_some, hdigits, hone, hfraction, hmark, hsign, hne, e.isDigits.ne_nil, ne_eq,
      and_false, or_self, if_false, Number.digits, Number.scale, hexponent, Exponent.value]

/-- **A number is decoded as it is stored.** -/
theorem decodeNumber_text (n : Number) : decodeNumber n.text = some (Value.ofNumber n) := by
  have htext := text_unsigned n
  rw [decodeNumber, Value.ofNumber, decodeDouble_text]
  by_cases hbehind : n.behind = []
  · cases hnegative : n.negative with
    | true =>
      rw [if_pos ((head_text n).2 hnegative)] at htext
      rw [if_pos ((head_text n).2 hnegative), htext, decodeDigits_integral hbehind (by decide)]
      by_cases hle : n.digits ≤ 2 ^ 63
      · rw [if_pos hle, if_pos ⟨hbehind, rfl, hle⟩]
      · rw [if_neg hle, if_neg fun h => hle h.2.2, if_neg fun h => Bool.false_ne_true h.2.1.symm]
    | false =>
      have hhead : n.text.head? ≠ some 0x2D := by
        rw [ne_eq, head_text, hnegative]
        exact Bool.false_ne_true
      have hsign : ¬ (n.behind = [] ∧ false = true ∧ n.digits ≤ 2 ^ 63) := fun h =>
        Bool.false_ne_true h.2.1
      rw [if_neg hhead] at htext
      rw [if_neg hhead, htext, decodeDigits_integral hbehind (by decide), if_neg hsign]
      by_cases hlt : n.digits < 2 ^ 64
      · rw [if_pos (show n.digits ≤ 2 ^ 64 - 1 by omega), if_pos ⟨hbehind, rfl, hlt⟩]
      · rw [if_neg (show ¬ n.digits ≤ 2 ^ 64 - 1 by omega), if_neg fun h => hlt h.2.2]
  · have hint : ∀ p : Prop, ¬ (n.behind = [] ∧ p) := fun _ h => hbehind h.1
    rw [if_neg (hint _), if_neg (hint _)]
    by_cases hhead : n.text.head? = some 0x2D
    · rw [if_pos hhead] at htext
      rw [if_pos hhead, htext, decodeDigits_behind hbehind]
    · rw [if_neg hhead] at htext
      rw [if_neg hhead, htext, decodeDigits_behind hbehind]

/-- **A number** is read up to where it stops. -/
theorem readsAs_numberText (depth : ℕ) (n : Number) : ReadsAs (depth + 1) n.text (Value.ofNumber n) := by
  have hdecode := decodeNumber_text n
  cases hnegative : n.negative with
  | true =>
    have htext : n.text = 0x2D :: (n.integral ++ n.behind) := by simp [Number.text, hnegative]
    rw [htext] at hdecode ⊢
    refine readsAs_number (.inr rfl) (fun rest hrest => ?_) hdecode
    rw [List.append_assoc]
    exact readNumber_behind n.integral_isDigits.digit n hrest
  | false =>
    obtain ⟨c, ds, hintegral⟩ := List.exists_cons_of_ne_nil n.integral_isDigits.ne_nil
    have hdigits := n.integral_isDigits.digit
    rw [hintegral] at hdigits
    have htext : n.text = c :: (ds ++ n.behind) := by simp [Number.text, hnegative, hintegral]
    rw [htext] at hdecode ⊢
    refine readsAs_number (.inl (digit_of_isDigit (hdigits c List.mem_cons_self)))
      (fun rest hrest => ?_) hdecode
    rw [List.append_assoc]
    exact readNumber_behind (fun d hd => hdigits d (List.mem_cons_of_mem _ hd)) n hrest

/-! ## Strings -/

theorem inside_bytes {s : Bytes} (hquote : 0x22 ∉ s) (hbackslash : 0x5C ∉ s) : Inside s := by
  induction s with
  | nil => exact inside_nil
  | cons c s ih =>
    rw [List.mem_cons, not_or] at hquote hbackslash
    exact (inside_byte (Ne.symm hquote.1) (Ne.symm hbackslash.1)).append (ih hquote.2 hbackslash.2)

theorem decodes_bytes {s : Bytes} (hquote : 0x22 ∉ s) (hbackslash : 0x5C ∉ s) : Decodes s s := by
  induction s with
  | nil => exact decodes_nil
  | cons c s ih =>
    rw [List.mem_cons, not_or] at hquote hbackslash
    exact (decodes_byte (Ne.symm hquote.1) (Ne.symm hbackslash.1)).append (ih hquote.2 hbackslash.2)

/-- The bytes of a character beyond ASCII are none of ASCII. -/
theorem notMem_utf8EncodeChar {ch : Char} {x : UInt8} (hx : x.toNat < 0x80) (hne : ch.toNat ≠ x.toNat) :
    x ∉ String.utf8EncodeChar ch := by
  rw [← codePointToUTF8_char]
  have hle : ch.toNat ≤ 0x10FFFF := by
    rcases toNat_char ch with h | h <;> omega
  have hbyte : ∀ n, 0x80 ≤ n → n < 0x100 → x ≠ UInt8.ofNat n := by
    rintro n hlow hhigh rfl
    rw [UInt8.toNat_ofNat_of_lt' (by change n < 0x100; omega)] at hx
    omega
  unfold codePointToUTF8
  split_ifs with h₁ h₂ h₃
  · rw [List.mem_singleton]
    rintro rfl
    exact hne (UInt8.toNat_ofNat_of_lt' (by change _ < 0x100; omega)).symm
  all_goals
    simp only [List.mem_cons, List.not_mem_nil, or_false, not_or]
    refine ⟨hbyte _ (by omega) (by omega), ?_⟩
    first
      | exact hbyte _ (by omega) (by omega)
      | exact ⟨hbyte _ (by omega) (by omega), hbyte _ (by omega) (by omega)⟩
      | exact ⟨hbyte _ (by omega) (by omega), hbyte _ (by omega) (by omega), hbyte _ (by omega) (by omega)⟩

/-- Four hexadecimal digits, as they are read. -/
theorem decode_hex16 {u : Bytes} {n : ℕ} (h : Hex16 u n) (s : Bytes) :
    decodeUnicodeEscapeSequence (u ++ s) = some (n, s) := by
  obtain ⟨hdigit, hlength, rfl⟩ := h
  match u, hlength with
  | [a, b, c, d], _ =>
    have hall : [a, b, c, d].all (IsDigit 16 ·) = true := by simpa using hdigit
    simp only [List.cons_append, List.nil_append, decodeUnicodeEscapeSequence, hall, if_true]

theorem readString_of_inside {s : Bytes} (h : Inside s) (rest : Bytes) :
    readString (s ++ 0x22 :: rest) = some (s, rest) := by
  have hquote : readString (0x22 :: rest) = some ([], rest) := by
    cases rest <;> simp [readString]
  rw [h, hquote, Option.map_some, List.append_nil]

theorem decodeString_of_decodes {s t : Bytes} (h : Decodes s t) : decodeString s = some t := by
  have hloop := h [] [] (fun m _ => by cases m <;> rfl) s.length (by simp)
  rwa [List.append_nil, List.append_nil] at hloop

/-- **A string is read as its characters.** -/
theorem reads_chars {s : Bytes} {cs : List Char} (h : Chars s cs) :
    Inside s ∧ Decodes s (cs.flatMap String.utf8EncodeChar) := by
  induction h with
  | nil => exact ⟨inside_nil, decodes_nil⟩
  | plain ch hlow hquote hbackslash _ ih =>
    have hq := notMem_utf8EncodeChar (x := 0x22) (by decide) hquote
    have hb := notMem_utf8EncodeChar (x := 0x5C) (by decide) hbackslash
    exact ⟨(inside_bytes hq hb).append ih.1, (decodes_bytes hq hb).append ih.2⟩
  | escape d ch hd _ ih =>
    have hall : ∀ p ∈ escapes, p.1 ≠ 0x75 ∧ simpleEscape p.1 = some (UInt8.ofNat p.2) := by decide
    obtain ⟨hne, hsimple⟩ := hall _ hd
    rw [List.flatMap_cons, utf8EncodeChar_ascii (lt_of_mem_escapes hd)]
    exact ⟨(inside_escape d).append ih.1, (decodes_escape hne hsimple).append ih.2⟩
  | hex ch hu _ ih =>
    refine ⟨(inside_escape 0x75).append ((inside_bytes hu.notMem.1 hu.notMem.2).append ih.1), ?_⟩
    rw [List.flatMap_cons, ← codePointToUTF8_char]
    refine (decodes_codepoint fun s => ?_).append ih.2
    have hvalid := toNat_char ch
    rw [decodeUnicodeCodePoint, decode_hex16 hu, Option.bind_some]
    exact if_neg (by omega)
  | @pair s u v cs x y ch hu hv hx hy hch _ ih =>
    have hinside : Inside (0x5C :: 0x75 :: (u ++ 0x5C :: 0x75 :: v)) :=
      (inside_escape 0x75).append <| (inside_bytes hu.notMem.1 hu.notMem.2).append <|
        (inside_escape 0x75).append (inside_bytes hv.notMem.1 hv.notMem.2)
    have hdecodes : Decodes (0x5C :: 0x75 :: (u ++ 0x5C :: 0x75 :: v)) (String.utf8EncodeChar ch) := by
      rw [← codePointToUTF8_char]
      refine decodes_codepoint fun s => ?_
      rw [List.append_assoc, decodeUnicodeCodePoint, decode_hex16 hu, Option.bind_some]
      simp only [List.cons_append, decode_hex16 hv, Option.map_some]
      rw [if_pos (by omega), hch, show (0xD800 + x) % 0x400 = x by omega,
        show (0xDC00 + y) % 0x400 = y by omega]
    have happend := And.intro (hinside.append ih.1) (hdecodes.append ih.2)
    simpa only [List.cons_append, List.append_assoc, List.flatMap_cons] using happend

/-! ## Texts -/

variable {depth : ℕ} {text : Bytes}

/-- White space is blank to the reader. -/
theorem blank_of_blank {g : Bytes} (h : JsonText.Blank g) : Blank g := by
  intro c hc
  have hmem := h c hc
  simp only [List.mem_cons, List.not_mem_nil, or_false] at hmem
  rcases hmem with rfl | rfl | rfl | rfl <;> rfl

/-- Items that are read as elements. -/
theorem readsElements_items {vs : List Tree}
    (h : Items (fun t v => ReadsAs depth t (Value.ofTree v)) 0x5D text vs) :
    vs ≠ [] ∧ ReadsElements depth text (ofTrees vs) := by
  induction h with
  | @last g t g' v hg ht hg' =>
    refine ⟨List.cons_ne_nil _ _, ?_⟩
    rw [← List.append_assoc]
    exact readsElements_last (ht.blank (blank_of_blank hg)) (blank_of_blank hg')
  | @cons g t g' text v vs hg ht hg' _ ih =>
    refine ⟨List.cons_ne_nil _ _, ?_⟩
    rw [← List.append_assoc]
    exact readsElements_cons (ht.blank (blank_of_blank hg)) (blank_of_blank hg') ih.2

/-- A name and the colon, and a value behind them. -/
def ReadsMember (depth : ℕ) (text : Bytes) (m : List Char × Tree) : Prop :=
  ∃ s g t, text = 0x22 :: (s ++ 0x22 :: (g ++ [0x3A])) ++ t ∧
    (∀ g', Blank g' → ReadsName (g' ++ 0x22 :: (s ++ 0x22 :: (g ++ [0x3A])))
      (m.1.flatMap String.utf8EncodeChar)) ∧ ReadsAs depth t (Value.ofTree m.2)

theorem readsMembers_items {ms : List (List Char × Tree)}
    (h : Items (ReadsMember depth) 0x7D text ms) : ReadsMembers depth text (ofMemberTrees ms) := by
  induction h with
  | @last g t g' m hg ht hg' =>
    obtain ⟨key, v⟩ := m
    obtain ⟨s, g'', t, rfl, hname, hvalue⟩ := ht
    have hlast := readsMembers_last (hname g (blank_of_blank hg)) hvalue (blank_of_blank hg')
    rw [ofMemberTrees, ofMemberTrees]
    simpa only [List.append_assoc] using hlast
  | @cons g t g' text m ms hg ht hg' _ ih =>
    obtain ⟨key, v⟩ := m
    obtain ⟨s, g'', t, rfl, hname, hvalue⟩ := ht
    have hcons := readsMembers_cons (hname g (blank_of_blank hg)) hvalue (blank_of_blank hg') ih
    rw [ofMemberTrees]
    simpa only [List.append_assoc] using hcons

/-- **A text is read as what it says.** -/
theorem readsAs_text {v : Tree} (h : IsText depth text v) (hlength : text.length < 2 ^ 30) :
    ReadsAs depth text (Value.ofTree v) := by
  induction depth generalizing text v with
  | zero => exact h.elim
  | succ depth ih =>
    have hform : Form (IsText depth) text v := h
    cases hform with
    | null => exact readsAs_null depth
    | bool b => exact readsAs_bool depth b
    | number n => exact readsAs_numberText depth n
    | @string s cs hs =>
      have hle := hs.length_le
      obtain ⟨hinside, hdecodes⟩ := reads_chars hs
      simp only [List.length_cons, List.length_append] at hlength
      exact readsAs_quoted depth (readString_of_inside hinside) (decodeString_of_decodes hdecodes) (by omega)
    | emptyArray hg => exact readsAs_emptyArray depth (blank_of_blank hg)
    | @array text vs hitems =>
      rw [List.length_cons] at hlength
      obtain ⟨hne, hread⟩ := readsElements_items (hitems.imp fun t x hle ht => ih ht (by omega))
      obtain ⟨v, vs, rfl⟩ := List.exists_cons_of_ne_nil hne
      exact readsAs_array hread
    | emptyObject hg => exact readsAs_emptyObject depth (blank_of_blank hg)
    | @object text ms hitems =>
      rw [List.length_cons] at hlength
      refine readsAs_object (readsMembers_items (hitems.imp fun t m hle hm => ?_))
      cases hm with
      | @mk s g g' t key v hkey hg hg' ht =>
        have hkey' := hkey.length_le
        obtain ⟨hinside, hdecodes⟩ := reads_chars hkey
        simp only [List.length_cons, List.length_append] at hle
        have hkeyLength : (key.flatMap String.utf8EncodeChar).length < 2 ^ 30 := by omega
        refine ⟨s, g, g' ++ t, by simp, fun g'' hg'' => ?_, (ih ht (by omega)).blank (blank_of_blank hg')⟩
        exact readsName_quoted hg'' (readString_of_inside hinside) (decodeString_of_decodes hdecodes)
          hkeyLength (blank_of_blank hg)

/-- **Every JSON text is accepted and read as what it says**, with white space in front of it and, if it
does not go on there, with anything behind it. -/
theorem parse_text {g rest : Bytes} {v : Tree} (h : IsText stackLimit text v)
    (hlength : text.length < 2 ^ 30) (hg : JsonText.Blank g) (hrest : Stops rest) :
    parse (g ++ (text ++ rest)) = some (true, Value.ofTree v) := by
  rw [parse, readValue_blank (blank_of_blank hg), readsAs_text h hlength _ _ _ le_rfl hrest]
  rfl

/-- The last value of `a` counts, and the escape is read as the two bytes of the character. -/
theorem parse_text_twice :
    parse (ascii "\n\x7b\"a\": 1,\"b\":[-7 ,\"\\u00e9\"], \"a\":true\x7d\r\n") =
      some (true, .object [([0x61], .bool true), ([0x62], .array [.int (-7), .string [0xC3, 0xA9]])]) := by
  let one : Number := ⟨false, [0x31], none, none, ⟨by decide +kernel, by decide⟩, .inl rfl, nofun⟩
  let seven : Number := ⟨true, [0x37], none, none, ⟨by decide +kernel, by decide⟩, .inl rfl, nofun⟩
  have hnone := JsonText.blank_nil
  have hspace : JsonText.Blank [0x20] := by simp [JsonText.Blank]
  have hline : JsonText.Blank [0x0A] := by simp [JsonText.Blank]
  have hrest : Stops [0x0D, 0x0A] := by simp [Stops]
  have ha : Chars [0x61] ['a'] := .plain 'a' (by decide) (by decide) (by decide) .nil
  have hb : Chars [0x62] ['b'] := .plain 'b' (by decide) (by decide) (by decide) .nil
  have hu : Hex16 (ascii "00e9") '\u00e9'.toNat := ⟨by decide +kernel, rfl, by decide +kernel⟩
  have he : Chars (ascii "\\u00e9") ['\u00e9'] := .hex '\u00e9' hu .nil
  have harray : IsText (stackLimit - 1) (ascii "[-7 ,\"\\u00e9\"]")
      (.array [.number seven, .string ['\u00e9']]) :=
    .array (.cons hnone (Form.number seven) hspace (.last hnone (Form.string he) hnone))
  have h : IsText stackLimit (ascii "\x7b\"a\": 1,\"b\":[-7 ,\"\\u00e9\"], \"a\":true\x7d")
      (.object [(['a'], .number one), (['b'], .array [.number seven, .string ['\u00e9']]),
        (['a'], .bool true)]) :=
    .object (.cons hnone (Member.mk ha hnone hspace (Form.number one)) hnone
      (.cons hnone (Member.mk hb hnone hnone harray) hnone
        (.last hspace (Member.mk ha hnone hnone (Form.bool true)) hnone)))
  exact parse_text h (by decide +kernel) hline hrest

end Writer

end Json

end GraduationServer
