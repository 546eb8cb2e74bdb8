import GraduationServer.Json.Writer

/-!
# Written documents

What the servers rely on when they put documents one behind the other: no written document has a
carriage return in it (`noReturn_write`), since a string is written with escapes.

And what they rely on when they read a document of their own: the escapes of a written string decode
(`isSome_decodeString_escape`).
-/

namespace GraduationServer

namespace Json

namespace Writer

/-! ## No carriage return -/

/-- The text has no carriage return. -/
def NoReturn (s : Bytes) : Prop := (0x0D : UInt8) ∉ s

instance (s : Bytes) : Decidable (NoReturn s) := inferInstanceAs (Decidable (_ ∉ _))

theorem NoReturn.append {s t : Bytes} (hs : NoReturn s) (ht : NoReturn t) : NoReturn (s ++ t) := by
  intro h
  exact (List.mem_append.1 h).elim hs ht

theorem NoReturn.cons {c : UInt8} {s : Bytes} (hc : c ≠ 0x0D) (hs : NoReturn s) :
    NoReturn (c :: s) := by
  intro h
  exact (List.mem_cons.1 h).elim (fun heq => hc heq.symm) hs

theorem noReturn_nil : NoReturn [] := List.not_mem_nil

theorem NoReturn.of_subset {s t : Bytes} (ht : NoReturn t) (h : s ⊆ t) : NoReturn s :=
  fun hs => ht (h hs)

theorem noReturn_replicate {c : UInt8} (hc : c ≠ 0x0D) (n : ℕ) : NoReturn (List.replicate n c) := by
  intro h
  exact hc (List.eq_of_mem_replicate h).symm

theorem noReturn_numeral {base : ℕ} (hbase : 1 < base) (hle : base ≤ 16) (n : ℕ) :
    NoReturn (numeral base n) := by
  intro h
  have hdigit : digitValue 0x0D < base := isDigit_of_mem_numeral hbase hle h
  have hnone : digitValue 0x0D = 16 := by decide
  omega

theorem noReturn_pointAfter (k : ℕ) {digits : Bytes} (h : NoReturn digits) :
    NoReturn (Binary64.pointAfter k digits) := by
  have htake : NoReturn (digits.take k) := h.of_subset (List.take_subset _ _)
  have hfraction : NoReturn ((digits.drop k).reverse.dropWhile (· = 0x30)).reverse := by
    refine h.of_subset fun c hc => ?_
    have hmem := (List.dropWhile_suffix _).subset (List.mem_reverse.1 hc)
    exact List.drop_subset _ _ (List.mem_reverse.1 hmem)
  unfold Binary64.pointAfter
  refine htake.append ?_
  split
  · exact noReturn_nil
  · exact (show NoReturn (ascii ".") by decide).append hfraction

theorem noReturn_printFinite (m : ℕ) (e : ℤ) : NoReturn (Binary64.printFinite m e) := by
  have hnumeral := @noReturn_numeral 10 (by decide) (by decide)
  unfold Binary64.printFinite
  split
  · decide
  · generalize Binary64.significant17 (Binary64.ratio m e).1 (Binary64.ratio m e).2 = digits
    obtain ⟨d, x⟩ := digits
    dsimp only
    have hsign : NoReturn (ascii (if x < 0 then "e-" else "e+")) := by split <;> decide
    split
    · refine ((noReturn_pointAfter _ (hnumeral d)).append hsign).append ?_ |>.append (hnumeral _)
      split
      · decide
      · exact noReturn_nil
    · split
      · exact noReturn_pointAfter _ ((noReturn_replicate (by decide) _).append (hnumeral d))
      · exact noReturn_pointAfter _ (hnumeral d)

theorem noReturn_realToString (d : Binary64) : NoReturn (Value.realToString d) := by
  cases d with
  | infinite negative => cases negative <;> decide
  | finite negative m e =>
    have hsign : NoReturn (if negative then ascii "-" else []) := by cases negative <;> decide
    have hprint : NoReturn (Binary64.print17 negative m e) := hsign.append (noReturn_printFinite m e)
    have hpoint : NoReturn (ascii ".0") := by decide
    simp only [Value.realToString]
    split
    · exact hprint.append hpoint
    · exact hprint

theorem noReturn_hex16 (x : ℕ) : NoReturn (hex16 x) := by
  have hdigit : ∀ y, digitChar (y % 0x10) ≠ 0x0D := by
    intro y
    have hy := Nat.mod_lt y (by decide : 0 < 0x10)
    interval_cases y % 0x10 <;> decide
  exact .cons (by decide) <| .cons (by decide) <| .cons (hdigit _) <| .cons (hdigit _) <|
    .cons (hdigit _) <| .cons (hdigit _) noReturn_nil

theorem noReturn_escapeCodepoint {c : UInt8} {s : Bytes} (h : shortEscape c = none) :
    NoReturn (escapeCodepoint (utf8ToCodepoint c s).1) := by
  unfold escapeCodepoint
  split
  · exact noReturn_hex16 _
  · split
    · next hascii =>
      rw [utf8ToCodepoint_ascii hascii, UInt8.ofNat_toNat]
      refine NoReturn.cons ?_ noReturn_nil
      rintro rfl
      exact absurd h (by decide)
    · split
      · exact noReturn_hex16 _
      · exact (noReturn_hex16 _).append (noReturn_hex16 _)

theorem shortEscape_ne {c d : UInt8} (h : shortEscape c = some d) : d ≠ 0x0D ∧ d ≠ 0x75 := by
  unfold shortEscape at h
  split_ifs at h with h₁ h₂ h₃ h₄ h₅ h₆ <;> cases h
  · rcases h₁ with rfl | rfl <;> decide
  all_goals decide

/-- A carriage return is escaped. -/
theorem noReturn_escapeLoop (n : ℕ) (s : Bytes) : NoReturn (escapeLoop n s) := by
  induction n generalizing s with
  | zero => exact noReturn_nil
  | succ n ih =>
    cases s with
    | nil => exact noReturn_nil
    | cons c s =>
      rw [escapeLoop]
      split
      · next d hd => exact .cons (by decide) (.cons (shortEscape_ne hd).1 (ih s))
      · next hnone => exact (noReturn_escapeCodepoint hnone).append (ih _)

theorem noReturn_valueToQuotedString (s : Bytes) : NoReturn (valueToQuotedString s) :=
  .cons (by decide) ((noReturn_escapeLoop _ s).append (by decide))

theorem noReturn_scalar {v : Value} {s : Bytes} (h : scalar v = some s) : NoReturn s := by
  have hnumeral := @noReturn_numeral 10 (by decide) (by decide)
  cases v with
  | null => cases h; decide
  | int i =>
    cases h
    unfold Value.intToString
    refine NoReturn.append ?_ (hnumeral _)
    split <;> decide
  | uint n => cases h; exact hnumeral n
  | real d => cases h; exact noReturn_realToString d
  | string s => cases h; exact noReturn_valueToQuotedString s
  | bool b => cases b <;> (cases h; decide)
  | array elements => cases elements <;> cases h; decide
  | object members => cases members <;> cases h; decide

theorem noReturn_writeIndent {document : Bytes} (h : NoReturn document) (n : ℕ) :
    NoReturn (writeIndent document n) := by
  have hblanks := noReturn_replicate (c := 0x20) (by decide) n
  unfold writeIndent
  split
  · exact hblanks
  · split
    · exact h
    · refine NoReturn.append ?_ hblanks
      split
      · exact h
      · exact h.append (by decide)

theorem noReturn_childValues (elements : List Value) :
    (∀ c ∈ (childValues elements).2, NoReturn c) ∧
      ∀ children, (childValues elements).1 = some children → ∀ c ∈ children, NoReturn c := by
  have hscalars : ∀ children, elements.mapM scalar = some children → ∀ c ∈ children, NoReturn c := by
    intro children hchildren c hc
    have hsome : some c ∈ elements.map scalar := by
      rw [← map_some_of_mapM hchildren]
      exact List.mem_map_of_mem hc
    obtain ⟨v, -, hv⟩ := List.mem_map.1 hsome
    exact noReturn_scalar hv
  have hnone : (∀ c ∈ ([] : List Bytes), NoReturn c) ∧
      ∀ children, some [] = some children → ∀ c ∈ children, NoReturn c :=
    ⟨by simp, by rintro _ ⟨⟩; simp⟩
  unfold childValues
  split
  · exact hnone
  · cases hchildren : elements.mapM scalar with
    | none => exact hnone
    | some children =>
      dsimp only
      split
      · exact ⟨hscalars _ hchildren, by rintro _ ⟨⟩; exact hscalars _ hchildren⟩
      · exact ⟨hscalars _ hchildren, by rintro _ ⟨⟩⟩

theorem noReturn_writeChildren {children : List Bytes} (h : ∀ c ∈ children, NoReturn c)
    (n : ℕ) {document : Bytes} (hdocument : NoReturn document) :
    NoReturn (writeChildren n document children) := by
  induction children generalizing document with
  | nil => exact hdocument
  | cons c children ih =>
    have hc := (noReturn_writeIndent hdocument n).append (h c List.mem_cons_self)
    cases children with
    | nil => exact hc
    | cons d children =>
      rw [writeChildren]
      exact ih (fun e he => h e (List.mem_cons_of_mem _ he)) (hc.append (by decide))

theorem noReturn_intercalate {children : List Bytes} (h : ∀ c ∈ children, NoReturn c) :
    NoReturn ([0x2C, 0x20].intercalate children) := by
  induction children with
  | nil => exact noReturn_nil
  | cons c children ih =>
    have hc := h c List.mem_cons_self
    cases children with
    | nil => simpa using hc
    | cons d children =>
      have hseparator : NoReturn [0x2C, 0x20] := by decide
      rw [List.intercalate_cons_cons]
      exact (hc.append hseparator).append (ih fun e he => h e (List.mem_cons_of_mem _ he))

mutual

/-- **A value is written without carriage returns**, by cases on what it is made of. -/
theorem noReturn_writeValue (n : ℕ) {document : Bytes} (h : NoReturn document) :
    ∀ v : Value, NoReturn (writeValue n document v)
  | .array (e :: elements) => by
    obtain ⟨hwritten, hchildren⟩ := noReturn_childValues (e :: elements)
    have hopen := (noReturn_writeIndent h n).append (show NoReturn (ascii "[") by decide)
    have hclose : NoReturn (ascii "]") := by decide
    rw [writeValue]
    split
    · next children heq =>
      rw [heq] at hwritten
      exact ((h.append (by decide)).append (noReturn_intercalate hwritten)).append (by decide)
    · exact (noReturn_writeIndent (noReturn_writeElements _ hopen (e :: elements)) n).append hclose
    · next children _ _ heq =>
      rw [heq] at hchildren
      exact (noReturn_writeIndent
        (noReturn_writeChildren (hchildren _ rfl) _ hopen) n).append hclose
  | .object (m :: members) => by
    have hopen := (noReturn_writeIndent h n).append (show NoReturn (ascii "\x7b") by decide)
    rw [writeValue]
    exact (noReturn_writeIndent (noReturn_writeMembers _ hopen (m :: members)) n).append (by decide)
  | .null => h.append (by decide)
  | .int i => h.append (noReturn_scalar (v := .int i) rfl)
  | .uint i => h.append (noReturn_scalar (v := .uint i) rfl)
  | .real d => h.append (noReturn_scalar (v := .real d) rfl)
  | .string s => h.append (noReturn_scalar (v := .string s) rfl)
  | .bool b => h.append (noReturn_scalar (v := .bool b) rfl)
  | .array [] => h.append (by decide)
  | .object [] => h.append (by decide)

theorem noReturn_writeElements (n : ℕ) {document : Bytes} (h : NoReturn document) :
    ∀ elements : List Value, NoReturn (writeElements n document elements)
  | [] => h
  | [v] => noReturn_writeValue n (noReturn_writeIndent h n) v
  | v :: w :: elements => by
    rw [writeElements]
    exact noReturn_writeElements n
      ((noReturn_writeValue n (noReturn_writeIndent h n) v).append (by decide)) (w :: elements)

theorem noReturn_writeMembers (n : ℕ) {document : Bytes} (h : NoReturn document) :
    ∀ members : List (Bytes × Value), NoReturn (writeMembers n document members)
  | [] => h
  | [(name, v)] => by
    have hname := (noReturn_writeIndent h n).append (noReturn_valueToQuotedString (cStr name))
    rw [writeMembers]
    exact noReturn_writeValue n (hname.append (by decide)) v
  | (name, v) :: m :: members => by
    have hname := (noReturn_writeIndent h n).append (noReturn_valueToQuotedString (cStr name))
    rw [writeMembers]
    exact noReturn_writeMembers n
      ((noReturn_writeValue n (hname.append (by decide)) v).append (by decide)) (m :: members)

end

/-- **No written document has a carriage return.** -/
theorem noReturn_write (root : Value) : NoReturn (write root) :=
  (noReturn_writeValue 0 noReturn_nil root).append (by decide)

theorem write_ne_nil (root : Value) : write root ≠ [] := by simp [write]

/-! ## The escapes decode -/

open Reader

/-- Four hexadecimal digits are read as the number that they write. -/
theorem decodeUnicodeEscapeSequence_digits (x : ℕ) (s : Bytes) :
    decodeUnicodeEscapeSequence (digitChar (x / 0x1000 % 0x10) :: digitChar (x / 0x100 % 0x10) ::
      digitChar (x / 0x10 % 0x10) :: digitChar (x % 0x10) :: s) = some (x % 0x10000, s) := by
  have hdigit : ∀ y, digitValue (digitChar (y % 0x10)) = y % 0x10 := fun y =>
    digitValue_digitChar (Nat.mod_lt y (by decide))
  have hall : [digitChar (x / 0x1000 % 0x10), digitChar (x / 0x100 % 0x10),
      digitChar (x / 0x10 % 0x10), digitChar (x % 0x10)].all (IsDigit 16 ·) = true := by
    simp [IsDigit, hdigit, Nat.mod_lt]
  have hnumber : ofNumeral 16 [digitChar (x / 0x1000 % 0x10), digitChar (x / 0x100 % 0x10),
      digitChar (x / 0x10 % 0x10), digitChar (x % 0x10)] = x % 0x10000 := by
    simp only [ofNumeral, ofNumeralFrom, List.foldl_cons, List.foldl_nil, hdigit]
    omega
  rw [decodeUnicodeEscapeSequence, if_pos hall, hnumber]

/-- No code point is the first half of a pair. -/
theorem utf8ToCodepoint_surrogate (c : UInt8) (s : Bytes) :
    ¬ (0xD800 ≤ (utf8ToCodepoint c s).1 ∧ (utf8ToCodepoint c s).1 ≤ 0xDBFF) := by
  simp only [utf8ToCodepoint]
  split_ifs <;> simp only <;> omega

/-- A text that the loop of `decodeString` passes: if it decodes what follows, it decodes all. -/
def Passed (p : Bytes) : Prop :=
  ∀ s, (∀ m, s.length ≤ m → (decodeStringLoop m s).isSome) →
    ∀ m, (p ++ s).length ≤ m → (decodeStringLoop m (p ++ s)).isSome

/-- A text is passed if one turn of the loop does it. -/
theorem passed_of_turn {c : UInt8} {p : Bytes}
    (h : ∀ s m, (decodeStringLoop m s).isSome → (decodeStringLoop (m + 1) (c :: p ++ s)).isSome) :
    Passed (c :: p) := by
  intro s hs m hm
  rw [List.cons_append, List.length_cons, List.length_append] at hm
  obtain ⟨m, rfl⟩ : ∃ k, m = k + 1 := ⟨m - 1, by omega⟩
  exact h s m (hs m (by omega))

theorem passed_byte {c : UInt8} (hquote : c ≠ 0x22) (hbackslash : c ≠ 0x5C) : Passed [c] := by
  refine passed_of_turn fun s m hs => ?_
  simp only [List.singleton_append, decodeStringLoop, if_neg hquote, if_neg hbackslash,
    Option.isSome_map]
  exact hs

theorem passed_escape {d : UInt8} (hd : d ≠ 0x75) (hsimple : (simpleEscape d).isSome) :
    Passed [0x5C, d] := by
  obtain ⟨e, he⟩ := Option.isSome_iff_exists.1 hsimple
  refine passed_of_turn fun s m hs => ?_
  simp only [List.cons_append, List.nil_append, decodeStringLoop, if_neg hd, he, Option.bind_some,
    Option.isSome_map, show ¬ (0x5C : UInt8) = 0x22 by decide, if_false, if_true]
  exact hs

/-- What is read as one code point is passed. -/
theorem passed_codepoint {p : Bytes} (h : ∀ s, ∃ cp, decodeUnicodeCodePoint (p ++ s) = some (cp, s)) :
    Passed (0x5C :: 0x75 :: p) := by
  refine passed_of_turn fun s m hs => ?_
  obtain ⟨cp, hcp⟩ := h s
  simp only [List.cons_append, decodeStringLoop, hcp, Option.bind_some, Option.isSome_map,
    show ¬ (0x5C : UInt8) = 0x22 by decide, if_false, if_true]
  exact hs

theorem passed_hex16 {x : ℕ} (hx : ¬ (0xD800 ≤ x % 0x10000 ∧ x % 0x10000 ≤ 0xDBFF)) :
    Passed (hex16 x) := by
  refine passed_codepoint fun s => ⟨x % 0x10000, ?_⟩
  have hread := decodeUnicodeEscapeSequence_digits x s
  simp only [List.cons_append, List.nil_append, decodeUnicodeCodePoint, hread, Option.bind_some,
    if_neg hx]

theorem passed_pair {x y : ℕ} (hx : 0xD800 ≤ x % 0x10000 ∧ x % 0x10000 ≤ 0xDBFF) :
    Passed (hex16 x ++ hex16 y) := by
  refine passed_codepoint fun s =>
    ⟨0x10000 + x % 0x10000 % 0x400 * 0x400 + y % 0x10000 % 0x400, ?_⟩
  have hfirst := decodeUnicodeEscapeSequence_digits x (hex16 y ++ s)
  have hsecond := decodeUnicodeEscapeSequence_digits y s
  change decodeUnicodeCodePoint (digitChar (x / 0x1000 % 0x10) :: digitChar (x / 0x100 % 0x10) ::
    digitChar (x / 0x10 % 0x10) :: digitChar (x % 0x10) :: (hex16 y ++ s)) = _
  rw [decodeUnicodeCodePoint, hfirst, Option.bind_some]
  simp only [hex16, List.cons_append, List.nil_append, if_pos hx, hsecond, Option.map_some]

theorem simpleEscape_shortEscape {c d : UInt8} (h : shortEscape c = some d) :
    (simpleEscape d).isSome := by
  unfold shortEscape at h
  split_ifs at h with h₁ h₂ h₃ h₄ h₅ h₆ <;> cases h
  · rcases h₁ with rfl | rfl <;> decide
  all_goals decide

theorem passed_escapeCodepoint {c : UInt8} {s : Bytes} (h : shortEscape c = none) :
    Passed (escapeCodepoint (utf8ToCodepoint c s).1) := by
  have hsingle := utf8ToCodepoint_surrogate c s
  unfold escapeCodepoint
  split
  · exact passed_hex16 (by omega)
  · split
    · next hascii =>
      rw [utf8ToCodepoint_ascii hascii, UInt8.ofNat_toNat]
      refine passed_byte ?_ ?_
      · rintro rfl
        exact absurd h (by decide)
      · rintro rfl
        exact absurd h (by decide)
    · split
      · exact passed_hex16 (by omega)
      · exact passed_pair (by omega)

/-- **A written string can be read back.** -/
theorem isSome_decodeString_escape (s : Bytes) : (decodeString (escape s)).isSome := by
  have hloop : ∀ n s m, (escapeLoop n s).length ≤ m → (decodeStringLoop m (escapeLoop n s)).isSome := by
    intro n
    induction n with
    | zero => exact fun _ _ _ => by simp [escapeLoop, decodeStringLoop]
    | succ n ih =>
      intro s
      cases s with
      | nil => exact fun _ _ => by simp [escapeLoop, decodeStringLoop]
      | cons c s =>
        rw [escapeLoop]
        split
        · next d hd =>
          exact passed_escape (shortEscape_ne hd).2 (simpleEscape_shortEscape hd) _ (ih s)
        · next hnone => exact passed_escapeCodepoint hnone _ (ih _)
  exact hloop _ s _ le_rfl

end Writer

end Json

end GraduationServer
