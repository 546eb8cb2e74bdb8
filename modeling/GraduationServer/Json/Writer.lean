import GraduationServer.Json.Reader

/-!
# The JSON writer

`Json::StyledWriter::write` of `newJson/jsoncpp.cpp`, for values without comments. A string is
written with its bytes outside of ASCII decoded from UTF-8 and escaped, so that what stands between
the quotes of a written string is plain ASCII with escapes.

`readString_escape` is what the servers rely on when they read back what they have written: the text
between the quotes is one string token. So a written object with the member `username` is read as an
object with that member (`parse_write_username`).
-/

namespace GraduationServer

namespace Json

namespace Writer

/-! ## Strings -/

/-- `utf8ToCodepoint`: the code point at the front of a text that is not empty, and how many bytes
it takes. Only the first byte says how many; a text that is too short is not decoded. -/
def utf8ToCodepoint (first : UInt8) (s : Bytes) : ℕ × ℕ :=
  let f := first.toNat
  let low (i : ℕ) : ℕ := (s.getD i 0).toNat % 0x40
  if f < 0x80 then (f, 1)
  else if f < 0xE0 then
    if s.length < 1 then (0xFFFD, 1)
    else
      let calculated := f % 0x20 * 0x40 + low 0
      (if calculated < 0x80 then 0xFFFD else calculated, 2)
  else if f < 0xF0 then
    if s.length < 2 then (0xFFFD, 1)
    else
      let calculated := f % 0x10 * 0x1000 + low 0 * 0x40 + low 1
      (if (0xD800 ≤ calculated ∧ calculated ≤ 0xDFFF) ∨ calculated < 0x800 then 0xFFFD
        else calculated, 3)
  else if f < 0xF8 then
    if s.length < 3 then (0xFFFD, 1)
    else
      let calculated := f % 8 * 0x40000 + low 0 * 0x1000 + low 1 * 0x40 + low 2
      (if calculated < 0x10000 then 0xFFFD else calculated, 4)
  else (0xFFFD, 1)

/-- `appendHex`: `\u` and four hexadecimal digits. -/
def hex16 (x : ℕ) : Bytes :=
  [0x5C, 0x75, digitChar (x / 0x1000 % 0x10), digitChar (x / 0x100 % 0x10),
    digitChar (x / 0x10 % 0x10), digitChar (x % 0x10)]

/-- A code point as it stands in a written string. -/
def escapeCodepoint (cp : ℕ) : Bytes :=
  if cp < 0x20 then hex16 cp
  else if cp < 0x80 then [UInt8.ofNat cp]
  else if cp < 0x10000 then hex16 cp
  else hex16 (0xD800 + (cp - 0x10000) / 0x400 % 0x400) ++ hex16 (0xDC00 + (cp - 0x10000) % 0x400)

/-- The bytes with an escape of their own. -/
def shortEscape (c : UInt8) : Option UInt8 :=
  if c = 0x22 ∨ c = 0x5C then some c
  else if c = 0x08 then some 0x62
  else if c = 0x0C then some 0x66
  else if c = 0x0A then some 0x6E
  else if c = 0x0D then some 0x72
  else if c = 0x09 then some 0x74
  else none

/-- What `valueToQuotedStringN` writes between the quotes, for a string of at most `n` bytes. -/
def escapeLoop : ℕ → Bytes → Bytes
  | n + 1, c :: s =>
    match shortEscape c with
    | some d => 0x5C :: d :: escapeLoop n s
    | none =>
      let (cp, len) := utf8ToCodepoint c s
      escapeCodepoint cp ++ escapeLoop n (s.drop (len - 1))
  | _, _ => []

def escape (s : Bytes) : Bytes := escapeLoop s.length s

/-- `valueToQuotedStringN`. -/
def valueToQuotedString (s : Bytes) : Bytes := 0x22 :: (escape s ++ [0x22])

/-! ## Values -/

/-- `writeIndent`: the document with its last line ready for a value. -/
def writeIndent (document : Bytes) (indentString : ℕ) : Bytes :=
  if document = [] then List.replicate indentString 0x20
  else if document.getLast? = some 0x20 then document
  else (if document.getLast? = some 0x0A then document else document ++ [0x0A]) ++
    List.replicate indentString 0x20

/-- What `writeValue` writes for a value on one line; `none` for a value with values in it. -/
def scalar : Value → Option Bytes
  | .null => some (ascii "null")
  | .int i => some (Value.intToString i)
  | .uint n => some (numeral 10 n)
  | .real d => some (Value.realToString d)
  | .string s => some (valueToQuotedString s)
  | .bool b => some (ascii (if b then "true" else "false"))
  | .array [] => some (ascii "[]")
  | .object [] => some (ascii "\x7b\x7d")
  | .array (_ :: _) | .object (_ :: _) => none

/-- `rightMargin_` and `indentSize_`. -/
def rightMargin : ℕ := 74

def indentSize : ℕ := 3

/-- `isMultilineArray` of an array with elements: `none` for an array on one line, and otherwise
what has been put into `childValues_`. -/
def childValues (elements : List Value) : Option (List Bytes) × List Bytes :=
  if rightMargin ≤ elements.length * 3 then (some [], [])
  else
    match elements.mapM scalar with
    | none => (some [], [])
    | some children =>
      if rightMargin ≤ 4 + (elements.length - 1) * 2 + (children.map List.length).sum then
        (some children, children)
      else (none, children)

mutual

/-- `writeValue` into a document. -/
def writeValue (indentString : ℕ) (document : Bytes) : Value → Bytes
  | .array (e :: elements) =>
    match childValues (e :: elements) with
    | (none, children) =>
      document ++ ascii "[ " ++ [0x2C, 0x20].intercalate children ++ ascii " ]"
    | (some [], _) =>
      let document := writeIndent document indentString ++ ascii "["
      let document := writeElements (indentString + indentSize) document (e :: elements)
      writeIndent document indentString ++ ascii "]"
    | (some children, _) =>
      let document := writeIndent document indentString ++ ascii "["
      let document := writeChildren (indentString + indentSize) document children
      writeIndent document indentString ++ ascii "]"
  | .object (m :: members) =>
    let document := writeIndent document indentString ++ ascii "\x7b"
    let document := writeMembers (indentString + indentSize) document (m :: members)
    writeIndent document indentString ++ ascii "\x7d"
  | v => document ++ (scalar v).getD []

/-- The elements of an array on several lines. -/
def writeElements (indentString : ℕ) (document : Bytes) : List Value → Bytes
  | [] => document
  | [v] => writeValue indentString (writeIndent document indentString) v
  | v :: w :: elements =>
    let document := writeValue indentString (writeIndent document indentString) v ++ ascii ","
    writeElements indentString document (w :: elements)

/-- The members of an object. -/
def writeMembers (indentString : ℕ) (document : Bytes) : List (Bytes × Value) → Bytes
  | [] => document
  | [(name, v)] =>
    let document := writeIndent document indentString ++ valueToQuotedString (cStr name)
    writeValue indentString (document ++ ascii " : ") v
  | (name, v) :: m :: members =>
    let document := writeIndent document indentString ++ valueToQuotedString (cStr name)
    let document := writeValue indentString (document ++ ascii " : ") v ++ ascii ","
    writeMembers indentString document (m :: members)

/-- The elements of an array on several lines that have been written before. -/
def writeChildren (indentString : ℕ) (document : Bytes) : List Bytes → Bytes
  | [] => document
  | [child] => writeIndent document indentString ++ child
  | child :: c :: children =>
    let document := writeIndent document indentString ++ child ++ ascii ","
    writeChildren indentString document (c :: children)

end

/-- `StyledWriter::write`. -/
def write (root : Value) : Bytes := writeValue 0 [] root ++ [0x0A]

/-! ## Reading back -/

open Reader

/-- A piece of text that stands inside a string token as it is. -/
def Inside (p : Bytes) : Prop :=
  ∀ s, readString (p ++ s) = (readString s).map fun q => (p ++ q.1, q.2)

theorem inside_nil : Inside [] := by
  intro s
  simp

theorem Inside.append {p q : Bytes} (hp : Inside p) (hq : Inside q) : Inside (p ++ q) := by
  intro s
  rw [List.append_assoc, hp, hq, Option.map_map]
  congr 1
  funext r
  simp

theorem inside_byte {c : UInt8} (hquote : c ≠ 0x22) (hbackslash : c ≠ 0x5C) : Inside [c] := by
  intro s
  cases s with
  | nil => simp [readString, hquote]
  | cons d s => simp [readString, hquote, hbackslash]

theorem inside_escape (d : UInt8) : Inside [0x5C, d] := by
  intro s
  simp [readString]

theorem digitChar_ne {d : ℕ} (h : d < 16) : digitChar d ≠ 0x22 ∧ digitChar d ≠ 0x5C := by
  interval_cases d <;> decide

theorem inside_hex16 (x : ℕ) : Inside (hex16 x) := by
  have hdigit : ∀ y, Inside [digitChar (y % 0x10)] := fun y =>
    have h := digitChar_ne (Nat.mod_lt y (by decide : 0 < 0x10))
    inside_byte h.1 h.2
  exact (inside_escape 0x75).append <| (hdigit _).append <| (hdigit _).append <|
    (hdigit _).append (hdigit _)

/-- A code point below 0x80 is the byte itself. -/
theorem utf8ToCodepoint_ascii {c : UInt8} {s : Bytes} (h : (utf8ToCodepoint c s).1 < 0x80) :
    (utf8ToCodepoint c s).1 = c.toNat := by
  simp only [utf8ToCodepoint] at h ⊢
  split_ifs at h ⊢ <;> first | rfl | (simp only at h; omega)

theorem inside_escapeCodepoint {c : UInt8} {s : Bytes} (h : shortEscape c = none) :
    Inside (escapeCodepoint (utf8ToCodepoint c s).1) := by
  unfold escapeCodepoint
  split
  · exact inside_hex16 _
  · split
    · next hascii =>
      rw [utf8ToCodepoint_ascii hascii, UInt8.ofNat_toNat]
      refine inside_byte ?_ ?_
      · rintro rfl
        exact absurd h (by decide)
      · rintro rfl
        exact absurd h (by decide)
    · split
      · exact inside_hex16 _
      · exact (inside_hex16 _).append (inside_hex16 _)

theorem inside_escape_loop (n : ℕ) (s : Bytes) : Inside (escapeLoop n s) := by
  induction n generalizing s with
  | zero => exact inside_nil
  | succ n ih =>
    cases s with
    | nil => exact inside_nil
    | cons c s =>
      rw [escapeLoop]
      split
      · next d hd => exact (inside_escape d).append (ih s)
      · next hnone => exact (inside_escapeCodepoint hnone).append (ih _)

/-- **What is written between the quotes is one string token.** -/
theorem readString_escape (s rest : Bytes) :
    readString (escape s ++ 0x22 :: rest) = some (escape s, rest) := by
  have hquote : readString (0x22 :: rest) = some ([], rest) := by
    cases rest <;> simp [readString]
  rw [escape, inside_escape_loop, hquote, Option.map_some, List.append_nil]

/-- A line is ended behind a byte that is neither a blank nor a line end. -/
theorem writeIndent_concat {c : UInt8} (hblank : c ≠ 0x20) (hline : c ≠ 0x0A) (document : Bytes)
    (n : ℕ) : writeIndent (document ++ [c]) n = document ++ [c, 0x0A] ++ List.replicate n 0x20 := by
  simp [writeIndent, hblank, hline]

/-- A written object with the member `username`. -/
theorem write_username (s : Bytes) :
    write (.object [(ascii "username", .string s)]) =
      ascii "\x7b\n   \"username\" : \"" ++ (escape s ++ ascii "\"\n\x7d\n") := by
  have hopen : writeIndent (writeIndent [] 0 ++ ascii "\x7b") (0 + indentSize) ++
      valueToQuotedString (cStr (ascii "username")) ++ ascii " : " ++ [0x22] =
        ascii "\x7b\n   \"username\" : \"" := by decide +kernel
  have hclose : ascii "\"\n\x7d\n" = [0x22, 0x0A, 0x7D, 0x0A] := by decide
  have hindent : ∀ t : Bytes, writeIndent (t ++ [0x22]) 0 = t ++ [0x22, 0x0A] := by
    intro t
    simp [writeIndent]
  have hbrace : ascii "\x7d" = [0x7D] := by decide
  rw [← hopen, hclose]
  simp only [write, writeValue, writeMembers, scalar, Option.getD_some]
  generalize writeIndent (writeIndent [] 0 ++ ascii "\x7b") (0 + indentSize) ++
    valueToQuotedString (cStr (ascii "username")) ++ ascii " : " = document
  have hquoted : document ++ valueToQuotedString s = document ++ 0x22 :: escape s ++ [0x22] := by
    simp [valueToQuotedString]
  rw [hquoted, hindent, hbrace]
  simp

theorem skipCommentTokens_of_ne {n : ℕ} {s : Bytes} (h : (readToken s).1 ≠ .comment) :
    skipCommentTokens n s = readToken s := by
  cases n with
  | zero => rfl
  | succ n => simp only [skipCommentTokens, if_neg h]

theorem readToken_string {s content rest : Bytes} (h : readString s = some (content, rest)) :
    readToken (0x22 :: s) = (.string content, rest) := by
  simp [readToken, skipSpaces, h]

/-- **A written object with the member `username` is read as one**, with what the escapes decode to,
or null when they do not decode. -/
theorem parse_write_username (s : Bytes) :
    parse (write (.object [(ascii "username", .string s)])) =
      match decodeString (escape s) with
      | some decoded => (Value.ofString decoded).map fun v =>
          (true, .object [(ascii "username", v)])
      | none => some (false, .object [(ascii "username", .null)]) := by
  have hbegin : ∀ t : Bytes, readToken (ascii "\x7b\n   \"username\" : \"" ++ t) =
      (.objectBegin, ascii "\n   \"username\" : \"" ++ t) := fun t => rfl
  have hname : ∀ t : Bytes, readToken (ascii "\n   \"username\" : \"" ++ t) =
      (.string (ascii "username"), ascii " : \"" ++ t) := fun t => rfl
  have hcolon : ∀ t : Bytes, readToken (ascii " : \"" ++ t) =
      (.memberSeparator, ascii " \"" ++ t) := fun t => rfl
  have hvalue : ∀ t : Bytes, readToken (ascii " \"" ++ (escape s ++ 0x22 :: t)) =
      (.string (escape s), t) := fun t => readToken_string (readString_escape s t)
  have hend : readToken (ascii "\n\x7d\n") = (.objectEnd, [0x0A]) := by decide
  have hdecode : decodeString (ascii "username") = some (ascii "username") := by decide
  have htext : ascii "\"\n\x7d\n" = 0x22 :: ascii "\n\x7d\n" := by decide
  have hreadName : readName [] (ascii "\n   \"username\" : \"" ++
      (escape s ++ 0x22 :: ascii "\n\x7d\n")) =
        .more (ascii "username") (ascii " \"" ++ (escape s ++ 0x22 :: ascii "\n\x7d\n")) := by
    simp [readName, skipCommentTokens_of_ne, hname, hdecode, hcolon]
  have hreadValue : ∀ depth, readValue (depth + 1) .null
      (ascii " \"" ++ (escape s ++ 0x22 :: ascii "\n\x7d\n")) =
        (decodeString (escape s)).elim (some (false, .null, ascii "\n\x7d\n")) fun decoded =>
          (Value.ofString decoded).map fun v => (true, v, ascii "\n\x7d\n") := by
    intro depth
    cases hdecoded : decodeString (escape s) <;>
      simp [readValue, skipCommentTokens_of_ne, hvalue, hdecoded]
  have hreadComma : readComma (ascii "username") (ascii "\n\x7d\n") = .close [0x0A] := by
    simp [readComma, hend]
  rw [write_username, htext, parse, show stackLimit = 998 + 1 + 1 by rfl, readValue,
    skipCommentTokens_of_ne (by simp [hbegin]), hbegin]
  simp only [readObject, hreadName]
  have hkey : (ascii "username").take ((ascii "username").length % 2 ^ 30) = ascii "username" := by
    decide
  rw [hkey, show Value.lookup [] (ascii "username") = .null by rfl, hreadValue]
  cases decodeString (escape s) with
  | none => rfl
  | some decoded =>
    cases hstored : Value.ofString decoded with
    | none => simp [hstored]
    | some v => simp [hstored, hreadComma, Value.setMember]

end Writer

end Json

end GraduationServer
