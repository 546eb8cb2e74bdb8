import GraduationServer.Json.Value

/-!
# The JSON reader

`Json::Reader::parse` of `newJson/jsoncpp.cpp` with the features the servers use (the default ones:
comments allowed, no strict root). A reader state is the text from `current_` on; the value being
built is passed along, since a failed parse leaves behind what was read until then, and the servers
look at it. Error messages, comments and offsets are left out: nothing reads them.

* `readToken` is the lexer. The byte 0 and the end of the text are the same token.
* `readValue` reads a value in the place of an old one: on an error the old value stays, and so does
  that of a member that was already there. It throws (`none`) when more than a thousand values are
  being read, and when a string is too long to be stored.
* `readObject` and `readArray` are the loops over members and elements. Their first argument bounds
  the turns; each turn reads a token, so the length of the text is enough.
-/

namespace GraduationServer

namespace Json

/-- A token with the text the decoders need: the bytes between the quotes of a string, and those of
a number. -/
inductive Token
  | endOfStream
  | objectBegin
  | objectEnd
  | arrayBegin
  | arrayEnd
  | string (content : Bytes)
  | number (text : Bytes)
  | true
  | false
  | null
  | arraySeparator
  | memberSeparator
  | comment
  | error
  deriving DecidableEq

namespace Reader

/-! ## Tokens -/

/-- `skipSpaces`. -/
def skipSpaces (s : Bytes) : Bytes :=
  s.dropWhile fun c => c = 0x20 || c = 0x09 || c = 0x0D || c = 0x0A

/-- `readString` behind the opening quote: the bytes up to the closing quote and the text behind it;
`none` when there is no closing quote, and then the text is used up. -/
def readString : Bytes → Option (Bytes × Bytes)
  | [] => none
  | [c] => if c = 0x22 then some ([], []) else none
  | c :: d :: s =>
    if c = 0x5C then (readString s).map fun p => (c :: d :: p.1, p.2)
    else if c = 0x22 then some ([], d :: s)
    else (readString (d :: s)).map fun p => (c :: p.1, p.2)

/-- The digits at the front of a text, and the text behind them. -/
def spanDigits (s : Bytes) : Bytes × Bytes := s.span fun c => 0x30 ≤ c && c ≤ 0x39

/-- One byte if it is in the list, and the text behind it. -/
def spanOne (cs : List UInt8) : Bytes → Bytes × Bytes
  | [] => ([], [])
  | c :: s => if c ∈ cs then ([c], s) else ([], c :: s)

/-- `readNumber` behind the first byte: the rest of the number, and the text behind it. -/
def readNumber (s : Bytes) : Bytes × Bytes :=
  let (integral, s) := spanDigits s
  let (point, s) := spanOne [0x2E] s
  let (fraction, s) := if point = [] then ([], s) else spanDigits s
  let (mark, s) := spanOne [0x65, 0x45] s
  let (sign, s) := if mark = [] then ([], s) else spanOne [0x2B, 0x2D] s
  let (exponent, s) := if mark = [] then ([], s) else spanDigits s
  (integral ++ point ++ fraction ++ mark ++ sign ++ exponent, s)

/-- `match`: the text behind a pattern. -/
def matchPattern (pattern s : Bytes) : Option Bytes := s.dropPrefix? pattern

/-- `readCStyleComment`: whether the comment ends, and the text behind it. The loop does not look at
the last byte, so `/*/` is a comment. -/
def readCStyleComment : Bytes → Bool × Bytes
  | [] => (Bool.false, [])
  | [c] => (c = 0x2F, [])
  | c :: d :: s => if c = 0x2A ∧ d = 0x2F then (Bool.true, s) else readCStyleComment (d :: s)

/-- `readCppStyleComment`: the text behind the line. -/
def readCppStyleComment : Bytes → Bytes
  | [] => []
  | c :: s =>
    if c = 0x0A then s
    else if c = 0x0D then (match s with
      | 0x0A :: s => s
      | s => s)
    else readCppStyleComment s

/-- `readComment` behind the first slash. -/
def readComment : Bytes → Bool × Bytes
  | [] => (Bool.false, [])
  | c :: s =>
    if c = 0x2A then readCStyleComment s
    else if c = 0x2F then (Bool.true, readCppStyleComment s)
    else (Bool.false, s)

/-- A word whose first letter has been read. -/
def readWord (token : Token) (pattern s : Bytes) : Token × Bytes :=
  match matchPattern pattern s with
  | some s => (token, s)
  | none => (.error, s)

/-- `readToken`: the next token and the text behind it. -/
def readToken (s : Bytes) : Token × Bytes :=
  match skipSpaces s with
  | [] => (.endOfStream, [])
  | c :: s =>
    if c = 0x7B then (.objectBegin, s)
    else if c = 0x7D then (.objectEnd, s)
    else if c = 0x5B then (.arrayBegin, s)
    else if c = 0x5D then (.arrayEnd, s)
    else if c = 0x22 then
      (match readString s with
      | some (content, s) => (.string content, s)
      | none => (.error, []))
    else if c = 0x2F then
      (let (ok, s) := readComment s
      (if ok then .comment else .error, s))
    else if (0x30 ≤ c ∧ c ≤ 0x39) ∨ c = 0x2D then
      (let (text, s) := readNumber s
      (.number (c :: text), s))
    else if c = 0x74 then readWord .true (ascii "rue") s
    else if c = 0x66 then readWord .false (ascii "alse") s
    else if c = 0x6E then readWord .null (ascii "ull") s
    else if c = 0x2C then (.arraySeparator, s)
    else if c = 0x3A then (.memberSeparator, s)
    else if c = 0 then (.endOfStream, s)
    else (.error, s)

/-- `skipCommentTokens`: the first token that is no comment, among the next `n + 1`. -/
def skipCommentTokens : ℕ → Bytes → Token × Bytes
  | 0, s => readToken s
  | n + 1, s =>
    let (token, s) := readToken s
    if token = .comment then skipCommentTokens n s else (token, s)

/-- `recoverFromError`: the text behind the next token of a kind or the next end of the text. -/
def recoverFromError (skipUntilToken : Token) : ℕ → Bytes → Bytes
  | 0, s => s
  | n + 1, s =>
    let (skip, s) := readToken s
    if skip = skipUntilToken ∨ skip = .endOfStream then s else recoverFromError skipUntilToken n s

/-! ## Numbers and strings -/

/-- `decodeDouble`: the number of a text that is no integer in range; `none` when it is no number. -/
def decodeDouble (text : Bytes) : Option Value :=
  let negative := text.head? = some 0x2D
  let text := if negative then text.tail else text
  let (integral, s) := spanDigits text
  let (point, s) := spanOne [0x2E] s
  let (fraction, s) := if point = [] then ([], s) else spanDigits s
  let (mark, s) := spanOne [0x65, 0x45] s
  let (sign, exponent) := spanOne [0x2B, 0x2D] s
  if integral ++ fraction = [] ∨ (mark ≠ [] ∧ exponent = []) then none
  else
    let e : ℤ := if sign = [0x2D] then -(ofNumeral 10 exponent : ℤ) else ofNumeral 10 exponent
    some (.real (Binary64.ofDecimal negative (ofNumeral 10 (integral ++ fraction))
      (e - fraction.length)))

/-- The loop of `decodeNumber` over the digits: the number, or `none` when a byte is no digit or the
number exceeds the greatest one. -/
def decodeDigits (maxIntegerValue : ℕ) : ℕ → Bytes → Option ℕ
  | value, [] => some value
  | value, c :: s =>
    let threshold := maxIntegerValue / 10
    if c < 0x30 ∨ 0x39 < c then none
    else
      let digit := c.toNat - 0x30
      if threshold ≤ value ∧ (threshold < value ∨ s ≠ [] ∨ maxIntegerValue % 10 < digit) then none
      else decodeDigits maxIntegerValue (value * 10 + digit) s

/-- `decodeNumber`: an integer where it fits into 64 bits, a double otherwise. -/
def decodeNumber (text : Bytes) : Option Value :=
  if text.head? = some 0x2D then
    match decodeDigits (2 ^ 63) 0 text.tail with
    | some value => some (.int (-(value : ℤ)))
    | none => decodeDouble text
  else
    match decodeDigits (2 ^ 64 - 1) 0 text with
    | some value => some (if (value : ℤ) ≤ maxInt then .int value else .uint value)
    | none => decodeDouble text

/-- `decodeUnicodeEscapeSequence`: four hexadecimal digits. -/
def decodeUnicodeEscapeSequence : Bytes → Option (ℕ × Bytes)
  | a :: b :: c :: d :: s =>
    if [a, b, c, d].all (IsDigit 16 ·) then some (ofNumeral 16 [a, b, c, d], s) else none
  | _ => none

/-- `decodeUnicodeCodePoint` behind `\u`. A high surrogate needs six more bytes, `\u` and four
digits, which need not be a low surrogate. -/
def decodeUnicodeCodePoint (s : Bytes) : Option (ℕ × Bytes) :=
  (decodeUnicodeEscapeSequence s).bind fun (unicode, s) =>
    if 0xD800 ≤ unicode ∧ unicode ≤ 0xDBFF then
      match s with
      | 0x5C :: 0x75 :: s =>
        (decodeUnicodeEscapeSequence s).map fun (surrogatePair, s) =>
          (0x10000 + (unicode % 0x400) * 0x400 + surrogatePair % 0x400, s)
      | _ => none
    else some (unicode, s)

/-- `codePointToUTF8`. -/
def codePointToUTF8 (cp : ℕ) : Bytes :=
  if cp ≤ 0x7F then [UInt8.ofNat cp]
  else if cp ≤ 0x7FF then [UInt8.ofNat (0xC0 + cp / 0x40 % 0x20), UInt8.ofNat (0x80 + cp % 0x40)]
  else if cp ≤ 0xFFFF then
    [UInt8.ofNat (0xE0 + cp / 0x1000 % 0x10), UInt8.ofNat (0x80 + cp / 0x40 % 0x40),
      UInt8.ofNat (0x80 + cp % 0x40)]
  else if cp ≤ 0x10FFFF then
    [UInt8.ofNat (0xF0 + cp / 0x40000 % 8), UInt8.ofNat (0x80 + cp / 0x1000 % 0x40),
      UInt8.ofNat (0x80 + cp / 0x40 % 0x40), UInt8.ofNat (0x80 + cp % 0x40)]
  else []

/-- The escapes of one byte. -/
def simpleEscape (c : UInt8) : Option UInt8 :=
  if c = 0x22 ∨ c = 0x2F ∨ c = 0x5C then some c
  else if c = 0x62 then some 0x08
  else if c = 0x66 then some 0x0C
  else if c = 0x6E then some 0x0A
  else if c = 0x72 then some 0x0D
  else if c = 0x74 then some 0x09
  else none

/-- `decodeString` of the bytes between the quotes, which are at most `n`. -/
def decodeStringLoop : ℕ → Bytes → Option Bytes
  | _, [] => some []
  | 0, _ :: _ => none
  | n + 1, c :: s =>
    if c = 0x22 then some []
    else if c = 0x5C then
      match s with
      | [] => none
      | escape :: s =>
        if escape = 0x75 then
          (decodeUnicodeCodePoint s).bind fun (unicode, s) =>
            (decodeStringLoop n s).map (codePointToUTF8 unicode ++ ·)
        else
          (simpleEscape escape).bind fun d => (decodeStringLoop n s).map (d :: ·)
    else (decodeStringLoop n s).map (c :: ·)

/-- `decodeString`; `none` for a bad escape. -/
def decodeString (content : Bytes) : Option Bytes := decodeStringLoop content.length content

/-! ## Values -/

/-- The outcome of reading a value: whether it succeeded, the value left behind and the text behind
it. -/
abbrev Outcome := Bool × Value × Bytes

/-- An error in an object or array: what was built stays, and the text is skipped. -/
def fail (v : Value) (skipUntilToken : Token) (s : Bytes) : Option Outcome :=
  some (Bool.false, v, recoverFromError skipUntilToken (s.length + 1) s)

/-- Where the loop of `readObject` stands: at the end of the object, at an error, or before its next
part. -/
inductive Place
  | close (s : Bytes)
  | bad (s : Bytes)
  | more (name s : Bytes)

/-- A turn of the loop up to the colon, with the name read last: a closing brace ends the object only
when that is empty. -/
def readName (name s : Bytes) : Place :=
  let (tokenName, s) := skipCommentTokens s.length s
  if tokenName = .objectEnd ∧ name = [] then .close s
  else
    match tokenName with
    | .string content =>
      match decodeString content with
      | none => .bad s
      | some name =>
        let (colon, s) := readToken s
        if colon = .memberSeparator then .more name s else .bad s
    | _ => .bad s

/-- A turn of the loop behind the value. Behind a comment every token but the closing brace stands
for a comma. -/
def readComma (name s : Bytes) : Place :=
  let (comma, s) := readToken s
  if comma = .objectEnd then .close s
  else if comma = .arraySeparator then .more name s
  else if comma = .comment then
    let (comma, s) := skipCommentTokens s.length s
    if comma = .objectEnd then .close s else .more name s
  else .bad s

/-- `readObject` behind the opening brace, with the members and the name read last. -/
def readObject (readValue : Value → Bytes → Option Outcome) :
    ℕ → List (Bytes × Value) → Bytes → Bytes → Option Outcome
  | 0, members, _, s => fail (.object members) .objectEnd s
  | n + 1, members, name, s =>
    match readName name s with
    | .close s => some (Bool.true, .object members, s)
    | .bad s => fail (.object members) .objectEnd s
    | .more name s =>
      let key := name.take (name.length % 2 ^ 30)
      match readValue (Value.lookup members key) s with
      | none => none
      | some (ok, v, s) =>
        let members := Value.setMember key v members
        if !ok then fail (.object members) .objectEnd s
        else
          match readComma name s with
          | .close s => some (Bool.true, .object members, s)
          | .bad s => fail (.object members) .objectEnd s
          | .more name s => readObject readValue n members name s

/-- The loop of `readArray`, with the elements read so far. -/
def readElements (readValue : Value → Bytes → Option Outcome) :
    ℕ → List Value → Bytes → Option Outcome
  | 0, elements, s => fail (.array elements) .arrayEnd s
  | n + 1, elements, s =>
    match readValue .null s with
    | none => none
    | some (ok, v, s) =>
      let elements := elements ++ [v]
      if !ok then fail (.array elements) .arrayEnd s
      else
        let (token, s) := skipCommentTokens s.length s
        if token = .arrayEnd then some (Bool.true, .array elements, s)
        else if token = .arraySeparator then readElements readValue n elements s
        else fail (.array elements) .arrayEnd s

/-- `readArray` behind the opening bracket. -/
def readArray (readValue : Value → Bytes → Option Outcome) (s : Bytes) : Option Outcome :=
  match skipSpaces s with
  | 0x5D :: s => some (Bool.true, .array [], s)
  | s => readElements readValue (s.length + 1) [] s

/-- `readValue`, in the place of an old value; the first argument is how many more values may be
open. -/
def readValue : ℕ → Value → Bytes → Option Outcome
  | 0, _, _ => none
  | depth + 1, old, s =>
    let (token, s) := skipCommentTokens s.length s
    match token with
    | .objectBegin => readObject (readValue depth) (s.length + 1) [] [] s
    | .arrayBegin => readArray (readValue depth) s
    | .number text =>
      match decodeNumber text with
      | some v => some (Bool.true, v, s)
      | none => some (Bool.false, old, s)
    | .string content =>
      match decodeString content with
      | some decoded => (Value.ofString decoded).map fun v => (Bool.true, v, s)
      | none => some (Bool.false, old, s)
    | .true => some (Bool.true, .bool Bool.true, s)
    | .false => some (Bool.true, .bool Bool.false, s)
    | .null => some (Bool.true, .null, s)
    | _ => some (Bool.false, old, s)

/-- `stackLimit_g`. -/
def stackLimit : ℕ := 1000

/-- `Reader::parse`: whether the text was accepted, and the root; `none` when it throws. What stands
behind the first value does not matter. -/
def parse (document : Bytes) : Option (Bool × Value) :=
  (readValue stackLimit .null document).map fun p => (p.1, p.2.1)

end Reader

end Json

end GraduationServer
