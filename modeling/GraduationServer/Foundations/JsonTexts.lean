import GraduationServer.Foundations.Numerals
import Mathlib.Data.Int.Notation

/-!
# JSON texts

The grammar of JSON as a relation between a text in UTF-8 and what it says (`IsText`). A number is kept as
it is written (`Number`), a string as its characters, and an object with its members in the order of the
text, where a key may stand twice. White space may stand around every element, key, colon and value.

The depth counts the values that are open at the same time: a scalar has depth one.
-/

namespace GraduationServer

namespace JsonText

/-- White space. -/
def Blank (s : Bytes) : Prop := ∀ c ∈ s, c ∈ ([0x20, 0x09, 0x0D, 0x0A] : List UInt8)

theorem blank_nil : Blank [] := by simp [Blank]

/-! ## Numbers -/

/-- At least one decimal digit. -/
structure IsDigits (s : Bytes) : Prop where
  digit : ∀ c ∈ s, IsDigit 10 c
  ne_nil : s ≠ []

/-- A text that begins with a digit. -/
theorem IsDigits.head_notMem {s t : Bytes} (h : IsDigits s) {cs : List UInt8}
    (hcs : ∀ c ∈ cs, ¬ IsDigit 10 c) : ∀ c ∈ (s ++ t).head?, c ∉ cs := by
  obtain ⟨d, s, rfl⟩ := List.exists_cons_of_ne_nil h.ne_nil
  rintro _ ⟨⟩ hc
  exact hcs d hc (h.digit d List.mem_cons_self)

/-- The exponent of a number: the letter, a sign or none, and the digits. -/
structure Exponent where
  mark : UInt8
  sign : Bytes
  digits : Bytes
  mark_mem : mark ∈ ([0x65, 0x45] : List UInt8)
  sign_mem : sign ∈ ([[], [0x2B], [0x2D]] : List Bytes)
  isDigits : IsDigits digits

def Exponent.text (e : Exponent) : Bytes := e.mark :: (e.sign ++ e.digits)

def Exponent.value (e : Exponent) : ℤ :=
  if e.sign = [0x2D] then -(ofNumeral 10 e.digits : ℤ) else ofNumeral 10 e.digits

/-- A number as it is written. -/
structure Number where
  negative : Bool
  integral : Bytes
  fraction : Option Bytes
  exponent : Option Exponent
  integral_isDigits : IsDigits integral
  leading : integral.length = 1 ∨ integral.head? ≠ some 0x30
  fraction_isDigits : ∀ f ∈ fraction, IsDigits f

namespace Number

/-- What stands behind the digits of the integral part. -/
def behind (n : Number) : Bytes :=
  (n.fraction.elim [] fun f => 0x2E :: f) ++ n.exponent.elim [] Exponent.text

def text (n : Number) : Bytes := (if n.negative then [0x2D] else []) ++ (n.integral ++ n.behind)

/-- The digits without the point: the number is `± digits * 10 ^ scale`. -/
def digits (n : Number) : ℕ := ofNumeral 10 (n.integral ++ n.fraction.getD [])

def scale (n : Number) : ℤ := n.exponent.elim 0 Exponent.value - (n.fraction.getD []).length

/-- The number is an integer without an exponent. -/
theorem digits_of_behind {n : Number} (h : n.behind = []) : n.digits = ofNumeral 10 n.integral := by
  obtain ⟨hfraction, -⟩ := List.append_eq_nil_iff.1 h
  cases hnone : n.fraction with
  | none => rw [digits, hnone, Option.getD_none, List.append_nil]
  | some f =>
    rw [hnone] at hfraction
    cases hfraction

end Number

/-! ## Strings -/

/-- What the letter behind a backslash stands for. -/
def escapes : List (UInt8 × ℕ) :=
  [(0x22, 0x22), (0x5C, 0x5C), (0x2F, 0x2F), (0x62, 0x08), (0x66, 0x0C), (0x6E, 0x0A), (0x72, 0x0D),
    (0x74, 0x09)]

/-- Four hexadecimal digits. -/
structure Hex16 (u : Bytes) (n : ℕ) : Prop where
  digit : ∀ c ∈ u, IsDigit 16 c
  length_eq : u.length = 4
  value : ofNumeral 16 u = n

theorem Hex16.notMem {u : Bytes} {n : ℕ} (h : Hex16 u n) : 0x22 ∉ u ∧ 0x5C ∉ u :=
  ⟨fun hc => absurd (h.digit _ hc) (by decide), fun hc => absurd (h.digit _ hc) (by decide)⟩

/-- The text between the quotes of a string. -/
inductive Chars : Bytes → List Char → Prop
  | nil : Chars [] []
  | plain {s : Bytes} {cs : List Char} (ch : Char) (hlow : 0x20 ≤ ch.toNat) (hquote : ch.toNat ≠ 0x22)
      (hbackslash : ch.toNat ≠ 0x5C) (h : Chars s cs) : Chars (String.utf8EncodeChar ch ++ s) (ch :: cs)
  | escape {s : Bytes} {cs : List Char} (d : UInt8) (ch : Char) (hd : (d, ch.toNat) ∈ escapes)
      (h : Chars s cs) : Chars (0x5C :: d :: s) (ch :: cs)
  | hex {s u : Bytes} {cs : List Char} (ch : Char) (hu : Hex16 u ch.toNat) (h : Chars s cs) :
      Chars (0x5C :: 0x75 :: (u ++ s)) (ch :: cs)
  | pair {s u v : Bytes} {cs : List Char} {x y : ℕ} (ch : Char) (hu : Hex16 u (0xD800 + x))
      (hv : Hex16 v (0xDC00 + y)) (hx : x < 0x400) (hy : y < 0x400)
      (hch : ch.toNat = 0x10000 + x * 0x400 + y) (h : Chars s cs) :
      Chars (0x5C :: 0x75 :: (u ++ 0x5C :: 0x75 :: (v ++ s))) (ch :: cs)

/-- A text of characters that need no escape. -/
theorem chars_of_plain {cs : List Char}
    (h : ∀ ch ∈ cs, 0x20 ≤ ch.toNat ∧ ch.toNat ≠ 0x22 ∧ ch.toNat ≠ 0x5C) :
    Chars (cs.flatMap String.utf8EncodeChar) cs := by
  induction cs with
  | nil => exact .nil
  | cons ch cs ih =>
    obtain ⟨⟨hlow, hquote, hbackslash⟩, hrest⟩ := List.forall_mem_cons.1 h
    exact .plain ch hlow hquote hbackslash (ih hrest)

/-! ## Values -/

/-- What a text says. -/
inductive Tree
  | null
  | bool (b : Bool)
  | number (n : Number)
  | string (cs : List Char)
  | array (elements : List Tree)
  | object (members : List (List Char × Tree))

/-- Items with commas between them, up to what closes them. -/
inductive Items {α : Type} (item : Bytes → α → Prop) (close : UInt8) : Bytes → List α → Prop
  | last {g t g' : Bytes} {x : α} (hg : Blank g) (ht : item t x) (hg' : Blank g') :
      Items item close (g ++ (t ++ (g' ++ [close]))) [x]
  | cons {g t g' text : Bytes} {x : α} {xs : List α} (hg : Blank g) (ht : item t x) (hg' : Blank g')
      (h : Items item close text xs) : Items item close (g ++ (t ++ (g' ++ 0x2C :: text))) (x :: xs)

/-- A member of an object. -/
inductive Member (value : Bytes → Tree → Prop) : Bytes → List Char × Tree → Prop
  | mk {s g g' t : Bytes} {key : List Char} {v : Tree} (hkey : Chars s key) (hg : Blank g)
      (hg' : Blank g') (ht : value t v) :
      Member value (0x22 :: (s ++ 0x22 :: (g ++ 0x3A :: (g' ++ t)))) (key, v)

/-- A text whose parts are texts. -/
inductive Form (value : Bytes → Tree → Prop) : Bytes → Tree → Prop
  | null : Form value (ascii "null") .null
  | bool (b : Bool) : Form value (ascii (if b then "true" else "false")) (.bool b)
  | number (n : Number) : Form value n.text (.number n)
  | string {s : Bytes} {cs : List Char} (h : Chars s cs) : Form value (0x22 :: (s ++ [0x22])) (.string cs)
  | emptyArray {g : Bytes} (hg : Blank g) : Form value (0x5B :: (g ++ [0x5D])) (.array [])
  | array {text : Bytes} {elements : List Tree} (h : Items value 0x5D text elements) :
      Form value (0x5B :: text) (.array elements)
  | emptyObject {g : Bytes} (hg : Blank g) : Form value (0x7B :: (g ++ [0x7D])) (.object [])
  | object {text : Bytes} {members : List (List Char × Tree)} (h : Items (Member value) 0x7D text members) :
      Form value (0x7B :: text) (.object members)

/-- A text with at most `depth` values open. -/
def IsText : ℕ → Bytes → Tree → Prop
  | 0 => fun _ _ => False
  | depth + 1 => Form (IsText depth)

/-! ## Sizes -/

/-- An item is no longer than the text it stands in. -/
theorem Items.imp {α : Type} {item item' : Bytes → α → Prop} {close : UInt8} {text : Bytes} {xs : List α}
    (h : Items item close text xs) (himp : ∀ t x, t.length ≤ text.length → item t x → item' t x) :
    Items item' close text xs := by
  induction h with
  | last hg ht hg' =>
    refine .last hg (himp _ _ ?_ ht) hg'
    simp only [List.length_append]
    omega
  | cons hg ht hg' _ ih =>
    refine .cons hg (himp _ _ ?_ ht) hg' (ih fun t x hle => himp t x (hle.trans ?_)) <;>
      simp only [List.length_append, List.length_cons] <;> omega

/-- A character below 0x80 is one byte. -/
theorem utf8EncodeChar_ascii {ch : Char} (h : ch.toNat < 0x80) :
    String.utf8EncodeChar ch = [UInt8.ofNat ch.toNat] := by
  unfold String.utf8EncodeChar
  change (if ch.toNat ≤ 0x7F then [UInt8.ofNat ch.toNat] else _) = _
  rw [if_pos (by omega)]

theorem lt_of_mem_escapes {d : UInt8} {n : ℕ} (h : (d, n) ∈ escapes) : n < 0x80 := by
  have hall : ∀ p ∈ escapes, p.2 < 0x80 := by decide
  exact hall _ h

/-- A string is no longer than the text between its quotes. -/
theorem Chars.length_le {s : Bytes} {cs : List Char} (h : Chars s cs) :
    (cs.flatMap String.utf8EncodeChar).length ≤ s.length := by
  have hchar : ∀ ch : Char, (String.utf8EncodeChar ch).length ≤ 4 := by
    intro ch
    rw [String.length_utf8EncodeChar]
    exact ch.utf8Size_le_four
  induction h with
  | nil => exact le_rfl
  | plain ch _ _ _ _ ih =>
    rw [List.flatMap_cons, List.length_append, List.length_append]
    omega
  | escape d ch hd _ ih =>
    rw [List.flatMap_cons, utf8EncodeChar_ascii (lt_of_mem_escapes hd)]
    simp only [List.length_append, List.length_cons, List.length_nil]
    omega
  | hex ch hu _ ih =>
    have hlength := hu.length_eq
    have := hchar ch
    simp only [List.flatMap_cons, List.length_append, List.length_cons]
    omega
  | pair ch hu hv _ _ _ _ ih =>
    have hlength := hu.length_eq
    have := hchar ch
    simp only [List.flatMap_cons, List.length_append, List.length_cons]
    omega

end JsonText

end GraduationServer
