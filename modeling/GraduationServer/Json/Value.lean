import GraduationServer.Foundations.Binary64
import GraduationServer.Foundations.Runs

/-!
# JSON values

`Json::Value` of `newJson/jsoncpp.cpp`, without comments and offsets: the eight kinds of values and
the accessors the servers use. An accessor throws on a value of a kind it does not convert; it is
`none` there.

The members of an object are in the order of their keys, as in the source's map. `operator[]` also
adds a null member when there is none and makes an object of a null value; nothing reads either
again, so `member` only looks.
-/

namespace GraduationServer

namespace Json

/-- A JSON value: null, a signed or unsigned 64-bit integer, a double, a string, a truth value, an
array, or an object. -/
inductive Value
  | null
  | int (i : ℤ)
  | uint (n : ℕ)
  | real (d : Binary64)
  | string (s : Bytes)
  | bool (b : Bool)
  | array (elements : List Value)
  | object (members : List (Bytes × Value))
  deriving Inhabited

/-- `Value::maxInt` and `Value::minInt`. -/
def maxInt : ℤ := 2 ^ 31 - 1

def minInt : ℤ := -2 ^ 31

/-- The length of a string that `duplicateAndPrefixStringValue` accepts: it is taken modulo `2 ^ 32`
and has to leave room for the prefix. -/
def Storable (s : Bytes) : Prop := s.length % 2 ^ 32 ≤ 2 ^ 31 - 6

instance (s : Bytes) : Decidable (Storable s) := inferInstanceAs (Decidable (_ ≤ _))

namespace Value

/-- `Value(const String&)`. -/
def ofString (s : Bytes) : Option Value :=
  if Storable s then some (string (s.take (s.length % 2 ^ 32))) else none

/-- A member of an object, or null. -/
def lookup (members : List (Bytes × Value)) (key : Bytes) : Value :=
  (members.lookup key).getD null

/-- The member of a key is set, in the order of the keys. -/
def setMember (key : Bytes) (v : Value) : List (Bytes × Value) → List (Bytes × Value)
  | [] => [(key, v)]
  | (k, w) :: members =>
    if key = k then (key, v) :: members
    else if key < k then (key, v) :: (k, w) :: members
    else (k, w) :: setMember key v members

/-- `operator[](const char*)`. -/
def member (v : Value) (key : Bytes) : Option Value :=
  match v with
  | null => some null
  | object members => some (lookup members key)
  | _ => none

/-- `isMember`. -/
def isMember (v : Value) (key : Bytes) : Option Bool :=
  match v with
  | null => some false
  | object members => some (members.lookup key).isSome
  | _ => none

/-- `valueToString` of an integer. -/
def intToString (i : ℤ) : Bytes := (if i < 0 then ascii "-" else []) ++ numeral 10 i.natAbs

/-- `valueToString` of a double. -/
def realToString : Binary64 → Bytes
  | .infinite negative => ascii (if negative then "-1e+9999" else "1e+9999")
  | .finite negative m e =>
    let buffer := Binary64.print17 negative m e
    if 0x2E ∉ buffer ∧ 0x65 ∉ buffer then buffer ++ ascii ".0" else buffer

/-- `asString`. -/
def asString : Value → Option Bytes
  | null => some []
  | string s => some s
  | bool b => some (ascii (if b then "true" else "false"))
  | int i => some (intToString i)
  | uint n => some (numeral 10 n)
  | real d => some (realToString d)
  | array _ | object _ => none

/-- A double as a 32-bit integer; `none` outside of the range. -/
def realToInt : Binary64 → Option ℤ
  | .infinite _ => none
  | .finite negative m e =>
    let (a, b) := Binary64.ratio m e
    if negative then if a ≤ 2 ^ 31 * b then some (-(Binary64.trunc m e : ℤ)) else none
    else if a ≤ (2 ^ 31 - 1) * b then some (Binary64.trunc m e) else none

/-- `asInt`. -/
def asInt : Value → Option ℤ
  | int i => if minInt ≤ i ∧ i ≤ maxInt then some i else none
  | uint n => if (n : ℤ) ≤ maxInt then some n else none
  | real d => realToInt d
  | null => some 0
  | bool b => some (if b then 1 else 0)
  | string _ | array _ | object _ => none

/-- `isInt`. -/
def isInt : Value → Bool
  | int i => minInt ≤ i ∧ i ≤ maxInt
  | uint n => (n : ℤ) ≤ maxInt
  | real (.finite negative m e) =>
    (realToInt (.finite negative m e)).isSome && Binary64.isIntegral m e
  | _ => false

/-- `asBool`. -/
def asBool : Value → Option Bool
  | bool b => some b
  | null => some false
  | int i => some (i ≠ 0)
  | uint n => some (n ≠ 0)
  | real (.finite _ m _) => some (m ≠ 0)
  | real (.infinite _) => some true
  | string _ | array _ | object _ => none

/-- An object with the given members. -/
def ofMembers (members : List (Bytes × Value)) : Value :=
  .object (members.foldl (fun ms m => setMember m.1 m.2 ms) [])

/-- A value to which the elements are appended, which is null without any. -/
def ofElements : List Value → Value
  | [] => .null
  | v :: elements => .array (v :: elements)

/-- `operator[]` and `asString`. -/
def stringMember (v : Value) (key : Bytes) : Option Bytes := (v.member key).bind asString

/-- `operator[]` and `asInt`. -/
def intMember (v : Value) (key : Bytes) : Option ℤ := (v.member key).bind asInt

/-- `operator[]` and `asBool`. -/
def boolMember (v : Value) (key : Bytes) : Option Bool := (v.member key).bind asBool

/-! ## What the accessors convert -/

/-- Null or an object: the values with members. -/
def HasMembers : Value → Prop
  | null | object _ => True
  | _ => False

/-- Neither an array nor an object. -/
def IsScalar : Value → Prop
  | array _ | object _ => False
  | _ => True

/-- Null, a truth value, or a number in the range of a 32-bit integer. -/
def FitsInt : Value → Prop
  | null | bool _ => True
  | int i => minInt ≤ i ∧ i ≤ maxInt
  | uint n => (n : ℤ) ≤ maxInt
  | real d => (realToInt d).isSome
  | string _ | array _ | object _ => False

/-- Null, a truth value, or a number. -/
def FitsBool : Value → Prop
  | string _ | array _ | object _ => False
  | _ => True

theorem isSome_member {v : Value} {key : Bytes} : (v.member key).isSome ↔ v.HasMembers := by
  cases v <;> simp [member, HasMembers]

theorem isSome_isMember {v : Value} {key : Bytes} : (v.isMember key).isSome ↔ v.HasMembers := by
  cases v <;> simp [isMember, HasMembers]

theorem isSome_asString {v : Value} : v.asString.isSome ↔ v.IsScalar := by
  cases v <;> simp [asString, IsScalar]

theorem isSome_asInt {v : Value} : v.asInt.isSome ↔ v.FitsInt := by
  cases v with
  | int i =>
    simp only [asInt, FitsInt]
    split <;> simp_all
  | uint n =>
    simp only [asInt, FitsInt]
    split <;> simp_all
  | _ => simp [asInt, FitsInt]

theorem isSome_asBool {v : Value} : v.asBool.isSome ↔ v.FitsBool := by
  cases v with
  | real d => cases d <;> simp [asBool, FitsBool]
  | _ => simp [asBool, FitsBool]

theorem isSome_ofString {s : Bytes} : (ofString s).isSome ↔ Storable s := by
  unfold ofString
  split <;> simp_all

/-- What a value is converted to is no greater than the greatest integer. -/
theorem asInt_le {v : Value} {n : ℤ} (h : v.asInt = some n) : n ≤ maxInt := by
  cases v with
  | null => cases h; decide
  | bool b => cases b <;> (cases h; decide)
  | int i =>
    simp only [asInt, Option.ite_none_right_eq_some, Option.some.injEq] at h
    exact h.2 ▸ h.1.2
  | uint m =>
    simp only [asInt, Option.ite_none_right_eq_some, Option.some.injEq] at h
    exact h.2 ▸ h.1
  | real d =>
    cases d with
    | infinite negative => cases h
    | finite negative m e =>
      simp only [asInt, realToInt] at h
      split at h
      · simp only [Option.ite_none_right_eq_some, Option.some.injEq] at h
        rw [← h.2, maxInt]
        omega
      · simp only [Option.ite_none_right_eq_some, Option.some.injEq] at h
        have hle : Binary64.trunc m e ≤ 2 ^ 31 - 1 := Nat.div_le_of_le_mul (by rw [mul_comm]; exact h.1)
        rw [← h.2, maxInt]
        omega
  | string _ | array _ | object _ => cases h

/-- The value has members, and the one of a key can be read as a string. -/
def TextAt (v : Value) (key : Bytes) : Prop := ∃ w, v.member key = some w ∧ w.IsScalar

/-- The value has members, and the one of a key can be read as an integer. -/
def IntAt (v : Value) (key : Bytes) : Prop := ∃ w, v.member key = some w ∧ w.FitsInt

/-- The value has members, and the one of a key can be read as a truth value. -/
def BoolAt (v : Value) (key : Bytes) : Prop := ∃ w, v.member key = some w ∧ w.FitsBool

theorem isSome_stringMember {v : Value} {key : Bytes} : (v.stringMember key).isSome ↔ v.TextAt key := by
  simp only [stringMember, isSome_bind, isSome_asString, TextAt]

theorem isSome_intMember {v : Value} {key : Bytes} : (v.intMember key).isSome ↔ v.IntAt key := by
  simp only [intMember, isSome_bind, isSome_asInt, IntAt]

theorem isSome_boolMember {v : Value} {key : Bytes} : (v.boolMember key).isSome ↔ v.BoolAt key := by
  simp only [boolMember, isSome_bind, isSome_asBool, BoolAt]

/-- An integral value is convertible to an integer. -/
theorem isSome_asInt_of_isInt {v : Value} (h : v.isInt) : v.asInt.isSome := by
  rw [isSome_asInt]
  cases v with
  | real d =>
    cases d with
    | infinite negative => simp [isInt] at h
    | finite negative m e =>
      simp only [isInt, Bool.and_eq_true] at h
      exact h.1
  | _ => simp_all [isInt, FitsInt]

end Value

end Json

end GraduationServer
