import GraduationServer.Client.Session
import GraduationServer.Foundations.Numerals
import Mathlib.Data.List.Nodup

/-!
# The ids of rows

`getTableID` puts a letter for the type in front of the local time, its fields written in decimal
without padding one behind the other, and of four hexadecimal digits. These are drawn from a generator
that each call seeds with the time in seconds, so that they are a function of the seed.

`nodup_ids_iff`: the ids of a run are different exactly when no two calls agree in the draws from their
seeds and in the digits of their times. Two calls in one second do (`not_nodup_ids`); the digits of
different local times may agree too, when their fields have other widths.
-/

namespace GraduationServer

namespace ClientSession

/-- The fields of `tm` that are printed. -/
structure Tm where
  tmYear : ℕ
  tmMon : ℕ
  tmMday : ℕ
  tmHour : ℕ
  tmMin : ℕ
  tmSec : ℕ
  deriving DecidableEq

/-- The numbers that are printed. -/
def Tm.fields (t : Tm) : List ℕ :=
  [t.tmYear + 1900, t.tmMon + 1, t.tmMday, t.tmHour, t.tmMin, t.tmSec]

/-- The widths of the fields. -/
def Tm.widths (t : Tm) : List ℕ := t.fields.map fun n => (numeral 10 n).length

/-- `c_timeStr`. -/
def Tm.cTimeStr (t : Tm) : Bytes := t.fields.flatMap (numeral 10)

/-- What the ids depend on besides the clock: the local time, and the numbers that the distribution
draws from a generator with a seed. -/
structure Clock where
  localtime : ℤ → Tm
  draw : UInt32 → ℕ → Fin 16

/-- A call: the time it reads first, and the time with which it seeds the generator. -/
structure IdCall where
  now : ℤ
  seed : ℤ

/-- The seed, `static_cast<unsigned int>(time(nullptr))`. -/
def IdCall.generator (c : IdCall) : UInt32 := UInt32.ofInt c.seed

namespace Clock

variable (k : Clock)

/-- `randNumStr`. -/
def randNumStr (c : IdCall) : Bytes :=
  (List.range 4).map fun i => digitChar (k.draw c.generator i)

/-- The id that a call returns. -/
def tableID (tType : Bytes) (c : IdCall) : Bytes :=
  getTableID ((k.localtime c.now).cTimeStr ++ k.randNumStr c) tType

/-- Two calls agree in the draws from their seeds, and in their local times or, with other widths of
their fields, in the digits of these. -/
structure Clash (c c' : IdCall) : Prop where
  draws : ∀ i < 4, k.draw c.generator i = k.draw c'.generator i
  times : k.localtime c.now = k.localtime c'.now ∨
    (k.localtime c.now).widths ≠ (k.localtime c'.now).widths ∧
      (k.localtime c.now).cTimeStr = (k.localtime c'.now).cTimeStr

/-- The eleventh of January and the first of November print alike. -/
example : (⟨124, 0, 11, 8, 0, 0⟩ : Tm).cTimeStr = (⟨124, 10, 1, 8, 0, 0⟩ : Tm).cTimeStr := by decide

end Clock

/-! ## Times -/

theorem numeral_injective {m n : ℕ} (h : numeral 10 m = numeral 10 n) : m = n := by
  rw [← ofNumeral_numeral (by decide : 1 < 10) (by decide) m, h,
    ofNumeral_numeral (by decide) (by decide)]

/-- Numbers whose numerals have the same widths are told by their digits. -/
theorem eq_of_flatMap_numeral {l l' : List ℕ}
    (hwidths : l.map (fun n => (numeral 10 n).length) = l'.map fun n => (numeral 10 n).length)
    (h : l.flatMap (numeral 10) = l'.flatMap (numeral 10)) : l = l' := by
  induction l generalizing l' with
  | nil =>
    cases l' with
    | nil => rfl
    | cons n' l' => cases hwidths
  | cons n l ih =>
    cases l' with
    | nil => cases hwidths
    | cons n' l' =>
      obtain ⟨hwidth, hwidths⟩ := List.cons.inj hwidths
      rw [List.flatMap_cons, List.flatMap_cons] at h
      obtain ⟨hnumeral, h⟩ := List.append_inj h hwidth
      rw [numeral_injective hnumeral, ih hwidths h]

/-- Times whose fields have the same widths are told by their digits. -/
theorem Tm.eq_of_cTimeStr {t t' : Tm} (hwidths : t.widths = t'.widths)
    (h : t.cTimeStr = t'.cTimeStr) : t = t' := by
  have hfields := eq_of_flatMap_numeral hwidths h
  obtain ⟨year, mon, mday, hour, min, sec⟩ := t
  obtain ⟨year', mon', mday', hour', min', sec'⟩ := t'
  simp only [fields, List.cons.injEq, and_true] at hfields
  obtain ⟨hyear, hmon, rfl, rfl, rfl, rfl⟩ := hfields
  obtain rfl : year = year' := by omega
  obtain rfl : mon = mon' := by omega
  rfl

/-! ## Ids -/

namespace Clock

variable {k : Clock}

theorem randNumStr_eq_iff {c c' : IdCall} :
    k.randNumStr c = k.randNumStr c' ↔ ∀ i < 4, k.draw c.generator i = k.draw c'.generator i := by
  have hdigit : ∀ a b : Fin 16, digitChar a = digitChar b → a = b := by
    intro a b hab
    rw [Fin.ext_iff, ← digitValue_digitChar a.isLt, hab, digitValue_digitChar b.isLt]
  unfold randNumStr
  constructor
  · intro h i hi
    exact hdigit _ _ (List.map_inj_left.1 h i (List.mem_range.2 hi))
  · intro h
    exact List.map_congr_left fun i hi => by rw [h i (List.mem_range.1 hi)]

/-- The four digits at the end of an id tell where the time ends. -/
theorem tableID_eq_iff (tType : Bytes) {c c' : IdCall} :
    k.tableID tType c = k.tableID tType c' ↔ k.Clash c c' := by
  have hlength : (k.randNumStr c).length = (k.randNumStr c').length := by simp [randNumStr]
  have hsuffix : k.tableID tType c = k.tableID tType c' ↔
      (k.localtime c.now).cTimeStr = (k.localtime c'.now).cTimeStr ∧
        k.randNumStr c = k.randNumStr c' := by
    unfold tableID getTableID
    rw [List.append_cancel_left_eq]
    constructor
    · exact fun h => List.append_inj' h hlength
    · rintro ⟨htime, hrand⟩
      rw [htime, hrand]
  rw [hsuffix, randNumStr_eq_iff]
  constructor
  · rintro ⟨htime, hdraws⟩
    refine ⟨hdraws, ?_⟩
    by_cases hwidths : (k.localtime c.now).widths = (k.localtime c'.now).widths
    · exact Or.inl (Tm.eq_of_cTimeStr hwidths htime)
    · exact Or.inr ⟨hwidths, htime⟩
  · rintro ⟨hdraws, htime | ⟨-, htime⟩⟩
    · exact ⟨by rw [htime], hdraws⟩
    · exact ⟨htime, hdraws⟩

end Clock

/-- **When the ids of a run are different:** exactly when no two of its calls clash. -/
theorem nodup_ids_iff (k : Clock) (tType : Bytes) (calls : List IdCall) :
    (calls.map (k.tableID tType)).Nodup ↔ calls.Pairwise fun c c' => ¬ k.Clash c c' := by
  rw [List.Nodup, List.pairwise_map]
  simp only [ne_eq, Clock.tableID_eq_iff]

/-- The calls of a run, whose clock does not go back. -/
def InOrder (calls : List IdCall) : Prop :=
  (∀ c ∈ calls, c.now ≤ c.seed) ∧ calls.Pairwise fun c c' => c.seed ≤ c'.now

/-- Two calls in one second get the same id, whatever the local time is and the generator draws. -/
theorem not_nodup_ids :
    ¬ ∃ k : Clock, ∀ (tType : Bytes) (calls : List IdCall), InOrder calls →
      (calls.map (k.tableID tType)).Nodup := by
  rintro ⟨k, h⟩
  have hnodup := h (ascii "user") [⟨0, 0⟩, ⟨0, 0⟩] ⟨by simp, by simp⟩
  simp at hnodup

end ClientSession

end GraduationServer
