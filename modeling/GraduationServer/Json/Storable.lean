import GraduationServer.Json.Reader

/-!
# The members of a document can be stored again

What holds of every token holds of the members of a document (`of_member`). The numbers of a document
have 64 bits or are doubles, and its strings have been stored once. So the text of a member
(`asString`) can be put into a value again (`storable_of_stringMember`): an accessor may throw, but no
reply fails because of what a message says, and none cuts it (`length_of_stringMember`).
-/

namespace GraduationServer

namespace Json

namespace Value

/-- The values a token can stand for: integers of 64 bits, doubles, and strings that are stored. -/
def OfText : Value → Prop
  | int i => i.natAbs ≤ 2 ^ 64
  | uint n => n ≤ 2 ^ 64
  | real (.finite _ m e) => m ≤ 2 ^ 54 ∧ e ≤ 971
  | string s => Storable s
  | _ => True

theorem storable_of_length {s : Bytes} (h : s.length ≤ 200) : Storable s :=
  (Nat.mod_le _ _).trans (h.trans (by decide))

theorem length_numeral_of_le {n : ℕ} (h : n ≤ 2 ^ 64) : (numeral 10 n).length ≤ 20 :=
  length_numeral_le (by decide) (h.trans_lt (by decide)) (by decide)

/-- The text of such a value is short if it is no string. -/
theorem length_asString {v : Value} {s : Bytes} (hv : v.OfText) (hstring : ∀ t, v ≠ .string t)
    (h : v.asString = some s) : s.length ≤ 200 := by
  cases v with
  | null =>
    cases h
    decide
  | string s' => exact absurd rfl (hstring s')
  | bool b =>
    cases h
    cases b <;> decide
  | int i =>
    cases h
    have hsign : (if i < 0 then ascii "-" else []).length ≤ 1 := by
      split <;> decide
    have hnumeral := length_numeral_of_le hv
    rw [intToString, List.length_append]
    omega
  | uint n =>
    cases h
    exact (length_numeral_of_le hv).trans (by decide)
  | real d =>
    cases h
    cases d with
    | infinite negative => cases negative <;> decide
    | finite negative m e =>
      have hprint := @Binary64.length_print17_le negative m e hv.1 hv.2
      have hpoint : (ascii ".0").length = 2 := rfl
      simp only [realToString]
      split
      · rw [List.length_append, hpoint]
        omega
      · omega
  | array elements => cases h
  | object members => cases h

/-- The text of such a value can be stored. -/
theorem storable_asString {v : Value} {s : Bytes} (hv : v.OfText) (h : v.asString = some s) :
    Storable s := by
  by_cases hstring : ∀ t, v ≠ .string t
  · exact storable_of_length (length_asString hv hstring h)
  · obtain ⟨t, ht⟩ := not_forall_not.1 hstring
    subst ht
    cases h
    exact hv

/-- A stored string. -/
theorem ofText_of_ofString {s : Bytes} {v : Value} (h : ofString s = some v) : v.OfText := by
  unfold ofString at h
  split at h
  · next hs =>
    cases h
    have hlength : (s.take (s.length % 2 ^ 32)).length = s.length % 2 ^ 32 :=
      List.length_take_of_le (Nat.mod_le _ _)
    rw [OfText, Storable, hlength, Nat.mod_mod]
    exact hs
  · cases h

theorem mem_setMember {key : Bytes} {v : Value} {members : List (Bytes × Value)} {p : Bytes × Value}
    (h : p ∈ setMember key v members) : p ∈ members ∨ p.2 = v := by
  induction members with
  | nil => exact Or.inr (List.mem_singleton.1 h ▸ rfl)
  | cons q members ih =>
    obtain ⟨k, w⟩ := q
    unfold setMember at h
    split at h
    · rcases List.mem_cons.1 h with rfl | h
      · exact Or.inr rfl
      · exact Or.inl (List.mem_cons_of_mem _ h)
    · split at h
      · rcases List.mem_cons.1 h with rfl | h
        · exact Or.inr rfl
        · exact Or.inl h
      · rcases List.mem_cons.1 h with rfl | h
        · exact Or.inl List.mem_cons_self
        · exact (ih h).imp_left (List.mem_cons_of_mem _)

end Value

namespace Reader

/-! ## Tokens -/

/-- The loop keeps the number within its limit. -/
theorem decodeDigits_le {limit value n : ℕ} {s : Bytes} (hvalue : value ≤ limit)
    (h : decodeDigits limit value s = some n) : n ≤ limit := by
  induction s generalizing value with
  | nil =>
    cases h
    exact hvalue
  | cons c s ih =>
    unfold decodeDigits at h
    dsimp only at h
    split at h
    · cases h
    · next hdigit =>
      split at h
      · cases h
      · next hlimit =>
        refine ih ?_ h
        have hc : c.toNat ≤ 0x39 := by
          have := UInt8.not_lt.1 (not_or.1 hdigit).2
          exact UInt8.le_iff_toNat_le.1 this
        by_cases hlt : value < limit / 10
        · omega
        · have hbound : ¬ (limit / 10 < value ∨ s ≠ [] ∨ limit % 10 < c.toNat - 0x30) :=
            fun hor => hlimit ⟨by omega, hor⟩
          rw [not_or, not_or] at hbound
          omega

theorem ofText_decodeDouble {text : Bytes} {v : Value} (h : decodeDouble text = some v) :
    v.OfText := by
  simp only [decodeDouble, Option.ite_none_left_eq_some] at h
  obtain ⟨-, h⟩ := h
  cases h
  unfold Value.OfText
  split
  · next heq => cases heq
  · next heq => cases heq
  · next heq => exact Binary64.ofDecimal_bounds (Value.real.inj heq)
  · next heq => cases heq
  · trivial

theorem ofText_decodeNumber {text : Bytes} {v : Value} (h : decodeNumber text = some v) :
    v.OfText := by
  unfold decodeNumber at h
  split at h
  · split at h
    · next value hvalue =>
      cases h
      have hle := decodeDigits_le (Nat.zero_le _) hvalue
      simp only [Value.OfText, Int.natAbs_neg, Int.natAbs_natCast]
      exact hle.trans (by decide)
    · exact ofText_decodeDouble h
  · split at h
    · next value hvalue =>
      cases h
      have hle := (decodeDigits_le (Nat.zero_le _) hvalue).trans (Nat.sub_le _ _)
      split
      · simpa only [Value.OfText, Int.natAbs_natCast] using hle
      · exact hle
    · exact ofText_decodeDouble h

/-- The token of a number is neither a string nor an object. -/
theorem ne_of_decodeNumber {text : Bytes} {v : Value} (h : decodeNumber text = some v) :
    (∀ s, v ≠ .string s) ∧ ∀ members, v ≠ .object members := by
  have hdouble : decodeDouble text = some v →
      (∀ s, v ≠ .string s) ∧ ∀ members, v ≠ .object members := by
    intro h
    simp only [decodeDouble, Option.ite_none_left_eq_some] at h
    obtain ⟨-, h⟩ := h
    cases h
    exact ⟨nofun, nofun⟩
  unfold decodeNumber at h
  split at h
  · split at h
    · cases h
      exact ⟨nofun, nofun⟩
    · exact hdouble h
  · split at h
    · cases h
      split <;> exact ⟨nofun, nofun⟩
    · exact hdouble h

/-! ## Values -/

theorem fail_eq_some {v : Value} {t : Token} {s : Bytes} {r : Outcome} (h : fail v t s = some r) :
    r.2.1 = v := by
  cases h
  rfl

/-- A property of null, of truth values, of values with values in them, and of what the tokens of
numbers and strings stand for. -/
structure OfTokens (P : Value → Prop) : Prop where
  null : P .null
  bool : ∀ b, P (.bool b)
  array : ∀ elements, P (.array elements)
  object : ∀ members, P (.object members)
  number : ∀ text v, decodeNumber text = some v → P v
  string : ∀ s v, Value.ofString s = some v → P v

variable {P : Value → Prop}

theorem OfTokens.lookup (hP : OfTokens P) {members : List (Bytes × Value)}
    (h : ∀ p ∈ members, P p.2) (key : Bytes) : P (Value.lookup members key) := by
  unfold Value.lookup
  cases hfound : members.lookup key with
  | none => exact hP.null
  | some v =>
    obtain ⟨before, behind, heq, -⟩ := List.lookup_eq_some_iff.1 hfound
    exact h (key, v) (by rw [heq]; simp)

/-- An object is left behind whose members have the property, if the values read have it. -/
theorem readObject_of {read : Value → Bytes → Option Outcome} (hP : OfTokens P)
    (hread : ∀ old s r, P old → read old s = some r → P r.2.1) {n : ℕ}
    {members : List (Bytes × Value)} (hmembers : ∀ p ∈ members, P p.2) {name s : Bytes}
    {r : Outcome} (h : readObject read n members name s = some r) :
    ∃ members', r.2.1 = .object members' ∧ ∀ p ∈ members', P p.2 := by
  induction n generalizing members name s with
  | zero => exact ⟨members, fail_eq_some h, hmembers⟩
  | succ n ih =>
    unfold readObject at h
    split at h
    · cases h
      exact ⟨members, rfl, hmembers⟩
    · exact ⟨members, fail_eq_some h, hmembers⟩
    · dsimp only at h
      split at h
      · cases h
      · next ok v s' heq =>
        have hv : P v := hread _ _ _ (hP.lookup hmembers _) heq
        have hset : ∀ key, ∀ p ∈ Value.setMember key v members, P p.2 := by
          intro key p hp
          rcases Value.mem_setMember hp with hp | hp
          · exact hmembers p hp
          · exact hp ▸ hv
        split at h
        · exact ⟨_, fail_eq_some h, hset _⟩
        · split at h
          · cases h
            exact ⟨_, rfl, hset _⟩
          · exact ⟨_, fail_eq_some h, hset _⟩
          · exact ih (hset _) h

theorem readElements_array {read : Value → Bytes → Option Outcome} {n : ℕ} {elements : List Value}
    {s : Bytes} {r : Outcome} (h : readElements read n elements s = some r) :
    ∃ elements', r.2.1 = .array elements' := by
  induction n generalizing elements s with
  | zero => exact ⟨_, fail_eq_some h⟩
  | succ n ih =>
    unfold readElements at h
    split at h
    · cases h
    · dsimp only at h
      split at h
      · exact ⟨_, fail_eq_some h⟩
      · split at h
        · cases h
          exact ⟨_, rfl⟩
        · split at h
          · exact ih h
          · exact ⟨_, fail_eq_some h⟩

theorem readArray_array {read : Value → Bytes → Option Outcome} {s : Bytes} {r : Outcome}
    (h : readArray read s = some r) : ∃ elements, r.2.1 = .array elements := by
  unfold readArray at h
  split at h
  · cases h
    exact ⟨_, rfl⟩
  · exact readElements_array h

/-- A value that is read in the place of one with the property has it, and so have its members. -/
theorem readValue_of (hP : OfTokens P) {depth : ℕ} {old : Value} {s : Bytes} {r : Outcome}
    (hold : P old) (h : readValue depth old s = some r) :
    P r.2.1 ∧ ((∀ members, old = .object members → ∀ p ∈ members, P p.2) →
      ∀ members, r.2.1 = .object members → ∀ p ∈ members, P p.2) := by
  induction depth generalizing old s r with
  | zero => cases h
  | succ depth ih =>
    unfold readValue at h
    dsimp only at h
    split at h
    · obtain ⟨members, heq, hmembers⟩ :=
        readObject_of hP (fun old s r hold h => (ih hold h).1) (by simp) h
      rw [heq]
      refine ⟨hP.object members, fun _ members' hm => ?_⟩
      cases hm
      exact hmembers
    · obtain ⟨elements, heq⟩ := readArray_array h
      rw [heq]
      exact ⟨hP.array elements, fun _ => nofun⟩
    · split at h
      · next v hv =>
        cases h
        exact ⟨hP.number _ v hv, fun _ members heq => absurd heq ((ne_of_decodeNumber hv).2 members)⟩
      · cases h
        exact ⟨hold, id⟩
    · split at h
      · obtain ⟨v, hv, rfl⟩ := Option.map_eq_some_iff.1 h
        refine ⟨hP.string _ v hv, fun _ members heq => ?_⟩
        obtain rfl : v = .object members := heq
        simp [Value.ofString] at hv
      · cases h
        exact ⟨hold, id⟩
    · cases h
      exact ⟨hP.bool true, fun _ => nofun⟩
    · cases h
      exact ⟨hP.bool false, fun _ => nofun⟩
    · cases h
      exact ⟨hP.null, fun _ => nofun⟩
    · cases h
      exact ⟨hold, id⟩

/-- A member of a document has the property. -/
theorem of_member (hP : OfTokens P) {document key : Bytes} {ok : Bool} {root v : Value}
    (h : parse document = some (ok, root)) (hv : root.member key = some v) : P v := by
  obtain ⟨r, hread, heq⟩ := Option.map_eq_some_iff.1 h
  cases heq
  have hmembers := (readValue_of hP hP.null hread).2 nofun
  unfold Value.member at hv
  split at hv
  · cases hv
    exact hP.null
  · next members heq =>
    cases hv
    exact hP.lookup (hmembers members heq) key
  · cases hv

theorem ofTokens_ofText : OfTokens Value.OfText where
  null := trivial
  bool _ := trivial
  array _ := trivial
  object _ := trivial
  number _ _ h := ofText_decodeNumber h
  string _ _ h := Value.ofText_of_ofString h

/-- **The text of a member of a document can be stored again.** -/
theorem storable_of_stringMember {document key s : Bytes} {ok : Bool} {root : Value}
    (h : parse document = some (ok, root)) (hs : root.stringMember key = some s) : Storable s := by
  obtain ⟨v, hv, hs⟩ := Option.bind_eq_some_iff.1 hs
  exact Value.storable_asString (of_member ofTokens_ofText h hv) hs

/-- A string in a document has been cut when it was stored. -/
theorem ofTokens_length : OfTokens fun v => ∀ s, v = .string s → s.length < 2 ^ 32 where
  null := nofun
  bool _ := nofun
  array _ := nofun
  object _ := nofun
  number _ _ h s heq := absurd heq ((ne_of_decodeNumber h).1 s)
  string t v h s heq := by
    subst heq
    simp only [Value.ofString, Option.ite_none_right_eq_some, Option.some.injEq,
      Value.string.injEq] at h
    rw [← h.2, List.length_take_of_le (Nat.mod_le _ _)]
    exact Nat.mod_lt _ (by decide)

/-- The text of a member of a document is not cut when it is stored again. -/
theorem length_of_stringMember {document key s : Bytes} {ok : Bool} {root : Value}
    (h : parse document = some (ok, root)) (hs : root.stringMember key = some s) :
    s.length < 2 ^ 32 := by
  obtain ⟨v, hv, hs⟩ := Option.bind_eq_some_iff.1 hs
  by_cases hstring : ∀ t, v ≠ .string t
  · have hshort := Value.length_asString (of_member ofTokens_ofText h hv) hstring hs
    exact hshort.trans_lt (by decide)
  · obtain ⟨t, ht⟩ := not_forall_not.1 hstring
    subst ht
    cases hs
    exact of_member ofTokens_length h hv _ rfl

end Reader

end Json

end GraduationServer
