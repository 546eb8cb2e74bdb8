import GraduationServer.Json.Reader

/-!
# The loops of the JSON reader end

Each loop of the reader has a bound on its turns. None of them is ever reached: a token takes at
least one byte (`length_readToken`) and no reader goes backwards (`advances_readValue`), so every
bound above the length of the text gives the same outcome (`skipCommentTokens_eq`,
`recoverFromError_eq`, `decodeStringLoop_eq`, `readObject_eq`, `readElements_eq`).
-/

namespace GraduationServer

namespace Json

namespace Reader


theorem length_skipSpaces_le (s : Bytes) : (skipSpaces s).length ≤ s.length :=
  (List.dropWhile_suffix _).length_le

theorem length_readString_lt {s content rest : Bytes} (h : readString s = some (content, rest)) :
    rest.length < s.length := by
  fun_induction readString s generalizing content rest with
  | case1 => cases h
  | case2 => cases h; simp
  | case3 => cases h
  | case4 d s ih =>
    obtain ⟨p, hp, heq⟩ := Option.map_eq_some_iff.1 h
    cases heq
    have := ih hp
    simp only [List.length_cons]
    omega
  | case5 => cases h; simp
  | case6 c d s hb hq ih =>
    obtain ⟨p, hp, heq⟩ := Option.map_eq_some_iff.1 h
    cases heq
    have := ih hp
    simp only [List.length_cons] at this ⊢
    omega

theorem length_spanDigits_le (s : Bytes) : (spanDigits s).2.length ≤ s.length := by
  rw [spanDigits, List.span_eq_takeWhile_dropWhile]
  exact (List.dropWhile_suffix _).length_le

theorem length_spanOne_le (cs : List UInt8) (s : Bytes) : (spanOne cs s).2.length ≤ s.length := by
  cases s with
  | nil => rfl
  | cons c s =>
    rw [spanOne]
    split
    · exact Nat.le_succ _
    · exact le_rfl

theorem length_ite_le {α : Type} {p : Prop} [Decidable p] {x y : α × Bytes} {n : ℕ}
    (hx : x.2.length ≤ n) (hy : y.2.length ≤ n) : (if p then x else y).2.length ≤ n := by
  split
  · exact hx
  · exact hy

theorem length_unless_le {p : Prop} [Decidable p] {x : Bytes × Bytes} {s : Bytes}
    (h : x.2.length ≤ s.length) : (if p then ([], s) else x).2.length ≤ s.length :=
  length_ite_le le_rfl h

theorem length_readNumber_le (s : Bytes) : (readNumber s).2.length ≤ s.length :=
  (length_unless_le (length_spanDigits_le _)).trans <|
    (length_unless_le (length_spanOne_le _ _)).trans <|
    (length_spanOne_le _ _).trans <|
    (length_unless_le (length_spanDigits_le _)).trans <|
    (length_spanOne_le _ _).trans (length_spanDigits_le s)

theorem length_readCStyleComment_le (s : Bytes) : (readCStyleComment s).2.length ≤ s.length := by
  fun_induction readCStyleComment s with
  | case1 => rfl
  | case2 => simp
  | case3 => simp only [List.length_cons]; omega
  | case4 c d s h ih => simp only [List.length_cons] at ih ⊢; omega

theorem length_readCppStyleComment_le (s : Bytes) :
    (readCppStyleComment s).length ≤ s.length := by
  fun_induction readCppStyleComment s with
  | case1 => rfl
  | case2 => simp
  | _ => simp_all <;> omega

theorem length_readComment_le (s : Bytes) : (readComment s).2.length ≤ s.length := by
  cases s with
  | nil => rfl
  | cons c s =>
    have hc := length_readCStyleComment_le s
    have hcpp := length_readCppStyleComment_le s
    rw [readComment]
    split_ifs <;> simp only [List.length_cons] <;> omega

theorem length_readWord_le (token : Token) (pattern s : Bytes) :
    (readWord token pattern s).2.length ≤ s.length := by
  unfold readWord matchPattern
  split
  · next s' h =>
    rw [List.dropPrefix?_eq_some_iff] at h
    obtain ⟨p, rfl, -⟩ := h
    simp
  · exact le_rfl

/-- A token takes at least one byte, unless the text is at its end. -/
theorem length_readToken (s : Bytes) :
    (readToken s).2.length ≤ s.length ∧
      ((readToken s).1 ≠ .endOfStream → (readToken s).2.length < s.length) := by
  have hspaces := length_skipSpaces_le s
  unfold readToken
  split
  · simp
  · next c s' heq =>
    rw [heq, List.length_cons] at hspaces
    suffices h : ∀ p : Token × Bytes, p.2.length ≤ s'.length →
        p.2.length ≤ s.length ∧ (p.1 ≠ .endOfStream → p.2.length < s.length) by
      refine h _ ?_
      refine length_ite_le le_rfl <| length_ite_le le_rfl <| length_ite_le le_rfl <|
        length_ite_le le_rfl <| length_ite_le ?_ <|
        length_ite_le (length_readComment_le s') <| length_ite_le (length_readNumber_le s') <|
        length_ite_le (length_readWord_le ..) <| length_ite_le (length_readWord_le ..) <|
        length_ite_le (length_readWord_le ..) <| length_ite_le le_rfl <| length_ite_le le_rfl <|
        length_ite_le le_rfl le_rfl
      -- a string ends before its text does
      split
      · next h => exact (length_readString_lt h).le
      · exact Nat.zero_le _
    intro p hp
    omega

/-- Any bound not below the length of the text gives the same token. -/
theorem skipCommentTokens_eq {n : ℕ} {s : Bytes} (h : s.length ≤ n) :
    skipCommentTokens n s = skipCommentTokens s.length s := by
  suffices hall : ∀ n m (s : Bytes), s.length ≤ n → s.length ≤ m →
      skipCommentTokens n s = skipCommentTokens m s from hall n s.length s h le_rfl
  intro n
  induction n with
  | zero =>
    intro m s hn _
    obtain rfl := List.eq_nil_of_length_eq_zero (Nat.le_zero.1 hn)
    cases m <;> rfl
  | succ n ih =>
    intro m s hn hm
    cases m with
    | zero =>
      obtain rfl := List.eq_nil_of_length_eq_zero (Nat.le_zero.1 hm)
      rfl
    | succ m =>
      simp only [skipCommentTokens]
      split
      · next hcomment =>
        have hlt := (length_readToken s).2 (by simp [hcomment])
        exact ih m _ (by omega) (by omega)
      · rfl

theorem length_skipCommentTokens_le (n : ℕ) (s : Bytes) :
    (skipCommentTokens n s).2.length ≤ s.length ∧
      ((skipCommentTokens n s).1 ≠ .endOfStream → (skipCommentTokens n s).2.length < s.length) := by
  induction n generalizing s with
  | zero => exact length_readToken s
  | succ n ih =>
    have htoken := length_readToken s
    simp only [skipCommentTokens]
    split
    · next hcomment =>
      have hlt := htoken.2 (by simp [hcomment])
      have hrest := ih (readToken s).2
      exact ⟨by omega, fun h => by omega⟩
    · exact htoken

theorem length_recoverFromError_le (skipUntilToken : Token) (n : ℕ) (s : Bytes) :
    (recoverFromError skipUntilToken n s).length ≤ s.length := by
  induction n generalizing s with
  | zero => exact le_rfl
  | succ n ih =>
    have htoken := (length_readToken s).1
    simp only [recoverFromError]
    split
    · exact htoken
    · exact (ih _).trans htoken

/-- Any bound above the length of the text gives the same place to go on. -/
theorem recoverFromError_eq (skipUntilToken : Token) {n : ℕ} {s : Bytes} (h : s.length < n) :
    recoverFromError skipUntilToken n s = recoverFromError skipUntilToken (s.length + 1) s := by
  suffices hall : ∀ n m (s : Bytes), s.length < n → s.length < m →
      recoverFromError skipUntilToken n s = recoverFromError skipUntilToken m s from
    hall n _ s h (Nat.lt_succ_self _)
  intro n
  induction n with
  | zero => intro m s hn _; exact absurd hn (Nat.not_lt_zero _)
  | succ n ih =>
    intro m s hn hm
    obtain ⟨m, rfl⟩ : ∃ k, m = k + 1 := ⟨m - 1, by omega⟩
    simp only [recoverFromError]
    split
    · rfl
    · next hgo =>
      have hlt := (length_readToken s).2 fun h => hgo (Or.inr h)
      exact ih m _ (by omega) (by omega)

theorem length_decodeUnicodeEscapeSequence_lt {s rest : Bytes} {unicode : ℕ}
    (h : decodeUnicodeEscapeSequence s = some (unicode, rest)) : rest.length < s.length := by
  unfold decodeUnicodeEscapeSequence at h
  split at h
  · split at h
    · cases h
      simp only [List.length_cons]
      omega
    · cases h
  · cases h

theorem length_decodeUnicodeCodePoint_lt {s rest : Bytes} {unicode : ℕ}
    (h : decodeUnicodeCodePoint s = some (unicode, rest)) : rest.length < s.length := by
  obtain ⟨⟨first, s₁⟩, hfirst, h⟩ := Option.bind_eq_some_iff.1 h
  have hlt := length_decodeUnicodeEscapeSequence_lt hfirst
  simp only at h
  split at h
  · split at h
    · next s₂ =>
      obtain ⟨⟨second, s₃⟩, hsecond, heq⟩ := Option.map_eq_some_iff.1 h
      have hlt₂ := length_decodeUnicodeEscapeSequence_lt hsecond
      cases heq
      simp only [List.length_cons] at hlt ⊢
      omega
    · cases h
  · cases h
    exact hlt

theorem decodeStringLoop_eq {n m : ℕ} {s : Bytes} (hn : s.length ≤ n) (hm : s.length ≤ m) :
    decodeStringLoop n s = decodeStringLoop m s := by
  induction n generalizing m s with
  | zero =>
    obtain rfl := List.eq_nil_of_length_eq_zero (Nat.le_zero.1 hn)
    cases m <;> rfl
  | succ n ih =>
    cases s with
    | nil => cases m <;> rfl
    | cons c s =>
      obtain ⟨m, rfl⟩ : ∃ k, m = k + 1 := ⟨m - 1, by simp only [List.length_cons] at hm; omega⟩
      simp only [List.length_cons, Nat.add_le_add_iff_right] at hn hm
      simp only [decodeStringLoop]
      split
      · rfl
      · split
        · split
          · rfl
          · next escape s =>
            simp only [List.length_cons] at hn hm
            split
            · refine Option.bind_congr fun p hp => ?_
              have hlt := length_decodeUnicodeCodePoint_lt hp
              rw [ih (m := m) (by omega) (by omega)]
            · rw [ih (m := m) (by omega) (by omega)]
        · rw [ih hn hm]

/-- A reader of values that does not read backwards. -/
def Advances (readValue : Value → Bytes → Option Outcome) : Prop :=
  ∀ old s ok v rest, readValue old s = some (ok, v, rest) → rest.length ≤ s.length

theorem length_of_fail {v v' : Value} {skipUntilToken : Token} {s rest : Bytes} {ok : Bool}
    (h : fail v skipUntilToken s = some (ok, v', rest)) : rest.length ≤ s.length := by
  cases h
  exact length_recoverFromError_le ..

theorem advances_readElements {readValue : Value → Bytes → Option Outcome}
    (h : Advances readValue) (n : ℕ) (elements : List Value) (s : Bytes) {ok : Bool} {v : Value}
    {rest : Bytes} (hread : readElements readValue n elements s = some (ok, v, rest)) :
    rest.length ≤ s.length := by
  induction n generalizing elements s with
  | zero => exact length_of_fail hread
  | succ n ih =>
    simp only [readElements] at hread
    split at hread
    · cases hread
    · next ok' v' s' hv =>
      have hs' := h _ _ _ _ _ hv
      have htoken := (length_skipCommentTokens_le s'.length s').1
      split at hread
      · exact (length_of_fail hread).trans hs'
      · split at hread
        · cases hread
          omega
        · split at hread
          · exact (ih _ _ hread).trans (by omega)
          · exact (length_of_fail hread).trans (by omega)

theorem advances_readArray {readValue : Value → Bytes → Option Outcome} (h : Advances readValue)
    (s : Bytes) {ok : Bool} {v : Value} {rest : Bytes}
    (hread : readArray readValue s = some (ok, v, rest)) : rest.length ≤ s.length := by
  have hspaces := length_skipSpaces_le s
  unfold readArray at hread
  split at hread
  · next s' heq =>
    cases hread
    rw [heq, List.length_cons] at hspaces
    omega
  · exact (advances_readElements h _ _ _ hread).trans hspaces

/-- The text at a place in an object. -/
def Place.text : Place → Bytes
  | close s | bad s | more _ s => s

theorem length_readName (name s : Bytes) :
    (readName name s).text.length ≤ s.length ∧
      ∀ name' s', readName name s = .more name' s' → s'.length < s.length := by
  have hname := length_skipCommentTokens_le s.length s
  simp only [readName]
  split
  · exact ⟨hname.1, fun _ _ h => by cases h⟩
  · split
    · next heq =>
      have hlt := hname.2 (by simp [heq])
      split
      · exact ⟨hname.1, fun _ _ h => by cases h⟩
      · have hcolon := (length_readToken (skipCommentTokens s.length s).2).1
        split
        · refine ⟨hcolon.trans hname.1, fun _ _ h => ?_⟩
          cases h
          omega
        · exact ⟨hcolon.trans hname.1, fun _ _ h => by cases h⟩
    · exact ⟨hname.1, fun _ _ h => by cases h⟩

theorem length_readComma (name s : Bytes) : (readComma name s).text.length ≤ s.length := by
  have hcomma := (length_readToken s).1
  have hcomment := (length_skipCommentTokens_le (readToken s).2.length (readToken s).2).1
  simp only [readComma]
  split_ifs
  · exact hcomma
  · exact hcomma
  · exact hcomment.trans hcomma
  · exact hcomment.trans hcomma
  · exact hcomma

theorem advances_readObject {readValue : Value → Bytes → Option Outcome} (h : Advances readValue)
    (n : ℕ) (members : List (Bytes × Value)) (name s : Bytes) {ok : Bool} {v : Value}
    {rest : Bytes} (hread : readObject readValue n members name s = some (ok, v, rest)) :
    rest.length ≤ s.length := by
  induction n generalizing members name s with
  | zero => exact length_of_fail hread
  | succ n ih =>
    have hname := (length_readName name s).1
    simp only [readObject] at hread
    split at hread
    · next s' heq =>
      cases hread
      rw [heq] at hname
      exact hname
    · next s' heq =>
      rw [heq] at hname
      exact (length_of_fail hread).trans hname
    · next name' s' heq =>
      rw [heq] at hname
      split at hread
      · cases hread
      · next ok' v' s'' hv =>
        have hvalue := (h _ _ _ _ _ hv).trans hname
        have hcomma := length_readComma name' s''
        split at hread
        · exact (length_of_fail hread).trans hvalue
        · split at hread
          · next heq => cases hread; rw [heq] at hcomma; exact hcomma.trans hvalue
          · next heq =>
            rw [heq] at hcomma
            exact (length_of_fail hread).trans (hcomma.trans hvalue)
          · next heq =>
            rw [heq] at hcomma
            exact (ih _ _ _ hread).trans (hcomma.trans hvalue)

/-- Reading a value does not go backwards. -/
theorem advances_readValue (depth : ℕ) : Advances (readValue depth) := by
  induction depth with
  | zero => intro old s ok v rest h; cases h
  | succ depth ih =>
    intro old s ok v rest h
    have htoken := (length_skipCommentTokens_le s.length s).1
    simp only [readValue] at h
    split at h
    · exact (advances_readObject ih _ _ _ _ h).trans htoken
    · exact (advances_readArray ih _ h).trans htoken
    · split at h <;> (cases h; exact htoken)
    · split at h
      · obtain ⟨v', -, h⟩ := Option.map_eq_some_iff.1 h
        cases h
        exact htoken
      · cases h
        exact htoken
    all_goals
      cases h
      exact htoken

/-- **The loop over the members ends by itself**: any bound above the length of the text gives the
same outcome. -/
theorem readObject_eq {readValue : Value → Bytes → Option Outcome} (h : Advances readValue)
    {n m : ℕ} {members : List (Bytes × Value)} {name s : Bytes} (hn : s.length < n)
    (hm : s.length < m) :
    readObject readValue n members name s = readObject readValue m members name s := by
  induction n generalizing m members name s with
  | zero => exact absurd hn (Nat.not_lt_zero _)
  | succ n ih =>
    obtain ⟨m, rfl⟩ : ∃ k, m = k + 1 := ⟨m - 1, by omega⟩
    have hname := (length_readName name s).2
    simp only [readObject]
    split
    · rfl
    · rfl
    · next name' s' heq =>
      have hlt := hname name' s' heq
      split
      · rfl
      · next ok v s'' hv =>
        have hvalue := h _ _ _ _ _ hv
        have hcomma := length_readComma name' s''
        split
        · rfl
        · split
          · rfl
          · rfl
          · next heq =>
            rw [heq] at hcomma
            simp only [Place.text] at hcomma
            exact ih (by omega) (by omega)

/-- **The loop over the elements ends by itself.** -/
theorem readElements_eq {readValue : Value → Bytes → Option Outcome} (h : Advances readValue)
    {n m : ℕ} {elements : List Value} {s : Bytes} (hn : s.length < n) (hm : s.length < m) :
    readElements readValue n elements s = readElements readValue m elements s := by
  induction n generalizing m elements s with
  | zero => exact absurd hn (Nat.not_lt_zero _)
  | succ n ih =>
    obtain ⟨m, rfl⟩ : ∃ k, m = k + 1 := ⟨m - 1, by omega⟩
    simp only [readElements]
    split
    · rfl
    · next ok v s' hv =>
      have hvalue := h _ _ _ _ _ hv
      have htoken := (length_skipCommentTokens_le s'.length s').2
      split
      · rfl
      · split
        · rfl
        · split
          · next hseparator =>
            have hlt := htoken (by simp [hseparator])
            exact ih (by omega) (by omega)
          · rfl

end Reader

end Json

end GraduationServer
