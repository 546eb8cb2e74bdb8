import GraduationServer.Json.Storable
import GraduationServer.Json.Texts

/-!
# Where a document ends

The reader does not look behind the value that it reads. So an array or object that is accepted is accepted
with anything behind it, and the end of a document does not depend on what follows: of all fronts of an
accepted document exactly one is accepted without a shorter one being accepted (`ends_once`).

Only three tokens depend on the byte behind them: a number, a comment and a word that is cut off. They are no
matter where an array or object goes on, since its last token is a bracket. For a text of the grammar with
less than a thousand values open, no front throws either (`recognised`). With a thousand one may: behind the
bracket of the last array the reader looks for a value at the end of the front, where the whole text has
another bracket.
-/

namespace GraduationServer

namespace Json

namespace Reader

open Writer (skipCommentTokens_of_ne readWord_append readToken_string readToken_number)

/-! ## Parts of tokens -/

variable {s r q : Bytes}

theorem skipSpaces_append (h : skipSpaces s ≠ []) : skipSpaces (s ++ q) = skipSpaces s ++ q := by
  induction s with
  | nil => exact absurd rfl h
  | cons c s ih =>
    simp only [skipSpaces, List.cons_append, List.dropWhile_cons] at h ih ⊢
    split
    · next hblank =>
      rw [if_pos hblank] at h
      exact ih h
    · rfl

theorem readString_append {content : Bytes} (h : readString s = some (content, r)) :
    readString (s ++ q) = some (content, r ++ q) := by
  fun_induction readString s generalizing content r with
  | case1 => cases h
  | case2 =>
    cases h
    cases q <;> simp [readString]
  | case3 => cases h
  | case4 d s ih =>
    obtain ⟨p, hp, heq⟩ := Option.map_eq_some_iff.1 h
    cases heq
    simp [readString, ih hp]
  | case5 =>
    cases h
    simp [readString]
  | case6 c d s hb hq ih =>
    obtain ⟨p, hp, heq⟩ := Option.map_eq_some_iff.1 h
    cases heq
    have hrest := ih hp
    rw [List.cons_append] at hrest
    simp [readString, hb, hq, hrest]

theorem spanDigits_behind (h : (spanDigits s).2 ≠ []) :
    spanDigits (s ++ q) = ((spanDigits s).1, (spanDigits s).2 ++ q) := by
  simp only [spanDigits, List.span_eq_takeWhile_dropWhile] at h ⊢
  induction s with
  | nil => exact absurd rfl h
  | cons c s ih =>
    simp only [List.cons_append, List.takeWhile_cons, List.dropWhile_cons] at h ⊢
    split
    · next hdigit =>
      rw [if_pos hdigit] at h
      have hs := ih h
      rw [Prod.mk.injEq] at hs
      rw [hs.1, hs.2]
    · rfl

theorem spanOne_behind {cs : List UInt8} (h : s ≠ []) :
    spanOne cs (s ++ q) = ((spanOne cs s).1, (spanOne cs s).2 ++ q) := by
  obtain ⟨c, s, rfl⟩ := List.exists_cons_of_ne_nil h
  simp only [List.cons_append, spanOne]
  split <;> rfl

/-- A part of a number is the same with more text behind it, when it does not reach to the end. -/
def Extending (f : Bytes → Bytes × Bytes) : Prop :=
  ∀ s q, (f s).2 ≠ [] → s ≠ [] ∧ f (s ++ q) = ((f s).1, (f s).2 ++ q)

theorem extending_spanDigits : Extending spanDigits := by
  intro s q h
  refine ⟨?_, spanDigits_behind h⟩
  rintro rfl
  exact h rfl

theorem extending_spanOne (cs : List UInt8) : Extending (spanOne cs) := by
  intro s q h
  have hne : s ≠ [] := by
    rintro rfl
    exact h rfl
  exact ⟨hne, spanOne_behind hne⟩

theorem extending_unless {p : Prop} [Decidable p] {f : Bytes → Bytes × Bytes} (hf : Extending f) :
    Extending fun s => if p then ([], s) else f s := by
  intro s q h
  dsimp only at h ⊢
  split
  · next hp =>
    rw [if_pos hp] at h
    exact ⟨h, rfl⟩
  · next hp =>
    rw [if_neg hp] at h
    exact hf s q h

theorem readNumber_append (h : (readNumber s).2 ≠ []) :
    readNumber (s ++ q) = ((readNumber s).1, (readNumber s).2 ++ q) := by
  have hexponent := fun p (_ : Decidable p) => extending_unless (p := p) extending_spanDigits
  have hsign := fun p (_ : Decidable p) => extending_unless (p := p) (extending_spanOne [0x2B, 0x2D])
  simp only [readNumber] at h ⊢
  obtain ⟨h₅, e₅⟩ := hexponent _ _ _ q h
  obtain ⟨h₄, e₄⟩ := hsign _ _ _ q h₅
  obtain ⟨h₃, e₃⟩ := extending_spanOne _ _ q h₄
  obtain ⟨h₂, e₂⟩ := hexponent _ _ _ q h₃
  obtain ⟨h₁, e₁⟩ := extending_spanOne _ _ q h₂
  obtain ⟨-, e₀⟩ := extending_spanDigits _ q h₁
  dsimp only at e₂ e₄ e₅
  simp only [e₀, e₁, e₂, e₃, e₄, e₅]

theorem readCStyleComment_append (h : (readCStyleComment s).2 ≠ []) :
    readCStyleComment (s ++ q) = ((readCStyleComment s).1, (readCStyleComment s).2 ++ q) := by
  fun_induction readCStyleComment s with
  | case1 => exact absurd rfl h
  | case2 => exact absurd rfl h
  | case3 c d s hend => simp [readCStyleComment, hend]
  | case4 c d s hgo ih =>
    have hrest := ih h
    rw [List.cons_append] at hrest
    rw [List.cons_append, List.cons_append, readCStyleComment, if_neg hgo, hrest]

theorem readCppStyleComment_append (h : readCppStyleComment s ≠ []) :
    readCppStyleComment (s ++ q) = readCppStyleComment s ++ q := by
  induction s with
  | nil => exact absurd rfl h
  | cons c s ih =>
    simp only [List.cons_append, readCppStyleComment] at h ⊢
    split
    · rfl
    · next hline =>
      rw [if_neg hline] at h
      split
      · next hreturn =>
        rw [if_pos hreturn] at h
        cases s with
        | nil => exact absurd rfl h
        | cons d s => split <;> simp_all
      · next hreturn =>
        rw [if_neg hreturn] at h
        exact ih h

theorem readComment_append (h : (readComment s).2 ≠ []) :
    readComment (s ++ q) = ((readComment s).1, (readComment s).2 ++ q) := by
  cases s with
  | nil => exact absurd rfl h
  | cons c s =>
    simp only [List.cons_append, readComment] at h ⊢
    split
    · next hstar =>
      rw [if_pos hstar] at h
      exact readCStyleComment_append h
    · next hstar =>
      rw [if_neg hstar] at h
      split
      · next hslash =>
        rw [if_pos hslash] at h
        rw [readCppStyleComment_append h]
      · rfl

/-! ## Tokens -/

/-- A token and the text behind it. Either they do not depend on what follows; or the token reaches to the
end of the text and may be another one with more of it, but a number stays one; or a word is torn, with a
rest that begins no token. -/
inductive Settles (f : Bytes → Token × Bytes) (s : Bytes) : Prop
  | fixed (h : ∀ q, f (s ++ q) = ((f s).1, (f s).2 ++ q))
  | last (hrest : (f s).2 = []) (h : (f s).1 ∈ [Token.endOfStream, .comment, .error])
  | number (hrest : (f s).2 = []) (h : ∃ text, (f s).1 = .number text)
      (hmore : ∀ q, ∃ text, (f (s ++ q)).1 = .number text)
  | torn (h : (f s).1 = .error) (hrest : (readToken (f s).2).1 = .error)

theorem settles_of_eq {f g : Bytes → Token × Bytes} {t : Bytes} (h : ∀ q, f (s ++ q) = g (t ++ q))
    (hg : Settles g t) : Settles f s := by
  have heq : f s = g t := by simpa using h []
  cases hg with
  | fixed hg => exact .fixed fun q => by rw [h, hg, heq]
  | last hrest hg => exact .last (heq ▸ hrest) (heq ▸ hg)
  | number hrest hg hmore => exact .number (heq ▸ hrest) (heq ▸ hg) fun q => h q ▸ hmore q
  | torn hg hrest => exact .torn (heq ▸ hg) (heq ▸ hrest)

theorem readWord_eq (token : Token) (pattern s : Bytes) :
    readWord token pattern s = if pattern <+: s then (token, s.drop pattern.length) else (.error, s) := by
  split
  · next hword =>
    obtain ⟨r, rfl⟩ := hword
    rw [readWord_append, List.drop_left]
  · next hword =>
    cases hmatch : matchPattern pattern s with
    | none => rw [readWord, hmatch]
    | some r =>
      obtain ⟨p, rfl, hp⟩ := List.dropPrefix?_eq_some_iff.1 hmatch
      obtain rfl : p = pattern := by simpa using hp
      exact absurd (List.prefix_append _ _) hword

/-- A word is recognised, or is none, or is torn. -/
theorem settles_readWord {token : Token} {c : UInt8} {pattern : Bytes}
    (hc : ∀ t, (readToken (c :: t)).1 = .error) : Settles (readWord token (c :: pattern)) s := by
  by_cases hword : c :: pattern <+: s
  · obtain ⟨r, rfl⟩ := hword
    exact .fixed fun q => by
      rw [List.append_assoc, readWord_append, readWord_append]
  · have hnone : readWord token (c :: pattern) s = (.error, s) := by rw [readWord_eq, if_neg hword]
    by_cases hfront : s <+: c :: pattern
    · cases s with
      | nil => exact .last (by rw [hnone]) (by rw [hnone]; simp)
      | cons d s =>
        obtain rfl : d = c := (List.cons_prefix_cons.1 hfront).1
        exact .torn (by rw [hnone]) (by rw [hnone]; exact hc s)
    · refine .fixed fun q => ?_
      rw [hnone, readWord_eq, if_neg]
      intro hmore
      rcases List.prefix_or_prefix_of_prefix hmore (List.prefix_append s q) with h | h
      · exact hword h
      · exact hfront h

/-- **What a token depends on.** -/
theorem settles_readToken (s : Bytes) : Settles readToken s := by
  cases hspaces : skipSpaces s with
  | nil =>
    have hend : readToken s = (.endOfStream, []) := by simp [readToken, hspaces]
    exact .last (by rw [hend]) (by rw [hend]; simp)
  | cons c t =>
    have hblank : ∀ u, skipSpaces (c :: u) = c :: u := by
      have hhead := List.head?_dropWhile_not
        (fun c : UInt8 => c = 0x20 || c = 0x09 || c = 0x0D || c = 0x0A) s
      rw [show s.dropWhile _ = c :: t from hspaces] at hhead
      exact fun u => List.dropWhile_cons_of_neg (Bool.eq_false_iff.1 hhead)
    refine settles_of_eq (g := fun t => readToken (c :: t)) (t := t) (fun q => ?_) ?_
    · have hmore : skipSpaces (s ++ q) = skipSpaces (c :: (t ++ q)) := by
        rw [skipSpaces_append (by simp [hspaces]), hspaces, hblank, List.cons_append]
      simp only [readToken, hmore]
    by_cases hsign : c ∈ ([0x7B, 0x7D, 0x5B, 0x5D, 0x2C, 0x3A, 0] : List UInt8)
    · simp only [List.mem_cons, List.not_mem_nil, or_false] at hsign
      rcases hsign with rfl | rfl | rfl | rfl | rfl | rfl | rfl <;> exact .fixed fun q => rfl
    by_cases hquote : c = 0x22
    · subst hquote
      cases hread : readString t with
      | some p =>
        refine .fixed fun q => ?_
        rw [readToken_string (readString_append hread), readToken_string hread]
      | none =>
        have hopen : readToken (0x22 :: t) = (.error, []) := by simp [readToken, hblank, hread]
        exact .last (by rw [hopen]) (by rw [hopen]; simp)
    by_cases hslash : c = 0x2F
    · subst hslash
      have hcomment : ∀ u, readToken (0x2F :: u) =
          (if (readComment u).1 then .comment else .error, (readComment u).2) := fun u => rfl
      by_cases hrest : (readComment t).2 = []
      · refine .last (by rw [hcomment, hrest]) ?_
        rw [hcomment]
        split <;> simp
      · refine .fixed fun q => ?_
        rw [hcomment, hcomment, readComment_append hrest]
    by_cases hnumber : (0x30 ≤ c ∧ c ≤ 0x39) ∨ c = 0x2D
    · by_cases hrest : (readNumber t).2 = []
      · exact .number (by rw [readToken_number hnumber, hrest]) ⟨_, by rw [readToken_number hnumber]⟩
          fun q => ⟨_, by rw [readToken_number hnumber]⟩
      · refine .fixed fun q => ?_
        rw [readToken_number hnumber, readToken_number hnumber, readNumber_append hrest]
    by_cases htrue : c = 0x74
    · subst htrue
      exact settles_of_eq (g := readWord .true (0x72 :: [0x75, 0x65])) (fun q => rfl)
        (settles_readWord fun u => rfl)
    by_cases hfalse : c = 0x66
    · subst hfalse
      exact settles_of_eq (g := readWord .false (0x61 :: [0x6C, 0x73, 0x65])) (fun q => rfl)
        (settles_readWord fun u => rfl)
    by_cases hnull : c = 0x6E
    · subst hnull
      exact settles_of_eq (g := readWord .null (0x75 :: [0x6C, 0x6C])) (fun q => rfl)
        (settles_readWord fun u => rfl)
    · have herror : ∀ u, readToken (c :: u) = (.error, u) := by
        intro u
        simp only [List.mem_cons, List.not_mem_nil, or_false, not_or] at hsign
        simp only [readToken, hblank, hsign, hquote, hslash, hnumber, htrue, hfalse, hnull, if_false]
      exact .fixed fun q => by rw [herror, herror]

/-- The next token that is no comment. -/
theorem settles_skipCommentTokens (s : Bytes) : Settles (fun s => skipCommentTokens s.length s) s := by
  have hstop : ∀ s, (readToken s).1 ≠ .comment → skipCommentTokens s.length s = readToken s :=
    fun s h => skipCommentTokens_of_ne h
  have hgo : ∀ s, (readToken s).1 = .comment → skipCommentTokens s.length s =
      skipCommentTokens (readToken s).2.length (readToken s).2 := by
    intro s h
    have hlt := (length_readToken s).2 (by simp [h])
    obtain ⟨n, hn⟩ : ∃ n, s.length = n + 1 := ⟨s.length - 1, by omega⟩
    rw [hn, skipCommentTokens]
    dsimp only
    rw [if_pos h]
    exact skipCommentTokens_eq (by omega)
  induction hlength : s.length using Nat.strong_induction_on generalizing s with
  | _ n ih =>
    by_cases hcomment : (readToken s).1 = .comment
    · have hlt := (length_readToken s).2 (by simp [hcomment])
      cases settles_readToken s with
      | fixed h =>
        refine settles_of_eq (g := fun s => skipCommentTokens s.length s) (t := (readToken s).2)
          (fun q => ?_) (ih _ (by omega) _ rfl)
        have hq : (readToken (s ++ q)).1 = .comment := by rw [h, hcomment]
        rw [hgo _ hq, h]
      | last hrest h =>
        have hend : skipCommentTokens s.length s = (.endOfStream, []) := by
          rw [hgo _ hcomment, hrest]
          rfl
        exact .last (by rw [hend]) (by rw [hend]; simp)
      | number _ h =>
        obtain ⟨text, h⟩ := h
        simp [h] at hcomment
      | torn h => simp [h] at hcomment
    · have hs := hstop s hcomment
      cases settles_readToken s with
      | fixed h =>
        refine .fixed fun q => ?_
        rw [hstop (s ++ q) (by rwa [h]), h, hs]
      | last hrest h => exact .last (by rwa [hs]) (by rwa [hs])
      | number hrest h hmore =>
        refine .number (by rwa [hs]) (by rwa [hs]) fun q => ?_
        obtain ⟨text, htext⟩ := hmore q
        exact ⟨text, by rw [hstop _ (by simp [htext]), htext]⟩
      | torn h hrest => exact .torn (by rwa [hs]) (by rwa [hs])

/-- A bracket, comma, colon, string or word is the same with anything behind it. -/
theorem Settles.append {f : Bytes → Token × Bytes} {token : Token} (hs : Settles f s)
    (h : f s = (token, r)) (hnone : token ∉ [Token.endOfStream, .comment, .error])
    (hnumber : ∀ text, token ≠ .number text) (q : Bytes) : f (s ++ q) = (token, r ++ q) := by
  cases hs with
  | fixed hfixed => rw [hfixed, h]
  | last _ hlast =>
    rw [h] at hlast
    exact absurd hlast hnone
  | number _ htext =>
    obtain ⟨text, htext⟩ := htext
    rw [h] at htext
    exact absurd htext (hnumber text)
  | torn herror =>
    rw [h] at herror
    exact absurd (herror ▸ List.mem_cons_of_mem _ (List.mem_cons_of_mem _ List.mem_cons_self)) hnone

/-- So is any token that is not the last one, but a torn word. -/
theorem Settles.append_of_ne {f : Bytes → Token × Bytes} {token : Token} (hs : Settles f s)
    (h : f s = (token, r)) (hrest : r ≠ []) (herror : token ≠ .error) (q : Bytes) :
    f (s ++ q) = (token, r ++ q) := by
  cases hs with
  | fixed hfixed => rw [hfixed, h]
  | last hlast =>
    rw [h] at hlast
    exact absurd hlast hrest
  | number hlast =>
    rw [h] at hlast
    exact absurd hlast hrest
  | torn htorn =>
    rw [h] at htorn
    exact absurd htorn herror

/-! ## Members -/

/-- A place with more text behind it. -/
def Place.append (q : Bytes) : Place → Place
  | close s => .close (s ++ q)
  | bad s => .bad (s ++ q)
  | more name s => .more name (s ++ q)

def Place.IsBad : Place → Prop
  | bad _ => True
  | _ => False

theorem readName_append {name : Bytes} (h : ¬ (readName name s).IsBad) (q : Bytes) :
    readName name (s ++ q) = (readName name s).append q := by
  have hname := settles_skipCommentTokens s
  simp only [readName] at h ⊢
  cases htoken : skipCommentTokens s.length s with
  | mk token r =>
    rw [htoken] at h
    simp only at h
    split at h
    · next hclose =>
      have hq := hname.append htoken (by simp [hclose.1]) (by simp [hclose.1]) q
      rw [hq]
      simp only [if_pos hclose]
      rfl
    · next hopen =>
      split at h
      · next content =>
        have hq := hname.append htoken (by simp) (by simp) q
        rw [hq]
        simp only [if_neg hopen]
        split at h
        · exact absurd trivial h
        · next key hkey =>
          cases hcolon : readToken r with
          | mk colon r' =>
            rw [hcolon] at h
            simp only at h
            split at h
            · next hmember =>
              have hq' := (settles_readToken r).append hcolon (by simp [hmember]) (by simp [hmember]) q
              simp only [hq', if_pos hmember]
              rfl
            · exact absurd trivial h
      · exact absurd trivial h

/-- Where no token is, there is no name. -/
theorem isBad_readName {name : Bytes} (h : r = [] ∨ (readToken r).1 = .error) :
    (readName name r).IsBad := by
  rcases h with rfl | h
  · simp [readName, skipCommentTokens, readToken, skipSpaces, Place.IsBad]
  · have htoken : skipCommentTokens r.length r = readToken r := skipCommentTokens_of_ne (by simp [h])
    simp [readName, htoken, h, Place.IsBad]

/-- Behind a comment another token may be taken for the comma; if that depends on what follows, no name
does. -/
theorem readComma_append {name : Bytes} (h : ¬ (readComma name s).IsBad) :
    (∀ q, readComma name (s ++ q) = (readComma name s).append q) ∨
      ∃ r, readComma name s = .more name r ∧ ∀ name', (readName name' r).IsBad := by
  have hcomma := settles_readToken s
  simp only [readComma] at h ⊢
  cases htoken : readToken s with
  | mk token r =>
    rw [htoken] at h
    simp only at h ⊢
    split at h
    · next hclose =>
      refine .inl fun q => ?_
      rw [hcomma.append htoken (by simp [hclose]) (by simp [hclose]) q]
      simp only [if_pos hclose]
      rfl
    · next hclose =>
      split at h
      · next hseparator =>
        refine .inl fun q => ?_
        rw [hcomma.append htoken (by simp [hseparator]) (by simp [hseparator]) q]
        simp only [if_neg hclose, if_pos hseparator]
        rfl
      · next hseparator =>
        split at h
        · next hcomment =>
          by_cases hrest : r = []
          · subst hrest
            refine .inr ⟨[], ?_, fun _ => isBad_readName (.inl rfl)⟩
            simp only [if_neg hclose, if_neg hseparator, if_pos hcomment]
            rfl
          have hq := hcomma.append_of_ne htoken hrest (by simp [hcomment])
          simp only [hq, if_neg hclose, if_neg hseparator, if_pos hcomment]
          have hlast : ∀ token', token' ≠ .objectEnd → skipCommentTokens r.length r = (token', []) →
              ∃ r', (if (skipCommentTokens r.length r).1 = .objectEnd then
                  Place.close (skipCommentTokens r.length r).2
                else .more name (skipCommentTokens r.length r).2) = .more name r' ∧
                ∀ name', (readName name' r').IsBad := by
            intro token' hne heq
            refine ⟨[], ?_, fun _ => isBad_readName (.inl rfl)⟩
            rw [heq]
            exact if_neg hne
          cases settles_skipCommentTokens r with
          | fixed hfixed =>
            refine .inl fun q => ?_
            rw [hfixed]
            split <;> rfl
          | last hend hmem =>
            refine .inr (hlast (skipCommentTokens r.length r).1 (fun h => ?_) (Prod.ext rfl hend))
            have hmem : (skipCommentTokens r.length r).1 ∈ [Token.endOfStream, .comment, .error] := hmem
            simp [h] at hmem
          | number hend htext _ =>
            obtain ⟨text, htext⟩ : ∃ text, (skipCommentTokens r.length r).1 = .number text := htext
            exact .inr (hlast (skipCommentTokens r.length r).1 (by simp [htext]) (Prod.ext rfl hend))
          | torn herror hend =>
            have herror : (skipCommentTokens r.length r).1 = .error := herror
            exact .inr ⟨_, if_neg (by rw [herror]; simp), fun _ => isBad_readName (.inr hend)⟩
        · exact absurd trivial h

/-! ## Values -/

/-- Arrays and objects: the values that end with a bracket. -/
def IsContainer : Value → Prop
  | .array _ | .object _ => True
  | _ => False

/-- An outcome with more text behind it. -/
def push (q : Bytes) : Option Outcome → Option Outcome := Option.map fun p => (p.1, p.2.1, p.2.2 ++ q)

/-- A value that has been read and does not depend on what follows. -/
def Settled : Option Outcome → Prop
  | some (ok, v, r) => ok = true ∧ (r ≠ [] ∨ IsContainer v)
  | none => False

/-- A reader of a text with more behind it does what a reader of the text alone does. It may throw instead, if
that is allowed, and then it throws where the other one does. -/
structure Follows (allowed : Prop) (q : Bytes) (read read' : Value → Bytes → Option Outcome) : Prop where
  settled : ∀ old s, Settled (read old s) →
    read' old (s ++ q) = push q (read old s) ∨ allowed ∧ read' old (s ++ q) = none
  throws : allowed → ∀ old s, read old s = none → read' old (s ++ q) = none
  ended : allowed → ∀ old, read old [] ≠ none

/-- The same for two outcomes. -/
structure Agree (allowed : Prop) (q : Bytes) (x y : Option Outcome) : Prop where
  settled : ∀ v r, x = some (true, v, r) → y = push q x ∨ allowed ∧ y = none
  throws : allowed → x = none → y = none

section Follows

variable {allowed : Prop} {read read' : Value → Bytes → Option Outcome}

theorem agree_false {v : Value} {y : Option Outcome} : Agree allowed q (some (false, v, r)) y :=
  ⟨by rintro _ _ ⟨⟩, by rintro _ ⟨⟩⟩

theorem agree_none {y : Option Outcome} (h : allowed → y = none) : Agree allowed q none y :=
  ⟨by rintro _ _ ⟨⟩, fun hallowed _ => h hallowed⟩

theorem agree_push {x y : Option Outcome} (h : y = push q x) : Agree allowed q x y := by
  refine ⟨fun _ _ _ => .inl h, ?_⟩
  rintro _ rfl
  exact h

theorem agree_throws {x : Option Outcome} (h : allowed) : Agree allowed q x none :=
  ⟨fun _ _ _ => .inr ⟨h, rfl⟩, fun _ _ => rfl⟩

/-- A value with something behind it. -/
theorem Follows.value (h : Follows allowed q read read') {old v : Value}
    (hread : read old s = some (true, v, r)) (hrest : r ≠ []) :
    read' old (s ++ q) = some (true, v, r ++ q) ∨ allowed ∧ read' old (s ++ q) = none := by
  have hsettled := h.settled old s (by rw [hread]; exact ⟨rfl, .inl hrest⟩)
  rwa [hread] at hsettled

/-- No token but the end stands at the end of the text. -/
theorem ne_nil_of_token {token : Token} (h : skipCommentTokens s.length s = (token, r))
    (hne : token ≠ .endOfStream) : s ≠ [] := by
  rintro rfl
  cases h
  exact hne rfl

/-- **The loop over the elements**, by induction on its turns. -/
theorem readElements_follows (h : Follows allowed q read read') (hadvances : Advances read) {n n' : ℕ}
    {elements : List Value} (hn : s.length < n) (hn' : (s ++ q).length < n') :
    Agree allowed q (readElements read n elements s) (readElements read' n' elements (s ++ q)) := by
  induction n generalizing n' elements s with
  | zero => exact absurd hn (Nat.not_lt_zero _)
  | succ n ih =>
    obtain ⟨n', rfl⟩ : ∃ k, n' = k + 1 := ⟨n' - 1, by omega⟩
    simp only [readElements]
    cases hread : read .null s with
    | none => exact agree_none fun hallowed => by rw [h.throws hallowed _ _ hread]
    | some outcome =>
      obtain ⟨ok, v, s'⟩ := outcome
      cases ok with
      | false => exact agree_false
      | true =>
        have hle := hadvances _ _ _ _ _ hread
        cases htoken : skipCommentTokens s'.length s' with
        | mk token r =>
          have hlt := (length_skipCommentTokens_le s'.length s').2
          rw [htoken] at hlt
          simp only [htoken, Bool.not_true, Bool.false_eq_true, if_false]
          by_cases hend : token = .arrayEnd
          · have hne := ne_nil_of_token htoken (by simp [hend])
            rw [if_pos hend]
            rcases h.value hread hne with hq | ⟨hallowed, hq⟩
            · have htoken' := (settles_skipCommentTokens s').append htoken (by simp [hend]) (by simp [hend]) q
              refine agree_push ?_
              simp only [hq, htoken', Bool.not_true, Bool.false_eq_true, if_false, if_pos hend]
              rfl
            · rw [hq]
              exact agree_throws hallowed
          rw [if_neg hend]
          by_cases hseparator : token = .arraySeparator
          · have hne := ne_nil_of_token htoken (by simp [hseparator])
            have hlt : r.length < s'.length := hlt (by simp [hseparator])
            rw [if_pos hseparator]
            rcases h.value hread hne with hq | ⟨hallowed, hq⟩
            · have htoken' :=
                (settles_skipCommentTokens s').append htoken (by simp [hseparator]) (by simp [hseparator]) q
              simp only [hq, htoken', Bool.not_true, Bool.false_eq_true, if_false, if_neg hend,
                if_pos hseparator]
              rw [List.length_append] at hn'
              exact ih (by omega) (by rw [List.length_append]; omega)
            · rw [hq]
              exact agree_throws hallowed
          · rw [if_neg hseparator]
            exact agree_false

theorem readArray_follows (h : Follows allowed q read read') (hadvances : Advances read) :
    Agree allowed q (readArray read s) (readArray read' (s ++ q)) := by
  cases hspaces : skipSpaces s with
  | nil =>
    -- at the end of the text no element is read
    have hfails : readArray read s = none ∧ ¬ allowed ∨
        ∃ v r, readArray read s = some (false, v, r) := by
      rw [readArray, hspaces]
      simp only [readElements]
      cases hread : read .null [] with
      | none => exact .inl ⟨rfl, fun hallowed => h.ended hallowed _ hread⟩
      | some outcome =>
        obtain ⟨ok, v, s'⟩ := outcome
        refine .inr ?_
        cases ok with
        | false => exact ⟨_, _, rfl⟩
        | true =>
          have hle := hadvances _ _ _ _ _ hread
          obtain rfl := List.eq_nil_of_length_eq_zero (Nat.le_zero.1 hle)
          exact ⟨_, _, rfl⟩
    rcases hfails with ⟨hnone, hnot⟩ | ⟨v, r, hfalse⟩
    · rw [hnone]
      exact agree_none fun hallowed => absurd hallowed hnot
    · rw [hfalse]
      exact agree_false
  | cons c t =>
    have hmore : skipSpaces (s ++ q) = c :: (t ++ q) := by
      rw [skipSpaces_append (by simp [hspaces]), hspaces, List.cons_append]
    by_cases hclose : c = 0x5D
    · subst hclose
      refine agree_push ?_
      simp only [readArray, hspaces, hmore]
      rfl
    · have hrest : ∀ u : Bytes, ∀ f, skipSpaces u = c :: f → ∀ rd, readArray rd u =
          readElements rd ((c :: f).length + 1) [] (c :: f) := by
        intro u f hu rd
        rw [readArray, hu]
        split
        · next heq =>
          cases heq
          exact absurd rfl hclose
        · rfl
      rw [hrest _ _ hspaces, hrest _ _ hmore]
      exact readElements_follows (s := c :: t) h hadvances (Nat.lt_succ_self _) (Nat.lt_succ_self _)

theorem readObject_of_isBad {n : ℕ} {members : List (Bytes × Value)} {name : Bytes}
    (h : (readName name s).IsBad) : ∃ v r, readObject read n members name s = some (false, v, r) := by
  cases n with
  | zero => exact ⟨_, _, rfl⟩
  | succ n =>
    cases hname : readName name s with
    | bad s' =>
      simp only [readObject, hname]
      exact ⟨_, _, rfl⟩
    | close s' | more name' s' =>
      rw [hname] at h
      exact h.elim

/-- **The loop over the members.** -/
theorem readObject_follows (h : Follows allowed q read read') (hadvances : Advances read) {n n' : ℕ}
    {members : List (Bytes × Value)} {name : Bytes} (hn : s.length < n) (hn' : (s ++ q).length < n') :
    Agree allowed q (readObject read n members name s) (readObject read' n' members name (s ++ q)) := by
  induction n generalizing n' members name s with
  | zero => exact absurd hn (Nat.not_lt_zero _)
  | succ n ih =>
    obtain ⟨n', rfl⟩ : ∃ k, n' = k + 1 := ⟨n' - 1, by omega⟩
    have hlength := length_readName name s
    cases hname : readName name s with
    | bad s' =>
      simp only [readObject, hname]
      exact agree_false
    | close s' =>
      have hname' : readName name (s ++ q) = (readName name s).append q :=
        readName_append (by simp [hname, Place.IsBad]) q
      rw [hname] at hname'
      refine agree_push ?_
      simp only [readObject, hname, hname', Place.append]
      rfl
    | more key s' =>
      have hname' : readName name (s ++ q) = (readName name s).append q :=
        readName_append (by simp [hname, Place.IsBad]) q
      rw [hname] at hname'
      have hlt := hlength.2 _ _ hname
      simp only [readObject, hname, hname', Place.append]
      cases hread : read (Value.lookup members (key.take (key.length % 2 ^ 30))) s' with
      | none => exact agree_none fun hallowed => by rw [h.throws hallowed _ _ hread]
      | some outcome =>
        obtain ⟨ok, v, s''⟩ := outcome
        cases ok with
        | false => exact agree_false
        | true =>
          have hle := hadvances _ _ _ _ _ hread
          have hcommaLength := length_readComma key s''
          have hne : ¬ (readComma key s'').IsBad → s'' ≠ [] := by
            rintro hgood rfl
            exact hgood trivial
          simp only [Bool.not_true, Bool.false_eq_true, if_false]
          cases hcomma : readComma key s'' with
          | bad u => exact agree_false
          | close u =>
            have hgood : ¬ (readComma key s'').IsBad := by simp [hcomma, Place.IsBad]
            rcases h.value hread (hne hgood) with hq | ⟨hallowed, hq⟩
            · rcases readComma_append hgood with hfixed | ⟨u', hmore, -⟩
              · refine agree_push ?_
                simp only [hq, hfixed, hcomma, Place.append, Bool.not_true, Bool.false_eq_true, if_false]
                rfl
              · rw [hcomma] at hmore
                cases hmore
            · rw [hq]
              exact agree_throws hallowed
          | more key' u =>
            have hgood : ¬ (readComma key s'').IsBad := by simp [hcomma, Place.IsBad]
            rcases h.value hread (hne hgood) with hq | ⟨hallowed, hq⟩
            · rcases readComma_append hgood with hfixed | ⟨u', hmore, hbad⟩
              · simp only [hq, hfixed, hcomma, Place.append, Bool.not_true, Bool.false_eq_true, if_false]
                rw [hcomma] at hcommaLength
                simp only [Place.text] at hcommaLength
                rw [List.length_append] at hn'
                exact ih (by omega) (by rw [List.length_append]; omega)
              · rw [hcomma] at hmore
                cases hmore
                obtain ⟨v', r', hfalse⟩ : ∃ v' r', readObject read n
                    (Value.setMember (key.take (key.length % 2 ^ 30)) v members) key u =
                      some (false, v', r') := readObject_of_isBad (hbad key)
                dsimp only
                rw [hfalse]
                exact agree_false
            · rw [hq]
              exact agree_throws hallowed

end Follows

theorem not_isContainer_of_decodeNumber {text : Bytes} {v : Value} (h : decodeNumber text = some v) :
    ¬ IsContainer v := by
  have hdouble : decodeDouble text = some v → ¬ IsContainer v := by
    intro h
    simp only [decodeDouble, Option.ite_none_left_eq_some] at h
    obtain ⟨-, h⟩ := h
    cases h
    exact not_false
  unfold decodeNumber at h
  split at h
  · split at h
    · cases h
      exact not_false
    · exact hdouble h
  · split at h
    · cases h
      split <;> exact not_false
    · exact hdouble h

theorem readValue_nil (d : ℕ) (old : Value) : readValue (d + 1) old [] = some (false, old, []) := rfl

/-- **A reader of values follows one** when its readers of their parts do. -/
theorem Follows.succ {allowed : Prop} {d d' : ℕ} (h : Follows allowed q (readValue d) (readValue d')) :
    Follows allowed q (readValue (d + 1)) (readValue (d' + 1)) := by
  have hagree : ∀ old s, Settled (readValue (d + 1) old s) ∨ readValue (d + 1) old s = none →
      Agree allowed q (readValue (d + 1) old s) (readValue (d' + 1) old (s ++ q)) := by
    intro old s hx
    have hnext := settles_skipCommentTokens s
    cases htoken : skipCommentTokens s.length s with
    | mk token r =>
      simp only [readValue, htoken] at hx ⊢
      cases token with
      | objectBegin =>
        simp only [hnext.append htoken (by simp) (by simp) q]
        exact readObject_follows h (advances_readValue d) (Nat.lt_succ_self _) (Nat.lt_succ_self _)
      | arrayBegin =>
        simp only [hnext.append htoken (by simp) (by simp) q]
        exact readArray_follows h (advances_readValue d)
      | number text =>
        cases hdecode : decodeNumber text with
        | none =>
          simp only [hdecode]
          exact agree_false
        | some v =>
          have hscalar := not_isContainer_of_decodeNumber hdecode
          have hrest : r ≠ [] := by
            simp only [hdecode] at hx
            rcases hx with ⟨-, hne | hcontainer⟩ | hnone
            · exact hne
            · exact absurd hcontainer hscalar
            · cases hnone
          refine agree_push ?_
          simp only [hnext.append_of_ne htoken hrest (by simp) q, hdecode]
          rfl
      | string content =>
        simp only [hnext.append htoken (by simp) (by simp) q]
        cases decodeString content with
        | none => exact agree_false
        | some decoded =>
          refine agree_push ?_
          cases hstored : Value.ofString decoded <;> simp [hstored, push]
      | true | false | null =>
        refine agree_push ?_
        simp only [hnext.append htoken (by simp) (by simp) q]
        rfl
      | _ => exact agree_false
  refine ⟨fun old s hs => ?_, fun hallowed old s hnone => ?_, fun _ old => by simp [readValue_nil]⟩
  · have hsettled := (hagree old s (.inl hs)).settled
    cases hread : readValue (d + 1) old s with
    | none =>
      rw [hread] at hs
      exact hs.elim
    | some outcome =>
      obtain ⟨ok, v, r⟩ := outcome
      rw [hread] at hs
      obtain ⟨rfl, -⟩ := hs
      rw [hread] at hsettled
      exact hsettled v r rfl
  · exact (hagree old s (.inr hnone)).throws hallowed hnone

/-- More text behind a value changes nothing. -/
theorem follows_readValue (q : Bytes) (d : ℕ) : Follows False q (readValue d) (readValue d) := by
  induction d with
  | zero => exact ⟨fun _ _ h => h.elim, False.elim, False.elim⟩
  | succ d ih => exact ih.succ

/-- Where the front of a text throws, the whole text throws with one value less. -/
theorem follows_readValue_less (q : Bytes) (d : ℕ) : Follows True q (readValue (d + 1)) (readValue d) := by
  induction d with
  | zero => exact ⟨fun _ _ _ => .inr ⟨trivial, rfl⟩, fun _ _ _ _ => rfl, fun _ old => by simp [readValue_nil]⟩
  | succ d ih => exact ih.succ

/-! ## Documents -/

/-- **What is accepted as an array or object is accepted with anything behind it.** -/
theorem accepted_append {p : Bytes} {root : Value} (h : parse p = some (true, root))
    (hroot : IsContainer root) (q : Bytes) : parse (p ++ q) = some (true, root) := by
  obtain ⟨⟨ok, v, r⟩, hread, heq⟩ := Option.map_eq_some_iff.1 h
  cases heq
  have hsettled := (follows_readValue q stackLimit).settled .null p (by rw [hread]; exact ⟨rfl, .inr hroot⟩)
  rw [hread] at hsettled
  rw [parse, hsettled.resolve_right fun h => h.1]
  rfl

/-- The first token tells arrays and objects from other values. -/
theorem isContainer_iff {d : ℕ} {old v : Value} (h : readValue (d + 1) old s = some (true, v, r)) :
    IsContainer v ↔
      (skipCommentTokens s.length s).1 ∈ [Token.objectBegin, .arrayBegin] := by
  cases htoken : skipCommentTokens s.length s with
  | mk token t =>
    simp only [readValue, htoken] at h
    cases token with
    | objectBegin =>
      have htrue : OfTokens fun _ => True := ⟨trivial, by simp, by simp, by simp, by simp, by simp⟩
      obtain ⟨members, hv, -⟩ := readObject_of htrue (by simp) (by simp) h
      obtain rfl : v = .object members := hv
      exact iff_of_true trivial (by simp)
    | arrayBegin =>
      obtain ⟨elements, hv⟩ := readArray_array h
      obtain rfl : v = .array elements := hv
      exact iff_of_true trivial (by simp)
    | number text =>
      cases hdecode : decodeNumber text with
      | none => simp [hdecode] at h
      | some w =>
        simp only [hdecode] at h
        cases h
        exact iff_of_false (not_isContainer_of_decodeNumber hdecode) (by simp)
    | string content =>
      cases hdecode : decodeString content with
      | none => simp [hdecode] at h
      | some decoded =>
        simp only [hdecode] at h
        obtain ⟨w, hw, heq⟩ := Option.map_eq_some_iff.1 h
        cases heq
        rw [Value.ofString, Option.ite_none_right_eq_some] at hw
        cases hw.2
        exact iff_of_false not_false (by simp)
    | true | false | null =>
      cases h
      exact iff_of_false not_false (by simp)
    | _ => cases h

/-- An accepted value begins with a token. -/
theorem token_of_accepted {d : ℕ} {old v : Value} (h : readValue (d + 1) old s = some (true, v, r)) :
    (skipCommentTokens s.length s).1 ∉ [Token.endOfStream, .comment, .error] := by
  intro hmem
  simp only [readValue] at h
  simp only [List.mem_cons, List.not_mem_nil, or_false] at hmem
  rcases hmem with htoken | htoken | htoken <;> (rw [htoken] at h; cases h)

/-- A front of an array or object that is accepted is one, too. -/
theorem isContainer_of_front {p : Bytes} {v root : Value} (h : parse p = some (true, v))
    (hmore : parse (p ++ q) = some (true, root)) (hroot : IsContainer root) : IsContainer v := by
  obtain ⟨⟨ok, w, r⟩, hread, heq⟩ := Option.map_eq_some_iff.1 h
  cases heq
  obtain ⟨⟨ok, w, r'⟩, hread', heq⟩ := Option.map_eq_some_iff.1 hmore
  cases heq
  have hbegin := (isContainer_iff (d := 999) hread').1 hroot
  refine (isContainer_iff (d := 999) hread).2 ?_
  cases settles_skipCommentTokens p with
  | fixed hfixed =>
    rw [hfixed] at hbegin
    exact hbegin
  | last _ hlast => exact absurd hlast (token_of_accepted (d := 999) hread)
  | number _ _ hnumber =>
    obtain ⟨text, htext⟩ : ∃ text, (skipCommentTokens (p ++ q).length (p ++ q)).1 = .number text :=
      hnumber q
    rw [htext] at hbegin
    simp at hbegin
  | torn herror =>
    have herror : (skipCommentTokens p.length p).1 = .error := herror
    exact absurd (by simp [herror]) (token_of_accepted (d := 999) hread)

/-- **A document ends once.** Of the fronts of an array or object that is accepted, exactly one is accepted
whatever follows, and no proper front of it is accepted. -/
theorem ends_once {t : Bytes} {root : Value} (h : parse t = some (true, root)) (hroot : IsContainer root) :
    ∃! f, f <+: t ∧ (∀ rest, parse (f ++ rest) = some (true, root)) ∧
      ∀ front, front <+: f → front ≠ f → ∀ v, parse front ≠ some (true, v) := by
  -- the shortest front that is accepted
  have hsome : ∃ n, n ≤ t.length ∧ ∃ v, parse (t.take n) = some (true, v) :=
    ⟨t.length, le_rfl, root, by rwa [List.take_length]⟩
  classical
  obtain ⟨hle, v, hv⟩ := Nat.find_spec hsome
  have hmin := @Nat.find_min _ _ hsome
  generalize Nat.find hsome = n at hle hv hmin
  have hwhole : parse (t.take n ++ t.drop n) = some (true, root) := by rwa [List.take_append_drop]
  have hv' := isContainer_of_front hv hwhole hroot
  obtain rfl : v = root := by
    have hsame := (accepted_append hv hv' (t.drop n)).symm.trans hwhole
    simpa using hsame
  have hfronts : ∀ front, front <+: t.take n → front ≠ t.take n → ∀ v, parse front ≠ some (true, v) := by
    intro front hfront hne w hw
    have hlength : front.length < n := by
      refine lt_of_le_of_ne (hfront.length_le.trans (List.length_take_le _ _)) fun heq => hne ?_
      exact hfront.eq_of_length (by rw [List.length_take, heq, min_eq_left hle])
    refine hmin hlength ⟨by omega, w, ?_⟩
    rwa [← List.prefix_iff_eq_take.1 (hfront.trans (List.take_prefix n t))]
  refine ⟨t.take n, ⟨List.take_prefix n t, accepted_append hv hv', hfronts⟩, ?_⟩
  rintro f ⟨hf, haccepted, hshorter⟩
  have hfv : parse f = some (true, v) := by simpa using haccepted []
  rcases List.prefix_or_prefix_of_prefix hf (List.take_prefix n t) with hfront | hfront
  · by_contra hne
    exact hfronts f hfront hne _ hfv
  · by_contra hne
    exact hshorter _ hfront (Ne.symm hne) _ hv

/-- The document ends at its bracket, and what follows is not looked at. -/
theorem ends_once_bracket :
    ∃! f, f <+: ascii "[[], 1]]" ∧ (∀ rest, parse (f ++ rest) = some (true, .array [.array [], .int 1])) ∧
      ∀ front, front <+: f → front ≠ f → ∀ v, parse front ≠ some (true, v) :=
  ends_once rfl trivial

section Texts

variable {text : Bytes} {v : JsonText.Tree}

/-- A text of the grammar alone. -/
theorem readValue_of_isText (h : JsonText.IsText (stackLimit - 1) text v) (hlength : text.length < 2 ^ 30)
    {d : ℕ} (hd : stackLimit - 1 ≤ d) : readValue d .null text = some (true, Value.ofTree v, []) := by
  have hwhole := Writer.readsAs_text h hlength d .null [] hd (by simp [Writer.Stops])
  rwa [List.append_nil] at hwhole

theorem parse_of_isText (h : JsonText.IsText (stackLimit - 1) text v) (hlength : text.length < 2 ^ 30) :
    parse text = some (true, Value.ofTree v) := by
  rw [parse, readValue_of_isText h hlength (Nat.sub_le _ _)]
  rfl

theorem accepted_of_isText (h : JsonText.IsText (stackLimit - 1) text v) (hlength : text.length < 2 ^ 30)
    (hcontainer : IsContainer (Value.ofTree v)) (rest : Bytes) :
    parse (text ++ rest) = some (true, Value.ofTree v) :=
  accepted_append (parse_of_isText h hlength) hcontainer rest

/-- On a front the reader does not throw, since with one level less it reads the whole text; and it does not
accept the front, since then it would leave what follows. -/
theorem rejected_of_isText (h : JsonText.IsText (stackLimit - 1) text v) (hlength : text.length < 2 ^ 30)
    (hcontainer : IsContainer (Value.ofTree v)) {front : Bytes} (hfront : front <+: text)
    (hne : front ≠ text) : ∃ left, parse front = some (false, left) := by
  have hparse := parse_of_isText h hlength
  obtain ⟨q, rfl⟩ := hfront
  have hq : q ≠ [] := by
    rintro rfl
    exact hne (List.append_nil _).symm
  cases hread : readValue stackLimit .null front with
  | none =>
    have hthrows := (follows_readValue_less q (stackLimit - 1)).throws trivial .null front hread
    rw [readValue_of_isText h hlength le_rfl] at hthrows
    cases hthrows
  | some outcome =>
    obtain ⟨ok, w, r⟩ := outcome
    cases ok with
    | false => exact ⟨w, by rw [parse, hread]; rfl⟩
    | true =>
      have hw : parse front = some (true, w) := by rw [parse, hread]; rfl
      have hsettled := (follows_readValue q stackLimit).settled .null front
        (by rw [hread]; exact ⟨rfl, .inr (isContainer_of_front hw hparse hcontainer)⟩)
      rw [hread, readValue_of_isText h hlength (Nat.sub_le _ _)] at hsettled
      have hrest := hsettled.resolve_right fun h => h.1
      simp only [push, Option.map_some, Option.some.injEq, Prod.mk.injEq] at hrest
      exact absurd (List.append_eq_nil_iff.1 hrest.2.2.symm).2 hq

/-- **A text of the grammar is recognised at its last byte.** An array or object with less than a thousand
values open is accepted with anything behind it, and every proper front of it is rejected. -/
theorem recognised (h : JsonText.IsText (stackLimit - 1) text v)
    (hlength : text.length < 2 ^ 30) (hcontainer : IsContainer (Value.ofTree v)) :
    (∀ rest, parse (text ++ rest) = some (true, Value.ofTree v)) ∧
      ∀ front, front <+: text → front ≠ text → ∃ left, parse front = some (false, left) :=
  ⟨accepted_of_isText h hlength hcontainer, fun _ => rejected_of_isText h hlength hcontainer⟩

end Texts

theorem recognised_null :
    (∀ rest, parse (ascii "[null]" ++ rest) = some (true, .array [.null])) ∧
      ∀ front, front <+: ascii "[null]" → front ≠ ascii "[null]" →
        ∃ left, parse front = some (false, left) := by
  have h : JsonText.IsText (stackLimit - 1) (ascii "[null]") (.array [.null]) :=
    .array (.last JsonText.blank_nil JsonText.Form.null JsonText.blank_nil)
  exact recognised h (by decide) trivial

end Reader

end Json

end GraduationServer
