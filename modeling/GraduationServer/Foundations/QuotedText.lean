import GraduationServer.Foundations.Bytes
import Mathlib.Data.List.TakeWhile

/-!
# Text with single-quoted literals

How a text is divided into single-quoted literals and the text between them, where a literal may
hold a quote written twice and escapes introduced by a backslash (the syntax of MySQL strings).

* `readLiteral` reads one literal from behind its opening quote, `readSegments` the whole text, as
  the list of the texts before each literal with the value of the literal, and the text behind the
  last one (`Reading`).
* `Reading.render` writes a reading back with its values between quotes and nothing escaped.
* A `Template` is the fixed texts of a statement around the places of its values, such that what is
  rendered never puts two quotes next to each other by itself; `Template.fill` puts values in.
* `Verbatim v` says that `v`, put between quotes, denotes itself: no quote occurs in it, and a
  backslash only where the two characters `\%` or `\_` stand, which denote themselves.

`readText_fill_iff` is the result: a filled template reads as its own texts and values exactly when
every value is verbatim. The direction from the reading to the values counts bytes: a literal never
denotes more bytes than stand between its quotes (`length_readLiteral_le`), and one that denotes as
many stands there verbatim (`eq_of_readLiteral`). A filled template of values with neither quotes nor
backslashes that is cut short reads as itself or not at all (`readText_cut`).
-/

namespace GraduationServer

namespace QuotedText

/-- The byte `'`. -/
def quote : UInt8 := 0x27

/-- The byte `\`. -/
def backslash : UInt8 := 0x5C

/-- What an escape denotes, by the byte behind the backslash; `\%` and `\_` stand for both bytes. -/
def escaped (c : UInt8) : Bytes :=
  if c = 0x30 then [0x00]
  else if c = 0x62 then [0x08]
  else if c = 0x6E then [0x0A]
  else if c = 0x72 then [0x0D]
  else if c = 0x74 then [0x09]
  else if c = 0x5A then [0x1A]
  else if c = 0x25 ∨ c = 0x5F then [backslash, c]
  else [c]

/-- A literal read from behind its opening quote: its value and the text behind its closing quote;
`none` when it does not end. -/
def readLiteral : Bytes → Option (Bytes × Bytes)
  | [] => none
  | [c] => if c = quote then some ([], []) else none
  | c :: d :: s =>
    if c = quote then
      if d = quote then (readLiteral s).map fun p => (quote :: p.1, p.2) else some ([], d :: s)
    else if c = backslash then (readLiteral s).map fun p => (escaped d ++ p.1, p.2)
    else (readLiteral (d :: s)).map fun p => (c :: p.1, p.2)

/-- The literals of a text, each with the text before it, and the text behind the last one. -/
structure Reading where
  segments : List (Bytes × Bytes)
  tail : Bytes
  deriving DecidableEq

/-- The reading of a text that opens at most `n` literals. -/
def readSegments : ℕ → Bytes → Option Reading
  | 0, s => some ⟨[], s⟩
  | n + 1, s =>
    match s.dropWhile (· ≠ quote) with
    | [] => some ⟨[], s⟩
    | _ :: body =>
      (readLiteral body).bind fun p =>
        (readSegments n p.2).map fun r =>
          ⟨(s.takeWhile (· ≠ quote), p.1) :: r.segments, r.tail⟩

/-- The reading of a text; a text of `n` bytes opens at most `n` literals. -/
def readText (s : Bytes) : Option Reading := readSegments s.length s

/-- The text of a list of literals, each behind its text, before the last text. -/
def renderSegments : List (Bytes × Bytes) → Bytes → Bytes
  | [], tail => tail
  | (t, v) :: segments, tail => t ++ quote :: (v ++ quote :: renderSegments segments tail)

/-- A reading written back, its values between quotes as they are. -/
def Reading.render (r : Reading) : Bytes := renderSegments r.segments r.tail

/-- The fixed texts of a statement: one before each value and one behind the last. They hold no
quote, and what stands behind a value is not empty. -/
structure Template where
  texts : List Bytes
  tail : Bytes
  unquoted : ∀ t ∈ tail :: texts, quote ∉ t
  apart : ∀ t ∈ tail :: texts.tail, t ≠ []

/-- A template with values in its places. -/
def Template.fill (T : Template) (values : List Bytes) : Reading := ⟨T.texts.zip values, T.tail⟩

/-- A value that denotes itself between quotes. -/
def Verbatim : Bytes → Prop
  | [] => True
  | [c] => c ≠ quote ∧ c ≠ backslash
  | c :: d :: s =>
    if c = backslash then (d = 0x25 ∨ d = 0x5F) ∧ Verbatim s else c ≠ quote ∧ Verbatim (d :: s)

/-! ## One literal -/

theorem length_escaped_le (c : UInt8) : (escaped c).length ≤ 2 := by
  unfold escaped
  split_ifs <;> simp

theorem length_escaped_eq_two {c : UInt8} (h : (escaped c).length = 2) :
    (c = 0x25 ∨ c = 0x5F) ∧ escaped c = [backslash, c] := by
  unfold escaped at h ⊢
  split_ifs at h ⊢ <;> simp_all

theorem escaped_of_wildcard {c : UInt8} (h : c = 0x25 ∨ c = 0x5F) :
    escaped c = [backslash, c] := by
  rcases h with rfl | rfl <;> decide

/-- A literal denotes no more bytes than stand between its quotes. -/
theorem length_readLiteral_le {s v rest : Bytes} (h : readLiteral s = some (v, rest)) :
    v.length + 1 + rest.length ≤ s.length := by
  induction s using readLiteral.induct generalizing v rest with
  | case1 => simp [readLiteral] at h
  | case2 => simp_all [readLiteral]
  | case3 => simp_all [readLiteral]
  | case4 s ih =>
    simp only [readLiteral, if_true, Option.map_eq_some_iff, Prod.mk.injEq, Prod.exists] at h
    obtain ⟨v', rest', hr, rfl, rfl⟩ := h
    have := ih hr
    simp only [List.length_cons]
    omega
  | case5 d s hd =>
    simp only [readLiteral, if_true, if_neg hd, Option.some.injEq, Prod.mk.injEq] at h
    obtain ⟨rfl, rfl⟩ := h
    simp only [List.length_nil, List.length_cons]
    omega
  | case6 d s hq ih =>
    simp only [readLiteral, if_neg hq, if_true, Option.map_eq_some_iff, Prod.mk.injEq,
      Prod.exists] at h
    obtain ⟨v', rest', hr, rfl, rfl⟩ := h
    have := ih hr
    have := length_escaped_le d
    simp only [List.length_append, List.length_cons]
    omega
  | case7 c d s hq hb ih =>
    simp only [readLiteral, if_neg hq, if_neg hb, Option.map_eq_some_iff, Prod.mk.injEq,
      Prod.exists] at h
    obtain ⟨v', rest', hr, rfl, rfl⟩ := h
    have := ih hr
    simp only [List.length_cons] at this ⊢
    omega

/-- A literal that denotes as many bytes as stand between its quotes stands there verbatim. -/
theorem eq_of_readLiteral {s v rest : Bytes} (h : readLiteral s = some (v, rest))
    (hlen : s.length ≤ v.length + 1 + rest.length) : s = v ++ quote :: rest ∧ Verbatim v := by
  induction s using readLiteral.induct generalizing v rest with
  | case1 => simp [readLiteral] at h
  | case2 => simp_all [readLiteral, Verbatim]
  | case3 => simp_all [readLiteral]
  | case4 s ih =>
    simp only [readLiteral, if_true, Option.map_eq_some_iff, Prod.mk.injEq, Prod.exists] at h
    obtain ⟨v', rest', hr, rfl, rfl⟩ := h
    -- a doubled quote denotes one byte, so the literal is too short
    have := length_readLiteral_le hr
    simp only [List.length_cons] at hlen
    omega
  | case5 d s hd =>
    simp only [readLiteral, if_true, if_neg hd, Option.some.injEq, Prod.mk.injEq] at h
    obtain ⟨rfl, rfl⟩ := h
    simp [Verbatim]
  | case6 d s hq ih =>
    simp only [readLiteral, if_neg hq, if_true, Option.map_eq_some_iff, Prod.mk.injEq,
      Prod.exists] at h
    obtain ⟨v', rest', hr, rfl, rfl⟩ := h
    have hle := length_readLiteral_le hr
    have hesc := length_escaped_le d
    simp only [List.length_append, List.length_cons] at hlen
    obtain ⟨hd, he⟩ := length_escaped_eq_two (c := d) (by omega)
    obtain ⟨rfl, hv⟩ := ih hr (by omega)
    rw [he]
    simp [Verbatim, hd, hv]
  | case7 c d s hq hb ih =>
    simp only [readLiteral, if_neg hq, if_neg hb, Option.map_eq_some_iff, Prod.mk.injEq,
      Prod.exists] at h
    obtain ⟨v', rest', hr, rfl, rfl⟩ := h
    simp only [List.length_cons] at hlen
    obtain ⟨hs, hv⟩ := ih hr (by simp only [List.length_cons]; omega)
    refine ⟨by rw [hs]; rfl, ?_⟩
    cases v' with
    | nil => exact ⟨hq, hb⟩
    | cons e v' => simp [Verbatim, hb, hq, hv]

/-- A verbatim value between quotes is read back, when no further quote follows. -/
theorem readLiteral_verbatim {v rest : Bytes} (hv : Verbatim v) (hrest : rest.head? ≠ some quote) :
    readLiteral (v ++ quote :: rest) = some (v, rest) := by
  induction v using Verbatim.induct with
  | case1 =>
    cases rest with
    | nil => simp [readLiteral]
    | cons d s => simpa [readLiteral] using hrest
  | case2 c =>
    obtain ⟨hq, hb⟩ := hv
    have ih : readLiteral (quote :: rest) = some ([], rest) := by
      cases rest with
      | nil => simp [readLiteral]
      | cons d s => simpa [readLiteral] using hrest
    simp [readLiteral, hq, hb, ih]
  | case3 d s ih =>
    simp only [Verbatim, if_true] at hv
    have hbq : backslash ≠ quote := by decide
    simp [readLiteral, hbq, ih hv.2, escaped_of_wildcard hv.1]
  | case4 c d s hb ih =>
    simp only [Verbatim, if_neg hb] at hv
    have ih := ih hv.2
    rw [List.cons_append] at ih
    simp [readLiteral, hv.1, hb, ih]

/-! ## A whole text -/

theorem takeWhile_unquoted {t s : Bytes} (ht : quote ∉ t) :
    (t ++ quote :: s).takeWhile (· ≠ quote) = t ∧
      (t ++ quote :: s).dropWhile (· ≠ quote) = quote :: s := by
  have hall : ∀ c ∈ t, decide (c ≠ quote) = true := by
    intro c hc
    simpa using fun h : c = quote => ht (h ▸ hc)
  rw [List.takeWhile_append_of_pos hall, List.dropWhile_append_of_pos hall]
  simp

/-- A text behind its next literal is read as the text before the literal, the literal and the
reading of what follows. -/
theorem readSegments_literal {t s : Bytes} (ht : quote ∉ t) (n : ℕ) :
    readSegments (n + 1) (t ++ quote :: s) =
      (readLiteral s).bind fun p =>
        (readSegments n p.2).map fun r => ⟨(t, p.1) :: r.segments, r.tail⟩ := by
  rw [readSegments, (takeWhile_unquoted ht).1, (takeWhile_unquoted ht).2]

/-- A text without a quote is its own reading. -/
theorem readSegments_unquoted {t : Bytes} (ht : quote ∉ t) (n : ℕ) :
    readSegments n t = some ⟨[], t⟩ := by
  cases n with
  | zero => rfl
  | succ n =>
    have hdrop : t.dropWhile (· ≠ quote) = [] := by
      refine List.dropWhile_eq_nil_iff.2 fun c hc => ?_
      simpa using fun h : c = quote => ht (h ▸ hc)
    rw [readSegments, hdrop]

/-- A reading renders to no more bytes than were read. -/
theorem length_render_le {n : ℕ} {s : Bytes} {r : Reading} (h : readSegments n s = some r) :
    r.render.length ≤ s.length := by
  induction n generalizing s r with
  | zero =>
    cases h
    exact le_rfl
  | succ n ih =>
    unfold readSegments at h
    split at h
    · cases h
      exact le_rfl
    · rename_i c body hdrop
      simp only [Option.bind_eq_some_iff, Option.map_eq_some_iff, Prod.exists] at h
      obtain ⟨v, rest, hlit, r', hr', rfl⟩ := h
      have hsplit := congrArg List.length (List.takeWhile_append_dropWhile (p := (· ≠ quote)) (l := s))
      have hrest := ih hr'
      have hbody := length_readLiteral_le hlit
      rw [hdrop] at hsplit
      simp only [Reading.render, renderSegments, List.length_append, List.length_cons] at *
      omega

theorem length_le_renderSegments (segments : List (Bytes × Bytes)) (tail : Bytes) :
    segments.length ≤ (renderSegments segments tail).length := by
  induction segments with
  | nil => simp
  | cons p segments ih =>
    simp only [renderSegments, List.length_append, List.length_cons]
    omega

/-- What is rendered behind a literal does not begin with a quote. -/
theorem head_renderSegments {segments : List (Bytes × Bytes)} {tail : Bytes}
    (hquote : ∀ t ∈ tail :: segments.map Prod.fst, quote ∉ t)
    (hne : ∀ t ∈ tail :: segments.map Prod.fst, t ≠ []) :
    (renderSegments segments tail).head? ≠ some quote := by
  have hhead : ∀ t s : Bytes, quote ∉ t → t ≠ [] → (t ++ s).head? ≠ some quote := by
    intro t s ht hne
    obtain ⟨c, t, rfl⟩ := List.exists_cons_of_ne_nil hne
    simpa using fun h : c = quote => ht (by simp [h])
  cases segments with
  | nil => simpa [renderSegments] using hhead tail [] (hquote tail (by simp)) (hne tail (by simp))
  | cons p segments => exact hhead p.1 _ (hquote p.1 (by simp)) (hne p.1 (by simp))

/-- The induction of `readText_fill_iff`, over the literals still to be read. -/
theorem readSegments_render_iff {segments : List (Bytes × Bytes)} {tail : Bytes} {n : ℕ}
    (hn : segments.length ≤ n) (hquote : ∀ t ∈ tail :: segments.map Prod.fst, quote ∉ t)
    (hne : ∀ t ∈ tail :: (segments.map Prod.fst).tail, t ≠ []) :
    readSegments n (renderSegments segments tail) = some ⟨segments, tail⟩ ↔
      ∀ p ∈ segments, Verbatim p.2 := by
  induction segments generalizing n with
  | nil => simp [renderSegments, readSegments_unquoted (hquote tail (by simp))]
  | cons p segments ih =>
    obtain ⟨t, v⟩ := p
    obtain ⟨n, rfl⟩ : ∃ k, n = k + 1 := ⟨n - 1, by simp only [List.length_cons] at hn; omega⟩
    have hquote' : ∀ t ∈ tail :: segments.map Prod.fst, quote ∉ t := by
      intro t ht
      exact hquote t (by simp only [List.map_cons, List.mem_cons] at ht ⊢; tauto)
    have ih := ih (n := n) (by simp only [List.length_cons] at hn; omega) hquote'
      (fun t ht => hne t (by
        rcases List.mem_cons.1 ht with rfl | ht
        · simp
        · exact List.mem_cons_of_mem _ (List.mem_of_mem_tail ht)))
    rw [renderSegments, readSegments_literal (hquote t (by simp)), List.forall_mem_cons, ← ih]
    constructor
    · intro h
      simp only [Option.bind_eq_some_iff, Option.map_eq_some_iff, Reading.mk.injEq,
        List.cons.injEq, Prod.mk.injEq, Prod.exists, true_and] at h
      obtain ⟨v', rest, hlit, r, hr, ⟨rfl, hsegs⟩, htail⟩ := h
      -- the rest cannot be shorter than its rendered reading, so the literal is as long as it can be
      have hlong := length_render_le hr
      rw [Reading.render, hsegs, htail] at hlong
      obtain ⟨heq, hv⟩ := eq_of_readLiteral hlit (by
        simp only [List.length_append, List.length_cons]
        omega)
      obtain rfl : rest = renderSegments segments tail := by simpa using heq.symm
      exact ⟨hv, by rw [hr, ← hsegs, ← htail]⟩
    · rintro ⟨hv, hr⟩
      have hlit := readLiteral_verbatim hv (head_renderSegments hquote' hne)
      rw [hlit]
      simp [hr]

/-- **A filled template reads as itself exactly when its values are verbatim.** -/
theorem readText_fill_iff (T : Template) (values : List Bytes)
    (hlen : values.length = T.texts.length) :
    readText (T.fill values).render = some (T.fill values) ↔ ∀ v ∈ values, Verbatim v := by
  have htexts : (T.texts.zip values).map Prod.fst = T.texts := List.map_fst_zip (by omega)
  have hvalues : (T.texts.zip values).map Prod.snd = values := List.map_snd_zip (by omega)
  rw [readText, Reading.render, Template.fill,
    readSegments_render_iff (length_le_renderSegments _ _) (by rw [htexts]; exact T.unquoted)
      (by rw [htexts]; exact T.apart)]
  conv_rhs => rw [← hvalues, List.forall_mem_map]

/-! ## Plain values -/

/-- A value with neither a quote nor a backslash. -/
def Plain (v : Bytes) : Prop := quote ∉ v ∧ backslash ∉ v

instance (v : Bytes) : Decidable (Plain v) := inferInstanceAs (Decidable (_ ∧ _))

theorem Plain.verbatim {v : Bytes} (h : Plain v) : Verbatim v := by
  induction v using Verbatim.induct with
  | case1 => trivial
  | case2 c => exact ⟨fun hc => h.1 (by simp [hc]), fun hc => h.2 (by simp [hc])⟩
  | case3 d s ih => exact absurd List.mem_cons_self h.2
  | case4 c d s hb ih =>
    rw [Verbatim, if_neg hb]
    exact ⟨fun hc => h.1 (by simp [hc]),
      ih ⟨fun hq => h.1 (List.mem_cons_of_mem _ hq), fun hb => h.2 (List.mem_cons_of_mem _ hb)⟩⟩

/-- A plain text without its closing quote is no literal. -/
theorem readLiteral_plain {v : Bytes} (h : Plain v) : readLiteral v = none := by
  induction v using readLiteral.induct with
  | case1 => rfl
  | case2 => exact absurd List.mem_cons_self h.1
  | case3 c hq => simp [readLiteral, hq]
  | case4 s ih => exact absurd List.mem_cons_self h.1
  | case5 d s hd => exact absurd List.mem_cons_self h.1
  | case6 d s hq ih => exact absurd List.mem_cons_self h.2
  | case7 c d s hq hb ih =>
    have ih := ih ⟨fun hq => h.1 (List.mem_cons_of_mem _ hq),
      fun hb => h.2 (List.mem_cons_of_mem _ hb)⟩
    simp [readLiteral, hq, hb, ih]

theorem takeWhile_append_cons_of_notMem {z c : UInt8} {t s : Bytes} (ht : z ∉ t) (hc : c ≠ z) :
    (t ++ c :: s).takeWhile (· ≠ z) = t ++ c :: s.takeWhile (· ≠ z) := by
  have hall : ∀ c ∈ t, decide (c ≠ z) = true := by
    intro c hc
    simpa using fun h : c = z => ht (h ▸ hc)
  rw [List.takeWhile_append_of_pos hall, List.takeWhile_cons_of_pos (by simpa using hc)]

/-- A text of plain values that is cut inside one of them ends inside a literal. -/
theorem readSegments_cut {segments : List (Bytes × Bytes)} {tail : Bytes} {n : ℕ} {z : UInt8}
    (hn : ((renderSegments segments tail).takeWhile (· ≠ z)).length ≤ n) (hz : z ≠ quote)
    (hquote : ∀ t ∈ tail :: segments.map Prod.fst, quote ∉ t ∧ z ∉ t)
    (hne : ∀ t ∈ tail :: (segments.map Prod.fst).tail, t ≠ [])
    (hplain : ∀ p ∈ segments, Plain p.2) (hmem : ∃ p ∈ segments, z ∈ p.2) :
    readSegments n ((renderSegments segments tail).takeWhile (· ≠ z)) = none := by
  induction segments generalizing n with
  | nil => simp at hmem
  | cons p segments ih =>
    obtain ⟨t, v⟩ := p
    have hv : Plain v := hplain (t, v) List.mem_cons_self
    have ht := hquote t (by simp)
    rw [renderSegments, takeWhile_append_cons_of_notMem ht.2 hz.symm] at hn ⊢
    simp only [List.length_append, List.length_cons] at hn
    obtain ⟨n, rfl⟩ : ∃ k, n = k + 1 := ⟨n - 1, by omega⟩
    rw [readSegments_literal ht.1]
    by_cases hzv : z ∈ v
    · -- the cut is in this value
      have hcut : ∀ s : Bytes, (v ++ s).takeWhile (· ≠ z) = v.takeWhile (· ≠ z) := by
        intro s
        rw [List.takeWhile_append, if_neg]
        intro hlen
        have hall := (List.takeWhile_prefix (· ≠ z)).eq_of_length (hlen : _ = v.length)
        exact absurd (List.mem_takeWhile_imp (hall.symm ▸ hzv)) (by simp)
      have hpart : Plain (v.takeWhile (· ≠ z)) :=
        ⟨fun h => hv.1 ((List.takeWhile_prefix _).subset h),
          fun h => hv.2 ((List.takeWhile_prefix _).subset h)⟩
      rw [hcut, readLiteral_plain hpart]
      rfl
    · -- the cut is behind this value
      have hquote' : ∀ t ∈ tail :: segments.map Prod.fst, quote ∉ t ∧ z ∉ t := by
        intro t ht
        exact hquote t (by simp only [List.map_cons, List.mem_cons] at ht ⊢; tauto)
      have hhead : ((renderSegments segments tail).takeWhile (· ≠ z)).head? ≠ some quote := by
        rw [List.head?_takeWhile]
        intro h
        exact head_renderSegments (fun t ht => (hquote' t ht).1) hne (Option.filter_eq_some_iff.1 h).1
      rw [takeWhile_append_cons_of_notMem hzv hz.symm] at hn ⊢
      simp only [List.length_append, List.length_cons] at hn
      have hrest := ih (n := n) (by omega) hquote'
        (fun t ht => hne t (by
          rcases List.mem_cons.1 ht with rfl | ht
          · simp
          · exact List.mem_cons_of_mem _ (List.mem_of_mem_tail ht)))
        (fun p hp => hplain p (List.mem_cons_of_mem _ hp)) (by simpa [hzv] using hmem)
      rw [readLiteral_verbatim hv.verbatim hhead, Option.bind_some, hrest]
      rfl

theorem mem_renderSegments {segments : List (Bytes × Bytes)} {tail : Bytes} {c : UInt8}
    (h : c ∈ renderSegments segments tail) :
    c = quote ∨ (∃ t ∈ tail :: segments.map Prod.fst, c ∈ t) ∨ ∃ p ∈ segments, c ∈ p.2 := by
  induction segments with
  | nil => exact Or.inr (Or.inl ⟨tail, by simp, h⟩)
  | cons p segments ih =>
    simp only [renderSegments, List.mem_append, List.mem_cons] at h
    rcases h with h | rfl | h | rfl | h
    · exact Or.inr (Or.inl ⟨p.1, by simp, h⟩)
    · exact Or.inl rfl
    · exact Or.inr (Or.inr ⟨p, by simp, h⟩)
    · exact Or.inl rfl
    · rcases ih h with h | ⟨t, ht, hc⟩ | ⟨q, hq, hc⟩
      · exact Or.inl h
      · exact Or.inr (Or.inl ⟨t, by simp only [List.map_cons, List.mem_cons] at ht ⊢; tauto, hc⟩)
      · exact Or.inr (Or.inr ⟨q, by simp [hq], hc⟩)

/-- **A filled template of plain values that is cut at the first byte `z` reads as itself, or not
at all.** -/
theorem readText_cut {T : Template} {values : List Bytes} {z : UInt8} {r : Reading}
    (hlen : values.length = T.texts.length) (hz : ∀ t ∈ T.tail :: T.texts, z ∉ t) (hzq : z ≠ quote)
    (hplain : ∀ v ∈ values, Plain v)
    (h : readText ((T.fill values).render.takeWhile (· ≠ z)) = some r) : r = T.fill values := by
  have htexts : (T.texts.zip values).map Prod.fst = T.texts := List.map_fst_zip (by omega)
  by_cases hmem : ∃ p ∈ T.texts.zip values, z ∈ p.2
  · have hnone := @readSegments_cut (T.texts.zip values) T.tail _ _ le_rfl hzq
      (by rw [htexts]; exact fun t ht => ⟨T.unquoted t ht, hz t ht⟩)
      (by rw [htexts]; exact T.apart)
      (fun p hp => hplain p.2 (List.of_mem_zip hp).2) hmem
    exact absurd (h.symm.trans hnone) (by simp)
  · have hall : (T.fill values).render.takeWhile (· ≠ z) = (T.fill values).render := by
      rw [List.takeWhile_eq_self_iff]
      intro c hc
      have hcz : c ≠ z := by
        rintro rfl
        rcases mem_renderSegments hc with hq | ⟨t, ht, hc⟩ | hp
        · exact hzq hq
        · exact hz t (htexts ▸ ht) hc
        · exact hmem hp
      simpa using hcz
    rw [hall, (readText_fill_iff T values hlen).2 fun v hv => (hplain v hv).verbatim] at h
    exact (Option.some.inj h).symm

end QuotedText

end GraduationServer
