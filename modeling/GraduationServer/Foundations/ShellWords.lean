import GraduationServer.Foundations.Bytes

/-!
# The words of a shell command

How the POSIX shell cuts a text into words: at blanks, and with the quotes and backslashes taken away.
`shellWords` has no words for a text with an operator or a break of a line, which make more than one
command of it or redirect it, with an expansion or a pattern of path names, whose words the text alone
does not tell, or with a quote that is not closed.

* `size_shellWords_le`: the words are not longer than the text, with a blank behind each of them.
* `shellWords_intercalate`: words of plain bytes are the words of their text.
* `isPlain_of_scan` is the converse for one word: a quote or a backslash is a byte that is read and not
  added, so that a word that is read as itself would go on behind its own text (`Behind`).
* `scan_last`: the last word of a text begins behind its last blank, when it has no blank and is longer than
  what could be left of the text otherwise. If it is read as itself, it is plain (`isPlain_of_last`).
-/

namespace GraduationServer

namespace Shell

/-! ## Bytes -/

def isBlank (c : UInt8) : Bool := c = 0x20 || c = 0x09

/-- What ends a command, redirects it or stands for something else when it is not quoted. A text has no
zero byte. -/
def isSpecial (c : UInt8) : Bool := (0x00 :: ascii "\n;&|<>()$`*?[").any fun d => d = c

def isQuote (c : UInt8) : Bool := c = 0x5C || c = 0x27 || c = 0x22

/-- The byte stands for itself. -/
def isPlain (c : UInt8) : Bool := !isBlank c && !isSpecial c && !isQuote c

/-- A home directory or a comment, at the beginning of a word. -/
def isOpening (c : UInt8) : Bool := c = 0x7E || c = 0x23

/-! ## The scanner -/

/-- Where the scanner is: between words, in a word, behind a backslash, between quotes. -/
inductive Mode
  | gap
  | gapEscaped
  | bare
  | escaped
  | single
  | double
  | doubleEscaped
  deriving DecidableEq

/-- A byte of a word that is no blank and no backslash, with what it adds to the word. -/
def moveWord (c : UInt8) : Bytes × Mode :=
  if c = 0x27 then ([], .single) else if c = 0x22 then ([], .double) else ([c], .bare)

/-- What a byte adds to the word, and where it leaves the scanner. -/
def move : Mode → UInt8 → Option (Bytes × Mode)
  | .gap, c =>
    if isBlank c then some ([], .gap)
    else if isSpecial c || isOpening c then none
    else if c = 0x5C then some ([], .gapEscaped)
    else some (moveWord c)
  | .gapEscaped, c => some (if c = 0x0A then ([], .gap) else ([c], .bare))
  | .bare, c =>
    if isBlank c then some ([], .gap)
    else if isSpecial c then none
    else if c = 0x5C then some ([], .escaped)
    else some (moveWord c)
  | .escaped, c => some (if c = 0x0A then ([], .bare) else ([c], .bare))
  | .single, c => some (if c = 0x27 then ([], .bare) else ([c], .single))
  | .double, c =>
    if c = 0x22 then some ([], .bare)
    else if c = 0x5C then some ([], .doubleEscaped)
    else if c = 0x24 || c = 0x60 then none
    else some ([c], .double)
  | .doubleEscaped, c =>
    if c = 0x0A then some ([], .double)
    else if (ascii "$`\"\\").any fun d => d = c then some ([c], .double)
    else some ([0x5C, c], .double)

/-- The words of a text; within a word the rest of it is the first of them. -/
def scan : Mode → Bytes → Option (List Bytes)
  | mode, [] => if mode = .gap then some [] else if mode = .bare then some [[]] else none
  | mode, c :: s => do
    let (added, mode') ← move mode c
    let words ← scan mode' s
    some (if mode = .bare ∧ mode' = .gap then [] :: words else words.modifyHead (added ++ ·))

/-- The words of a command. -/
def shellWords (text : Bytes) : Option (List Bytes) := scan .gap text

example : shellWords (ascii "cp  a\\ b 'c;d' \"e f\"") =
    some [ascii "cp", ascii "a b", ascii "c;d", ascii "e f"] := by
  decide +kernel

example : shellWords (ascii "rm a;b") = none := by decide +kernel

theorem scan_cons_iff {mode : Mode} {c : UInt8} {s : Bytes} {ws : List Bytes} :
    scan mode (c :: s) = some ws ↔ ∃ added mode' words, move mode c = some (added, mode') ∧
      scan mode' s = some words ∧
      (if mode = .bare ∧ mode' = .gap then [] :: words else words.modifyHead (added ++ ·)) = ws := by
  simp only [scan, Option.bind_eq_bind, Option.bind_eq_some_iff, Prod.exists, Option.some_inj]
  constructor
  · rintro ⟨added, mode', hmove, words, hscan, hws⟩
    exact ⟨added, mode', words, hmove, hscan, hws⟩
  · rintro ⟨added, mode', words, hmove, hscan, hws⟩
    exact ⟨added, mode', hmove, words, hscan, hws⟩

/-- What a byte adds is the beginning of the word. -/
theorem scan_move_iff {mode mode' : Mode} {c : UInt8} {added s w : Bytes} {ws : List Bytes}
    (hmove : move mode c = some (added, mode')) (hgo : mode' ≠ .gap) :
    scan mode (c :: s) = some (w :: ws) ↔ ∃ w', w = added ++ w' ∧ scan mode' s = some (w' :: ws) := by
  have hend : ¬ (mode = .bare ∧ mode' = .gap) := fun h => hgo h.2
  rw [scan_cons_iff]
  constructor
  · rintro ⟨added', mode'', words, hmove', hscan, hwords⟩
    cases hmove.symm.trans hmove'
    rw [if_neg hend] at hwords
    cases words with
    | nil => cases hwords
    | cons w' words =>
      cases hwords
      exact ⟨w', rfl, hscan⟩
  · rintro ⟨w', rfl, hscan⟩
    exact ⟨added, mode', w' :: ws, hmove, hscan, by rw [if_neg hend, List.modifyHead_cons]⟩

/-! ## The length of words -/

/-- The length of words with a blank behind each. -/
def size : List Bytes → ℕ
  | [] => 0
  | w :: words => w.length + 1 + size words

@[simp] theorem size_nil : size [] = 0 := rfl

@[simp] theorem size_cons (w : Bytes) (words : List Bytes) :
    size (w :: words) = w.length + 1 + size words := rfl

theorem size_modifyHead_le (added : Bytes) (words : List Bytes) :
    size (words.modifyHead (added ++ ·)) ≤ added.length + size words := by
  cases words with
  | nil => simp
  | cons w words =>
    simp only [List.modifyHead_cons, size_cons, List.length_append]
    omega

@[simp] theorem size_append (words words' : List Bytes) :
    size (words ++ words') = size words + size words' := by
  induction words with
  | nil => simp
  | cons w words ih =>
    rw [List.cons_append, size_cons, size_cons, ih]
    omega

/-- What the words may be longer than the text that is left: the blank behind the last of them. Between
quotes the quote at the end makes up for it. -/
def slack : Mode → ℕ
  | .single | .double => 0
  | _ => 1

theorem moveWord_length_le (c : UInt8) : (moveWord c).1.length + slack (moveWord c).2 ≤ 2 := by
  unfold moveWord
  split_ifs <;> simp [slack]

theorem move_length_le {mode mode' : Mode} {c : UInt8} {added : Bytes}
    (h : move mode c = some (added, mode')) : added.length + slack mode' ≤ 1 + slack mode := by
  have hword := moveWord_length_le c
  cases mode with
  | gap | bare =>
    simp only [move] at h
    split_ifs at h
    · cases h
      simp [slack]
    · cases h
      simp [slack]
    · rw [Option.some.inj h] at hword
      exact hword
  | gapEscaped | escaped | single | double | doubleEscaped =>
    simp only [move] at h
    split_ifs at h <;> cases h <;> simp [slack]

theorem size_scan_le {mode : Mode} {text : Bytes} {words : List Bytes}
    (h : scan mode text = some words) : size words ≤ text.length + slack mode := by
  induction text generalizing mode words with
  | nil =>
    unfold scan at h
    split_ifs at h with hgap hbare
    · cases h
      simp
    · cases h
      rw [hbare]
      decide
  | cons c s ih =>
    obtain ⟨added, mode', words', hmove, hscan, hwords⟩ := scan_cons_iff.1 h
    have hle := move_length_le hmove
    have hrest := ih hscan
    have hadded := size_modifyHead_le added words'
    rw [List.length_cons]
    split_ifs at hwords with hend
    · cases hwords
      rw [hend.2] at hrest
      simp only [size_cons, List.length_nil, hend.1, slack] at hrest ⊢
      omega
    · rw [← hwords]
      exact hadded.trans (by omega)

/-! ## Texts that are kept -/

/-- A word that is not taken for something else at its first byte. -/
def Begins (w : Bytes) : Prop := (w.head?.any fun c => !isOpening c) = true

instance (w : Bytes) : Decidable (Begins w) := inferInstanceAs (Decidable (_ = true))

/-- A byte that adds itself and nothing else. -/
def Keeps (mode : Mode) (c : UInt8) : Prop := move mode c = some ([c], mode)

theorem isPlain_iff {c : UInt8} :
    isPlain c = true ↔ isBlank c = false ∧ isSpecial c = false ∧ isQuote c = false := by
  simp [isPlain, and_assoc]

theorem ne_of_isPlain {c : UInt8} (h : isPlain c = true) : c ≠ 0x5C ∧ c ≠ 0x27 ∧ c ≠ 0x22 := by
  have hquote := (isPlain_iff.1 h).2.2
  simp only [isQuote, Bool.or_eq_false_iff, decide_eq_false_iff_not] at hquote
  exact ⟨hquote.1.1, hquote.1.2, hquote.2⟩

theorem moveWord_of_isPlain {c : UInt8} (h : isPlain c = true) : moveWord c = ([c], .bare) := by
  obtain ⟨-, hsingle, hdouble⟩ := ne_of_isPlain h
  rw [moveWord, if_neg hsingle, if_neg hdouble]

theorem keeps_bare {c : UInt8} (h : isPlain c = true) : Keeps .bare c := by
  obtain ⟨hblank, hspecial, -⟩ := isPlain_iff.1 h
  simp [Keeps, move, hblank, hspecial, (ne_of_isPlain h).1, moveWord_of_isPlain h]

theorem move_gap_of_isPlain {c : UInt8} (h : isPlain c = true) (hopening : isOpening c = false) :
    move .gap c = some ([c], .bare) := by
  obtain ⟨hblank, hspecial, -⟩ := isPlain_iff.1 h
  simp [move, hblank, hspecial, hopening, (ne_of_isPlain h).1, moveWord_of_isPlain h]

/-- Within quotes blanks are kept as well. -/
theorem keeps_quoted {c : UInt8} (h : isPlain c = true ∨ c = 0x20) : Keeps .single c ∧ Keeps .double c := by
  rcases h with h | rfl
  · obtain ⟨hescape, hsingle, hdouble⟩ := ne_of_isPlain h
    have hspecial := (isPlain_iff.1 h).2.1
    have hdollar : c ≠ 0x24 := by
      rintro rfl
      exact absurd hspecial (by decide)
    have hback : c ≠ 0x60 := by
      rintro rfl
      exact absurd hspecial (by decide)
    exact ⟨by simp [Keeps, move, hsingle], by simp [Keeps, move, hdouble, hescape, hdollar, hback]⟩
  · exact ⟨rfl, rfl⟩

theorem scan_append_iff {mode : Mode} (hmode : mode ≠ .gap) {x : Bytes} (h : ∀ c ∈ x, Keeps mode c)
    {s w : Bytes} {ws : List Bytes} :
    scan mode (x ++ s) = some (w :: ws) ↔ ∃ w', w = x ++ w' ∧ scan mode s = some (w' :: ws) := by
  induction x generalizing w with
  | nil => simp
  | cons c x ih =>
    obtain ⟨hc, hx⟩ := List.forall_mem_cons.1 h
    rw [List.cons_append, scan_move_iff hc hmode]
    constructor
    · rintro ⟨w, rfl, hscan⟩
      obtain ⟨w', rfl, hrest⟩ := (ih hx).1 hscan
      exact ⟨w', rfl, hrest⟩
    · rintro ⟨w', rfl, hscan⟩
      exact ⟨x ++ w', rfl, (ih hx).2 ⟨w', rfl, hscan⟩⟩

/-- A blank ends the word. -/
theorem scan_bare_blank_iff {s w : Bytes} {ws : List Bytes} :
    scan .bare (0x20 :: s) = some (w :: ws) ↔ w = [] ∧ scan .gap s = some ws := by
  have hmove : move .bare 0x20 = some ([], .gap) := by decide
  simp only [scan, hmove, Option.bind_eq_bind, Option.bind_some, Option.bind_eq_some_iff, and_self,
    if_true, Option.some_inj, List.cons.injEq]
  constructor
  · rintro ⟨words, hscan, rfl, rfl⟩
    exact ⟨rfl, hscan⟩
  · rintro ⟨rfl, hscan⟩
    exact ⟨ws, hscan, rfl, rfl⟩

theorem scan_gap_of_begins {w : Bytes} (hw : Begins w) (h : ∀ c ∈ w, isPlain c = true) (s : Bytes) :
    scan .gap (w ++ s) = scan .bare (w ++ s) := by
  cases w with
  | nil => cases hw
  | cons c w =>
    have hopening : isOpening c = false := by simpa [Begins] using hw
    obtain ⟨hc, -⟩ := List.forall_mem_cons.1 h
    rw [List.cons_append, scan, scan, move_gap_of_isPlain hc hopening, keeps_bare hc]
    rfl

/-- A plain word and the blank behind it. -/
theorem scan_word_iff {v : Bytes} (hv : Begins v) (h : ∀ c ∈ v, isPlain c = true) {s w : Bytes}
    {ws : List Bytes} :
    scan .gap (v ++ 0x20 :: s) = some (w :: ws) ↔ w = v ∧ scan .gap s = some ws := by
  rw [scan_gap_of_begins hv h, scan_append_iff (by decide) fun c hc => keeps_bare (h c hc)]
  constructor
  · rintro ⟨w', rfl, hscan⟩
    obtain ⟨rfl, hrest⟩ := scan_bare_blank_iff.1 hscan
    exact ⟨List.append_nil v, hrest⟩
  · rintro ⟨rfl, hscan⟩
    exact ⟨[], (List.append_nil w).symm, scan_bare_blank_iff.2 ⟨rfl, hscan⟩⟩

/-- **Plain words with blanks between them are the words of the text.** -/
theorem shellWords_intercalate {words : List Bytes}
    (h : ∀ w ∈ words, Begins w ∧ ∀ c ∈ w, isPlain c = true) :
    shellWords ([0x20].intercalate words) = some words := by
  induction words with
  | nil => rfl
  | cons w words ih =>
    obtain ⟨⟨hbegins, hplain⟩, hrest⟩ := List.forall_mem_cons.1 h
    by_cases hnil : words = []
    · rw [hnil, List.intercalate_singleton, shellWords, ← List.append_nil w,
        scan_gap_of_begins hbegins hplain]
      exact (scan_append_iff (by decide) fun c hc => keeps_bare (hplain c hc)).2 ⟨[], rfl, rfl⟩
    · rw [List.intercalate_cons_of_ne_nil hnil, List.append_assoc, List.singleton_append, shellWords,
        scan_word_iff hbegins hplain]
      exact ⟨rfl, ih hrest⟩

/-! ## Words that lag behind -/

/-- The fewest bytes that have been read but not added when the scanner is within a word that has been
something else than plain: the quote, and the backslash. -/
def lag : Mode → ℕ
  | .gap | .gapEscaped => 0
  | .doubleEscaped => 2
  | _ => 1

/-- Some bytes have been read and are still to be added to the word. -/
structure Behind (mode : Mode) (d : Bytes) : Prop where
  within : 0 < lag mode
  lags : lag mode ≤ d.length
  escape : mode = .escaped → 0x5C ∈ d

theorem moveWord_lag (c : UInt8) : 0 < lag (moveWord c).2 ∧
    (moveWord c).1.length + lag (moveWord c).2 ≤ 2 ∧ (moveWord c).2 ≠ .escaped := by
  unfold moveWord
  split_ifs <;> simp [lag]

/-- Within a word no byte makes up for a lag. -/
theorem move_lag {mode mode' : Mode} {c : UInt8} {added : Bytes} (hmode : 0 < lag mode)
    (h : move mode c = some (added, mode')) :
    (mode = .bare ∧ mode' = .gap) ∨
      (0 < lag mode' ∧ added.length + lag mode' ≤ lag mode + 1 ∧ (mode' = .escaped → c = 0x5C)) := by
  have hword := moveWord_lag c
  cases mode with
  | gap | gapEscaped => exact absurd hmode (by decide)
  | bare =>
    simp only [move] at h
    split_ifs at h with hblank hspecial hescape
    · cases h
      exact Or.inl ⟨rfl, rfl⟩
    · cases h
      exact Or.inr ⟨by decide, by decide, fun _ => hescape⟩
    · rw [Option.some.inj h] at hword
      exact Or.inr ⟨hword.1, hword.2.1, fun he => absurd he hword.2.2⟩
  | escaped | single | double | doubleEscaped =>
    right
    simp only [move] at h
    split_ifs at h <;> cases h <;> simp [lag]

/-- A byte is read within a word that lags behind, and is still to be added. -/
theorem Behind.step {mode : Mode} {d p s : Bytes} {c : UInt8} {ws : List Bytes} (hd : Behind mode d)
    (h : scan mode (c :: s) = some ((d ++ c :: p) :: ws)) :
    ∃ mode' d', Behind mode' d' ∧ scan mode' s = some ((d' ++ p) :: ws) := by
  obtain ⟨added, mode', words, hmove, -, hwords⟩ := scan_cons_iff.1 h
  have hlags := hd.lags
  rcases move_lag hd.within hmove with hend | ⟨hwithin, hle, hescape⟩
  · rw [if_pos hend, List.cons.injEq] at hwords
    have hlength := congrArg List.length hwords.1
    rw [List.length_append, List.length_cons, List.length_nil] at hlength
    omega
  · have hgo : mode' ≠ .gap := by
      rintro rfl
      exact absurd hwithin (by decide)
    obtain ⟨w, hword, hscan⟩ := (scan_move_iff hmove hgo).1 h
    rw [List.append_cons] at hword
    have hlength : (d ++ [c]).length = d.length + 1 := List.length_append
    -- what has been added are the first of the bytes that were still to be added
    have hw : w = (d ++ [c]).drop added.length ++ p := by
      rw [← List.drop_append_of_le_length (by omega), hword, List.drop_left]
    refine ⟨mode', (d ++ [c]).drop added.length, ⟨hwithin, ?_, fun he => ?_⟩, hw ▸ hscan⟩
    · rw [List.length_drop, hlength]
      omega
    · rw [List.drop_append_of_le_length (by omega), ← hescape he]
      exact List.mem_append_right _ List.mem_cons_self

/-- A text of which the rest of the word is read leaves it behind. -/
theorem Behind.run {mode : Mode} {d p s : Bytes} {ws : List Bytes} (hd : Behind mode d)
    (h : scan mode (p ++ s) = some ((d ++ p) :: ws)) :
    ∃ mode' d', Behind mode' d' ∧ scan mode' s = some (d' :: ws) := by
  induction p generalizing mode d with
  | nil => exact ⟨mode, d, hd, by rwa [List.nil_append, List.append_nil] at h⟩
  | cons c p ih =>
    obtain ⟨mode', d', hd', hscan⟩ := hd.step h
    exact ih hd' hscan

/-- A byte of a word stands for itself, ends the word, or adds nothing. -/
theorem move_bare_cases {mode' : Mode} {c : UInt8} {added : Bytes}
    (h : move .bare c = some (added, mode')) :
    (isPlain c = true ∧ added = [c] ∧ mode' = .bare) ∨ mode' = .gap ∨
      (added = [] ∧ mode' ≠ .gap ∧ Behind mode' [c]) := by
  simp only [move] at h
  split_ifs at h with hblank hspecial hescape
  · cases h
    exact Or.inr (Or.inl rfl)
  · cases h
    exact Or.inr (Or.inr ⟨rfl, by decide, by decide, by simp [lag], fun _ => by simp [hescape]⟩)
  · rw [Option.some_inj] at h
    unfold moveWord at h
    split_ifs at h with hsingle hdouble
    · cases h
      exact Or.inr (Or.inr ⟨rfl, by decide, by decide, by simp [lag], fun he => by cases he⟩)
    · cases h
      exact Or.inr (Or.inr ⟨rfl, by decide, by decide, by simp [lag], fun he => by cases he⟩)
    · cases h
      have hquote : isQuote c = false := by simp [isQuote, hescape, hsingle, hdouble]
      exact Or.inl ⟨isPlain_iff.2 ⟨by simpa using hblank, by simpa using hspecial, hquote⟩, rfl, rfl⟩

/-- A text that is read as itself is plain, or it leaves something behind. -/
theorem isPlain_or_behind {p s : Bytes} {ws : List Bytes} (h : scan .bare (p ++ s) = some (p :: ws)) :
    (∀ c ∈ p, isPlain c = true) ∨ ∃ mode d, Behind mode d ∧ scan mode s = some (d :: ws) := by
  induction p with
  | nil => exact Or.inl (by simp)
  | cons c p ih =>
    rw [List.cons_append] at h
    obtain ⟨added, mode', words, hmove, hscan, hwords⟩ := scan_cons_iff.1 h
    rcases move_bare_cases hmove with ⟨hplain, rfl, rfl⟩ | rfl | ⟨rfl, hgo, hbehind⟩
    · obtain ⟨w', heq, hrest⟩ := (scan_move_iff hmove (by decide)).1 h
      rw [List.singleton_append, List.cons.injEq] at heq
      rw [← heq.2] at hrest
      exact (ih hrest).imp_left fun hp => List.forall_mem_cons.2 ⟨hplain, hp⟩
    · cases hwords
    · obtain ⟨w', heq, hrest⟩ := (scan_move_iff hmove hgo).1 h
      rw [List.nil_append] at heq
      rw [← heq] at hrest
      exact Or.inr (hbehind.run hrest)

/-- Nothing is left behind at a blank with plain words behind it, when the words that are left do not fit
in what follows these. -/
theorem not_behind {mode : Mode} {d v x s : Bytes} {ws : List Bytes} (hd : Behind mode d)
    (hv : ∀ c ∈ v, isPlain c = true) (hx : ∀ c ∈ x, isPlain c = true ∨ c = 0x20)
    (hs : s.length < size ws) : scan mode (0x20 :: (v ++ 0x20 :: (x ++ s))) ≠ some (d :: ws) := by
  intro h
  have hsplit : v ++ 0x20 :: (x ++ s) = (v ++ 0x20 :: x) ++ s := by simp
  have hkeeps : ∀ c ∈ v ++ 0x20 :: x, Keeps .single c ∧ Keeps .double c := by
    intro c hc
    rcases List.mem_append.1 hc with hc | hc
    · exact keeps_quoted (Or.inl (hv c hc))
    · exact keeps_quoted ((List.mem_cons.1 hc).elim Or.inr (hx c))
  -- between quotes all of the plain words belong to the first word
  have hquoted : ∀ mode w, mode = .single ∨ mode = .double →
      scan mode (v ++ 0x20 :: (x ++ s)) ≠ some (w :: ws) := by
    intro mode w hmode hscan
    rw [hsplit] at hscan
    rcases hmode with rfl | rfl
    · obtain ⟨w', -, hrest⟩ := (scan_append_iff (by decide) fun c hc => (hkeeps c hc).1).1 hscan
      have hle := size_scan_le hrest
      simp only [size_cons, slack] at hle
      omega
    · obtain ⟨w', -, hrest⟩ := (scan_append_iff (by decide) fun c hc => (hkeeps c hc).2).1 hscan
      have hle := size_scan_le hrest
      simp only [size_cons, slack] at hle
      omega
  have hlags := hd.lags
  cases mode with
  | gap | gapEscaped => exact absurd hd.within (by decide)
  | bare =>
    obtain ⟨rfl, -⟩ := scan_bare_blank_iff.1 h
    exact absurd hlags (by decide)
  | escaped =>
    have hmove : move .escaped 0x20 = some ([0x20], .bare) := rfl
    obtain ⟨w, rfl, hrest⟩ := (scan_move_iff hmove (by decide)).1 h
    obtain ⟨w', rfl, hend⟩ := (scan_append_iff (by decide) fun c hc => keeps_bare (hv c hc)).1 hrest
    obtain ⟨rfl, -⟩ := scan_bare_blank_iff.1 hend
    rcases List.mem_cons.1 (hd.escape rfl) with hblank | hmem
    · exact absurd hblank (by decide)
    · rw [List.append_nil] at hmem
      exact absurd (hv _ hmem) (by decide)
  | single =>
    obtain ⟨w', -, hrest⟩ := (scan_move_iff (keeps_quoted (Or.inr rfl)).1 (by decide)).1 h
    exact hquoted _ w' (Or.inl rfl) hrest
  | double =>
    obtain ⟨w', -, hrest⟩ := (scan_move_iff (keeps_quoted (Or.inr rfl)).2 (by decide)).1 h
    exact hquoted _ w' (Or.inr rfl) hrest
  | doubleEscaped =>
    have hmove : move .doubleEscaped 0x20 = some ([0x5C, 0x20], .double) := rfl
    obtain ⟨w', -, hrest⟩ := (scan_move_iff hmove (by decide)).1 h
    exact hquoted _ w' (Or.inr rfl) hrest

/-- **A word that is read as itself is plain**, when plain words follow it and the words that are left do
not fit in what follows these. -/
theorem isPlain_of_scan {c : UInt8} {p v x s : Bytes} {ws : List Bytes} (hc : isPlain c = true)
    (hopening : isOpening c = false) (hv : ∀ c ∈ v, isPlain c = true)
    (hx : ∀ c ∈ x, isPlain c = true ∨ c = 0x20) (hs : s.length < size ws)
    (h : scan .gap (c :: (p ++ 0x20 :: (v ++ 0x20 :: (x ++ s)))) = some ((c :: p) :: ws)) :
    ∀ c ∈ p, isPlain c = true := by
  obtain ⟨w, hw, hscan⟩ := (scan_move_iff (move_gap_of_isPlain hc hopening) (by decide)).1 h
  rw [List.singleton_append, List.cons.injEq] at hw
  rw [← hw.2] at hscan
  rcases isPlain_or_behind hscan with hplain | ⟨mode, d, hbehind, hrest⟩
  · exact hplain
  · exact absurd hrest (not_behind hbehind hv hx hs)

/-! ## The last word -/

/-- Between words the scanner has added nothing to a word. -/
theorem move_gap {mode mode' : Mode} {c : UInt8} {added : Bytes}
    (h : move mode c = some (added, mode')) (hmode' : mode' = .gap ∨ mode' = .gapEscaped)
    (hend : ¬ (mode = .bare ∧ mode' = .gap)) : added = [] ∧ (mode = .gap ∨ mode = .gapEscaped) := by
  have hword := moveWord_lag c
  have hbegun : ∀ {m : Mode}, m = .gap ∨ m = .gapEscaped → lag m = 0 := by
    rintro m (rfl | rfl) <;> rfl
  cases mode with
  | gap =>
    simp only [move] at h
    split_ifs at h
    · cases h
      exact ⟨rfl, .inl rfl⟩
    · cases h
      exact ⟨rfl, .inl rfl⟩
    · rw [Option.some.inj h, hbegun hmode'] at hword
      exact absurd hword.1 (lt_irrefl 0)
  | gapEscaped =>
    simp only [move] at h
    split_ifs at h
    · cases h
      exact ⟨rfl, .inr rfl⟩
    · cases h
      simp at hmode'
  | bare | escaped | single | double | doubleEscaped =>
    rcases move_lag (by decide) h with hgap | ⟨hwithin, -⟩
    · exact absurd hgap hend
    · rw [hbegun hmode'] at hwithin
      exact absurd hwithin (lt_irrefl 0)

/-- Within a word there is a word. -/
theorem scan_ne_nil {mode : Mode} (hmode : ¬ (mode = .gap ∨ mode = .gapEscaped)) (s : Bytes) :
    scan mode s ≠ some [] := by
  induction s generalizing mode with
  | nil =>
    unfold scan
    rw [if_neg fun hgap => hmode (.inl hgap)]
    split_ifs <;> simp
  | cons c s ih =>
    intro h
    obtain ⟨added, mode', words, hmove, hscan, hwords⟩ := scan_cons_iff.1 h
    split_ifs at hwords with hend
    rw [List.modifyHead_eq_nil_iff] at hwords
    rw [hwords] at hscan
    by_cases hmode' : mode' = .gap ∨ mode' = .gapEscaped
    · exact hmode (move_gap hmove hmode' hend).2
    · exact ih hmode' hscan

/-- The front of a text: some words, and the beginning of the next one, which is empty between words. -/
theorem scan_front {mode : Mode} {s t : Bytes} {words : List Bytes}
    (h : scan mode (s ++ t) = some words) :
    ∃ mode' front added rest, scan mode' t = some rest ∧
      words = front ++ rest.modifyHead (added ++ ·) ∧
      (mode' = .gap → added = [] ∧ (front = [] → mode = .gap ∨ mode = .gapEscaped)) := by
  induction s generalizing mode words with
  | nil => exact ⟨mode, [], [], words, h, by cases words <;> rfl, fun hgap => ⟨rfl, fun _ => .inl hgap⟩⟩
  | cons c s ih =>
    obtain ⟨added₁, mode₁, words₁, hmove, hscan, hwords⟩ := scan_cons_iff.1 h
    obtain ⟨mode', front, added, rest, hrest, rfl, hgap⟩ := ih hscan
    split_ifs at hwords with hend
    · exact ⟨mode', [] :: front, added, rest, hrest, hwords.symm, fun hm => ⟨(hgap hm).1, nofun⟩⟩
    cases front with
    | nil =>
      refine ⟨mode', [], added₁ ++ added, rest, hrest, ?_, fun hm => ?_⟩
      · rw [← hwords, List.nil_append, List.nil_append, List.modifyHead_modifyHead]
        simp [Function.comp_def]
      · obtain ⟨rfl, hfront⟩ := hgap hm
        obtain ⟨rfl, hmode⟩ := move_gap hmove (hfront rfl) hend
        exact ⟨rfl, fun _ => hmode⟩
    | cons w front =>
      exact ⟨mode', (added₁ ++ w) :: front, added, rest, hrest, hwords.symm, fun hm => ⟨(hgap hm).1, nofun⟩⟩

/-- A blank ends a word, or it belongs to one. -/
theorem move_blank {mode mode' : Mode} {added : Bytes} (h : move mode 0x20 = some (added, mode')) :
    (mode' = .gap ∧ added = [] ∧ (mode = .gap ∨ mode = .bare)) ∨
      (0x20 ∈ added ∧ (mode' = .bare ∨ mode' = .single ∨ mode' = .double)) := by
  cases mode <;> cases h <;> simp

/-- A word has its place among the words. -/
theorem length_lt_size {w : Bytes} {words : List Bytes} (h : w ∈ words) : w.length < size words := by
  induction words with
  | nil => cases h
  | cons v words ih =>
    rw [size_cons]
    rcases List.mem_cons.1 h with rfl | h
    · omega
    · have hlt := ih h
      omega

/-- A text that begins with plain bytes, when its last word is longer than what is behind them: it has no
other word. -/
theorem scan_plain_last {mode : Mode} (hmode : mode = .bare ∨ mode = .single ∨ mode = .double)
    {x y w : Bytes} {words : List Bytes} (hx : ∀ c ∈ x, isPlain c = true)
    (h : scan mode (x ++ y) = some words) (hlong : y.length < w.length)
    (hlast : ∀ v v' vs, words = v :: v' :: vs → w ∈ v' :: vs) :
    ∃ w', words = [x ++ w'] ∧ scan mode y = some [w'] := by
  have hkeeps : ∀ c ∈ x, Keeps mode c := by
    intro c hc
    rcases hmode with rfl | rfl | rfl
    · exact keeps_bare (hx c hc)
    · exact (keeps_quoted (.inl (hx c hc))).1
    · exact (keeps_quoted (.inl (hx c hc))).2
  have hword : ¬ (mode = .gap ∨ mode = .gapEscaped) := by
    rcases hmode with rfl | rfl | rfl <;> decide
  cases words with
  | nil => exact absurd h (scan_ne_nil hword _)
  | cons v words =>
    obtain ⟨w', rfl, hrest⟩ := (scan_append_iff (fun hgap => hword (.inl hgap)) hkeeps).1 h
    cases words with
    | nil => exact ⟨w', rfl, hrest⟩
    | cons v' vs =>
      have hsize := size_scan_le hrest
      have hlt := length_lt_size (hlast _ _ _ rfl)
      have hslack : slack mode ≤ 1 := by
        rcases hmode with rfl | rfl | rfl <;> decide
      rw [size_cons] at hsize
      omega

/-- **The last word of a text.** Behind a blank the text goes on with plain bytes. If its last word has no
blank and is longer than what is left behind these, then it begins with them. -/
theorem scan_last {s x y w : Bytes} {words : List Bytes} (hbegins : Begins x)
    (hx : ∀ c ∈ x, isPlain c = true) (h : scan .gap (s ++ 0x20 :: (x ++ y)) = some words)
    (hlast : words.getLast? = some w) (hblank : 0x20 ∉ w) (hlong : y.length < w.length) :
    ∃ w', w = x ++ w' ∧ scan .bare y = some [w'] := by
  obtain ⟨mode, front, added, rest, hrest, rfl, hgap⟩ := scan_front h
  obtain ⟨added', mode', words, hmove, hscan, hwords⟩ := scan_cons_iff.1 hrest
  -- of two words behind the blank the last one is the last of all
  have hsecond : ∀ v v' vs, words = v :: v' :: vs → w ∈ v' :: vs := by
    rintro v v' vs rfl
    have hmem : (v' :: vs).getLast? = some w := by
      rw [← hlast, ← hwords]
      split_ifs <;> simp [List.getLast?_append, List.getLast?_cons]
    exact List.mem_of_getLast? hmem
  rcases move_blank hmove with ⟨rfl, rfl, hmode⟩ | ⟨hadded, hmode'⟩
  · rw [scan_gap_of_begins hbegins hx] at hscan
    obtain ⟨w', rfl, hw'⟩ := scan_plain_last (.inl rfl) hx hscan hlong hsecond
    refine ⟨w', ?_, hw'⟩
    rcases hmode with rfl | rfl
    · obtain ⟨rfl, -⟩ := hgap rfl
      rw [← hwords] at hlast
      simpa [eq_comm] using hlast
    · rw [← hwords] at hlast
      simpa [eq_comm] using hlast
  · -- the blank belongs to the only word that is left
    obtain ⟨w', rfl, -⟩ := scan_plain_last hmode' hx hscan hlong hsecond
    have hend : ¬ (mode = .bare ∧ mode' = .gap) := by
      rintro ⟨-, rfl⟩
      simp at hmode'
    rw [if_neg hend] at hwords
    rw [← hwords] at hlast
    have hw : added ++ (added' ++ (x ++ w')) = w := by simpa using hlast
    exact absurd (by rw [← hw]; simp [hadded]) hblank

/-- **A last word that is read as itself is plain.** -/
theorem isPlain_of_last {p : Bytes} (h : scan .bare p = some [p]) : ∀ c ∈ p, isPlain c = true := by
  have hscan : scan .bare (p ++ []) = some [p] := by rwa [List.append_nil]
  rcases isPlain_or_behind hscan with hplain | ⟨mode, d, hd, hscan⟩
  · exact hplain
  · unfold scan at hscan
    have hlags := hd.lags
    split_ifs at hscan with hgap hbare
    · cases hscan
    · cases hscan
      rw [hbare] at hlags
      exact absurd hlags (by decide)

/-- The words of a text are not longer than the text. -/
theorem size_shellWords_le {text : Bytes} {words : List Bytes} (h : shellWords text = some words) :
    size words ≤ text.length + 1 := size_scan_le h

end Shell

end GraduationServer
