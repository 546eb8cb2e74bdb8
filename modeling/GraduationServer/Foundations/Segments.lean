import GraduationServer.Foundations.Search

/-!
# Cutting a text at a separator

`segments sep s` are the texts between the occurrences of a separator, from the left; behind the last
one there is a segment only if there is a text.

A stream is made of pieces, each with the separator behind it or not. If no separator begins within a
piece, cutting the stream gives the pieces exactly when each of them, but perhaps the last, has the
separator behind it (`segments_stream_iff`): a piece without it is joined to the next one.
-/

namespace GraduationServer

variable {α : Type*} [DecidableEq α]

/-- The segments of a text behind an open one; the first letters may belong to a separator that has
been found. -/
def segmentsFrom (sep : List α) : ℕ → List α → List α → List (List α)
  | _, current, [] => if current = [] then [] else [current]
  | skip + 1, current, _ :: s => segmentsFrom sep skip current s
  | 0, current, c :: s =>
    if sep <+: c :: s then current :: segmentsFrom sep (sep.length - 1) [] s
    else segmentsFrom sep 0 (current ++ [c]) s

/-- The segments of a text. -/
def segments (sep s : List α) : List (List α) := segmentsFrom sep 0 [] s

/-- A piece of a stream: a text, and whether the separator follows. -/
abbrev Piece (α : Type*) := List α × Bool

/-- The bytes of a piece. -/
def pieceBytes (sep : List α) (p : Piece α) : List α := p.1 ++ if p.2 then sep else []

/-- A stream of pieces. -/
def stream (sep : List α) (pieces : List (Piece α)) : List α := pieces.flatMap (pieceBytes sep)

variable {sep current t s : List α} {p : Piece α} {pieces : List (Piece α)}

omit [DecidableEq α] in
/-- A separator does not begin within a text that does not have its first letter. -/
theorem apart_of_notMem {c : α} (h : c ∉ t) : Apart (c :: sep) t := by
  intro u hu hne heq
  obtain ⟨d, u, rfl⟩ := List.exists_cons_of_ne_nil hne
  obtain ⟨rfl, -⟩ := List.cons.inj heq
  exact h (((List.mem_tails _ _).1 hu).subset List.mem_cons_self)

theorem segmentsFrom_drop (skip : ℕ) (current s : List α) :
    segmentsFrom sep skip current s = segmentsFrom sep 0 current (s.drop skip) := by
  induction s generalizing skip with
  | nil => cases skip <;> rfl
  | cons c s ih =>
    cases skip with
    | zero => rfl
    | succ skip => rw [segmentsFrom, ih, List.drop_succ_cons]

/-- A text in which no separator begins goes to the open segment. -/
theorem segmentsFrom_append (h : Apart sep t) (current s : List α) :
    segmentsFrom sep 0 current (t ++ s) = segmentsFrom sep 0 (current ++ t) s := by
  induction t generalizing current with
  | nil => simp
  | cons c t ih =>
    rw [List.cons_append, segmentsFrom, if_neg h.not_prefix, ih h.tail, List.append_assoc,
      List.singleton_append]

/-- A separator closes the segment. -/
theorem segmentsFrom_separator (hsep : sep ≠ []) (current s : List α) :
    segmentsFrom sep 0 current (sep ++ s) = current :: segmentsFrom sep 0 [] s := by
  obtain ⟨c, sep', rfl⟩ := List.exists_cons_of_ne_nil hsep
  rw [List.cons_append, segmentsFrom, if_pos ⟨s, rfl⟩, segmentsFrom_drop]
  simp

/-- A piece closes the open segment or goes to it. -/
theorem segmentsFrom_piece (hsep : sep ≠ []) (hp : Apart sep p.1) (current s : List α) :
    segmentsFrom sep 0 current (pieceBytes sep p ++ s) =
      if p.2 then (current ++ p.1) :: segmentsFrom sep 0 [] s
      else segmentsFrom sep 0 (current ++ p.1) s := by
  rw [pieceBytes, List.append_assoc, segmentsFrom_append hp]
  split
  · rw [segmentsFrom_separator hsep]
  · rw [List.nil_append]

/-- Every piece but perhaps the last has the separator behind it. -/
def Terminated (pieces : List (Piece α)) : Prop := ∀ p ∈ pieces.dropLast, p.2 = true

theorem segments_of_terminated (hsep : sep ≠ []) (happart : ∀ p ∈ pieces, Apart sep p.1)
    (hne : ∀ p ∈ pieces, p.1 ≠ []) (h : Terminated pieces) :
    segments sep (stream sep pieces) = pieces.map Prod.fst := by
  unfold segments
  induction pieces with
  | nil => rfl
  | cons p pieces ih =>
    have hp := hne p List.mem_cons_self
    rw [stream, List.flatMap_cons, ← stream, segmentsFrom_piece hsep (happart p List.mem_cons_self)]
    cases pieces with
    | nil => cases p.2 <;> simp [stream, segmentsFrom, hp]
    | cons q pieces =>
      have hlast := h p (by simp)
      rw [if_pos hlast, ih (fun r hr => happart r (List.mem_cons_of_mem _ hr))
        (fun r hr => hne r (List.mem_cons_of_mem _ hr))
        (fun r hr => h r (by simp [hr])), List.nil_append]
      rfl

/-- The stream ends within a segment: its last piece has no separator, or there is none and the open
segment is not empty. -/
def endsOpen (current : List α) (pieces : List (Piece α)) : Bool :=
  match pieces.getLast? with
  | none => current ≠ []
  | some p => !p.2

/-- As many segments as separators, and one more if the stream ends within one. -/
theorem length_segmentsFrom (hsep : sep ≠ []) (happart : ∀ p ∈ pieces, Apart sep p.1)
    (hne : ∀ p ∈ pieces, p.1 ≠ []) (current : List α) :
    (segmentsFrom sep 0 current (stream sep pieces)).length =
      pieces.countP Prod.snd + if endsOpen current pieces then 1 else 0 := by
  induction pieces generalizing current with
  | nil => by_cases h : current = [] <;> simp [stream, segmentsFrom, endsOpen, h]
  | cons p pieces ih =>
    have ih := ih (fun r hr => happart r (List.mem_cons_of_mem _ hr))
      fun r hr => hne r (List.mem_cons_of_mem _ hr)
    have hp := hne p List.mem_cons_self
    have hopen : ∀ current, endsOpen current (p :: pieces) =
        endsOpen (if p.2 then [] else current ++ p.1) pieces := by
      intro current
      cases pieces with
      | nil => cases hp2 : p.2 <;> simp [endsOpen, hp2, hp]
      | cons q pieces =>
        simp [endsOpen, List.getLast?_eq_some_getLast (List.cons_ne_nil q pieces)]
    rw [stream, List.flatMap_cons, ← stream, segmentsFrom_piece hsep (happart p List.mem_cons_self),
      hopen]
    cases hp2 : p.2 with
    | true => simp [ih, hp2]; omega
    | false => simp [ih, hp2]

/-- **Cutting a stream gives its pieces exactly when all but perhaps the last are terminated.** -/
theorem segments_stream_iff (hsep : sep ≠ []) (happart : ∀ p ∈ pieces, Apart sep p.1)
    (hne : ∀ p ∈ pieces, p.1 ≠ []) :
    segments sep (stream sep pieces) = pieces.map Prod.fst ↔ Terminated pieces := by
  refine ⟨fun h => ?_, segments_of_terminated hsep happart hne⟩
  have hlength := congrArg List.length h
  rw [segments, length_segmentsFrom hsep happart hne, List.length_map] at hlength
  rcases pieces.eq_nil_or_concat with rfl | ⟨before, last, rfl⟩
  · rintro p ⟨⟩
  · -- all but the last are counted
    have hcount : before.countP Prod.snd = before.length := by
      have hlast : [last].countP Prod.snd + (if !last.2 then 1 else 0) = 1 := by
        cases hterminated : last.2 <;> simp [hterminated]
      rw [List.concat_eq_append, List.countP_append, endsOpen, List.getLast?_concat,
        List.length_append, List.length_singleton] at hlength
      dsimp only at hlength
      omega
    intro p hp
    rw [List.concat_eq_append, List.dropLast_concat] at hp
    exact List.countP_eq_length.1 hcount p hp

end GraduationServer
