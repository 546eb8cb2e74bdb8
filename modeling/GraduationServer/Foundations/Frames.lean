import GraduationServer.Foundations.Groups

/-!
# Frames behind their lengths

A stream of bodies, each behind its length as an integer of `w` bytes in host order. A receiver keeps what
has arrived, and takes a body out as soon as all of it is there. How the stream is cut up on the way does
not matter:

* `Unframes` describes what is taken out of a text and what is left; it is a function (`Unframes.unique`), and
  what arrives later is read behind what is left (`Unframes.append`);
* `receive_frames` recovers the bodies from their frames, and `receive_prefix` the first of them from the
  beginning of the stream.
-/

namespace GraduationServer

/-- A body behind its length. -/
def frame (w : ℕ) (body : Bytes) : Bytes := leBytes w body.length ++ body

/-- The first body, and what is behind it. None while some of it is missing. -/
def takeFrame (w : ℕ) (s : Bytes) : Option (Bytes × Bytes) :=
  let n := ofLeBytes (s.take w)
  if w + n ≤ s.length then some ((s.drop w).take n, s.drop (w + n)) else none

/-- At most so many bodies, and what is left. -/
def takeFrames (w : ℕ) : ℕ → Bytes → List Bytes × Bytes
  | 0, s => ([], s)
  | n + 1, s =>
    match takeFrame w s with
    | none => ([], s)
    | some (body, rest) => (body :: (takeFrames w n rest).1, (takeFrames w n rest).2)

/-- The bodies that are taken out of a text, and what is left. -/
inductive Unframes (w : ℕ) : Bytes → List Bytes → Bytes → Prop
  | wait {s : Bytes} (h : takeFrame w s = none) : Unframes w s [] s
  | take {s body rest left : Bytes} {bodies : List Bytes} (h : takeFrame w s = some (body, rest))
      (hrest : Unframes w rest bodies left) : Unframes w s (body :: bodies) left

variable {w : ℕ} {s t body rest left : Bytes} {bodies : List Bytes}

/-! ## One frame -/

theorem takeFrame_frame (h : body.length < 256 ^ w) (s : Bytes) :
    takeFrame w (frame w body ++ s) = some (body, s) := by
  have htake : (frame w body ++ s).take w = leBytes w body.length := by
    rw [frame, List.append_assoc, List.take_left' (length_leBytes ..)]
  have hdrop : (frame w body ++ s).drop w = body ++ s := by
    rw [frame, List.append_assoc, List.drop_left' (length_leBytes ..)]
  have hlength : ofLeBytes (leBytes w body.length) = body.length := by
    rw [ofLeBytes_leBytes, Nat.mod_eq_of_lt h]
  have hle : w + body.length ≤ (frame w body ++ s).length := by
    rw [frame, List.length_append, List.length_append, length_leBytes]
    omega
  rw [takeFrame, htake, hlength, if_pos hle, ← List.drop_drop, hdrop, List.take_left, List.drop_left]

/-- A frame that is there is not changed by what arrives later. -/
theorem takeFrame_append (h : takeFrame w s = some (body, rest)) (t : Bytes) :
    takeFrame w (s ++ t) = some (body, rest ++ t) := by
  unfold takeFrame at h ⊢
  dsimp only at h ⊢
  split at h
  · next hle =>
    cases h
    have hw : w ≤ s.length := by omega
    have hn : ofLeBytes (s.take w) ≤ (s.drop w).length := by
      rw [List.length_drop]
      omega
    rw [List.take_append_of_le_length hw, if_pos (by rw [List.length_append]; omega),
      List.drop_append_of_le_length hw, List.take_append_of_le_length hn,
      List.drop_append_of_le_length hle]
  · cases h

theorem length_of_takeFrame (hw : 0 < w) (h : takeFrame w s = some (body, rest)) :
    rest.length < s.length := by
  unfold takeFrame at h
  dsimp only at h
  split at h
  · cases h
    rw [List.length_drop]
    omega
  · cases h

/-! ## Streams -/

theorem unframes_takeFrames (hw : 0 < w) {n : ℕ} (h : s.length ≤ n) :
    Unframes w s (takeFrames w n s).1 (takeFrames w n s).2 := by
  induction n generalizing s with
  | zero =>
    obtain rfl : s = [] := List.length_eq_zero_iff.1 (Nat.le_zero.1 h)
    refine .wait (if_neg ?_)
    rw [List.length_nil]
    omega
  | succ n ih =>
    rw [takeFrames]
    cases htake : takeFrame w s with
    | none => exact .wait htake
    | some p =>
      obtain ⟨body, rest⟩ := p
      have hrest := length_of_takeFrame hw htake
      exact .take htake (ih (by omega))

/-- What arrives later is read behind what is left. -/
theorem Unframes.append {bodies' : List Bytes} {left' : Bytes} (h : Unframes w s bodies left)
    (h' : Unframes w (left ++ t) bodies' left') : Unframes w (s ++ t) (bodies ++ bodies') left' := by
  induction h with
  | wait htake => exact h'
  | take htake hrest ih => exact .take (takeFrame_append htake t) (ih h')

/-- **A text is read in one way.** -/
theorem Unframes.unique {bodies' : List Bytes} {left' : Bytes} (h : Unframes w s bodies left)
    (h' : Unframes w s bodies' left') : bodies = bodies' ∧ left = left' := by
  induction h generalizing bodies' left' with
  | wait htake =>
    cases h' with
    | wait htake' => exact ⟨rfl, rfl⟩
    | take htake' hrest' => cases htake.symm.trans htake'
  | take htake hrest ih =>
    cases h' with
    | wait htake' => cases htake.symm.trans htake'
    | take htake' hrest' =>
      cases htake.symm.trans htake'
      obtain ⟨rfl, rfl⟩ := ih hrest'
      exact ⟨rfl, rfl⟩

/-- Frames are read one after the other. -/
theorem unframes_frames (hw : 0 < w) (h : ∀ body ∈ bodies, body.length < 256 ^ w) :
    Unframes w (bodies.flatMap (frame w)) bodies [] := by
  induction bodies with
  | nil => exact unframes_takeFrames (s := []) (n := 0) hw le_rfl
  | cons body bodies ih =>
    rw [List.forall_mem_cons] at h
    exact .take (takeFrame_frame h.1 _) (ih h.2)

/-! ## The receiver -/

/-- What has arrived and is not read yet, and the bodies so far. -/
structure Receiver where
  buffer : Bytes := []
  bodies : List Bytes := []

/-- Some bytes arrive. -/
def Receiver.receive (w : ℕ) (r : Receiver) (chunk : Bytes) : Receiver :=
  let read := takeFrames w (r.buffer ++ chunk).length (r.buffer ++ chunk)
  ⟨read.2, r.bodies ++ read.1⟩

/-- **The receiver has read what has arrived**, by induction on the arrivals. -/
theorem Receiver.unframes_foldl (hw : 0 < w) (chunks : List Bytes) {r : Receiver}
    (h : Unframes w s r.bodies r.buffer) :
    Unframes w (s ++ chunks.flatten) (chunks.foldl (receive w) r).bodies
      (chunks.foldl (receive w) r).buffer := by
  induction chunks generalizing r s with
  | nil => rwa [List.flatten_nil, List.append_nil]
  | cons chunk chunks ih =>
    rw [List.flatten_cons, ← List.append_assoc]
    exact ih (r := r.receive w chunk) (h.append (unframes_takeFrames hw le_rfl))

theorem Receiver.unframes_start (hw : 0 < w) (chunks : List Bytes) :
    Unframes w chunks.flatten (chunks.foldl (receive w) {}).bodies
      (chunks.foldl (receive w) {}).buffer :=
  unframes_foldl (s := []) hw chunks (unframes_takeFrames (n := 0) hw le_rfl)

/-- **All bodies are recovered** when the whole stream has arrived, and nothing is left. -/
theorem Receiver.receive_frames (hw : 0 < w) (h : ∀ body ∈ bodies, body.length < 256 ^ w)
    {chunks : List Bytes} (hchunks : chunks.flatten = bodies.flatMap (frame w)) :
    chunks.foldl (receive w) {} = ⟨[], bodies⟩ := by
  have hframes := unframes_start hw chunks
  rw [hchunks] at hframes
  obtain ⟨hbodies, hbuffer⟩ := hframes.unique (unframes_frames hw h)
  cases hr : chunks.foldl (receive w) {}
  rw [hr] at hbodies hbuffer
  cases hbodies
  cases hbuffer
  rfl

/-- **The first bodies are recovered** when the beginning of the stream has arrived. -/
theorem Receiver.receive_prefix (hw : 0 < w) (h : ∀ body ∈ bodies, body.length < 256 ^ w)
    {chunks : List Bytes} (hchunks : chunks.flatten <+: bodies.flatMap (frame w)) :
    (chunks.foldl (receive w) {}).bodies <+: bodies := by
  obtain ⟨later, hlater⟩ := hchunks
  have hframes := (unframes_start hw chunks).append
    (unframes_takeFrames (s := (chunks.foldl (receive w) {}).buffer ++ later) hw le_rfl)
  rw [hlater] at hframes
  exact ⟨_, (hframes.unique (unframes_frames hw h)).1⟩

end GraduationServer
