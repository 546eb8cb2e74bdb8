import GraduationServer.Foundations.Bytes
import Mathlib.Data.List.Infix

/-!
# Paths, resolved lexically

A place in a tree of names is the list of the names on the way down to it. A walk through the tree goes
down to a name, up, or stays (`walk`); up from the root stays there. What a walk amounts to is a
`Route`: it goes up some levels first, and then down (`walk_eq_follow`). A path is such a walk, with
`.` and `..` as steps that stay and go up (`moves`), from the root or from a working directory
(`location`).
-/

namespace GraduationServer

/-! ## Walks -/

/-- A step through a tree of names. -/
inductive Move (α : Type*)
  | stay
  | up
  | down (name : α)

section Walks

variable {α : Type*}

def Move.apply (place : List α) : Move α → List α
  | stay => place
  | up => place.dropLast
  | down name => place ++ [name]

/-- The place that is reached. -/
def walk (place : List α) (moves : List (Move α)) : List α := moves.foldl Move.apply place

theorem walk_append (place : List α) (moves moves' : List (Move α)) :
    walk place (moves ++ moves') = walk (walk place moves) moves' := List.foldl_append

/-- Some levels up, and then down. -/
structure Route (α : Type*) where
  ups : ℕ
  downs : List α

namespace Route

/-- The route with a step behind it. -/
def step (r : Route α) : Move α → Route α
  | .stay => r
  | .up =>
    match r.downs with
    | [] => ⟨r.ups + 1, []⟩
    | name :: names => ⟨r.ups, (name :: names).dropLast⟩
  | .down name => ⟨r.ups, r.downs ++ [name]⟩

/-- The place at the end of a route. -/
def follow (r : Route α) (place : List α) : List α := place.take (place.length - r.ups) ++ r.downs

theorem follow_step (r : Route α) (place : List α) (m : Move α) :
    (r.step m).follow place = m.apply (r.follow place) := by
  cases m with
  | stay => rfl
  | up =>
    obtain ⟨ups, downs⟩ := r
    cases downs with
    | nil =>
      have hlength : (place.take (place.length - ups)).length - 1 = place.length - (ups + 1) := by
        rw [List.length_take]
        omega
      simp only [step, follow, Move.apply, List.append_nil]
      rw [List.dropLast_eq_take, List.take_take, hlength, min_eq_left (by omega)]
    | cons name names =>
      exact (List.dropLast_append_of_ne_nil (List.cons_ne_nil name names)).symm
  | down name => exact (List.append_assoc ..).symm

/-- A place is still in a directory, that it was in, when the route leaves no more of the directory than it
goes down to again. -/
theorem prefix_follow_iff {directory place : List α} (h : directory <+: place) (r : Route α) :
    directory <+: r.follow place ↔ directory.drop (place.length - r.ups) <+: r.downs := by
  obtain ⟨below, rfl⟩ := h
  rw [follow]
  generalize (directory ++ below).length - r.ups = n
  rcases le_total directory.length n with hn | hn
  · rw [List.drop_eq_nil_of_le hn, List.take_append]
    refine iff_of_true ?_ (List.nil_prefix)
    rw [List.take_of_length_le hn, List.append_assoc]
    exact List.prefix_append _ _
  · have hkept : (directory ++ below).take n = directory.take n := by
      rw [List.take_append, Nat.sub_eq_zero_of_le hn, List.take_zero, List.append_nil]
    rw [hkept]
    nth_rewrite 1 [← List.take_append_drop n directory]
    exact List.prefix_append_right_inj _

end Route

/-- What a walk amounts to. -/
def route (moves : List (Move α)) : Route α := moves.foldl Route.step ⟨0, []⟩

/-- **A walk ends where its route does.** -/
theorem walk_eq_follow (place : List α) (moves : List (Move α)) :
    walk place moves = (route moves).follow place := by
  have hstart : place = (⟨0, []⟩ : Route α).follow place := by
    rw [Route.follow, Nat.sub_zero, List.take_length, List.append_nil]
  rw [walk, route]
  nth_rewrite 1 [hstart]
  exact List.foldl_hom (fun r : Route α => r.follow place) fun r m => (r.follow_step place m).symm

end Walks

/-! ## Paths -/

/-- The step of a component of a path. -/
def componentMove (component : Bytes) : Move Bytes :=
  if component = [] ∨ component = ascii "." then .stay
  else if component = ascii ".." then .up
  else .down component

/-- The steps of a path. -/
def moves (path : Bytes) : List (Move Bytes) := (path.splitOn 0x2F).map componentMove

theorem moves_append (path path' : Bytes) :
    moves (path ++ 0x2F :: path') = moves path ++ moves path' := by
  rw [moves, List.splitOn_append_cons_of_beq _ _ (beq_self_eq_true _), List.map_append]
  rfl

/-- The place of a path: from the root if it begins with a slash, otherwise from the working directory. -/
def location (cwd : List Bytes) (path : Bytes) : List Bytes :=
  walk (if path.head? = some 0x2F then [] else cwd) (moves path)

/-- A name below a directory is resolved from there. -/
theorem location_append (cwd : List Bytes) (directory name : Bytes)
    (h : directory.head? = some 0x2F) :
    location cwd (directory ++ 0x2F :: name) = walk (location cwd directory) (moves name) := by
  rw [location, location, List.head?_append, h, moves_append, walk_append]
  rfl

end GraduationServer
