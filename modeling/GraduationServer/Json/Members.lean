import GraduationServer.Json.Value
import Mathlib.Data.List.Nodup

/-!
# Objects set member by member

A reply is an object whose members are set one after the other. The order of the keys does not matter
to a reader: a member that was set is found, whatever was set before and is set after it
(`member_ofMembers`).
-/

namespace GraduationServer

namespace Json

namespace Value

variable {key : Bytes} {v : Value}

theorem lookup_cons (key k : Bytes) (v : Value) (members : List (Bytes × Value)) :
    lookup ((k, v) :: members) key = if key = k then v else lookup members key := by
  unfold lookup
  rw [List.lookup_cons]
  by_cases h : key = k
  · simp [h]
  · rw [if_neg h, beq_eq_false_iff_ne.2 h]

/-- A key is set to a value, and the other keys keep theirs. -/
theorem lookup_setMember (key k : Bytes) (v : Value) (members : List (Bytes × Value)) :
    lookup (setMember k v members) key = if key = k then v else lookup members key := by
  induction members with
  | nil => exact lookup_cons key k v []
  | cons m members ih =>
    obtain ⟨l, w⟩ := m
    unfold setMember
    split
    · next hk =>
      subst hk
      rw [lookup_cons, lookup_cons]
      split <;> rfl
    · next hk =>
      split
      · exact lookup_cons key k v _
      · rw [lookup_cons, lookup_cons, ih]
        by_cases hkey : key = l
        · rw [if_pos hkey, if_pos hkey, if_neg fun heq => hk (heq.symm.trans hkey)]
        · rw [if_neg hkey, if_neg hkey]

/-- Keys that are set later do not matter to the others. -/
theorem lookup_foldl_of_notMem {ms : List (Bytes × Value)} (h : key ∉ ms.map Prod.fst)
    (members : List (Bytes × Value)) :
    lookup (ms.foldl (fun ms m => setMember m.1 m.2 ms) members) key = lookup members key := by
  induction ms generalizing members with
  | nil => rfl
  | cons m ms ih =>
    rw [List.map_cons, List.mem_cons, not_or] at h
    rw [List.foldl_cons, ih h.2, lookup_setMember, if_neg h.1]

/-- A key that is set once has its value. -/
theorem lookup_foldl {ms : List (Bytes × Value)} (hkeys : (ms.map Prod.fst).Nodup)
    (h : (key, v) ∈ ms) (members : List (Bytes × Value)) :
    lookup (ms.foldl (fun ms m => setMember m.1 m.2 ms) members) key = v := by
  induction ms generalizing members with
  | nil => cases h
  | cons m ms ih =>
    rw [List.map_cons, List.nodup_cons] at hkeys
    rw [List.foldl_cons]
    rcases List.mem_cons.1 h with rfl | h
    · rw [lookup_foldl_of_notMem hkeys.1, lookup_setMember, if_pos rfl]
    · exact ih hkeys.2 h _

/-- **A member that was set is found.** -/
theorem member_ofMembers {ms : List (Bytes × Value)} (hkeys : (ms.map Prod.fst).Nodup)
    (h : (key, v) ∈ ms) : (ofMembers ms).member key = some v :=
  congrArg some (lookup_foldl hkeys h [])

end Value

end Json

end GraduationServer
