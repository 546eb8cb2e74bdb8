import Mathlib.Data.List.Basic
import Mathlib.Data.List.Infix
import Mathlib.Tactic.Common

/-!
# Byte strings

A C++ `string` is a finite sequence of bytes. Everything the servers read, store, send or hand to
the database is such a string, so the whole development works over `Bytes`.
-/

namespace GraduationServer

/-- A finite sequence of bytes, any byte allowed. -/
abbrev Bytes := List UInt8

/-- The bytes of a string literal of the source. -/
def ascii (s : String) : Bytes := s.toUTF8.data.toList

/-- What a C function sees of a string passed to it by `c_str()`: the bytes before the first zero
byte. -/
def cStr (s : Bytes) : Bytes := s.takeWhile (· ≠ 0)

end GraduationServer
