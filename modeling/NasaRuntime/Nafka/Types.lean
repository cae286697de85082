import Mathlib.Algebra.Group.Int.Defs
import Mathlib.Data.Prod.Lex
import Mathlib.Data.String.Basic

/-!
# Partitions and machine integers

A topic partition and its order, which is the order of the two fields of `Tp` as the source derives
it, the bytes of keys and payloads, and the bounds of the source's machine integers.
-/

namespace NasaRuntime.Nafka

/-- `i64::MAX`. -/
def i64Max : Int := 2 ^ 63 - 1

/-- `usize::MAX`. -/
def usizeMax : ℕ := 2 ^ 64 - 1

abbrev Bytes := List UInt8

/-- A partition of a topic. -/
structure Tp where
  topic : String
  partition : Int
deriving DecidableEq

/-- The fields in the order in which they are compared. -/
def Tp.key (tp : Tp) : String ×ₗ Int := toLex (tp.topic, tp.partition)

theorem Tp.key_injective : Function.Injective Tp.key := by
  intro tp tp' h
  cases tp
  cases tp'
  simpa [Tp.key] using h

instance : LinearOrder Tp := LinearOrder.lift' Tp.key Tp.key_injective

end NasaRuntime.Nafka
