import Mathlib.Algebra.Order.Ring.Int

/-! Spans and points of time in fixed-width seconds and nanoseconds.

    A `Duration` has unsigned 64-bit seconds, an `Instant` signed ones; both have less than a second of
    nanoseconds. A duration of milliseconds always fits; an instant moved by a duration may not. -/

namespace Times

/-- The nanoseconds of a second. -/
abbrev second : Nat := 1000000000

structure Duration where
  secs : Nat
  nanos : Nat
  secs_lt : secs < 2 ^ 64
  nanos_lt : nanos < second
  deriving DecidableEq

namespace Duration

def toNanos (d : Duration) : Nat := d.secs * second + d.nanos

/-- `Duration::from_millis` -/
def fromMillis (millis : UInt64) : Duration where
  secs := millis.toNat / 1000
  nanos := millis.toNat % 1000 * 1000000
  secs_lt := Nat.lt_of_le_of_lt (Nat.div_le_self _ _) millis.toNat_lt
  nanos_lt := by
    have hmod := Nat.mod_lt millis.toNat (y := 1000) (by decide)
    simp only [second]
    omega

/-- `Duration::as_millis` -/
def asMillis (d : Duration) : Nat := d.secs * 1000 + d.nanos / 1000000

/-- Seconds are compared first, then nanoseconds. -/
instance : LT Duration where
  lt a b := a.secs < b.secs ∨ a.secs = b.secs ∧ a.nanos < b.nanos

theorem lt_iff {a b : Duration} : a < b ↔ a.toNanos < b.toNanos := by
  have ha := a.nanos_lt
  have hb := b.nanos_lt
  change a.secs < b.secs ∨ a.secs = b.secs ∧ a.nanos < b.nanos ↔ _
  simp only [toNanos, second] at *
  omega

@[simp] theorem toNanos_fromMillis (millis : UInt64) : (fromMillis millis).toNanos = millis.toNat * 1000000 := by
  simp only [fromMillis, toNanos, second]
  omega

@[simp] theorem asMillis_fromMillis (millis : UInt64) : (fromMillis millis).asMillis = millis.toNat := by
  simp only [fromMillis, asMillis]
  omega

theorem fromMillis_lt_iff {a b : UInt64} : fromMillis a < fromMillis b ↔ a < b := by
  rw [lt_iff, toNanos_fromMillis, toNanos_fromMillis, UInt64.lt_iff_toNat_lt]
  omega

end Duration

structure Instant where
  secs : Int
  nanos : Nat
  secs_le : -2 ^ 63 ≤ secs
  secs_lt : secs < 2 ^ 63
  nanos_lt : nanos < second
  deriving DecidableEq

namespace Instant

def toNanos (t : Instant) : Int := t.secs * second + t.nanos

/-- What the nanoseconds of both carry over. -/
def carry (t : Instant) (d : Duration) : Nat := (t.nanos + d.nanos) / second

/-- `Instant::checked_add` -/
def checkedAdd (t : Instant) (d : Duration) : Option Instant :=
  if h : t.secs + d.secs + t.carry d < 2 ^ 63 then
    some
      { secs := t.secs + d.secs + t.carry d
        nanos := (t.nanos + d.nanos) % second
        secs_le := by
          have ht := t.secs_le
          omega
        secs_lt := h
        nanos_lt := Nat.mod_lt _ (by decide) }
  else none

theorem toNanos_add (t : Instant) (d : Duration) :
    t.toNanos + d.toNanos = (t.secs + d.secs + t.carry d) * second + ((t.nanos + d.nanos) % second : Nat) := by
  simp only [toNanos, Duration.toNanos, carry, second]
  omega

theorem checkedAdd_isSome_iff {t : Instant} {d : Duration} :
    (t.checkedAdd d).isSome ↔ t.toNanos + d.toNanos < 2 ^ 63 * second := by
  have hmod := Nat.mod_lt (t.nanos + d.nanos) (y := second) (by decide)
  rw [toNanos_add, checkedAdd]
  simp only [second] at *
  split <;> simp only [Option.isSome_some, Option.isSome_none, true_iff, Bool.false_eq_true, false_iff] <;> omega

end Instant

end Times
