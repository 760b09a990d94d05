/-
This file is the library of measured time. A stretch of time has a start and a
finish; a packing of stretches between two points of time says that they lie
there, that no two of them overlap and that their lengths add up to no more
than what lies between the points. Packings that follow each other compose,
and the order in which the stretches are listed does not matter.
-/

import Mathlib.Algebra.BigOperators.Group.List.Basic
import Mathlib.Algebra.Order.Group.Basic
import Mathlib.Order.CompletePartialOrder
import Mathlib.Order.Interval.Set.Disjoint

structure Stretch (Time : Type*) where
  start : Time
  finish : Time
  deriving DecidableEq, Repr

namespace Stretch

variable {Time : Type*}

def length [Sub Time] (stretch : Stretch Time) : Time := stretch.finish - stretch.start

section Order

variable [LinearOrder Time] {first second : Stretch Time}

/-- No point of time is in both. -/
def Apart (first second : Stretch Time) : Prop :=
  Disjoint (Set.Ico first.start first.finish) (Set.Ico second.start second.finish)

theorem Apart.symm (apart : Apart first second) : Apart second first := Disjoint.symm apart

theorem apart_of_le (le : first.finish ≤ second.start) : Apart first second :=
  Set.Ico_disjoint_Ico.mpr (le_trans (min_le_left _ _) (le_trans le (le_max_right _ _)))

end Order

/-- The stretches lie between `low` and `high`, do not overlap and fit in. -/
structure Packed [LinearOrder Time] [AddCommGroup Time] (low high : Time)
    (stretches : List (Stretch Time)) : Prop where
  le : low ≤ high
  within : ∀ stretch ∈ stretches, low ≤ stretch.start ∧ stretch.start ≤ stretch.finish ∧
    stretch.finish ≤ high
  apart : stretches.Pairwise Apart
  total : (stretches.map length).sum ≤ high - low

namespace Packed

section Group

variable [LinearOrder Time] [AddCommGroup Time] {low high : Time}

theorem single (le : low ≤ high) : Packed low high [⟨low, high⟩] where
  le := le
  within := fun stretch member => by
    rw [List.mem_singleton.mp member]
    exact ⟨le_rfl, le, le_rfl⟩
  apart := List.pairwise_singleton _ _
  total := by rw [List.map_singleton, List.sum_singleton, length]

theorem perm {first second : List (Stretch Time)} (packed : Packed low high first)
    (same : first.Perm second) : Packed low high second where
  le := packed.le
  within := fun stretch member => packed.within stretch (same.mem_iff.mpr member)
  apart := (same.pairwise_iff Apart.symm).mp packed.apart
  total := by
    rw [← (same.map length).sum_eq]
    exact packed.total

end Group

variable [LinearOrder Time] [AddCommGroup Time] [IsOrderedAddMonoid Time]
  {low middle high : Time} {first second : List (Stretch Time)}

theorem nil (le : low ≤ high) : Packed low high [] where
  le := le
  within := fun _ member => nomatch member
  apart := List.Pairwise.nil
  total := sub_nonneg.mpr le

theorem append (before : Packed low middle first) (after : Packed middle high second) :
    Packed low high (first ++ second) where
  le := before.le.trans after.le
  within := fun stretch member => by
    rcases List.mem_append.mp member with early | late
    · obtain ⟨lower, ordered, upper⟩ := before.within stretch early
      exact ⟨lower, ordered, upper.trans after.le⟩
    · obtain ⟨lower, ordered, upper⟩ := after.within stretch late
      exact ⟨before.le.trans lower, ordered, upper⟩
  apart := List.pairwise_append.mpr ⟨before.apart, after.apart, fun early inFirst late inSecond =>
    apart_of_le ((before.within early inFirst).2.2.trans (after.within late inSecond).1)⟩
  total := by
    rw [List.map_append, List.sum_append, ← sub_add_sub_cancel' middle low high]
    exact add_le_add before.total after.total

theorem extend (packed : Packed low middle first) (le : middle ≤ high) : Packed low high first := by
  have both := packed.append (nil le)
  rwa [List.append_nil] at both

end Packed

end Stretch
