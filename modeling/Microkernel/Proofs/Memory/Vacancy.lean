import Microkernel.Proofs.Memory.Coalesced

/-!
# Vacant bytes

Where neighbours are never both free, the free extents are the largest stretches of bytes that
belong to no used extent.  Vacant bytes in a row therefore lie in one free extent, and whether the
bytes beside a stretch are vacant as well tells whether the extent around it goes on there.
-/

namespace Microkernel.Memory

/-- Bytes between `first` and `last`, none of which belongs to one of some extents. -/
structure Vacant (first last : Nat) (grants : List Extent) (start count : Nat) : Prop where
  first_le : first ≤ start
  stop_le : start + count ≤ last
  apart : ∀ grant ∈ grants, start + count ≤ grant.start ∨ grant.stop ≤ start

instance (first last : Nat) (grants : List Extent) (start count : Nat) :
    Decidable (Vacant first last grants start count) :=
  decidable_of_iff
    (first ≤ start ∧ start + count ≤ last ∧
      ∀ grant ∈ grants, start + count ≤ grant.start ∨ grant.stop ≤ start)
    ⟨fun ⟨low, high, apart⟩ => ⟨low, high, apart⟩,
      fun vacant => ⟨vacant.first_le, vacant.stop_le, vacant.apart⟩⟩

variable {first last start count : Nat} {extents : List Extent} {extent : Extent}

theorem vacant_congr {grants others : List Extent} (same : grants.Perm others) :
    Vacant first last grants start count ↔ Vacant first last others start count := by
  constructor
  · intro vacant
    exact ⟨vacant.first_le, vacant.stop_le,
      fun grant member => vacant.apart grant (same.mem_iff.mpr member)⟩
  · intro vacant
    exact ⟨vacant.first_le, vacant.stop_le,
      fun grant member => vacant.apart grant (same.mem_iff.mp member)⟩

/-- Vacant bytes that follow one another are vacant together. -/
theorem Vacant.append {grants : List Extent} {more : Nat}
    (vacant : Vacant first last grants start count)
    (further : Vacant first last grants (start + count) more)
    (positive : ∀ grant ∈ grants, 0 < grant.size) :
    Vacant first last grants start (count + more) := by
  refine ⟨vacant.first_le, ?_, ?_⟩
  · rw [← Nat.add_assoc]
    exact further.stop_le
  · intro grant member
    have here := vacant.apart grant member
    have there := further.apart grant member
    have notEmpty := positive grant member
    simp only [Extent.stop] at here there ⊢
    omega

namespace Tiles

private theorem used_positive (tiles : Tiles first extents last) :
    ∀ grant ∈ usedExtents extents, 0 < grant.size :=
  fun _ member => (tiles.bounds (List.mem_of_mem_filter member)).2.1

/-- A part of a free extent is vacant. -/
theorem vacant_of_free (tiles : Tiles first extents last) (member : extent ∈ extents)
    (free : extent.used = false) (low : extent.start ≤ start)
    (high : start + count ≤ extent.stop) :
    Vacant first last (usedExtents extents) start count := by
  have bounds := tiles.bounds member
  refine ⟨bounds.1.trans low, high.trans bounds.2.2, ?_⟩
  intro grant grantMember
  obtain ⟨inRegion, used⟩ := List.mem_filter.mp grantMember
  have different : extent ≠ grant := by
    rintro rfl
    exact Bool.false_ne_true (free.symm.trans used)
  rcases tiles.apart member inRegion different with before | behind
  · exact Or.inl (high.trans before)
  · exact Or.inr (behind.trans low)

/-- Vacant bytes in a row lie in one free extent. -/
theorem exists_free_of_vacant (tiles : Tiles first extents last) (coalesced : Coalesced extents)
    (positive : 0 < count) (vacant : Vacant first last (usedExtents extents) start count) :
    ∃ extent ∈ extents,
      extent.used = false ∧ extent.start ≤ start ∧ start + count ≤ extent.stop := by
  induction extents generalizing first with
  | nil =>
      have firstEq : first = last := tiles
      have low := vacant.first_le
      have high := vacant.stop_le
      omega
  | cons head tail inductionHypothesis =>
      obtain ⟨startEq, _, tailTiles⟩ := tiles
      have low := vacant.first_le
      have high := vacant.stop_le
      by_cases later : head.stop ≤ start
      · have tailCoalesced : Coalesced tail := List.IsChain.of_cons coalesced
        have tailVacant : Vacant head.stop last (usedExtents tail) start count := by
          refine ⟨later, high, ?_⟩
          intro grant member
          obtain ⟨inTail, used⟩ := List.mem_filter.mp member
          exact vacant.apart grant
            (List.mem_filter.mpr ⟨List.mem_cons_of_mem head inTail, used⟩)
        obtain ⟨extent, member, holds⟩ := inductionHypothesis tailTiles tailCoalesced tailVacant
        exact ⟨extent, List.mem_cons_of_mem head member, holds⟩
      · cases headUsed : head.used with
        | true =>
            have headApart := vacant.apart head
              (List.mem_filter.mpr ⟨List.mem_cons_self, headUsed⟩)
            omega
        | false =>
            refine ⟨head, List.mem_cons_self, headUsed, startEq.trans_le low, ?_⟩
            obtain ⟨_, _, usedFirst⟩ := (coalesced_free_iff [] headUsed).mp coalesced
            -- Behind a free extent comes a used one, or the end of the region.
            cases tail with
            | nil =>
                have stopEq : head.stop = last := tailTiles
                exact high.trans_eq stopEq.symm
            | cons next rest =>
                obtain ⟨nextStart, nextPositive, _⟩ := tailTiles
                have nextUsed : next.used = true := usedFirst next rfl
                have nextMember : next ∈ usedExtents (head :: next :: rest) :=
                  List.mem_filter.mpr ⟨List.mem_cons_of_mem head List.mem_cons_self, nextUsed⟩
                have nextApart := vacant.apart next nextMember
                simp only [Extent.stop] at nextApart nextStart later ⊢
                omega

/-- Vacant bytes lie in the extent of any of them. -/
theorem within_of_vacant (tiles : Tiles first extents last) (coalesced : Coalesced extents)
    (vacant : Vacant first last (usedExtents extents) start count) (member : extent ∈ extents)
    {byte : Nat} (startLe : start ≤ byte) (ltStop : byte < start + count)
    (low : extent.start ≤ byte) (high : byte < extent.stop) :
    extent.start ≤ start ∧ start + count ≤ extent.stop := by
  obtain ⟨around, aroundMember, _, aroundLow, aroundHigh⟩ :=
    tiles.exists_free_of_vacant coalesced (by omega) vacant
  have same : around = extent := by
    by_contra different
    have apart := tiles.apart aroundMember member different
    simp only [Extent.Apart] at apart
    omega
  subst same
  exact ⟨aroundLow, aroundHigh⟩

section Sides

variable (tiles : Tiles first extents last) (coalesced : Coalesced extents)
  (member : extent ∈ extents) (free : extent.used = false) (positive : 0 < count)
  (low : extent.start ≤ start) (high : start + count ≤ extent.stop)

include tiles coalesced member free positive low high

/-- The byte before a vacant stretch is vacant exactly if the extent around it begins earlier. -/
theorem vacant_before_iff :
    0 < start ∧ Vacant first last (usedExtents extents) (start - 1) 1 ↔ extent.start < start := by
  constructor
  · rintro ⟨notFirst, vacant⟩
    have here := tiles.vacant_of_free member free low high
    have startEq : start - 1 + 1 = start := Nat.sub_add_cancel notFirst
    have both : Vacant first last (usedExtents extents) (start - 1) (1 + count) := by
      refine vacant.append ?_ tiles.used_positive
      rwa [startEq]
    have within := tiles.within_of_vacant coalesced both member (Nat.sub_le start 1) (by omega)
      low (by omega)
    omega
  · intro earlier
    exact ⟨by omega, tiles.vacant_of_free member free (by omega) (by omega)⟩

/-- The byte behind a vacant stretch is vacant exactly if the extent around it ends later. -/
theorem vacant_behind_iff :
    Vacant first last (usedExtents extents) (start + count) 1 ↔ start + count < extent.stop := by
  constructor
  · intro vacant
    have here := tiles.vacant_of_free member free low high
    have both := here.append vacant tiles.used_positive
    have within := tiles.within_of_vacant coalesced both member (Nat.le_refl start) (by omega)
      low (by omega)
    omega
  · intro later
    exact tiles.vacant_of_free member free (by omega) later

end Sides

end Tiles

end Microkernel.Memory
