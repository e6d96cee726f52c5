import Mathlib.Data.List.Perm.Basic
import Microkernel.Proofs.Memory.Release

/-!
# The addresses that are handed out

A client knows a used block by its first address.  A successful request adds its answer to these
addresses, a release takes its argument away, and it succeeds for every one of them.
-/

namespace Microkernel.Memory

/-- The first addresses of the used blocks, in address order. -/
def Allocator.usedStarts (memory : Allocator) : List UInt32 :=
  (memory.blocks.filter Block.used).map Block.start

private theorem perm_of_map_toNat {left right : List UInt32}
    (perm : (left.map UInt32.toNat).Perm (right.map UInt32.toNat)) : left.Perm right :=
  (List.map_perm_map_iff fun _ _ equal => UInt32.toNat_inj.mp equal).mp perm

namespace Allocator

variable {memory memory' : Allocator} {address : UInt32}

theorem usedStarts_toNat (memory : Allocator) :
    memory.usedStarts.map UInt32.toNat = (usedExtents memory.extents).map Extent.start := by
  rw [usedStarts, usedExtents, extents, List.filter_map, List.map_map, List.map_map]
  rfl

theorem usedStarts_nodup (sound : memory.Sound) : memory.usedStarts.Nodup := by
  have tiles := sound.tiles_extents
  apply List.Nodup.of_map UInt32.toNat
  rw [usedStarts_toNat]
  exact tiles.starts_nodup.sublist (List.filter_sublist.map Extent.start)

theorem mem_usedStarts_iff :
    address ∈ memory.usedStarts ↔
      ∃ extent ∈ usedExtents memory.extents, extent.start = address.toNat := by
  have sameStarts := usedStarts_toNat memory
  constructor
  · intro member
    have startMember := List.mem_map_of_mem (f := UInt32.toNat) member
    rw [sameStarts] at startMember
    exact List.mem_map.mp startMember
  · rintro ⟨extent, member, startEq⟩
    have startMember := List.mem_map_of_mem (f := Extent.start) member
    rw [← sameStarts, startEq] at startMember
    obtain ⟨same, sameMember, equal⟩ := List.mem_map.mp startMember
    rwa [← UInt32.toNat_inj.mp equal]

theorem base_le_of_mem_usedStarts (sound : memory.Sound) (member : address ∈ memory.usedStarts) :
    memory.region.base.toNat ≤ address.toNat := by
  have tiles := sound.tiles_extents
  obtain ⟨extent, extentMember, startEq⟩ := mem_usedStarts_iff.mp member
  rw [← startEq]
  exact (tiles.bounds (List.mem_of_mem_filter extentMember)).1

theorem alloc_usedStarts {size : UInt32} (sound : memory.Sound)
    (minBlock_pos : 0 < memory.region.minBlock.toNat)
    (done : memory.alloc size = .ok address memory') :
    memory'.usedStarts.Perm (address :: memory.usedStarts) := by
  obtain ⟨request, _, recorded⟩ := alloc_usedExtents sound minBlock_pos done
  refine perm_of_map_toNat ?_
  rw [List.map_cons, usedStarts_toNat, usedStarts_toNat]
  exact recorded.map Extent.start

theorem free_usedStarts (sound : memory.Sound) (done : memory.free address = .ok () memory') :
    memory.usedStarts.Perm (address :: memory'.usedStarts) := by
  obtain ⟨extent, _, startEq, recorded⟩ := free_usedExtents sound done
  refine perm_of_map_toNat ?_
  rw [List.map_cons, usedStarts_toNat, usedStarts_toNat, ← startEq]
  exact recorded.map Extent.start

/-- Every address that is handed out can be given back. -/
theorem free_of_mem_usedStarts (member : address ∈ memory.usedStarts) :
    ∃ memory', memory.free address = .ok () memory' := by
  cases done : memory.free address with
  | ok _ memory' =>
      exact ⟨memory', rfl⟩
  | error cause after =>
      obtain ⟨rfl, rfl⟩ := free_eq_error done
      obtain ⟨extent, extentMember, startEq⟩ := mem_usedStarts_iff.mp member
      obtain ⟨inRegion, used⟩ := List.mem_filter.mp extentMember
      exact absurd startEq (free_eq_error_iff.mp done extent inRegion used)

theorem alloc_keeps {size : UInt32} (sound : memory.Sound)
    (minBlock_pos : 0 < memory.region.minBlock.toNat)
    (done : memory.alloc size = .ok address memory') {extent : Extent}
    (member : extent ∈ usedExtents memory.extents) : extent ∈ usedExtents memory'.extents := by
  obtain ⟨_, _, recorded⟩ := alloc_usedExtents sound minBlock_pos done
  exact recorded.mem_iff.mpr (List.mem_cons_of_mem _ member)

theorem free_keeps (sound : memory.Sound) (done : memory.free address = .ok () memory')
    {extent : Extent} (member : extent ∈ usedExtents memory.extents)
    (elsewhere : extent.start ≠ address.toNat) : extent ∈ usedExtents memory'.extents := by
  obtain ⟨taken, _, startEq, recorded⟩ := free_usedExtents sound done
  rcases List.mem_cons.mp (recorded.mem_iff.mp member) with equal | kept
  · rw [equal, startEq] at elsewhere
    exact absurd rfl elsewhere
  · exact kept

/-- What is left of the used extents is those that start elsewhere, in the order in which they
were. -/
theorem free_usedExtents_eq_filter (sound : memory.Sound)
    (done : memory.free address = .ok () memory') :
    usedExtents memory'.extents =
      (usedExtents memory.extents).filter fun extent => extent.start ≠ address.toNat := by
  obtain ⟨before, taken, behind, shape, used, startEq, _, _, extentsEq⟩ :=
    free_extents sound done
  have tiles := sound.tiles_extents
  rw [shape] at tiles
  have distinct := tiles.starts_nodup
  rw [List.map_append, List.map_cons] at distinct
  have elsewhere : ∀ side, (∀ extent ∈ side, extent.start ≠ taken.start) →
      (usedExtents side).filter (fun extent => extent.start ≠ address.toNat) =
        usedExtents side := by
    intro side apart
    apply List.filter_eq_self.mpr
    intro extent member
    rw [← startEq]
    exact decide_eq_true (apart extent (List.mem_of_mem_filter member))
  have takenGone :
      (usedExtents [taken]).filter (fun extent => extent.start ≠ address.toNat) = [] := by
    simp [usedExtents, used, startEq]
  rw [extentsEq, usedExtents_released, shape, usedExtents_append, usedExtents_cons taken,
    List.filter_append, List.filter_append, takenGone, List.nil_append, elsewhere before,
    elsewhere behind]
  · intro extent member sameStart
    have starts := (List.nodup_append.mp distinct).2.1
    apply (List.nodup_cons.mp starts).1
    exact List.mem_map.mpr ⟨extent, member, sameStart⟩
  · intro extent member sameStart
    have apart := (List.nodup_append.mp distinct).2.2
    exact apart _ (List.mem_map_of_mem member) _ List.mem_cons_self sameStart

end Allocator

end Microkernel.Memory
