import Microkernel.Proofs.Memory.Partition
import Microkernel.Proofs.Memory.Starts

/-!
# Memory behind an address

A block that was handed out backs the bytes from its first address on.  Other requests and releases
leave it alone, and its own release ends it: what was given back backs nothing until it is handed
out again.
-/

namespace Microkernel.Memory

namespace Allocator

/-- A used block starts at an address and holds some bytes. -/
def Backs (memory : Allocator) (base size : UInt32) : Prop :=
  ∃ block, memory.blockAt? base = some block ∧ block.used = true ∧ size ≤ block.size

instance (memory : Allocator) (base size : UInt32) : Decidable (memory.Backs base size) :=
  decidable_of_iff
    (∃ block ∈ memory.blockAt? base, block.used = true ∧ size ≤ block.size) Iff.rfl

variable {memory memory' : Allocator} {base size address : UInt32}

theorem backs_iff (sound : memory.Sound) :
    memory.Backs base size ↔ ∃ extent ∈ usedExtents memory.extents,
      extent.start = base.toNat ∧ size.toNat ≤ extent.size := by
  constructor
  · rintro ⟨block, found, used, fits⟩
    have inRegion : block.extent ∈ memory.extents :=
      List.mem_map.mpr ⟨block, List.mem_of_find?_eq_some found, rfl⟩
    have startEq : block.start = base := by
      simpa using List.find?_some found
    refine ⟨block.extent, List.mem_filter.mpr ⟨inRegion, used⟩, ?_, ?_⟩
    · exact congrArg UInt32.toNat startEq
    · exact UInt32.le_iff_toNat_le.mp fits
  · rintro ⟨extent, member, startEq, fits⟩
    obtain ⟨inRegion, used⟩ := List.mem_filter.mp member
    obtain ⟨block, found, blockExtent⟩ := blockAt?_of_mem sound inRegion startEq
    rw [← blockExtent] at used fits
    exact ⟨block, found, used, UInt32.le_iff_toNat_le.mpr fits⟩

theorem Backs.mem_usedStarts (backed : memory.Backs base size) (sound : memory.Sound) :
    base ∈ memory.usedStarts := by
  obtain ⟨extent, member, startEq, _⟩ := (backs_iff sound).mp backed
  exact mem_usedStarts_iff.mpr ⟨extent, member, startEq⟩

theorem Backs.alloc (backed : memory.Backs base size) (sound : memory.Sound)
    (minBlock_pos : 0 < memory.region.minBlock.toNat) {request : UInt32}
    (done : memory.alloc request = .ok address memory') : memory'.Backs base size := by
  obtain ⟨extent, member, bounds⟩ := (backs_iff sound).mp backed
  apply (backs_iff (alloc_sound sound minBlock_pos done).1).mpr
  exact ⟨extent, alloc_keeps sound minBlock_pos done member, bounds⟩

theorem Backs.free (backed : memory.Backs base size) (sound : memory.Sound)
    (done : memory.free address = .ok () memory') (elsewhere : base ≠ address) :
    memory'.Backs base size := by
  obtain ⟨extent, member, startEq, fits⟩ := (backs_iff sound).mp backed
  apply (backs_iff (free_sound sound done).1).mpr
  refine ⟨extent, free_keeps sound done member ?_, startEq, fits⟩
  rw [startEq]
  intro sameStart
  exact elsewhere (UInt32.toNat_inj.mp sameStart)

theorem not_backs_of_free (sound : memory.Sound) (done : memory.free address = .ok () memory') :
    ¬ memory'.Backs address size := by
  intro backed
  have distinct := (free_usedStarts sound done).nodup_iff.mp (usedStarts_nodup sound)
  apply (List.nodup_cons.mp distinct).1
  exact backed.mem_usedStarts (free_sound sound done).1

/-- Two blocks that start at different addresses have no byte in common. -/
theorem Backs.apart {otherBase otherSize : UInt32} (backed : memory.Backs base size)
    (otherBacked : memory.Backs otherBase otherSize) (sound : memory.Sound)
    (different : base ≠ otherBase) :
    base.toNat + size.toNat ≤ otherBase.toNat ∨
      otherBase.toNat + otherSize.toNat ≤ base.toNat := by
  have tiles := sound.tiles_extents
  obtain ⟨extent, member, startEq, fits⟩ := (backs_iff sound).mp backed
  obtain ⟨other, otherMember, otherStartEq, otherFits⟩ := (backs_iff sound).mp otherBacked
  have distinct : extent ≠ other := by
    rintro rfl
    exact different (UInt32.toNat_inj.mp (startEq.symm.trans otherStartEq))
  have separated : Extent.Apart extent other :=
    tiles.apart (List.mem_of_mem_filter member) (List.mem_of_mem_filter otherMember) distinct
  simp only [Extent.Apart, Extent.stop] at separated
  omega

end Allocator

end Microkernel.Memory
