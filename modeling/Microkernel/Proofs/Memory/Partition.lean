import Microkernel.Proofs.Memory.Release

/-!
# The partition of the region

After `init` an allocator serves any sequence of requests and releases.  An account keeps beside
it a record of what was handed out and not taken back, each extent as it was at that moment.
`run_partitioned` says that the chain of blocks always tiles the region, and that its used blocks
are the recorded ones.
-/

namespace Microkernel.Memory

/-- The regions that an allocator is made for. -/
structure Region.Usable (region : Region) : Prop where
  alignment_pos : 1 ≤ region.alignment
  minBlock_pos : 1 ≤ region.minBlock
  size_pos : 1 ≤ region.size
  stop_lt : region.base.toNat + region.size.toNat < 2 ^ 32

/-- What a client may ask of an allocator. -/
inductive Request where
  | alloc (size : UInt32)
  | free (address : UInt32)

/-- The used extent at an address, with the size of the block that is found there. -/
def Allocator.grantAt (memory : Allocator) (address : UInt32) : Extent :=
  ⟨address.toNat, ((memory.blockAt? address).elim 0 Block.size).toNat, true⟩

/-- The bytes in the blocks that a test selects. -/
def Allocator.bytesWhere (memory : Allocator) (test : Block → Bool) : Nat :=
  ((memory.blocks.filter test).map fun block => block.size.toNat).sum

/-- An allocator and the extents that it handed out and has not taken back, each one as it was
when it was handed out. -/
structure Account where
  memory : Allocator
  live : List Extent

namespace Account

/-- An allocator after `init`, with nothing handed out. -/
def opened (memory : Allocator) : Account :=
  ⟨memory.init, []⟩

/-- Serve a request.  One that fails is not recorded. -/
def serve (account : Account) : Request → Account
  | .alloc size =>
      match account.memory.alloc size with
      | .ok address memory => ⟨memory, memory.grantAt address :: account.live⟩
      | .error _ memory => { account with memory }
  | .free address =>
      match account.memory.free address with
      | .ok _ memory =>
          ⟨memory, account.live.filter fun grant => grant.start != address.toNat⟩
      | .error _ memory => { account with memory }

def run (account : Account) (requests : List Request) : Account :=
  requests.foldl serve account

/-- The representation invariant of an allocator, and its account of what is handed out. -/
structure Partitioned (account : Account) : Prop where
  /-- Following the links from the head visits the entries of the chain, and ends. -/
  linked : Linked account.memory.pool account.memory.head account.memory.chain none
  distinct : account.memory.chain.Nodup
  taken : ∀ id ∈ account.memory.chain, id.val < account.memory.poolUsed
  poolUsed_le : account.memory.poolUsed ≤ maxBlocks
  /-- The blocks are not empty and cover the region without gap or overlap. -/
  tiles : Tiles account.memory.region.base.toNat account.memory.extents
    (account.memory.region.base.toNat + account.memory.region.size.toNat)
  /-- The two sums do not wrap. -/
  freeBytes_eq :
    account.memory.freeBytes.toNat = account.memory.bytesWhere fun block => !block.used
  usedBytes_eq : account.memory.usedBytes.toNat = account.memory.bytesWhere Block.used
  freeBytes_add_usedBytes : account.memory.freeBytes.toNat + account.memory.usedBytes.toNat =
    account.memory.region.size.toNat
  /-- The used blocks are the recorded extents, each one once and unchanged. -/
  recorded : (usedExtents account.memory.extents).Perm account.live
  apart : account.live.Pairwise Extent.Apart

end Account

namespace Allocator

variable {memory memory' : Allocator}

private theorem init_region : memory.init.region = memory.region :=
  rfl

/-- The one block after `init`. -/
theorem init_entry (memory : Allocator) :
    memory.init.pool[(0 : BlockId)] = ⟨memory.region.base, memory.region.size, false, none⟩ :=
  getElem_put_self memory.pool 0 _

private theorem init_linked (memory : Allocator) :
    Linked memory.init.pool memory.init.head [0] none := by
  refine ⟨rfl, ?_⟩
  rw [init_entry]
  rfl

theorem init_chain (memory : Allocator) : memory.init.chain = [0] :=
  chainFrom_eq_of_linked (init_linked memory) (Nat.le_add_left 1 255)

/-- After `init` one free block spans the region. -/
theorem init_represents (usable : memory.region.Usable) : Represents memory.init [0] := by
  have positive : 0 < memory.region.size.toNat := UInt32.le_iff_toNat_le.mp usable.size_pos
  refine ⟨init_linked memory, List.nodup_singleton 0, ?_, Nat.le_add_left 1 255, ?_,
    usable.stop_lt⟩
  · intro id member
    rw [List.mem_singleton.mp member]
    exact Nat.zero_lt_one
  · rw [extentsOf_cons, init_entry]
    exact ⟨rfl, positive, rfl⟩

theorem init_usedExtents (memory : Allocator) : usedExtents memory.init.extents = [] := by
  rw [extents, blocks, init_chain, List.map_singleton, init_entry]
  rfl

/-- Nothing is handed out of a region without bytes. -/
theorem size_pos_of_init_alloc {size address : UInt32}
    (minBlock_pos : 1 ≤ memory.region.minBlock)
    (done : memory.init.alloc size = .ok address memory') : 1 ≤ memory.region.size := by
  obtain ⟨request, fit, rounded, found, _, _⟩ := alloc_eq_ok done
  obtain ⟨initial, behind, shape, _, fits, _⟩ := findFit?_eq_some found
  have member : fit.id ∈ memory.init.chain := by
    rw [shape]
    exact List.mem_append_right initial List.mem_cons_self
  rw [init_chain, List.mem_singleton] at member
  have enough := (paddingFor?_eq_some fits).2
  rw [member, init_entry] at enough
  have requestLarge := (Region.le_of_roundRequest rounded).2
  have minBlockLarge : 1 ≤ memory.region.minBlock.toNat := UInt32.le_iff_toNat_le.mp minBlock_pos
  apply UInt32.le_iff_toNat_le.mpr
  rw [init_region] at requestLarge
  exact (minBlockLarge.trans requestLarge).trans (Nat.le_of_add_right_le enough)

/-- In a sound allocator the address of an extent leads to the block with that extent. -/
theorem blockAt?_of_mem (sound : memory.Sound) {address : UInt32} {extent : Extent}
    (member : extent ∈ memory.extents) (startEq : extent.start = address.toNat) :
    ∃ block, memory.blockAt? address = some block ∧ block.extent = extent := by
  have tiles := sound.tiles_extents
  obtain ⟨block, blockMember, blockExtent⟩ := List.mem_map.mp member
  have blockStart : (block.start == address) = true := by
    refine beq_iff_eq.mpr (UInt32.toNat_inj.mp ?_)
    rw [← startEq, ← blockExtent]
    rfl
  cases search : memory.blockAt? address with
  | none =>
      have absent := List.find?_eq_none.mp search block blockMember
      exact absurd blockStart absent
  | some found =>
      refine ⟨found, rfl, ?_⟩
      unfold blockAt? at search
      have foundMember : found.extent ∈ memory.extents :=
        List.mem_map.mpr ⟨found, List.mem_of_find?_eq_some search, rfl⟩
      have foundStart : found.start = address := by
        simpa using List.find?_some search
      apply tiles.eq_of_start foundMember member
      rw [startEq, ← foundStart]
      rfl

/-- The extent that is found at the address of a successful request has the rounded size. -/
theorem alloc_grantAt {size address : UInt32} (sound : memory.Sound)
    (minBlock_pos : 0 < memory.region.minBlock.toNat)
    (done : memory.alloc size = .ok address memory') :
    ∃ request, memory.region.roundRequest size = .ok request ∧
      memory'.grantAt address = ⟨address.toNat, request.toNat, true⟩ ∧
      (usedExtents memory'.extents).Perm
        (memory'.grantAt address :: usedExtents memory.extents) := by
  have sound' := (alloc_sound sound minBlock_pos done).1
  obtain ⟨request, rounded, recorded⟩ := alloc_usedExtents sound minBlock_pos done
  have member : (⟨address.toNat, request.toNat, true⟩ : Extent) ∈ memory'.extents := by
    refine List.mem_of_mem_filter (recorded.mem_iff.mpr ?_)
    exact List.mem_cons_self
  obtain ⟨block, search, blockExtent⟩ := blockAt?_of_mem sound' member rfl
  have grantEq : memory'.grantAt address = ⟨address.toNat, request.toNat, true⟩ := by
    have sizeEq : block.size.toNat = request.toNat := congrArg Extent.size blockExtent
    rw [grantAt, search, Option.elim_some, sizeEq]
  rw [grantEq]
  exact ⟨request, rounded, rfl, recorded⟩

/-- A successful request hands out the extent that is found at its address. -/
theorem alloc_grant {size address : UInt32} (sound : memory.Sound)
    (minBlock_pos : 0 < memory.region.minBlock.toNat)
    (done : memory.alloc size = .ok address memory') :
    (usedExtents memory'.extents).Perm
      (memory'.grantAt address :: usedExtents memory.extents) := by
  obtain ⟨_, _, _, recorded⟩ := alloc_grantAt sound minBlock_pos done
  exact recorded

end Allocator

namespace Account

/-- What every request keeps. -/
structure Invariant (region : Region) (account : Account) : Prop where
  region_eq : account.memory.region = region
  sound : account.memory.Sound
  recorded : (usedExtents account.memory.extents).Perm account.live

variable {region : Region} {account : Account}

theorem opened_invariant {memory : Allocator} (usable : memory.region.Usable) :
    Invariant memory.region (opened memory) := by
  refine ⟨rfl, (Allocator.init_represents usable).sound, ?_⟩
  simp only [opened, Allocator.init_usedExtents memory]
  exact List.Perm.refl []

namespace Invariant

/-- The recorded extents start at different addresses. -/
theorem starts_nodup (invariant : Invariant region account) :
    (account.live.map Extent.start).Nodup := by
  have tiles := invariant.sound.tiles_extents
  have usedStarts : ((usedExtents account.memory.extents).map Extent.start).Nodup :=
    tiles.starts_nodup.sublist (List.filter_sublist.map Extent.start)
  exact (invariant.recorded.map Extent.start).nodup_iff.mp usedStarts

private theorem serve_alloc (usable : region.Usable) (invariant : Invariant region account)
    (size : UInt32) : Invariant region (account.serve (.alloc size)) := by
  have minBlock_pos : 0 < account.memory.region.minBlock.toNat := by
    rw [invariant.region_eq]
    exact UInt32.le_iff_toNat_le.mp usable.minBlock_pos
  cases done : account.memory.alloc size with
  | error cause after =>
      obtain rfl := Allocator.alloc_eq_error done
      simpa only [Account.serve, done] using invariant
  | ok address memory' =>
      simp only [Account.serve, done]
      obtain ⟨sound', regionKept⟩ :=
        Allocator.alloc_sound invariant.sound minBlock_pos done
      refine ⟨regionKept.trans invariant.region_eq, sound', ?_⟩
      exact (Allocator.alloc_grant invariant.sound minBlock_pos done).trans
        (invariant.recorded.cons _)

/-- The released extent is the only recorded one that starts at its address. -/
theorem serve_free (invariant : Invariant region account) (address : UInt32) :
    Invariant region (account.serve (.free address)) := by
  cases done : account.memory.free address with
  | error cause after =>
      obtain ⟨-, rfl⟩ := Allocator.free_eq_error done
      simpa only [Account.serve, done] using invariant
  | ok _ memory' =>
      simp only [Account.serve, done]
      obtain ⟨sound', regionKept⟩ := Allocator.free_sound invariant.sound done
      obtain ⟨extent, _, startEq, taken⟩ := Allocator.free_usedExtents invariant.sound done
      have recorded := invariant.recorded.symm.trans taken
      refine ⟨regionKept.trans invariant.region_eq, sound', ?_⟩
      have startsNodup := (recorded.map Extent.start).nodup_iff.mp invariant.starts_nodup
      have otherStarts : ∀ other ∈ usedExtents memory'.extents,
          (other.start != address.toNat) = true := by
        intro other member
        have startNe : extent.start ∉ (usedExtents memory'.extents).map Extent.start :=
          (List.nodup_cons.mp startsNodup).1
        refine bne_iff_ne.mpr fun equal => startNe ?_
        rw [startEq, ← equal]
        exact List.mem_map_of_mem member
      have kept := recorded.filter fun grant => grant.start != address.toNat
      have extentGone : (extent.start != address.toNat) = false := by
        simp [startEq]
      rw [List.filter_cons_of_neg (by simp [extentGone]),
        List.filter_eq_self.mpr otherStarts] at kept
      exact kept.symm

theorem serve (usable : region.Usable) (invariant : Invariant region account)
    (request : Request) : Invariant region (account.serve request) := by
  cases request with
  | alloc size =>
      exact invariant.serve_alloc usable size
  | free address =>
      exact invariant.serve_free address

theorem run (usable : region.Usable) (invariant : Invariant region account)
    (requests : List Request) : Invariant region (account.run requests) := by
  induction requests generalizing account with
  | nil =>
      exact invariant
  | cons request rest inductionHypothesis =>
      exact inductionHypothesis (invariant.serve usable request)

end Invariant

end Account

/-- Sizes whose total fits a word are added without wrapping. -/
theorem toNat_foldl_size (blocks : List Block) (bytes : UInt32)
    (fits : bytes.toNat + (blocks.map fun block => block.size.toNat).sum < 2 ^ 32) :
    (blocks.foldl (fun bytes block => bytes + block.size) bytes).toNat =
      bytes.toNat + (blocks.map fun block => block.size.toNat).sum := by
  induction blocks generalizing bytes with
  | nil =>
      rfl
  | cons head tail inductionHypothesis =>
      rw [List.map_cons, List.sum_cons, ← Nat.add_assoc] at fits ⊢
      have headEq : (bytes + head.size).toNat = bytes.toNat + head.size.toNat := by
        rw [UInt32.toNat_add, Nat.mod_eq_of_lt (Nat.lt_of_add_right_lt fits)]
      rw [← headEq] at fits ⊢
      exact inductionHypothesis _ fits

namespace Allocator

variable {memory : Allocator}

private theorem bytesWhere_add (sound : memory.Sound) :
    memory.bytesWhere (fun block => !block.used) + memory.bytesWhere Block.used =
      memory.region.size.toNat := by
  have tiles := sound.tiles_extents
  have total := tiles.sum_sizes
  have sides := ((List.filter_append_perm Block.used memory.blocks).map
    fun block => block.size.toNat).sum_nat
  rw [List.map_append, List.sum_append] at sides
  simp only [extents, List.map_map] at total
  have sizesEq : (memory.blocks.map (Extent.size ∘ Block.extent)).sum =
      (memory.blocks.map fun block => block.size.toNat).sum := rfl
  simp only [bytesWhere]
  omega

/-- The sum that the allocator computes of the selected blocks does not wrap. -/
theorem toNat_bytesOf (sound : memory.Sound) {test : Block → Bool}
    (part : memory.bytesWhere test ≤ memory.region.size.toNat) :
    (memory.bytesOf test).toNat = memory.bytesWhere test := by
  have noWrap := sound.stop_lt
  have fits : (0 : UInt32).toNat + memory.bytesWhere test < 2 ^ 32 := by
    rw [UInt32.toNat_zero]
    omega
  exact (toNat_foldl_size _ 0 fits).trans (Nat.zero_add _)

end Allocator

namespace Account

variable {region : Region} {account : Account}

theorem Invariant.partitioned (invariant : Invariant region account) : account.Partitioned := by
  have sound := invariant.sound
  have tiles := sound.tiles_extents
  have total := Allocator.bytesWhere_add sound
  have freeBytesEq := Allocator.toNat_bytesOf sound (Nat.le.intro total)
  have usedBytesEq := Allocator.toNat_bytesOf sound (Nat.le.intro (Nat.add_comm _ _ ▸ total))
  refine ⟨sound.linked, sound.distinct, sound.taken, sound.poolUsed_le, tiles, freeBytesEq,
    usedBytesEq, ?_, invariant.recorded, ?_⟩
  · rw [Allocator.freeBytes, Allocator.usedBytes, freeBytesEq, usedBytesEq, total]
  · have usedOrdered := tiles.ordered.sublist (List.filter_sublist (p := Extent.used))
    have usedApart := usedOrdered.imp (S := Extent.Apart) Or.inl
    exact invariant.recorded.pairwise usedApart fun ordered => Or.symm ordered

/-- Whatever is asked of an allocator, its chain visits distinct entries of the pool, its blocks
tile the region, and the used ones are what was handed out and not taken back. -/
theorem run_partitioned (memory : Allocator) (usable : memory.region.Usable)
    (requests : List Request) :
    ((opened memory).run requests).memory.region = memory.region ∧
      ((opened memory).run requests).Partitioned := by
  have invariant := (opened_invariant usable).run usable requests
  exact ⟨invariant.region_eq, invariant.partitioned⟩

theorem run_partitioned_default :
    Region.default.Usable ∧
      ((opened (.new Region.default)).run
        [.alloc 40000, .alloc 1, .free 0x40000000, .alloc 8192, .free 7]).Partitioned := by
  have usable : Region.default.Usable := ⟨by decide, by decide, by decide, by decide⟩
  exact ⟨usable, (run_partitioned (.new Region.default) usable _).2⟩

end Account

end Microkernel.Memory
