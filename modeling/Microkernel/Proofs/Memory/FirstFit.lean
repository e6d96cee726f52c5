import Mathlib.Order.Bounds.Basic
import Microkernel.Proofs.Memory.Vacancy

/-!
# The first fit is the lowest

The search walks the blocks in address order and tries one address in each free one, the first
multiple of the alignment.  Since vacant bytes never straddle two free blocks, no address that
could serve a request is missed: a request is refused only if there is none, and otherwise it is
placed at the least one, unless the pool has too few entries for what is left beside it.
-/

namespace Microkernel.Memory

namespace Extent

/-- A free extent that can hold a request from its first multiple of a unit on. -/
def Fits (unit request : Nat) (extent : Extent) : Prop :=
  extent.used = false ∧ roundUp unit extent.start + request ≤ extent.stop

/-- The number of pieces that a request leaves of an extent that it fits in. -/
def remnants (unit request : Nat) (extent : Extent) : Nat :=
  (if extent.start < roundUp unit extent.start then 1 else 0) +
    if roundUp unit extent.start + request < extent.stop then 1 else 0

end Extent

namespace Allocator

variable {memory : Allocator} {request : UInt32}

/-- A block that is tried holds the request exactly if its extent does.  The address that is tried
may wrap, but the padding up to it does not, and then it is larger than the block. -/
theorem paddingFor?_eq_some_iff (power : memory.region.alignment.toNat.isPowerOfTwo)
    {padding : UInt32} {id : BlockId} :
    memory.paddingFor? request id = some padding ↔
      memory.pool[id].extent.Fits memory.region.alignment.toNat request.toNat ∧
        memory.pool[id].start.toNat + padding.toNat =
          roundUp memory.region.alignment.toNat memory.pool[id].start.toNat := by
  let block := memory.pool[id]
  let distance := alignUp block.start memory.region.alignment - block.start
  have distanceEq := toNat_alignUp_sub power block.start
  have notBelow := le_roundUp (Nat.pos_of_isPowerOfTwo power) block.start.toNat
  have roomIff : request.toNat + distance.toNat ≤ block.size.toNat ↔
      roundUp memory.region.alignment.toNat block.start.toNat + request.toNat ≤
        block.extent.stop := by
    simp only [distance, distanceEq, Extent.stop, Block.extent]
    omega
  have searched : memory.paddingFor? request id =
      if !block.used && request.toNat + distance.toNat ≤ block.size.toNat then some distance
      else none := rfl
  rw [searched]
  constructor
  · intro found
    split at found
    · rename_i holds
      have distancePadding : distance = padding := Option.some.inj found
      simp only [Bool.and_eq_true, Bool.not_eq_true', decide_eq_true_eq] at holds
      refine ⟨⟨holds.1, roomIff.mp holds.2⟩, ?_⟩
      rw [← distancePadding, distanceEq]
      exact Nat.add_sub_cancel' notBelow
    · cases found
  · rintro ⟨⟨free, room⟩, sumEq⟩
    have distancePadding : distance = padding := by
      apply UInt32.toNat_inj.mp
      rw [distanceEq, ← sumEq, Nat.add_sub_cancel_left]
    have blockFree : block.used = false := free
    rw [if_pos, distancePadding]
    simp only [Bool.and_eq_true, Bool.not_eq_true', decide_eq_true_eq]
    exact ⟨blockFree, roomIff.mpr room⟩

private theorem not_fits_of_paddingFor? (power : memory.region.alignment.toNat.isPowerOfTwo)
    {id : BlockId} (refused : memory.paddingFor? request id = none) :
    ¬ memory.pool[id].extent.Fits memory.region.alignment.toNat request.toNat := by
  intro fits
  have distanceEq := toNat_alignUp_sub power memory.pool[id].start
  have notBelow := le_roundUp (Nat.pos_of_isPowerOfTwo power) memory.pool[id].start.toNat
  have found := (paddingFor?_eq_some_iff power).mpr
    ⟨fits, (congrArg _ distanceEq).trans (Nat.add_sub_cancel' notBelow)⟩
  rw [refused] at found
  cases found

private theorem paddingFor?_of_findFit?_eq_none {before : Option BlockId} {ids : List BlockId}
    (search : memory.findFit? request before ids = none) :
    ∀ id ∈ ids, memory.paddingFor? request id = none := by
  induction ids generalizing before with
  | nil =>
      simp
  | cons head tail inductionHypothesis =>
      rw [findFit?] at search
      cases headFits : memory.paddingFor? request head with
      | some padding =>
          simp [headFits] at search
      | none =>
          simp only [headFits] at search
          exact List.forall_mem_cons.mpr ⟨headFits, inductionHypothesis search⟩

/-- The entries that a cut takes are the pieces that it leaves. -/
theorem entriesNeeded_eq_remnants (power : memory.region.alignment.toNat.isPowerOfTwo)
    {fit : Fit} (found : memory.paddingFor? request fit.id = some fit.padding) :
    memory.entriesNeeded request fit =
      memory.pool[fit.id].extent.remnants memory.region.alignment.toNat request.toNat := by
  obtain ⟨⟨_, room⟩, sumEq⟩ := (paddingFor?_eq_some_iff power).mp found
  have inWord := memory.pool[fit.id].size.toNat_lt
  simp only [Extent.stop, Block.extent, ← sumEq] at room
  have sum : (request + fit.padding).toNat = request.toNat + fit.padding.toNat := by
    rw [UInt32.toNat_add, Nat.mod_eq_of_lt (by omega)]
  have frontIff : fit.padding = 0 ↔ ¬ 0 < fit.padding.toNat := by
    rw [Nat.pos_iff_ne_zero, not_not, ← UInt32.toNat_inj]
    rfl
  simp only [entriesNeeded, Extent.remnants, Extent.stop, Block.extent, ← sumEq, frontIff,
    UInt32.lt_iff_toNat_lt, sum, ite_not]
  congr 2
  · exact propext (Nat.lt_add_right_iff_pos).symm
  · exact propext (by omega)

/-- How a request ends that was not refused by its size. -/
theorem alloc_cases {size : UInt32} (sound : memory.Sound)
    (power : memory.region.alignment.toNat.isPowerOfTwo)
    (minBlock_pos : 0 < memory.region.minBlock.toNat)
    (rounded : memory.region.roundRequest size = .ok request) :
    let unit := memory.region.alignment.toNat
    (memory.alloc size = .error (.outOfMemory request) memory ∧
        ∀ extent ∈ memory.extents, ¬ extent.Fits unit request.toNat) ∨
      ∃ before extent behind, memory.extents = before ++ extent :: behind ∧
        (∀ earlier ∈ before, ¬ earlier.Fits unit request.toNat) ∧
        extent.Fits unit request.toNat ∧
        (maxBlocks - memory.poolUsed < extent.remnants unit request.toNat ∧
            memory.alloc size = .error .metadataExhausted memory ∨
          extent.remnants unit request.toNat ≤ maxBlocks - memory.poolUsed ∧
            ∃ address memory', memory.alloc size = .ok address memory' ∧
              address.toNat = roundUp unit extent.start) := by
  intro unit
  have refusedExtents : ∀ ids : List BlockId,
      (∀ id ∈ ids, memory.paddingFor? request id = none) →
        ∀ extent ∈ extentsOf memory.pool ids, ¬ extent.Fits unit request.toNat := by
    intro ids refused extent member
    obtain ⟨id, idMember, rfl⟩ := List.mem_map.mp member
    exact not_fits_of_paddingFor? power (refused id idMember)
  cases search : memory.findFit? request none memory.chain with
  | none =>
      refine Or.inl ⟨?_, ?_⟩
      · simp only [alloc, rounded, search]
      · rw [sound.extents_eq]
        exact refusedExtents memory.chain (paddingFor?_of_findFit?_eq_none search)
  | some fit =>
      obtain ⟨initial, behind, shape, beforeEq, found, earlier⟩ := findFit?_eq_some search
      obtain ⟨fits, sumEq⟩ := (paddingFor?_eq_some_iff power).mp found
      have needed := entriesNeeded_eq_remnants power found
      refine Or.inr ⟨extentsOf memory.pool initial, memory.pool[fit.id].extent,
        extentsOf memory.pool behind, ?_, refusedExtents initial earlier, fits, ?_⟩
      · rw [sound.extents_eq, shape, extentsOf_append, extentsOf_cons]
      · rw [← needed]
        by_cases exhausted : maxBlocks - memory.poolUsed < memory.entriesNeeded request fit
        · refine Or.inl ⟨exhausted, ?_⟩
          simp only [alloc, rounded, search, exhausted, if_true]
        · have room := Nat.le_of_not_lt exhausted
          refine Or.inr ⟨room, (memory.carve request fit).1, (memory.carve request fit).2, ?_, ?_⟩
          · simp only [alloc, rounded, search, exhausted, if_false]
          · rw [Option.or_none] at beforeEq
            have represents : Represents memory (initial ++ fit.id :: behind) := by
              rw [← shape]
              exact sound
            have positive : 0 < request.toNat :=
              minBlock_pos.trans_le (Region.le_of_roundRequest rounded).2
            have fitEq : fit = ⟨initial.getLast?, fit.id, fit.padding⟩ := by
              rw [← beforeEq]
            have carved := (represents.carve positive (paddingFor?_eq_some found).2
              (fitEq ▸ room)).1
            rw [← fitEq] at carved
            exact carved.trans sumEq

end Allocator

namespace Account

/-- Bytes of the region that belong to nothing that is handed out. -/
def Vacant (account : Account) (start count : Nat) : Prop :=
  Memory.Vacant account.memory.region.base.toNat
    (account.memory.region.base.toNat + account.memory.region.size.toNat) account.live start count

instance (account : Account) (start count : Nat) : Decidable (account.Vacant start count) :=
  inferInstanceAs (Decidable (Memory.Vacant _ _ _ _ _))

/-- The addresses at which a request could be placed. -/
def places (account : Account) (request : Nat) : Set Nat :=
  {start | account.memory.region.alignment.toNat ∣ start ∧ account.Vacant start request}

/-- The number of sides on which the bytes beside a placed request are vacant. -/
def openSides (account : Account) (start request : Nat) : Nat :=
  (if 0 < start ∧ account.Vacant (start - 1) 1 then 1 else 0) +
    if account.Vacant (start + request) 1 then 1 else 0

namespace Invariant

variable {region : Region} {account : Account} {start count request : Nat}

private theorem vacant_iff (invariant : Invariant region account) :
    account.Vacant start count ↔
      Memory.Vacant account.memory.region.base.toNat
        (account.memory.region.base.toNat + account.memory.region.size.toNat)
        (usedExtents account.memory.extents) start count :=
  (vacant_congr invariant.recorded).symm

private theorem mem_places_iff (invariant : Invariant region account)
    (coalesced : Coalesced account.memory.extents) (positive : 0 < request) :
    start ∈ account.places request ↔
      account.memory.region.alignment.toNat ∣ start ∧ ∃ extent ∈ account.memory.extents,
        extent.used = false ∧ extent.start ≤ start ∧ start + request ≤ extent.stop := by
  refine and_congr_right fun _ => ?_
  rw [invariant.vacant_iff]
  constructor
  · exact invariant.sound.tiles_extents.exists_free_of_vacant coalesced positive
  · rintro ⟨extent, member, free, low, high⟩
    exact invariant.sound.tiles_extents.vacant_of_free member free low high

section Places

variable (invariant : Invariant region account) (coalesced : Coalesced account.memory.extents)
  (alignment_pos : 0 < account.memory.region.alignment.toNat) (positive : 0 < request)

include invariant coalesced alignment_pos positive

/-- An extent around a place fits the request, at an address that is not above the place. -/
theorem exists_fits_of_mem_places (member : start ∈ account.places request) :
    ∃ extent ∈ account.memory.extents,
      extent.Fits account.memory.region.alignment.toNat request ∧
        roundUp account.memory.region.alignment.toNat extent.start ≤ start := by
  obtain ⟨divides, extent, inRegion, free, low, high⟩ :=
    (invariant.mem_places_iff coalesced positive).mp member
  have notAbove := roundUp_le alignment_pos divides low
  exact ⟨extent, inRegion, ⟨free, (Nat.add_le_add_right notAbove request).trans high⟩, notAbove⟩

private theorem places_eq_empty
    (none : ∀ extent ∈ account.memory.extents,
      ¬ extent.Fits account.memory.region.alignment.toNat request) :
    account.places request = ∅ := by
  apply Set.eq_empty_iff_forall_notMem.mpr
  intro start member
  obtain ⟨extent, inRegion, fits, _⟩ :=
    invariant.exists_fits_of_mem_places coalesced alignment_pos positive member
  exact none extent inRegion fits

section First

variable {before behind : List Extent} {extent : Extent}
  (shape : account.memory.extents = before ++ extent :: behind)
  (fits : extent.Fits account.memory.region.alignment.toNat request)

include shape fits

/-- The first extent that fits a request has the lowest place for it. -/
theorem isLeast_places
    (notBefore : ∀ earlier ∈ before,
      ¬ earlier.Fits account.memory.region.alignment.toNat request) :
    IsLeast (account.places request)
      (roundUp account.memory.region.alignment.toNat extent.start) := by
  have member : extent ∈ account.memory.extents := by
    rw [shape]
    exact List.mem_append_right before List.mem_cons_self
  constructor
  · refine (invariant.mem_places_iff coalesced positive).mpr ⟨dvd_roundUp _ _, extent, member, ?_⟩
    exact ⟨fits.1, le_roundUp alignment_pos extent.start, fits.2⟩
  · intro start startMember
    obtain ⟨other, otherMember, otherFits, notAbove⟩ :=
      invariant.exists_fits_of_mem_places coalesced alignment_pos positive startMember
    refine (roundUp_mono alignment_pos ?_).trans notAbove
    rw [shape] at otherMember
    rcases List.mem_append.mp otherMember with inBefore | inRest
    · exact absurd otherFits (notBefore other inBefore)
    · rcases List.mem_cons.mp inRest with same | inBehind
      · exact Nat.le_of_eq (congrArg Extent.start same.symm)
      · have ordered := invariant.sound.tiles_extents.ordered
        rw [shape] at ordered
        have after := (List.pairwise_cons.mp (List.pairwise_append.mp ordered).2.1).1 other inBehind
        exact (Nat.le_add_right extent.start extent.size).trans after

/-- What is vacant beside the place in an extent is what the request leaves of the extent. -/
theorem openSides_eq_remnants :
    account.openSides (roundUp account.memory.region.alignment.toNat extent.start) request =
      extent.remnants account.memory.region.alignment.toNat request := by
  have member : extent ∈ account.memory.extents := by
    rw [shape]
    exact List.mem_append_right before List.mem_cons_self
  have low := le_roundUp alignment_pos extent.start
  simp only [openSides, Extent.remnants, invariant.vacant_iff,
    invariant.sound.tiles_extents.vacant_before_iff coalesced member fits.1 positive low fits.2,
    invariant.sound.tiles_extents.vacant_behind_iff coalesced member fits.1 positive low fits.2]

end First

end Places

end Invariant

/-- A request is placed at the lowest multiple of the alignment from which on enough bytes are
vacant, in a block of just the rounded size.  It is refused if there is no such address, or if
fewer entries are left in the pool than there are sides on which vacant bytes remain. -/
theorem run_alloc_lowest (memory : Allocator) (granular : memory.region.Granular)
    (size_pos : 1 ≤ memory.region.size)
    (roundable : memory.region.size.toNat + memory.region.alignment.toNat ≤ 2 ^ 32)
    (requests : List Request) (size : UInt32) :
    let account := (opened memory).run requests
    let region := memory.region
    (region.size < size → account.memory.alloc size = .error (.outOfMemory size) account.memory) ∧
      (size ≤ region.size → ∃ request : UInt32,
        request.toNat =
            max region.minBlock.toNat (roundUp region.alignment.toNat size.toNat) ∧
          (account.places request.toNat = ∅ →
            account.memory.alloc size = .error (.outOfMemory request) account.memory) ∧
          ∀ lowest, IsLeast (account.places request.toNat) lowest →
            (maxBlocks - account.memory.poolUsed < account.openSides lowest request.toNat →
              account.memory.alloc size = .error .metadataExhausted account.memory) ∧
            (account.openSides lowest request.toNat ≤ maxBlocks - account.memory.poolUsed →
              ∃ address memory', account.memory.alloc size = .ok address memory' ∧
                address.toNat = lowest ∧
                (usedExtents memory'.extents).Perm
                  (⟨lowest, request.toNat, true⟩ :: account.live))) := by
  intro account region
  have usable := granular.usable size_pos
  have invariant : Invariant region account := (opened_invariant usable).run usable requests
  have coalesced : Coalesced account.memory.extents :=
    (opened_invariant usable).run_coalesced usable (opened_coalesced memory) requests
  have regionEq : account.memory.region = region := invariant.region_eq
  constructor
  · intro tooLarge
    simp only [Allocator.alloc, Region.roundRequest, regionEq, tooLarge, if_true]
  · intro within
    have notTooLarge : ¬ region.size < size := UInt32.not_lt.mpr within
    let request := max (alignUp size region.alignment) region.minBlock
    have rounded : account.memory.region.roundRequest size = .ok request := by
      rw [regionEq, Region.roundRequest, if_neg notTooLarge]
    have power : account.memory.region.alignment.toNat.isPowerOfTwo := by
      rw [regionEq]
      exact granular.alignment_power
    have minBlock_pos : 0 < account.memory.region.minBlock.toNat := by
      rw [regionEq]
      exact UInt32.le_iff_toNat_le.mp granular.minBlock_pos
    have alignment_pos : 0 < account.memory.region.alignment.toNat := Nat.pos_of_isPowerOfTwo power
    have positive : 0 < request.toNat :=
      minBlock_pos.trans_le (Region.le_of_roundRequest rounded).2
    refine ⟨request, ?_, ?_⟩
    · have fits : size.toNat + region.alignment.toNat ≤ 2 ^ 32 :=
        (Nat.add_le_add_right (UInt32.le_iff_toNat_le.mp within) _).trans roundable
      rw [UInt32.toNat_max, toNat_alignUp granular.alignment_power fits, Nat.max_comm]
    rcases Allocator.alloc_cases invariant.sound power minBlock_pos rounded with
      ⟨refused, noneFits⟩ | ⟨before, extent, behind, shape, notBefore, fits, outcome⟩
    · have noPlace := invariant.places_eq_empty coalesced alignment_pos positive noneFits
      refine ⟨fun _ => refused, ?_⟩
      intro lowest least
      rw [noPlace] at least
      exact absurd least.1 (Set.notMem_empty lowest)
    · have first := invariant.isLeast_places coalesced alignment_pos positive shape fits notBefore
      have sides := invariant.openSides_eq_remnants coalesced alignment_pos positive shape fits
      constructor
      · intro noPlace
        rw [noPlace] at first
        exact absurd first.1 (Set.notMem_empty _)
      · intro lowest least
        rw [least.unique first, sides]
        rcases outcome with ⟨few, exhausted⟩ | ⟨enough, address, memory', done, addressEq⟩
        · exact ⟨fun _ => exhausted, fun enough => absurd few (Nat.not_lt.mpr enough)⟩
        · refine ⟨fun few => absurd few (Nat.not_lt.mpr enough), fun _ => ?_⟩
          obtain ⟨granted, grantedEq, recorded⟩ :=
            Allocator.alloc_usedExtents invariant.sound minBlock_pos done
          rw [rounded, Except.ok.injEq] at grantedEq
          rw [← grantedEq, addressEq] at recorded
          exact ⟨address, memory', done, addressEq,
            recorded.trans (invariant.recorded.cons _)⟩

/-- A region that starts between two multiples of its alignment. -/
def unalignedRegion : Region :=
  ⟨0x40000800, 0x10000, 4096, 4096⟩

/-- The block that stays handed out leaves a hole before it that is too small for the next
request. -/
def holeLeft : List Request :=
  [.alloc 1, .alloc 4096, .free 0x40001000]

theorem run_alloc_lowest_unaligned :
    let account := (opened (.new unalignedRegion)).run holeLeft
    unalignedRegion.Granular ∧ 1 ≤ unalignedRegion.size ∧
      unalignedRegion.size.toNat + unalignedRegion.alignment.toNat ≤ 2 ^ 32 ∧
      account.memory.alloc 0x10001 = .error (.outOfMemory 0x10001) account.memory ∧
      IsLeast (account.places 8192) 0x40003000 ∧ account.openSides 0x40003000 8192 = 1 ∧
      ∃ address memory', account.memory.alloc 5000 = .ok address memory' ∧
        address.toNat = 0x40003000 ∧
        (usedExtents memory'.extents).Perm
          [⟨0x40003000, 8192, true⟩, ⟨0x40002000, 4096, true⟩] := by
  intro account
  have granular : unalignedRegion.Granular := ⟨⟨12, by decide⟩, by decide, by decide⟩
  have live : account.live = [⟨0x40002000, 4096, true⟩] := by
    decide +kernel
  have regionEq : account.memory.region = unalignedRegion := by
    decide +kernel
  have least : IsLeast (account.places 8192) 0x40003000 := by
    constructor
    · refine ⟨?_, ?_⟩
      · rw [regionEq]
        decide
      · decide +kernel
    · rintro start ⟨divides, vacant⟩
      have low := vacant.first_le
      have taken := vacant.apart ⟨0x40002000, 4096, true⟩ (live ▸ List.mem_cons_self)
      rw [regionEq] at divides low
      simp only [unalignedRegion, Extent.stop, UInt32.reduceToNat] at divides low taken
      omega
  have sides : account.openSides 0x40003000 8192 = 1 := by
    decide +kernel
  have tooLarge :=
    (run_alloc_lowest (.new unalignedRegion) granular (by decide) (by decide) holeLeft 0x10001).1
  obtain ⟨request, requestEq, _, placed⟩ :=
    (run_alloc_lowest (.new unalignedRegion) granular (by decide) (by decide) holeLeft 5000).2
      (by decide)
  have requestIs : request.toNat = 8192 := requestEq.trans (by decide)
  rw [requestIs] at placed
  have handedOut := (placed 0x40003000 least).2
  rw [← live]
  refine ⟨granular, by decide, by decide, tooLarge (by decide), least, sides, handedOut ?_⟩
  refine (Nat.le_of_eq sides).trans ?_
  decide +kernel

end Account

end Microkernel.Memory
