import Microkernel.Proofs.Memory.Backing
import Microkernel.Proofs.Memory.FirstFit

/-!
# How large a grant is

A request is compared with the size of the region before it is rounded up.  In a region that
reaches almost from end to end of the address space a request can pass this test although its
rounding wraps; it is then served with a block of the minimum size.  `run_alloc_backs_iff` says
for which requests the block is large enough.
-/

namespace Microkernel.Memory

/-- A rounded request covers what was asked for exactly if the rounding does not wrap or the
minimum covers it. -/
theorem Region.le_request_iff {region : Region} (power : region.alignment.toNat.isPowerOfTwo)
    {size request : UInt32} (rounded : region.roundRequest size = .ok request) :
    size.toNat ≤ request.toNat ↔
      size.toNat + region.alignment.toNat ≤ 2 ^ 32 ∨ size ≤ region.minBlock := by
  rw [Region.toNat_of_roundRequest rounded, le_max_iff, le_alignUp_iff power,
    UInt32.le_iff_toNat_le]

namespace Allocator

variable {memory memory' : Allocator} {size address request : UInt32}

section Granted

variable (sound : memory.Sound) (minBlock_pos : 0 < memory.region.minBlock.toNat)
  (done : memory.alloc size = .ok address memory')

include sound minBlock_pos done

theorem dvd_of_alloc (power : memory.region.alignment.toNat.isPowerOfTwo) :
    memory.region.alignment.toNat ∣ address.toNat := by
  obtain ⟨request, _, rounded, _⟩ := alloc_eq_ok done
  rcases alloc_cases sound power minBlock_pos rounded with
    ⟨refused, _⟩ | ⟨_, extent, _, _, _, _, ⟨_, exhausted⟩ | ⟨_, placed, _, served, addressEq⟩⟩
  · rw [refused] at done
    cases done
  · rw [exhausted] at done
    cases done
  · rw [served, Attempt.ok.injEq] at done
    rw [← done.1, addressEq]
    exact dvd_roundUp _ _

/-- The block behind a granted address has the size of the rounded request. -/
theorem backs_granted_iff (rounded : memory.region.roundRequest size = .ok request)
    (bytes : UInt32) : memory'.Backs address bytes ↔ bytes.toNat ≤ request.toNat := by
  obtain ⟨granted, grantedEq, recorded⟩ := alloc_usedExtents sound minBlock_pos done
  rw [rounded, Except.ok.injEq] at grantedEq
  subst grantedEq
  have sound' := (alloc_sound sound minBlock_pos done).1
  have tiles' := sound'.tiles_extents
  have here : ⟨address.toNat, request.toNat, true⟩ ∈ usedExtents memory'.extents :=
    recorded.mem_iff.mpr List.mem_cons_self
  rw [backs_iff sound']
  constructor
  · rintro ⟨extent, member, startEq, fits⟩
    have same := tiles'.eq_of_start (List.mem_of_mem_filter member)
      (List.mem_of_mem_filter here) startEq
    rwa [same] at fits
  · intro fits
    exact ⟨_, here, rfl, fits⟩

end Granted

end Allocator

namespace Account

/-- In a region without bytes every call fails. -/
theorem run_of_size_eq_zero {memory : Allocator} (minBlock_pos : 1 ≤ memory.region.minBlock)
    (empty : memory.region.size = 0) (requests : List Request) :
    (opened memory).run requests = opened memory := by
  induction requests with
  | nil =>
      rfl
  | cons request rest inductionHypothesis =>
      have refused : (opened memory).serve request = opened memory := by
        cases request with
        | alloc size =>
            cases done : memory.init.alloc size with
            | error cause after =>
                obtain rfl := Allocator.alloc_eq_error done
                simp only [serve, opened, done]
            | ok address after =>
                have bytes := Allocator.size_pos_of_init_alloc minBlock_pos done
                rw [empty] at bytes
                exact absurd bytes (by decide)
        | free address =>
            have unknown : memory.init.free address =
                .error (.unknownAddress address) memory.init := by
              apply Allocator.free_eq_error_iff.mpr
              intro extent member used
              have isUsed : extent ∈ usedExtents memory.init.extents :=
                List.mem_filter.mpr ⟨member, used⟩
              rw [Allocator.init_usedExtents] at isUsed
              cases isUsed
            simp only [serve, opened, unknown]
      rw [run, List.foldl_cons, refused]
      exact inductionHypothesis

/-- A granted address is a multiple of the alignment.  The block behind it holds what was asked
for exactly if rounding the request up stays within a word or the minimum size suffices; and the
rounding falls below the request exactly if it does not stay within a word. -/
theorem run_alloc_backs_iff (memory : Allocator) (granular : memory.region.Granular)
    (requests : List Request) {size address : UInt32} {memory' : Allocator}
    (done : ((opened memory).run requests).memory.alloc size = .ok address memory') :
    let region := memory.region
    region.alignment.toNat ∣ address.toNat ∧
      (memory'.Backs address size ↔
        size.toNat + region.alignment.toNat ≤ 2 ^ 32 ∨ size ≤ region.minBlock) ∧
      (size.toNat ≤ (alignUp size region.alignment).toNat ↔
        size.toNat + region.alignment.toNat ≤ 2 ^ 32) := by
  have size_pos : 1 ≤ memory.region.size := by
    by_cases empty : memory.region.size = 0
    · rw [run_of_size_eq_zero granular.minBlock_pos empty] at done
      exact Allocator.size_pos_of_init_alloc granular.minBlock_pos done
    · refine UInt32.le_iff_toNat_le.mpr (Nat.pos_of_ne_zero ?_)
      intro zero
      exact empty (UInt32.toNat_inj.mp zero)
  have usable := granular.usable size_pos
  have invariant := (opened_invariant usable).run usable requests
  have power := granular.alignment_power
  have minBlock_pos := UInt32.le_iff_toNat_le.mp granular.minBlock_pos
  rw [← invariant.region_eq] at power minBlock_pos
  obtain ⟨request, _, rounded, _⟩ := Allocator.alloc_eq_ok done
  have divides := Allocator.dvd_of_alloc invariant.sound minBlock_pos done power
  have backs := Allocator.backs_granted_iff invariant.sound minBlock_pos done rounded size
  rw [Region.le_request_iff power rounded] at backs
  rw [invariant.region_eq] at divides backs
  exact ⟨divides, backs, le_alignUp_iff granular.alignment_power⟩

/-- All of the address space but its last byte. -/
def wholeSpace : Region :=
  ⟨0, 0xFFFFFFFF, 4096, 32768⟩

private theorem wholeSpace_granular : wholeSpace.Granular :=
  ⟨⟨12, by decide⟩, by decide, by decide⟩

/-- The largest request whose rounding stays within a word. -/
theorem run_alloc_backs_largest :
    wholeSpace.Granular ∧ ∃ memory',
      ((opened (.new wholeSpace)).run [.alloc 1, .free 0]).memory.alloc 0xFFFFF000 =
          .ok 0 memory' ∧
        memory'.Backs 0 0xFFFFF000 := by
  refine ⟨wholeSpace_granular, ?_⟩
  have granted :
      (((opened (.new wholeSpace)).run [.alloc 1, .free 0]).memory.alloc
        0xFFFFF000).result? = some 0 := by
    decide +kernel
  obtain ⟨memory', done⟩ := Allocator.exists_alloc_eq_ok granted
  have enough := (run_alloc_backs_iff (.new wholeSpace) wholeSpace_granular _ done).2.1
  exact ⟨memory', done, enough.mpr (Or.inl (by decide))⟩

/-- One byte more is rounded up to zero and gets a block of the minimum size. -/
theorem alloc_undersized :
    wholeSpace.Granular ∧ ∃ memory',
      ((opened (.new wholeSpace)).run []).memory.alloc 0xFFFFF001 = .ok 0 memory' ∧
        memory'.Backs 0 32768 ∧ ¬ memory'.Backs 0 0xFFFFF001 := by
  refine ⟨wholeSpace_granular, ?_⟩
  let attempt := ((opened (.new wholeSpace)).run []).memory.alloc 0xFFFFF001
  have granted : attempt.result? = some 0 := by
    decide +kernel
  have backed : attempt.state.Backs 0 32768 ∧ ¬ attempt.state.Backs 0 0xFFFFF001 := by
    decide +kernel
  obtain ⟨memory', done⟩ := Allocator.exists_alloc_eq_ok granted
  have stateEq : attempt.state = memory' := congrArg Attempt.state done
  exact ⟨memory', done, stateEq ▸ backed⟩

end Account

end Microkernel.Memory
