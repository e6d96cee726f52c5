import Microkernel.Proofs.Memory.Grants

/-!
# The budget of pool entries

Entries of the pool are taken and never given back, so what an allocator can do until the next
`init` depends on its whole history.  In a region on the grid of its alignment every block starts
on the grid, nothing has to be skipped before a request, and a request takes one entry if it leaves
a part of the free extent that it is placed in, and none otherwise.  `run_budget` adds this up.
-/

namespace Microkernel.Memory

/-- The regions that start at a multiple of their alignment and hand out whole multiples of it. -/
structure Region.OnGrid (region : Region) : Prop extends region.Granular where
  size_pos : 1 ≤ region.size
  base_dvd : region.alignment.toNat ∣ region.base.toNat
  minBlock_dvd : region.alignment.toNat ∣ region.minBlock.toNat

/-- Every extent starts at a multiple of a unit. -/
def Aligned (unit : Nat) (extents : List Extent) : Prop :=
  ∀ extent ∈ extents, unit ∣ extent.start

namespace Account

/-- Whether a request is served with memory. -/
def grants (account : Account) : Request → Bool
  | .alloc size =>
      match account.memory.alloc size with
      | .ok _ _ => true
      | .error _ _ => false
  | .free _ => false

/-- Whether a request is served with memory that was not just a whole free extent. -/
def cuts (account : Account) : Request → Bool
  | .alloc size =>
      match account.memory.alloc size with
      | .ok address memory =>
          decide ({ memory.grantAt address with used := false } ∉ account.memory.extents)
      | .error _ _ => false
  | .free _ => false

/-- How many of some requests pass a test, each one when its turn comes. -/
def tally (test : Account → Request → Bool) : Account → List Request → Nat
  | _, [] => 0
  | account, request :: rest =>
      (test account request).toNat + tally test (account.serve request) rest

end Account

private theorem dvd_alignUp {alignment : UInt32} (power : alignment.toNat.isPowerOfTwo)
    (n : UInt32) :
    alignment.toNat ∣ (alignUp n alignment).toNat := by
  rw [toNat_alignUp_mod power]
  exact (Nat.dvd_mod_iff (dvd_wordSize power)).mpr (dvd_roundUp _ _)

/-- A rounded request is a multiple of the alignment, also where the rounding wraps. -/
theorem Region.OnGrid.dvd_request {region : Region} (onGrid : region.OnGrid)
    {size request : UInt32} (rounded : region.roundRequest size = .ok request) :
    region.alignment.toNat ∣ request.toNat := by
  rw [Region.toNat_of_roundRequest rounded]
  rcases Nat.le_total (alignUp size region.alignment).toNat region.minBlock.toNat with less | more
  · rw [Nat.max_eq_right less]
    exact onGrid.minBlock_dvd
  · rw [Nat.max_eq_left more]
    exact dvd_alignUp onGrid.alignment_power size

section Extents

variable {unit : Nat} {before behind : List Extent} {extent : Extent}

private theorem aligned_append {left right : List Extent} :
    Aligned unit (left ++ right) ↔ Aligned unit left ∧ Aligned unit right :=
  List.forall_mem_append

private theorem aligned_cons {rest : List Extent} :
    Aligned unit (extent :: rest) ↔ unit ∣ extent.start ∧ Aligned unit rest :=
  List.forall_mem_cons

private theorem aligned_gap {start : Nat} (divides : unit ∣ start) (size : Nat) :
    Aligned unit (Extent.gap start size) := by
  by_cases empty : size = 0
  · simp [Extent.gap, Aligned, empty]
  · simp [Extent.gap, Aligned, empty, divides]

/-- A request of whole units, placed on the grid, leaves pieces that start on it. -/
theorem Aligned.split {padding request : Nat}
    (aligned : Aligned unit (before ++ extent :: behind))
    (placed : unit ∣ extent.start + padding) (whole : unit ∣ request) :
    Aligned unit (before ++ (extent.split padding request ++ behind)) := by
  obtain ⟨beforeAligned, restAligned⟩ := aligned_append.mp aligned
  obtain ⟨startAligned, behindAligned⟩ := aligned_cons.mp restAligned
  rw [Extent.split, aligned_append, aligned_append, aligned_append, aligned_cons]
  refine ⟨beforeAligned, ⟨aligned_gap startAligned _, placed, ?_⟩, behindAligned⟩
  exact aligned_gap (Nat.dvd_add placed whole) _

/-- An extent that takes over what is free behind it keeps its start. -/
theorem Aligned.absorbFree (aligned : Aligned unit (extent :: behind)) :
    Aligned unit (absorbFree extent behind) := by
  cases behind with
  | nil =>
      exact aligned
  | cons next rest =>
      obtain ⟨startAligned, nextAligned⟩ := aligned_cons.mp aligned
      rw [Memory.absorbFree]
      split
      · exact aligned
      · exact aligned_cons.mpr ⟨startAligned, (aligned_cons.mp nextAligned).2⟩

theorem Aligned.absorbInto (beforeAligned : Aligned unit before)
    (behindAligned : Aligned unit behind) : Aligned unit (absorbInto before behind) := by
  rcases List.eq_nil_or_concat' before with empty | ⟨initial, previous, shape⟩
  · subst empty
    exact behindAligned
  · subst shape
    obtain ⟨initialAligned, previousAligned⟩ := aligned_append.mp beforeAligned
    have previousStart := (aligned_cons.mp previousAligned).1
    simp only [Memory.absorbInto, List.getLast?_concat, List.dropLast_concat]
    split
    · exact aligned_append.mpr ⟨beforeAligned, behindAligned⟩
    · refine aligned_append.mpr ⟨initialAligned, Aligned.absorbFree ?_⟩
      exact aligned_cons.mpr ⟨previousStart, behindAligned⟩

theorem Aligned.released (aligned : Aligned unit (before ++ extent :: behind)) :
    Aligned unit (released before extent behind) := by
  obtain ⟨beforeAligned, restAligned⟩ := aligned_append.mp aligned
  obtain ⟨startAligned, behindAligned⟩ := aligned_cons.mp restAligned
  refine beforeAligned.absorbInto (Aligned.absorbFree ?_)
  exact aligned_cons.mpr ⟨startAligned, behindAligned⟩

end Extents

namespace Allocator

variable {memory memory' : Allocator} {size address : UInt32}

private theorem splitBack_start (memory : Allocator) (id : BlockId) (size : UInt32) :
    (memory.splitBack id size).pool[id].start = memory.pool[id].start := by
  unfold splitBack
  dsimp only
  split
  · simp
  · rfl

private theorem splitBack_poolUsed (memory : Allocator) (id : BlockId) (size : UInt32) :
    (memory.splitBack id size).poolUsed =
      memory.poolUsed + if size < memory.pool[id].size then 1 else 0 := by
  unfold splitBack
  dsimp only
  split
  · rfl
  · rfl

/-- Where nothing is skipped before a request, it is placed at the start of the block and takes
just the entries that were needed. -/
theorem carve_of_flush {request : UInt32} {fit : Fit} (flush : fit.padding = 0) :
    (memory.carve request fit).1 = memory.pool[fit.id].start ∧
      (memory.carve request fit).2.poolUsed =
        memory.poolUsed + memory.entriesNeeded request fit := by
  have frontKept : memory.splitFront fit = memory := by
    rw [splitFront, if_pos flush]
  simp only [carve, frontKept, splitBack_start, setBlock_poolUsed, splitBack_poolUsed,
    entriesNeeded, flush, if_true, UInt32.add_zero, Nat.zero_add, and_self]

private theorem free_poolUsed (done : memory.free address = .ok () memory') :
    memory'.poolUsed = memory.poolUsed := by
  unfold free at done
  split at done
  · rw [← (Attempt.ok.inj done).2, release_poolUsed]
  · cases done

private theorem free_aligned {unit : Nat} (sound : memory.Sound)
    (aligned : Aligned unit memory.extents)
    (done : memory.free address = .ok () memory') : Aligned unit memory'.extents := by
  obtain ⟨before, extent, behind, shape, _, _, _, _, extentsEq⟩ := free_extents sound done
  rw [shape] at aligned
  rw [extentsEq]
  exact aligned.released

section OnGrid

variable (onGrid : memory.region.OnGrid) (sound : memory.Sound)
  (aligned : Aligned memory.region.alignment.toNat memory.extents)

include onGrid sound aligned

/-- On the grid the search finds room at the start of a free block, and a request needs an entry
exactly if that block is larger. -/
theorem flush_of_findFit? {request : UInt32} {fit : Fit}
    (found : memory.findFit? request none memory.chain = some fit) :
    fit.padding = 0 ∧
      memory.pool[fit.id].extent ∈ memory.extents ∧ memory.pool[fit.id].used = false ∧
      request.toNat ≤ memory.pool[fit.id].size.toNat ∧
      memory.entriesNeeded request fit =
        if request.toNat < memory.pool[fit.id].size.toNat then 1 else 0 := by
  obtain ⟨initial, behind, shape, _, fits, _⟩ := findFit?_eq_some found
  have member : memory.pool[fit.id].extent ∈ memory.extents := by
    rw [sound.extents_eq, shape, extentsOf_append, extentsOf_cons]
    exact List.mem_append_right _ List.mem_cons_self
  obtain ⟨_, sumEq⟩ := (paddingFor?_eq_some_iff onGrid.alignment_power).mp fits
  obtain ⟨free, enough⟩ := paddingFor?_eq_some fits
  have positive : 0 < memory.region.alignment.toNat :=
    Nat.pos_of_isPowerOfTwo onGrid.alignment_power
  have flush : fit.padding = 0 := by
    have startAligned : memory.region.alignment.toNat ∣ memory.pool[fit.id].start.toNat :=
      aligned _ member
    rw [roundUp_of_dvd positive startAligned] at sumEq
    exact UInt32.toNat_inj.mp (Nat.add_eq_left.mp sumEq)
  refine ⟨flush, member, free, Nat.le_of_add_right_le enough, ?_⟩
  simp only [entriesNeeded, flush, if_true, UInt32.add_zero, Nat.zero_add, UInt32.lt_iff_toNat_lt]

private theorem alloc_aligned (done : memory.alloc size = .ok address memory') :
    Aligned memory.region.alignment.toNat memory'.extents := by
  have minBlock_pos : 0 < memory.region.minBlock.toNat :=
    UInt32.le_iff_toNat_le.mp onGrid.minBlock_pos
  obtain ⟨request, before, extent, behind, padding, rounded, shape, _, _, addressEq, _, _,
    extentsEq⟩ := alloc_extents sound minBlock_pos done
  have placed := dvd_of_alloc sound minBlock_pos done onGrid.alignment_power
  rw [addressEq] at placed
  rw [shape] at aligned
  rw [extentsEq]
  exact aligned.split placed (onGrid.dvd_request rounded)

/-- A successful request takes an entry exactly if what it got was not just a whole free extent. -/
theorem alloc_poolUsed (done : memory.alloc size = .ok address memory') :
    memory'.poolUsed = memory.poolUsed +
      if { memory'.grantAt address with used := false } ∈ memory.extents then 0 else 1 := by
  have minBlock_pos : 0 < memory.region.minBlock.toNat :=
    UInt32.le_iff_toNat_le.mp onGrid.minBlock_pos
  obtain ⟨request, fit, rounded, found, _, carveEq⟩ := alloc_eq_ok done
  obtain ⟨granted, grantedEq, grantEq, _⟩ := alloc_grantAt sound minBlock_pos done
  rw [rounded, Except.ok.injEq] at grantedEq
  subst grantedEq
  obtain ⟨flush, member, free, fits, needed⟩ := flush_of_findFit? onGrid sound aligned found
  have carved := @carve_of_flush memory request fit flush
  rw [carveEq] at carved
  obtain ⟨addressEq, takenEq⟩ : address = memory.pool[fit.id].start ∧
    memory'.poolUsed = memory.poolUsed + memory.entriesNeeded request fit := carved
  have wholeIff : { memory'.grantAt address with used := false } ∈ memory.extents ↔
      ¬ request.toNat < memory.pool[fit.id].size.toNat := by
    rw [grantEq]
    constructor
    · intro whole
      have same := sound.tiles_extents.eq_of_start whole member (congrArg UInt32.toNat addressEq)
      have sizeEq : request.toNat = memory.pool[fit.id].size.toNat := congrArg Extent.size same
      exact Nat.not_lt.mpr (Nat.le_of_eq sizeEq.symm)
    · intro notSmaller
      have sizeEq : request.toNat = memory.pool[fit.id].size.toNat :=
        Nat.le_antisymm fits (Nat.le_of_not_lt notSmaller)
      have same : memory.pool[fit.id].extent = ⟨address.toNat, request.toNat, false⟩ := by
        rw [Block.extent, free, sizeEq, addressEq]
      rwa [same] at member
  rw [takenEq, needed]
  simp only [wholeIff, ite_not]

/-- Entries run out only when every one of them has been taken. -/
theorem poolUsed_of_exhausted (exhausted : memory.alloc size = .error .metadataExhausted memory') :
    maxBlocks ≤ memory.poolUsed := by
  unfold alloc at exhausted
  split at exhausted
  · next error refused =>
    rw [Region.roundRequest] at refused
    split at refused
    · cases refused
      cases exhausted
    · cases refused
  · next request _ =>
    split at exhausted
    · cases exhausted
    · next fit found =>
      obtain ⟨_, _, _, _, needed⟩ := flush_of_findFit? onGrid sound aligned found
      split at exhausted
      · next few =>
        rw [needed] at few
        split at few
        · omega
        · omega
      · cases exhausted

end OnGrid

end Allocator

namespace Account

variable {region : Region} {account : Account}

private theorem opened_aligned {memory : Allocator} (onGrid : memory.region.OnGrid) :
    Aligned memory.region.alignment.toNat (opened memory).memory.extents := by
  rw [opened, Allocator.init_extents]
  exact aligned_cons.mpr ⟨onGrid.base_dvd, List.forall_mem_nil _⟩

private theorem opened_poolUsed (memory : Allocator) : (opened memory).memory.poolUsed = 1 :=
  rfl

namespace Invariant

section Serve

variable (onGrid : region.OnGrid) (invariant : Invariant region account)
  (aligned : Aligned region.alignment.toNat account.memory.extents)

include onGrid invariant aligned

private theorem serve_aligned (request : Request) :
    Aligned region.alignment.toNat (account.serve request).memory.extents := by
  have regionEq := invariant.region_eq
  subst regionEq
  cases request with
  | alloc size =>
      cases done : account.memory.alloc size with
      | error cause after =>
          obtain rfl := Allocator.alloc_eq_error done
          simpa only [Account.serve, done] using aligned
      | ok address memory' =>
          simp only [Account.serve, done]
          exact Allocator.alloc_aligned onGrid invariant.sound aligned done
  | free address =>
      cases done : account.memory.free address with
      | error cause after =>
          obtain ⟨-, rfl⟩ := Allocator.free_eq_error done
          simpa only [Account.serve, done] using aligned
      | ok _ memory' =>
          simp only [Account.serve, done]
          exact Allocator.free_aligned invariant.sound aligned done

private theorem serve_poolUsed (request : Request) :
    (account.serve request).memory.poolUsed =
      account.memory.poolUsed + (account.cuts request).toNat := by
  have regionEq := invariant.region_eq
  subst regionEq
  cases request with
  | alloc size =>
      cases done : account.memory.alloc size with
      | error cause after =>
          obtain rfl := Allocator.alloc_eq_error done
          simp only [Account.serve, Account.cuts, done, Bool.toNat_false, Nat.add_zero]
      | ok address memory' =>
          simp only [Account.serve, Account.cuts, done]
          rw [Allocator.alloc_poolUsed onGrid invariant.sound aligned done]
          split
          · next whole => simp [whole]
          · next part => simp [part]
  | free address =>
      cases done : account.memory.free address with
      | error cause after =>
          obtain ⟨-, rfl⟩ := Allocator.free_eq_error done
          simp only [Account.serve, Account.cuts, done, Bool.toNat_false, Nat.add_zero]
      | ok _ memory' =>
          simp only [Account.serve, Account.cuts, done, Bool.toNat_false, Nat.add_zero]
          exact Allocator.free_poolUsed done

end Serve

private theorem run_poolUsed (onGrid : region.OnGrid) (invariant : Invariant region account)
    (aligned : Aligned region.alignment.toNat account.memory.extents) (requests : List Request) :
    Aligned region.alignment.toNat (account.run requests).memory.extents ∧
      (account.run requests).memory.poolUsed =
        account.memory.poolUsed + tally cuts account requests := by
  induction requests generalizing account with
  | nil =>
      exact ⟨aligned, rfl⟩
  | cons request rest inductionHypothesis =>
      have served := invariant.serve (onGrid.usable onGrid.size_pos) request
      obtain ⟨restAligned, restTaken⟩ :=
        inductionHypothesis served (invariant.serve_aligned onGrid aligned request)
      refine ⟨restAligned, restTaken.trans ?_⟩
      rw [invariant.serve_poolUsed onGrid aligned request, tally, Nat.add_assoc]

end Invariant

/-- Only a request that is served cuts anything. -/
theorem tally_cuts_le (account : Account) (requests : List Request) :
    tally cuts account requests ≤ tally grants account requests := by
  induction requests generalizing account with
  | nil =>
      exact Nat.le_refl 0
  | cons request rest inductionHypothesis =>
      refine Nat.add_le_add ?_ (inductionHypothesis _)
      apply Bool.toNat_le_toNat
      cases request with
      | alloc size =>
          cases done : account.memory.alloc size with
          | error cause after => simp [cuts, done]
          | ok address memory' => simp [grants, done]
      | free address =>
          exact fun cut => cut

/-- In a region on the grid of its alignment every block starts on the grid, whatever was asked
before.  One entry of the pool is taken at the start, and one more by each request that is served
with less than a whole free block; so as long as fewer than 255 requests have been served since
`init`, none is refused for want of entries. -/
theorem run_budget (memory : Allocator) (onGrid : memory.region.OnGrid)
    (requests : List Request) :
    let account := (opened memory).run requests
    (∀ block ∈ account.memory.blocks, memory.region.alignment.toNat ∣ block.start.toNat) ∧
      account.memory.poolUsed = 1 + tally cuts (opened memory) requests ∧
      ∀ size after, account.memory.alloc size = .error .metadataExhausted after →
        255 ≤ tally grants (opened memory) requests := by
  intro account
  have usable := onGrid.usable onGrid.size_pos
  have opening := opened_invariant usable
  have invariant : Invariant memory.region account := opening.run usable requests
  obtain ⟨aligned, taken⟩ := opening.run_poolUsed onGrid (opened_aligned onGrid) requests
  rw [opened_poolUsed] at taken
  refine ⟨?_, taken, ?_⟩
  · intro block member
    exact aligned block.extent (List.mem_map_of_mem member)
  · intro size after exhausted
    have regionEq : account.memory.region = memory.region := invariant.region_eq
    have all : maxBlocks ≤ account.memory.poolUsed := by
      rw [← regionEq] at onGrid aligned
      exact Allocator.poolUsed_of_exhausted onGrid invariant.sound aligned exhausted
    have cut : 255 ≤ tally cuts (opened memory) requests := by
      rw [taken] at all
      exact Nat.le_of_add_le_add_left all
    exact cut.trans (tally_cuts_le (opened memory) requests)

/-- The third grant is a whole block that was given back, the fourth a part of what two releases
have left. -/
def holeReused : List Request :=
  [.alloc 40000, .alloc 1, .free 0x40000000, .alloc 40960, .free 0x4000A000, .alloc 1]

theorem run_budget_holeReused :
    let account := (opened (.new .default)).run holeReused
    Region.default.OnGrid ∧ account.memory.poolUsed = 1 + 3 ∧
      tally cuts (opened (.new .default)) holeReused = 3 ∧
      tally grants (opened (.new .default)) holeReused = 4 ∧
      ∀ size after, account.memory.alloc size ≠ .error .metadataExhausted after := by
  intro account
  have onGrid : Region.default.OnGrid :=
    ⟨⟨⟨12, by decide⟩, by decide, by decide⟩, by decide, by decide, by decide⟩
  have cutsEq : tally cuts (opened (.new .default)) holeReused = 3 := by
    decide +kernel
  have grantsEq : tally grants (opened (.new .default)) holeReused = 4 := by
    decide +kernel
  obtain ⟨_, taken, late⟩ := run_budget (.new .default) onGrid holeReused
  rw [cutsEq] at taken
  refine ⟨onGrid, taken, cutsEq, grantsEq, ?_⟩
  intro size after exhausted
  have atLeast := late size after exhausted
  rw [grantsEq] at atLeast
  exact absurd atLeast (by decide)

end Account

end Microkernel.Memory
