import Mathlib.Data.List.Chain
import Mathlib.Tactic.Tauto
import Microkernel.Proofs.Memory.Partition
import Microkernel.Proofs.Memory.Starts

/-!
# Complete coalescing

A release joins what it frees with its free neighbours, and a request leaves free pieces only
between itself and the used neighbours of the extent that it cuts.  So two free extents are never
neighbours, whatever was asked before.  In such a tiling the free extents are what the used ones
leave over (`fill`), and the used ones alone determine the list.
-/

namespace Microkernel.Memory

/-- No two neighbours are both free. -/
def Coalesced (extents : List Extent) : Prop :=
  extents.IsChain fun left right => left.used = true ∨ right.used = true

/-- Some extents and what they leave free between `first` and `last`. -/
def fill : Nat → List Extent → Nat → List Extent
  | first, [], last => Extent.gap first (last - first)
  | first, extent :: rest, last =>
      Extent.gap first (extent.start - first) ++ extent :: fill extent.stop rest last

/-- The first of some extents, if there is one, is used. -/
def UsedFirst (extents : List Extent) : Prop :=
  ∀ extent ∈ extents.head?, extent.used = true

/-- The last of some extents, if there is one, is used. -/
def UsedLast (extents : List Extent) : Prop :=
  ∀ extent ∈ extents.getLast?, extent.used = true

section Neighbours

variable {before behind : List Extent} {extent : Extent}

/-- A used extent parts what is before it from what is behind it. -/
theorem coalesced_used_iff (before : List Extent) (used : extent.used = true) :
    Coalesced (before ++ extent :: behind) ↔ Coalesced before ∧ Coalesced behind := by
  simp [Coalesced, List.isChain_append, List.isChain_cons, used]

/-- A free extent needs used neighbours. -/
theorem coalesced_free_iff (before : List Extent) (free : extent.used = false) :
    Coalesced (before ++ extent :: behind) ↔
      (Coalesced before ∧ UsedLast before) ∧ Coalesced behind ∧ UsedFirst behind := by
  simp only [Coalesced, UsedLast, UsedFirst, List.isChain_append, List.isChain_cons,
    List.head?_cons, Option.mem_some_iff, forall_eq', free, Bool.false_eq_true, false_or, or_false]
  tauto

private theorem coalesced_append_gap (start size : Nat) (coalesced : Coalesced before)
    (usedLast : UsedLast before) : Coalesced (before ++ Extent.gap start size) := by
  by_cases empty : size = 0
  · simpa [Extent.gap, empty] using coalesced
  · rw [Extent.gap, if_neg empty]
    refine (coalesced_free_iff _ rfl).mpr ⟨⟨coalesced, usedLast⟩, List.isChain_nil, ?_⟩
    simp [UsedFirst]

private theorem coalesced_gap_append (start size : Nat) (coalesced : Coalesced behind)
    (usedFirst : UsedFirst behind) : Coalesced (Extent.gap start size ++ behind) := by
  by_cases empty : size = 0
  · simpa [Extent.gap, empty] using coalesced
  · rw [Extent.gap, if_neg empty]
    refine (coalesced_free_iff [] rfl).mpr
      ⟨⟨List.isChain_nil, ?_⟩, coalesced, usedFirst⟩
    simp [UsedLast]

/-- The pieces that a request leaves of a free extent touch used extents only. -/
theorem Coalesced.split (coalesced : Coalesced (before ++ extent :: behind))
    (free : extent.used = false) (padding request : Nat) :
    Coalesced (before ++ (extent.split padding request ++ behind)) := by
  obtain ⟨⟨beforeCoalesced, usedLast⟩, behindCoalesced, usedFirst⟩ :=
    (coalesced_free_iff _ free).mp coalesced
  rw [Extent.split, List.append_assoc, ← List.append_assoc, List.cons_append]
  refine (coalesced_used_iff _ rfl).mpr ⟨?_, ?_⟩
  · exact coalesced_append_gap _ _ beforeCoalesced usedLast
  · exact coalesced_gap_append _ _ behindCoalesced usedFirst

/-- A free extent that has taken over what is free behind it is followed by a used one. -/
theorem absorbFree_eq_cons (free : extent.used = false) (coalesced : Coalesced behind) :
    ∃ grown rest, absorbFree extent behind = grown :: rest ∧ grown.used = false ∧
      Coalesced rest ∧ UsedFirst rest := by
  cases behind with
  | nil =>
      exact ⟨extent, [], rfl, free, List.isChain_nil, by simp [UsedFirst]⟩
  | cons next rest =>
      cases nextUsed : next.used with
      | true =>
          refine ⟨extent, next :: rest, ?_, free, coalesced, ?_⟩
          · simp [absorbFree, nextUsed]
          · simpa [UsedFirst] using nextUsed
      | false =>
          obtain ⟨_, restCoalesced, usedFirst⟩ :=
            (coalesced_free_iff [] nextUsed).mp coalesced
          refine ⟨extent.join next, rest, ?_, free, restCoalesced, usedFirst⟩
          simp [absorbFree, nextUsed]

/-- What is given back is joined with every free neighbour. -/
theorem Coalesced.released (coalesced : Coalesced (before ++ extent :: behind))
    (used : extent.used = true) : Coalesced (Memory.released before extent behind) := by
  obtain ⟨beforeCoalesced, behindCoalesced⟩ := (coalesced_used_iff _ used).mp coalesced
  have freedFree : ({ extent with used := false } : Extent).used = false := rfl
  obtain ⟨grown, rest, grownEq, grownFree, restCoalesced, usedFirst⟩ :=
    absorbFree_eq_cons freedFree behindCoalesced
  rw [Memory.released, grownEq]
  rcases List.eq_nil_or_concat' before with empty | ⟨initial, previous, shape⟩
  · subst before
    refine (coalesced_free_iff [] grownFree).mpr ⟨⟨beforeCoalesced, ?_⟩, ?_⟩
    · simp [UsedLast]
    · exact ⟨restCoalesced, usedFirst⟩
  · subst before
    cases previousUsed : previous.used with
    | true =>
        have untouched : absorbInto (initial ++ [previous]) (grown :: rest) =
            initial ++ [previous] ++ grown :: rest := by
          simp [absorbInto, previousUsed]
        rw [untouched]
        refine (coalesced_free_iff _ grownFree).mpr
          ⟨⟨beforeCoalesced, ?_⟩, restCoalesced, usedFirst⟩
        simpa [UsedLast] using previousUsed
    | false =>
        have joined : absorbInto (initial ++ [previous]) (grown :: rest) =
            initial ++ previous.join grown :: rest := by
          simp [absorbInto, absorbFree, previousUsed, grownFree]
        obtain ⟨initialEnds, _⟩ := (coalesced_free_iff _ previousUsed).mp beforeCoalesced
        have joinedFree : (previous.join grown).used = false := previousUsed
        rw [joined]
        exact (coalesced_free_iff initial joinedFree).mpr
          ⟨initialEnds, restCoalesced, usedFirst⟩

end Neighbours

/-- A coalesced tiling is its used extents with what they leave over. -/
theorem Tiles.fill_usedExtents {first last : Nat} {extents : List Extent}
    (tiles : Tiles first extents last) (coalesced : Coalesced extents) :
    fill first (usedExtents extents) last = extents := by
  induction extents generalizing first with
  | nil =>
      have firstEq : first = last := tiles
      simp [usedExtents, fill, Extent.gap, firstEq]
  | cons head tail inductionHypothesis =>
      obtain ⟨startEq, positive, tailTiles⟩ := tiles
      cases headUsed : head.used with
      | true =>
          have tailCoalesced := ((coalesced_used_iff [] headUsed).mp coalesced).2
          have usedEq : usedExtents (head :: tail) = head :: usedExtents tail :=
            List.filter_cons_of_pos headUsed
          rw [usedEq, fill, inductionHypothesis tailTiles tailCoalesced]
          simp [Extent.gap, startEq]
      | false =>
          obtain ⟨_, tailCoalesced, usedFirst⟩ :=
            (coalesced_free_iff [] headUsed).mp coalesced
          have usedEq : usedExtents (head :: tail) = usedExtents tail :=
            List.filter_cons_of_neg (ne_true_of_eq_false headUsed)
          have tailFilled := inductionHypothesis tailTiles tailCoalesced
          have headGap : Extent.gap first (head.stop - first) = [head] := by
            have stopEq : head.stop - first = head.size := by
              simp only [Extent.stop]
              omega
            rw [stopEq, Extent.gap, if_neg positive.ne', ← startEq, ← headUsed]
          rw [usedEq]
          cases tail with
          | nil =>
              have stopEq : head.stop = last := tailTiles
              rw [← stopEq]
              exact headGap
          | cons next rest =>
              have nextUsed : next.used = true := usedFirst next rfl
              have nextStart : next.start = head.stop := tailTiles.1
              have usedTail : usedExtents (next :: rest) = next :: usedExtents rest :=
                List.filter_cons_of_pos nextUsed
              rw [usedTail, fill, nextStart, Nat.sub_self] at tailFilled
              rw [usedTail, fill, nextStart, headGap]
              exact congrArg (head :: ·) tailFilled

/-- Two coalesced tilings of the same bytes with the same used extents are the same. -/
theorem Tiles.eq_of_usedExtents {first last : Nat} {left right : List Extent}
    (leftTiles : Tiles first left last) (leftCoalesced : Coalesced left)
    (rightTiles : Tiles first right last) (rightCoalesced : Coalesced right)
    (sameUsed : (usedExtents left).Perm (usedExtents right)) : left = right := by
  have usedEq : usedExtents left = usedExtents right := by
    refine sameUsed.eq_of_pairwise ?_ (leftTiles.ordered.sublist List.filter_sublist)
      (rightTiles.ordered.sublist List.filter_sublist)
    intro extent other member _ ordered reversed
    have positive := (leftTiles.bounds (List.mem_of_mem_filter member)).2.1
    simp only [Extent.stop] at ordered reversed
    omega
  rw [← leftTiles.fill_usedExtents leftCoalesced, usedEq,
    rightTiles.fill_usedExtents rightCoalesced]

namespace Allocator

variable {memory memory' : Allocator} {size address : UInt32}

theorem init_extents (memory : Allocator) :
    memory.init.extents = [⟨memory.region.base.toNat, memory.region.size.toNat, false⟩] := by
  rw [extents, blocks, init_chain, List.map_singleton, init_entry]
  rfl

private theorem alloc_coalesced (sound : memory.Sound)
    (minBlock_pos : 0 < memory.region.minBlock.toNat)
    (coalesced : Coalesced memory.extents) (done : memory.alloc size = .ok address memory') :
    Coalesced memory'.extents := by
  obtain ⟨request, before, extent, behind, padding, _, shape, free, _, _, _, _, extentsEq⟩ :=
    alloc_extents sound minBlock_pos done
  rw [shape] at coalesced
  rw [extentsEq]
  exact coalesced.split free padding request.toNat

private theorem free_coalesced (sound : memory.Sound) (coalesced : Coalesced memory.extents)
    (done : memory.free address = .ok () memory') : Coalesced memory'.extents := by
  obtain ⟨before, extent, behind, shape, used, _, _, _, extentsEq⟩ := free_extents sound done
  rw [shape] at coalesced
  rw [extentsEq]
  exact coalesced.released used

/-- Two allocators of one region with the same used extents show the same list. -/
theorem extents_eq_of_usedExtents (sound : memory.Sound) (sound' : memory'.Sound)
    (coalesced : Coalesced memory.extents) (coalesced' : Coalesced memory'.extents)
    (sameRegion : memory'.region = memory.region)
    (sameUsed : (usedExtents memory.extents).Perm (usedExtents memory'.extents)) :
    memory.extents = memory'.extents := by
  have tiles := sound.tiles_extents
  have tiles' := sound'.tiles_extents
  rw [sameRegion] at tiles'
  exact tiles.eq_of_usedExtents coalesced tiles' coalesced' sameUsed

/-- What was just handed out can be given back, and then nothing is left of the request. -/
theorem free_alloc_extents (sound : memory.Sound)
    (minBlock_pos : 0 < memory.region.minBlock.toNat) (coalesced : Coalesced memory.extents)
    (done : memory.alloc size = .ok address memory') :
    ∃ memory'', memory'.free address = .ok () memory'' ∧ memory''.extents = memory.extents := by
  obtain ⟨sound', regionKept⟩ := alloc_sound sound minBlock_pos done
  have coalesced' := alloc_coalesced sound minBlock_pos coalesced done
  obtain ⟨request, _, granted⟩ := alloc_usedExtents sound minBlock_pos done
  have handedOut : address ∈ memory'.usedStarts :=
    (alloc_usedStarts sound minBlock_pos done).mem_iff.mpr List.mem_cons_self
  obtain ⟨memory'', freed⟩ := free_of_mem_usedStarts handedOut
  obtain ⟨sound'', regionKept'⟩ := free_sound sound' freed
  obtain ⟨extent, _, startEq, taken⟩ := free_usedExtents sound' freed
  have tiles' := sound'.tiles_extents
  have extentEq : extent = ⟨address.toNat, request.toNat, true⟩ := by
    have extentUsed : extent ∈ usedExtents memory'.extents :=
      taken.mem_iff.mpr List.mem_cons_self
    have requestUsed : ⟨address.toNat, request.toNat, true⟩ ∈ usedExtents memory'.extents :=
      granted.mem_iff.mpr List.mem_cons_self
    exact tiles'.eq_of_start (List.mem_of_mem_filter extentUsed)
      (List.mem_of_mem_filter requestUsed) startEq
  rw [extentEq] at taken
  refine ⟨memory'', freed, (extents_eq_of_usedExtents sound sound'' coalesced ?_ ?_ ?_).symm⟩
  · exact free_coalesced sound' coalesced' freed
  · exact regionKept'.trans regionKept
  · exact (granted.symm.trans taken).cons_inv

end Allocator

theorem Region.Granular.usable {region : Region} (granular : region.Granular)
    (size_pos : 1 ≤ region.size) : region.Usable :=
  ⟨UInt32.le_iff_toNat_le.mpr (Nat.pos_of_isPowerOfTwo granular.alignment_power),
    granular.minBlock_pos, size_pos, granular.stop_lt⟩

namespace Account

variable {region : Region} {account : Account}

namespace Invariant

private theorem serve_coalesced (usable : region.Usable) (invariant : Invariant region account)
    (coalesced : Coalesced account.memory.extents) (request : Request) :
    Coalesced (account.serve request).memory.extents := by
  have minBlock_pos : 0 < account.memory.region.minBlock.toNat := by
    rw [invariant.region_eq]
    exact UInt32.le_iff_toNat_le.mp usable.minBlock_pos
  cases request with
  | alloc size =>
      cases done : account.memory.alloc size with
      | error cause after =>
          obtain rfl := Allocator.alloc_eq_error done
          simpa only [Account.serve, done] using coalesced
      | ok address memory' =>
          simp only [Account.serve, done]
          exact Allocator.alloc_coalesced invariant.sound minBlock_pos coalesced done
  | free address =>
      cases done : account.memory.free address with
      | error cause after =>
          obtain ⟨-, rfl⟩ := Allocator.free_eq_error done
          simpa only [Account.serve, done] using coalesced
      | ok _ memory' =>
          simp only [Account.serve, done]
          exact Allocator.free_coalesced invariant.sound coalesced done

theorem run_coalesced (usable : region.Usable) (invariant : Invariant region account)
    (coalesced : Coalesced account.memory.extents) (requests : List Request) :
    Coalesced (account.run requests).memory.extents := by
  induction requests generalizing account with
  | nil =>
      exact coalesced
  | cons request rest inductionHypothesis =>
      exact inductionHypothesis (invariant.serve usable request)
        (invariant.serve_coalesced usable coalesced request)

/-- A recorded extent is gone after a release that names its start, and no release adds one. -/
theorem mem_live_of_serve_free (invariant : Invariant region account) {address : UInt32}
    {grant : Extent} (member : grant ∈ (account.serve (.free address)).live) :
    grant ∈ account.live ∧ grant.start ≠ address.toNat := by
  cases done : account.memory.free address with
  | ok memory' =>
      simp only [Account.serve, done] at member
      obtain ⟨recorded, elsewhere⟩ := List.mem_filter.mp member
      exact ⟨recorded, bne_iff_ne.mp elsewhere⟩
  | error error =>
      simp only [Account.serve, done] at member
      refine ⟨member, ?_⟩
      intro startEq
      have handedOut : address ∈ account.memory.usedStarts :=
        Allocator.mem_usedStarts_iff.mpr
          ⟨grant, invariant.recorded.mem_iff.mpr member, startEq⟩
      obtain ⟨memory', freed⟩ := Allocator.free_of_mem_usedStarts handedOut
      rw [freed] at done
      cases done

private theorem mem_live_of_run_free (usable : region.Usable) (invariant : Invariant region account)
    {addresses : List UInt32} {grant : Extent}
    (member : grant ∈ (account.run (addresses.map .free)).live) :
    grant ∈ account.live ∧ grant.start ∉ addresses.map UInt32.toNat := by
  induction addresses generalizing account with
  | nil =>
      exact ⟨member, List.not_mem_nil⟩
  | cons address rest inductionHypothesis =>
      obtain ⟨stillThere, notLater⟩ :=
        inductionHypothesis (invariant.serve usable (.free address)) member
      obtain ⟨recorded, notHere⟩ := invariant.mem_live_of_serve_free stillThere
      refine ⟨recorded, ?_⟩
      rw [List.map_cons, List.mem_cons, not_or]
      exact ⟨notHere, notLater⟩

end Invariant

theorem opened_coalesced (memory : Allocator) : Coalesced (opened memory).memory.extents := by
  rw [opened, Allocator.init_extents]
  exact List.isChain_singleton _

/-- Whatever was asked before, no two free blocks are neighbours.  So what is handed out determines
the list of blocks; a request and its release leave no trace in it; and when every address that is
handed out has been given back, in any order, one free block spans the region. -/
theorem run_canonical (memory : Allocator) (usable : memory.region.Usable)
    (requests : List Request) :
    let account := (opened memory).run requests
    Coalesced account.memory.extents ∧
      (∀ (other : Allocator) (others : List Request), other.region = memory.region →
        (∀ grant, grant ∈ account.live ↔ grant ∈ ((opened other).run others).live) →
          account.memory.extents = ((opened other).run others).memory.extents) ∧
      (∀ size address memory', account.memory.alloc size = .ok address memory' →
        ∃ memory'', memory'.free address = .ok () memory'' ∧
          memory''.extents = account.memory.extents) ∧
      ∀ addresses : List UInt32,
        (∀ grant ∈ account.live, grant.start ∈ addresses.map UInt32.toNat) →
          (account.run (addresses.map .free)).memory.extents =
            [⟨memory.region.base.toNat, memory.region.size.toNat, false⟩] := by
  intro account
  have invariant : Invariant memory.region account := (opened_invariant usable).run usable requests
  have coalesced : Coalesced account.memory.extents :=
    (opened_invariant usable).run_coalesced usable (opened_coalesced memory) requests
  have minBlock_pos : 0 < account.memory.region.minBlock.toNat := by
    rw [invariant.region_eq]
    exact UInt32.le_iff_toNat_le.mp usable.minBlock_pos
  refine ⟨coalesced, ?_, ?_, ?_⟩
  · intro other others sameRegion sameLive
    have otherUsable : other.region.Usable := sameRegion ▸ usable
    have otherInvariant := (opened_invariant otherUsable).run otherUsable others
    have otherCoalesced :=
      (opened_invariant otherUsable).run_coalesced otherUsable (opened_coalesced other) others
    have livePerm : account.live.Perm ((opened other).run others).live :=
      (List.perm_ext_iff_of_nodup invariant.starts_nodup.of_map
        otherInvariant.starts_nodup.of_map).mpr sameLive
    refine Allocator.extents_eq_of_usedExtents invariant.sound otherInvariant.sound coalesced
      otherCoalesced ?_ ?_
    · rw [otherInvariant.region_eq, invariant.region_eq, sameRegion]
    · exact (invariant.recorded.trans livePerm).trans otherInvariant.recorded.symm
  · intro size address memory' done
    exact Allocator.free_alloc_extents invariant.sound minBlock_pos coalesced done
  · intro addresses named
    have emptied : (account.run (addresses.map .free)).live = [] := by
      apply List.eq_nil_iff_forall_not_mem.mpr
      intro grant member
      obtain ⟨recorded, notNamed⟩ := invariant.mem_live_of_run_free usable member
      exact notNamed (named grant recorded)
    have later := invariant.run usable (addresses.map .free)
    have laterCoalesced := invariant.run_coalesced usable coalesced (addresses.map .free)
    have freshInvariant := opened_invariant usable
    rw [← Allocator.init_extents memory]
    refine Allocator.extents_eq_of_usedExtents later.sound freshInvariant.sound laterCoalesced
      (opened_coalesced memory) ?_ ?_
    · exact freshInvariant.region_eq.trans later.region_eq.symm
    · have nothingUsed := later.recorded
      rw [emptied] at nothingUsed
      exact nothingUsed.trans freshInvariant.recorded.symm

/-- Two histories that leave the second of two blocks handed out. -/
def secondKept : List Request :=
  [.alloc 40000, .alloc 1, .free 0x40000000]

def secondKeptOtherwise : List Request :=
  [.alloc 40960, .free 7, .alloc 30000, .alloc 5, .free 0x40012000, .free 0x40000000]

theorem run_canonical_default :
    let memory := Allocator.new .default
    let account := (opened memory).run secondKept
    let other := (opened memory).run secondKeptOtherwise
    memory.region.Usable ∧ account.live = [⟨0x4000A000, 32768, true⟩] ∧
      (∀ grant, grant ∈ account.live ↔ grant ∈ other.live) ∧
      account.memory.extents = other.memory.extents ∧
      (∃ memory', account.memory.alloc 50000 = .ok 0x40012000 memory' ∧
        ∃ memory'', memory'.free 0x40012000 = .ok () memory'' ∧
          memory''.extents = account.memory.extents) ∧
      (account.run [.free 0x4000A000]).memory.extents = [⟨0x40000000, 1048576, false⟩] := by
  intro memory account other
  have usable : memory.region.Usable := ⟨by decide, by decide, by decide, by decide⟩
  have live : account.live = [⟨0x4000A000, 32768, true⟩] := by
    decide +kernel
  have otherLive : other.live = [⟨0x4000A000, 32768, true⟩] := by
    decide +kernel
  have sameLive : ∀ grant, grant ∈ account.live ↔ grant ∈ other.live := by
    intro grant
    rw [live, otherLive]
  have granted : (account.memory.alloc 50000).result? = some 0x40012000 := by
    decide +kernel
  obtain ⟨_, determined, restored, emptied⟩ := run_canonical memory usable secondKept
  refine ⟨usable, live, sameLive, determined memory secondKeptOtherwise rfl sameLive, ?_, ?_⟩
  · obtain ⟨memory', done⟩ := Allocator.exists_alloc_eq_ok granted
    exact ⟨memory', done, restored _ _ _ done⟩
  · refine emptied [0x4000A000] ?_
    change ∀ grant ∈ account.live, _
    rw [live]
    decide

end Account

end Microkernel.Memory
