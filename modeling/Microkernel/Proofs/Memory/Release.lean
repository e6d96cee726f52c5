import Microkernel.Proofs.Memory.Handout

/-!
# Taking a block back

A used block that is given back becomes free, takes over the block behind it if that one is free,
and is taken over by the block before it if that one is free.  The entries that are taken over
drop out of the chain.  `free_extents` says what this does to the extents, and
`free_eq_error_iff` when there is nothing to take back.
-/

namespace Microkernel.Memory

namespace Represents

variable {memory : Allocator} {initial behind : List BlockId} {id next : BlockId}

/-- A block that takes over the one behind it drops that one out of the chain. -/
theorem absorb (represents : Represents memory (initial ++ id :: next :: behind)) :
    Represents (memory.absorb id next) (initial ++ id :: behind) ∧
      extentsOf (memory.absorb id next).pool initial = extentsOf memory.pool initial ∧
      (memory.absorb id next).pool[id].extent =
        memory.pool[id].extent.join memory.pool[next].extent ∧
      extentsOf (memory.absorb id next).pool behind = extentsOf memory.pool behind := by
  obtain ⟨notBefore, notBehind⟩ := represents.notMem_sides
  obtain ⟨middle, beforeLinked, middleEq, nextEq, behindLinked⟩ :=
    linked_append.mp represents.linked
  have idNotBehind : id ∉ behind := fun member => notBehind (List.mem_cons_of_mem next member)
  let joined : Block :=
    { memory.pool[id] with
      size := memory.pool[id].size + memory.pool[next].size, next := memory.pool[next].next }
  have absorbEq : memory.absorb id next = memory.setBlock id joined := rfl
  have idFinal : (memory.setBlock id joined).pool[id] = joined :=
    getElem_put_self memory.pool id joined
  have beforeFinal := getElem_put_of_notMem memory.pool joined notBefore
  have behindFinal := getElem_put_of_notMem memory.pool joined idNotBehind
  have noWrap := represents.stop_lt
  have tiles := represents.tiles
  rw [extentsOf_append, extentsOf_cons, extentsOf_cons] at tiles
  have joinedExtent : joined.extent = memory.pool[id].extent.join memory.pool[next].extent := by
    obtain ⟨start, beforeTiles, startEq, positive, nextStart, nextPositive, behindTiles⟩ :=
      tiles_append.mp tiles
    have behindLe := behindTiles.le
    simp only [Extent.stop, Block.extent] at nextStart behindLe
    simp only [joined, Block.extent, Extent.join, UInt32.toNat_add]
    rw [Nat.mod_eq_of_lt (by omega)]
  rw [absorbEq]
  refine ⟨⟨?_, ?_, ?_, represents.poolUsed_le, ?_, noWrap⟩, extentsOf_congr beforeFinal, ?_,
    extentsOf_congr behindFinal⟩
  · refine linked_append.mpr ⟨middle, beforeLinked.congr beforeFinal, middleEq, ?_⟩
    rw [idFinal]
    exact behindLinked.congr behindFinal
  · refine represents.distinct.sublist ?_
    exact List.Sublist.append_left ((List.sublist_cons_self next behind).cons_cons id) initial
  · intro other member
    apply represents.taken other
    have sublist : (initial ++ id :: behind).Sublist (initial ++ id :: next :: behind) :=
      List.Sublist.append_left ((List.sublist_cons_self next behind).cons_cons id) initial
    exact sublist.mem member
  · rw [extentsOf_append, extentsOf_cons, Allocator.setBlock_pool, extentsOf_congr beforeFinal,
      getElem_put_self, extentsOf_congr behindFinal, joinedExtent]
    refine tiles.exchange [memory.pool[id].extent, memory.pool[next].extent]
      [memory.pool[id].extent.join memory.pool[next].extent] ?_
    intro start stop blockTiles
    exact blockTiles.join
  · rw [idFinal, joinedExtent]

/-- A block takes over the block behind it if there is one and it is free. -/
theorem mergeBehind (represents : Represents memory (initial ++ id :: behind)) :
    ∃ behind', Represents (memory.mergeBehind id) (initial ++ id :: behind') ∧
      extentsOf (memory.mergeBehind id).pool initial = extentsOf memory.pool initial ∧
      extentsOf (memory.mergeBehind id).pool (id :: behind') =
        absorbFree memory.pool[id].extent (extentsOf memory.pool behind) ∧
      (memory.mergeBehind id).pool[id].used = memory.pool[id].used := by
  obtain ⟨middle, _, _, behindLinked⟩ := linked_append.mp represents.linked
  cases behind with
  | nil =>
      have lastLink : memory.pool[id].next = none := behindLinked
      have untouched : memory.mergeBehind id = memory := by
        simp only [Allocator.mergeBehind, lastLink]
      rw [untouched]
      exact ⟨[], represents, rfl, rfl, rfl⟩
  | cons next rest =>
      have nextLink : memory.pool[id].next = some next := behindLinked.1
      by_cases nextUsed : memory.pool[next].used
      · have untouched : memory.mergeBehind id = memory := by
          simp only [Allocator.mergeBehind, nextLink, nextUsed, if_true]
        rw [untouched]
        refine ⟨next :: rest, represents, rfl, ?_, rfl⟩
        have extentUsed : memory.pool[next].extent.used = true := nextUsed
        rw [extentsOf_cons, extentsOf_cons, absorbFree, if_pos extentUsed]
      · have absorbed : memory.mergeBehind id = memory.absorb id next := by
          simp only [Allocator.mergeBehind, nextLink, nextUsed]
          rfl
        obtain ⟨holds, beforeKept, joined, restKept⟩ := represents.absorb
        rw [absorbed]
        refine ⟨rest, holds, beforeKept, ?_, congrArg Extent.used joined⟩
        have extentFree : ¬ memory.pool[next].extent.used = true := nextUsed
        rw [extentsOf_cons, extentsOf_cons, joined, restKept, absorbFree, if_neg extentFree]

/-- A free block is taken over by the block before it if there is one and it is free. -/
theorem mergeInto (represents : Represents memory (initial ++ id :: behind))
    (free : memory.pool[id].used = false) :
    ∃ ids, Represents (memory.mergeInto initial.getLast? id) ids ∧
      extentsOf (memory.mergeInto initial.getLast? id).pool ids =
        absorbInto (extentsOf memory.pool initial) (extentsOf memory.pool (id :: behind)) := by
  rcases List.eq_nil_or_concat' initial with empty | ⟨front, previous, shape⟩
  · subst empty
    exact ⟨id :: behind, represents, rfl⟩
  · subst shape
    rw [← List.append_cons] at represents
    have lastEq : (extentsOf memory.pool (front ++ [previous])).getLast? =
        some memory.pool[previous].extent := by
      simp
    rw [absorbInto, lastEq, List.getLast?_concat]
    by_cases previousUsed : memory.pool[previous].used
    · have untouched : memory.mergeInto (some previous) id = memory := by
        simp only [Allocator.mergeInto, previousUsed, if_true]
      have extentUsed : memory.pool[previous].extent.used = true := previousUsed
      rw [untouched]
      refine ⟨front ++ previous :: id :: behind, represents, ?_⟩
      simp only [extentUsed, if_true]
      rw [← extentsOf_append, ← List.append_cons]
    · have absorbed : memory.mergeInto (some previous) id = memory.absorb previous id := by
        simp only [Allocator.mergeInto, previousUsed]
        rfl
      have extentFree : ¬ memory.pool[previous].extent.used = true := previousUsed
      have idFree : ¬ memory.pool[id].extent.used = true := ne_true_of_eq_false free
      obtain ⟨holds, frontKept, joined, behindKept⟩ := represents.absorb
      rw [absorbed]
      refine ⟨front ++ previous :: behind, holds, ?_⟩
      simp only [extentFree, Bool.false_eq_true, if_false]
      rw [extentsOf_append, extentsOf_cons, frontKept, joined, behindKept, extentsOf_append,
        extentsOf_cons, extentsOf_nil, List.dropLast_concat, extentsOf_cons, absorbFree,
        if_neg idFree]

theorem release (represents : Represents memory (initial ++ id :: behind)) :
    ∃ ids, Represents (memory.release ⟨initial.getLast?, id⟩) ids ∧
      extentsOf (memory.release ⟨initial.getLast?, id⟩).pool ids =
        released (extentsOf memory.pool initial) memory.pool[id].extent
          (extentsOf memory.pool behind) := by
  let freed : Block := { memory.pool[id] with used := false }
  let marked := memory.setBlock id freed
  have markedHolds : Represents marked (initial ++ id :: behind) := represents.setUsed false
  obtain ⟨notBefore, notBehind⟩ := represents.notMem_sides
  have markedBefore : extentsOf marked.pool initial = extentsOf memory.pool initial :=
    extentsOf_congr (getElem_put_of_notMem memory.pool freed notBefore)
  have markedBehind : extentsOf marked.pool behind = extentsOf memory.pool behind :=
    extentsOf_congr (getElem_put_of_notMem memory.pool freed notBehind)
  have markedBlock : marked.pool[id] = freed := getElem_put_self memory.pool id freed
  obtain ⟨behind', mergedHolds, mergedBefore, mergedBehind, stillFree⟩ := markedHolds.mergeBehind
  have mergedFree : (marked.mergeBehind id).pool[id].used = false := by
    rw [stillFree, markedBlock]
  obtain ⟨ids, holds, extentsEq⟩ := mergedHolds.mergeInto mergedFree
  refine ⟨ids, holds, extentsEq.trans ?_⟩
  rw [mergedBefore, mergedBehind, markedBefore, markedBehind, markedBlock]
  rfl

end Represents

namespace Allocator

variable {memory memory' : Allocator}

@[simp]
theorem mergeBehind_region (id : BlockId) : (memory.mergeBehind id).region = memory.region := by
  unfold mergeBehind
  split
  · split
    · rfl
    · rfl
  · rfl

@[simp]
theorem mergeInto_region (before : Option BlockId) (id : BlockId) :
    (memory.mergeInto before id).region = memory.region := by
  unfold mergeInto
  split
  · split
    · rfl
    · rfl
  · rfl

theorem release_region (found : Found) : (memory.release found).region = memory.region := by
  simp [release]

theorem mergeBehind_poolUsed (memory : Allocator) (id : BlockId) :
    (memory.mergeBehind id).poolUsed = memory.poolUsed := by
  unfold mergeBehind
  split
  · split
    · rfl
    · rfl
  · rfl

private theorem mergeInto_poolUsed (memory : Allocator) (before : Option BlockId) (id : BlockId) :
    (memory.mergeInto before id).poolUsed = memory.poolUsed := by
  unfold mergeInto
  split
  · split
    · rfl
    · rfl
  · rfl

/-- A release gives no entry back to the pool. -/
theorem release_poolUsed (found : Found) : (memory.release found).poolUsed = memory.poolUsed := by
  rw [release, mergeInto_poolUsed, mergeBehind_poolUsed, setBlock_poolUsed]

private theorem mergeBehind_entry {id other : BlockId} (different : id ≠ other) :
    (memory.mergeBehind id).pool[other] = memory.pool[other] := by
  unfold mergeBehind
  split
  · split
    · rfl
    · exact getElem_put_of_ne _ different
  · rfl

private theorem mergeInto_entry {before : Option BlockId} {id other : BlockId}
    (used : memory.pool[other].used = true) :
    (memory.mergeInto before id).pool[other] = memory.pool[other] := by
  cases before with
  | none =>
      rfl
  | some previous =>
      rw [mergeInto]
      split
      · rfl
      · rename_i previousFree
        refine getElem_put_of_ne _ ?_
        rintro rfl
        exact previousFree used

/-- A release writes the entry of the block that it frees and entries of free blocks. -/
theorem release_entry {found : Found} {other : BlockId} (different : found.id ≠ other)
    (used : memory.pool[other].used = true) :
    (memory.release found).pool[other] = memory.pool[other] := by
  let marked := memory.setBlock found.id { memory.pool[found.id] with used := false }
  have markedEq : marked.pool[other] = memory.pool[other] := getElem_put_of_ne _ different
  have mergedEq : (marked.mergeBehind found.id).pool[other] = memory.pool[other] :=
    (mergeBehind_entry different).trans markedEq
  have mergedUsed : (marked.mergeBehind found.id).pool[other].used = true := by
    rw [mergedEq]
    exact used
  exact (mergeInto_entry mergedUsed).trans mergedEq

/-- The search stops at the first used block that starts at the address. -/
theorem findUsed?_eq_some {address : UInt32} {before : Option BlockId} {ids : List BlockId}
    {found : Found} (search : memory.findUsed? address before ids = some found) :
    ∃ initial behind, ids = initial ++ found.id :: behind ∧
      found.before = initial.getLast?.or before ∧
      memory.pool[found.id].used = true ∧ memory.pool[found.id].start = address := by
  induction ids generalizing before with
  | nil =>
      simp [findUsed?] at search
  | cons head tail inductionHypothesis =>
      rw [findUsed?] at search
      by_cases here : memory.pool[head].used && memory.pool[head].start == address
      · simp only [here, if_true, Option.some.injEq] at search
        subst search
        obtain ⟨headUsed, headStart⟩ := Bool.and_eq_true_iff.mp here
        exact ⟨[], tail, rfl, rfl, headUsed, eq_of_beq headStart⟩
      · simp only [here, Bool.false_eq_true, if_false] at search
        obtain ⟨initial, behind, shape, beforeEq, usedHere, startEq⟩ :=
          inductionHypothesis search
        refine ⟨head :: initial, behind, by rw [shape, List.cons_append], ?_, usedHere, startEq⟩
        rw [beforeEq, List.getLast?_cons]
        cases initial.getLast? with
        | none => rfl
        | some last => rfl

private theorem findUsed?_eq_none_iff {address : UInt32} {before : Option BlockId}
    {ids : List BlockId} :
    memory.findUsed? address before ids = none ↔
      ∀ id ∈ ids, memory.pool[id].used = true → memory.pool[id].start ≠ address := by
  induction ids generalizing before with
  | nil =>
      simp [findUsed?]
  | cons head tail inductionHypothesis =>
      rw [findUsed?, List.forall_mem_cons]
      by_cases here : memory.pool[head].used && memory.pool[head].start == address
      · obtain ⟨headUsed, headStart⟩ := Bool.and_eq_true_iff.mp here
        simp only [here, if_true, reduceCtorEq, false_iff, not_and]
        intro notHere
        exact absurd (eq_of_beq headStart) (notHere headUsed)
      · simp only [here, Bool.false_eq_true, if_false, inductionHypothesis]
        refine (and_iff_right ?_).symm
        intro headUsed headStart
        exact here (Bool.and_eq_true_iff.mpr ⟨headUsed, beq_iff_eq.mpr headStart⟩)

/-- In whatever state the allocator is, a used block that starts elsewhere keeps its entry. -/
theorem free_entry {address : UInt32} {id : BlockId} (done : memory.free address = .ok () memory')
    (used : memory.pool[id].used = true) (elsewhere : memory.pool[id].start ≠ address) :
    memory'.pool[id] = memory.pool[id] := by
  unfold free at done
  cases search : memory.findUsed? address none memory.chain with
  | none =>
      simp [search] at done
  | some found =>
      simp only [search, Attempt.ok.injEq, true_and] at done
      obtain ⟨_, _, _, _, _, startEq⟩ := findUsed?_eq_some search
      rw [← done]
      refine release_entry ?_ used
      intro equal
      exact elsewhere (equal ▸ startEq)

/-- A block that is given back is joined with its free neighbours; nothing else changes. -/
theorem free_extents {address : UInt32} (sound : memory.Sound)
    (done : memory.free address = .ok () memory') :
    ∃ before extent behind,
      memory.extents = before ++ extent :: behind ∧ extent.used = true ∧
      extent.start = address.toNat ∧
      memory'.Sound ∧ memory'.region = memory.region ∧
      memory'.extents = released before extent behind := by
  unfold free at done
  cases search : memory.findUsed? address none memory.chain with
  | none =>
      simp [search] at done
  | some found =>
      simp only [search, Attempt.ok.injEq, true_and] at done
      obtain ⟨initial, behind, shape, beforeEq, usedHere, startEq⟩ := findUsed?_eq_some search
      rw [Option.or_none] at beforeEq
      have represents : Represents memory (initial ++ found.id :: behind) := by
        rw [← shape]
        exact sound
      have foundEq : found = ⟨initial.getLast?, found.id⟩ := by
        rw [← beforeEq]
      obtain ⟨ids, holds, extentsEq⟩ := represents.release
      rw [← foundEq, done] at holds extentsEq
      have regionKept : memory'.region = memory.region := by
        rw [← done, release_region]
      refine ⟨extentsOf memory.pool initial, memory.pool[found.id].extent,
        extentsOf memory.pool behind, ?_, usedHere, congrArg UInt32.toNat startEq,
        holds.sound, regionKept, ?_⟩
      · rw [represents.extents_eq, extentsOf_append, extentsOf_cons]
      · rw [holds.extents_eq, extentsEq]

theorem free_sound {address : UInt32} (sound : memory.Sound)
    (done : memory.free address = .ok () memory') :
    memory'.Sound ∧ memory'.region = memory.region := by
  obtain ⟨_, _, _, _, _, _, holds, regionKept, _⟩ := free_extents sound done
  exact ⟨holds, regionKept⟩

/-- A block that is given back is taken off the used extents. -/
theorem free_usedExtents {address : UInt32} (sound : memory.Sound)
    (done : memory.free address = .ok () memory') :
    ∃ extent, extent.used = true ∧ extent.start = address.toNat ∧
      (usedExtents memory.extents).Perm (extent :: usedExtents memory'.extents) := by
  obtain ⟨before, extent, behind, shape, used, startEq, _, _, extentsEq⟩ :=
    free_extents sound done
  refine ⟨extent, used, startEq, ?_⟩
  have extentStays : usedExtents [extent] = [extent] := by
    simp [usedExtents, used]
  rw [extentsEq, usedExtents_released, shape, usedExtents_append, usedExtents_cons extent,
    extentStays]
  exact List.perm_middle

/-- Where nothing is taken back nothing has changed. -/
theorem free_eq_error {address : UInt32} {cause : MemoryError}
    (refused : memory.free address = .error cause memory') :
    cause = .unknownAddress address ∧ memory' = memory := by
  unfold free at refused
  cases search : memory.findUsed? address none memory.chain with
  | none =>
      simp only [search, Attempt.error.injEq] at refused
      exact ⟨refused.1.symm, refused.2.symm⟩
  | some found =>
      simp [search] at refused

/-- Nothing is taken back exactly if no used extent starts at the address. -/
theorem free_eq_error_iff {address : UInt32} :
    memory.free address = .error (.unknownAddress address) memory ↔
      ∀ extent ∈ memory.extents, extent.used = true → extent.start ≠ address.toNat := by
  have searchNone : memory.free address = .error (.unknownAddress address) memory ↔
      memory.findUsed? address none memory.chain = none := by
    unfold free
    cases memory.findUsed? address none memory.chain with
    | none => simp
    | some found => simp
  rw [searchNone, findUsed?_eq_none_iff, extents, blocks, List.map_map, List.forall_mem_map]
  refine forall_congr' fun id => forall_congr' fun _ => forall_congr' fun _ => ?_
  exact not_congr UInt32.toNat_inj.symm

end Allocator

end Microkernel.Memory
