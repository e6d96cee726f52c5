import Microkernel.Proofs.Memory.Chain
import Microkernel.Proofs.Memory.Rounding

/-!
# Handing a block out

A request is served by the first free extent that can hold it.  The extent is cut around the
request, which takes at most two fresh pool entries, and the links around it are mended.
`alloc_extents` says what this does to the extents; the rest of the region is left as it was.
-/

namespace Microkernel.Memory

namespace Allocator

variable {memory : Allocator}

@[simp]
theorem setBlock_region (id : BlockId) (block : Block) :
    (memory.setBlock id block).region = memory.region :=
  rfl

@[simp]
theorem setBlock_head (id : BlockId) (block : Block) :
    (memory.setBlock id block).head = memory.head :=
  rfl

@[simp]
theorem setBlock_poolUsed (id : BlockId) (block : Block) :
    (memory.setBlock id block).poolUsed = memory.poolUsed :=
  rfl

@[simp]
theorem setBlock_pool (id : BlockId) (block : Block) :
    (memory.setBlock id block).pool = memory.pool.put id block :=
  rfl

@[simp]
theorem link_region (before : Option BlockId) (id : BlockId) :
    (memory.link before id).region = memory.region := by
  cases before with
  | none => rfl
  | some previous => rfl

@[simp]
theorem link_poolUsed (before : Option BlockId) (id : BlockId) :
    (memory.link before id).poolUsed = memory.poolUsed := by
  cases before with
  | none => rfl
  | some previous => rfl

/-- A link carries nothing of an extent. -/
@[simp]
theorem link_extent (before : Option BlockId) (target id : BlockId) :
    (memory.link before target).pool[id].extent = memory.pool[id].extent := by
  cases before with
  | none =>
      rfl
  | some previous =>
      by_cases same : previous = id
      · subst same
        simp [link, Block.extent]
      · rw [link, setBlock_pool, getElem_put_of_ne _ same]

private theorem link_getElem_of_notMem {initial : List BlockId} {id : BlockId} (target : BlockId)
    (notBefore : id ∉ initial) :
    (memory.link initial.getLast? target).pool[id] = memory.pool[id] := by
  cases lastEq : initial.getLast? with
  | none =>
      rfl
  | some previous =>
      have different : previous ≠ id := by
        intro equal
        subst equal
        exact notBefore (List.mem_of_getLast? lastEq)
      rw [link, setBlock_pool, getElem_put_of_ne _ different]

/-- Mending the last link of a stretch makes it arrive at the new entry. -/
theorem link_linked {initial : List BlockId} {last : Option BlockId}
    (linked : Linked memory.pool memory.head initial last) (distinct : initial.Nodup)
    (target : BlockId) :
    Linked (memory.link initial.getLast? target).pool
      (memory.link initial.getLast? target).head initial (some target) := by
  rcases List.eq_nil_or_concat' initial with empty | ⟨front, previous, shape⟩
  · subst empty
    rfl
  · subst shape
    have notInFront : previous ∉ front := by
      intro member
      exact (List.nodup_append.mp distinct).2.2 previous member previous
        (List.mem_singleton_self previous) rfl
    rw [List.getLast?_concat]
    exact linked.set_last { memory.pool[previous] with next := some target } notInFront

def fresh (memory : Allocator) : BlockId :=
  Fin.ofNat maxBlocks memory.poolUsed

/-- A block in the next entry of the pool, hung in behind a stretch of the chain. -/
def insertAfter (memory : Allocator) (initial : List BlockId) (block : Block) : Allocator :=
  (memory.push block).2.link initial.getLast? memory.fresh

@[simp]
theorem insertAfter_region (initial : List BlockId) (block : Block) :
    (memory.insertAfter initial block).region = memory.region :=
  link_region _ _

@[simp]
theorem insertAfter_poolUsed (initial : List BlockId) (block : Block) :
    (memory.insertAfter initial block).poolUsed = memory.poolUsed + 1 :=
  link_poolUsed _ _

section Insertion

variable {initial : List BlockId} (block : Block) (fresh : memory.fresh ∉ initial)

include fresh

private theorem insertAfter_fresh :
    (memory.insertAfter initial block).pool[memory.fresh] = block := by
  rw [insertAfter, link_getElem_of_notMem _ fresh]
  exact getElem_put_self memory.pool memory.fresh block

private theorem insertAfter_linked {last : Option BlockId}
    (linked : Linked memory.pool memory.head initial last) (distinct : initial.Nodup) :
    Linked (memory.insertAfter initial block).pool (memory.insertAfter initial block).head
      initial (some memory.fresh) := by
  have pushed : Linked (memory.push block).2.pool (memory.push block).2.head initial last :=
    linked.congr (getElem_put_of_notMem _ block fresh)
  exact link_linked pushed distinct memory.fresh

private theorem insertAfter_extents :
    extentsOf (memory.insertAfter initial block).pool initial =
      extentsOf memory.pool initial := by
  apply List.map_congr_left
  intro earlier member
  rw [insertAfter, link_extent]
  exact congrArg Block.extent (getElem_put_of_notMem _ block fresh earlier member)

omit fresh in
private theorem insertAfter_getElem_of_notMem {id : BlockId} (notBefore : id ∉ initial)
    (different : memory.fresh ≠ id) :
    (memory.insertAfter initial block).pool[id] = memory.pool[id] := by
  rw [insertAfter, link_getElem_of_notMem _ notBefore]
  exact getElem_put_of_ne block different

end Insertion

end Allocator

namespace Represents

variable {memory : Allocator} {initial behind : List BlockId} {id : BlockId}

/-- The entry in the middle of a chain occurs once in it. -/
theorem notMem_sides (represents : Represents memory (initial ++ id :: behind)) :
    id ∉ initial ∧ id ∉ behind := by
  have parts := List.nodup_append.mp represents.distinct
  constructor
  · intro member
    exact parts.2.2 id member id List.mem_cons_self rfl
  · exact (List.nodup_cons.mp parts.2.1).1

/-- The next entry of the pool is in nobody's chain. -/
theorem fresh_notMem {ids : List BlockId} (represents : Represents memory ids)
    (room : memory.poolUsed < maxBlocks) : memory.fresh ∉ ids := by
  intro member
  have below := represents.taken _ member
  simp [Allocator.fresh, Fin.ofNat, Nat.mod_eq_of_lt room] at below

private theorem setBlock_extents (represents : Represents memory (initial ++ id :: behind))
    (block : Block) :
    extentsOf (memory.setBlock id block).pool (initial ++ id :: behind) =
      extentsOf memory.pool initial ++ block.extent :: extentsOf memory.pool behind := by
  obtain ⟨notBefore, notBehind⟩ := represents.notMem_sides
  rw [Allocator.setBlock_pool, extentsOf_append, extentsOf_cons,
    extentsOf_congr (getElem_put_of_notMem memory.pool block notBefore),
    extentsOf_congr (getElem_put_of_notMem memory.pool block notBehind), getElem_put_self]

/-- Writing the entry in the middle of a chain without touching its link. -/
theorem setBlock (represents : Represents memory (initial ++ id :: behind)) {block : Block}
    (sameNext : block.next = memory.pool[id].next)
    (covers : ∀ start stop, Tiles start [memory.pool[id].extent] stop →
      Tiles start [block.extent] stop) :
    Represents (memory.setBlock id block) (initial ++ id :: behind) := by
  obtain ⟨notBefore, notBehind⟩ := represents.notMem_sides
  have agreeBefore := getElem_put_of_notMem memory.pool block notBefore
  have agreeBehind := getElem_put_of_notMem memory.pool block notBehind
  obtain ⟨middle, beforeLinked, middleEq, behindLinked⟩ := linked_append.mp represents.linked
  refine ⟨?_, represents.distinct, represents.taken, represents.poolUsed_le, ?_,
    represents.stop_lt⟩
  · refine linked_append.mpr ⟨middle, beforeLinked.congr agreeBefore, middleEq, ?_⟩
    rw [Allocator.setBlock_pool, getElem_put_self, sameNext]
    exact behindLinked.congr agreeBehind
  · have tiles := represents.tiles
    rw [extentsOf_append, extentsOf_cons] at tiles
    rw [represents.setBlock_extents]
    exact tiles.exchange [memory.pool[id].extent] [block.extent] covers

private theorem insert_distinct {left right : List BlockId}
    (represents : Represents memory (left ++ right)) (room : memory.poolUsed < maxBlocks) :
    (left ++ memory.fresh :: right).Nodup :=
  List.nodup_middle.mpr <|
    List.nodup_cons.mpr ⟨represents.fresh_notMem room, represents.distinct⟩

private theorem insert_taken {left right : List BlockId}
    (represents : Represents memory (left ++ right)) (room : memory.poolUsed < maxBlocks) :
    ∀ id ∈ left ++ memory.fresh :: right, id.val < memory.poolUsed + 1 := by
  intro id member
  rcases List.mem_append.mp member with inLeft | inRest
  · exact Nat.lt_succ_of_lt (represents.taken id (List.mem_append_left right inLeft))
  · rcases List.mem_cons.mp inRest with fresh | inRight
    · subst fresh
      simp [Allocator.fresh, Fin.ofNat, Nat.mod_eq_of_lt room]
    · exact Nat.lt_succ_of_lt (represents.taken id (List.mem_append_right left inRight))

/-- Cutting the padding off puts it, as a free extent of its own, before the block. -/
theorem splitFront (represents : Represents memory (initial ++ id :: behind)) {padding : UInt32}
    (positive : 0 < padding.toNat) (smaller : padding.toNat < memory.pool[id].size.toNat)
    (room : memory.poolUsed < maxBlocks) :
    let memory' := memory.splitFront ⟨initial.getLast?, id, padding⟩
    Represents memory' (initial ++ memory.fresh :: id :: behind) ∧
      extentsOf memory'.pool initial = extentsOf memory.pool initial ∧
      memory'.pool[memory.fresh].extent =
        ⟨memory.pool[id].start.toNat, padding.toNat, false⟩ ∧
      memory'.pool[id].extent =
        ⟨memory.pool[id].start.toNat + padding.toNat,
          memory.pool[id].size.toNat - padding.toNat, memory.pool[id].used⟩ ∧
      extentsOf memory'.pool behind = extentsOf memory.pool behind := by
  obtain ⟨notBefore, notBehind⟩ := represents.notMem_sides
  obtain ⟨middle, beforeLinked, middleEq, behindLinked⟩ := linked_append.mp represents.linked
  have fresh := represents.fresh_notMem room
  have freshNotBefore : memory.fresh ∉ initial := fun member =>
    fresh (List.mem_append_left _ member)
  have freshNotBehind : memory.fresh ∉ id :: behind := fun member =>
    fresh (List.mem_append_right _ member)
  have freshNe : memory.fresh ≠ id := List.ne_of_not_mem_cons freshNotBehind
  let frontBlock : Block := ⟨memory.pool[id].start, padding, false, some id⟩
  let rest : Block :=
    { memory.pool[id] with
      start := memory.pool[id].start + padding, size := memory.pool[id].size - padding }
  let memory' := (memory.insertAfter initial frontBlock).setBlock id rest
  have splitEq : memory.splitFront ⟨initial.getLast?, id, padding⟩ = memory' := by
    have blockKept : (memory.insertAfter initial frontBlock).pool[id] = memory.pool[id] :=
      Allocator.insertAfter_getElem_of_notMem frontBlock notBefore freshNe
    have notZero : padding ≠ 0 := by
      intro zero
      simp [zero] at positive
    simp only [memory', rest]
    rw [← blockKept]
    simp only [Allocator.splitFront, notZero, if_false]
    rfl
  have regionKept : memory'.region = memory.region := by
    simp [memory']
  have frontFinal : memory'.pool[memory.fresh] = frontBlock :=
    (getElem_put_of_ne rest freshNe.symm).trans
      (Allocator.insertAfter_fresh frontBlock freshNotBefore)
  have idFinal : memory'.pool[id] = rest := getElem_put_self _ id rest
  have behindFinal : ∀ later ∈ behind, memory'.pool[later] = memory.pool[later] := by
    intro later member
    have laterNotBefore : later ∉ initial := fun inInitial =>
      (List.nodup_append.mp represents.distinct).2.2 later inInitial later
        (List.mem_cons_of_mem id member) rfl
    have freshNeLater : memory.fresh ≠ later :=
      (List.ne_and_not_mem_of_not_mem_cons freshNotBehind).2 |> fun notLater equal =>
        notLater (equal ▸ member)
    exact (getElem_put_of_notMem _ rest notBehind later member).trans
      (Allocator.insertAfter_getElem_of_notMem frontBlock laterNotBefore freshNeLater)
  have beforeFinal : extentsOf memory'.pool initial = extentsOf memory.pool initial :=
    (extentsOf_congr (getElem_put_of_notMem _ rest notBefore)).trans
      (Allocator.insertAfter_extents frontBlock freshNotBefore)
  have noWrap := represents.stop_lt
  have blockBounds := represents.bounds (List.mem_append_right initial List.mem_cons_self)
  have restExtent : rest.extent =
      ⟨memory.pool[id].start.toNat + padding.toNat,
        memory.pool[id].size.toNat - padding.toNat, memory.pool[id].used⟩ := by
    have noBorrow : padding ≤ memory.pool[id].size := UInt32.le_iff_toNat_le.mpr (by omega)
    simp only [rest, Block.extent, UInt32.toNat_add, UInt32.toNat_sub_of_le _ _ noBorrow]
    rw [Nat.mod_eq_of_lt (by omega)]
  rw [splitEq]
  refine ⟨⟨?_, represents.insert_distinct room, ?_, ?_, ?_, ?_⟩, beforeFinal, ?_, ?_,
    extentsOf_congr behindFinal⟩
  · have initialDistinct := (List.nodup_append.mp represents.distinct).1
    have frontLinked :=
      (Allocator.insertAfter_linked frontBlock freshNotBefore beforeLinked initialDistinct).congr
        (getElem_put_of_notMem _ rest notBefore)
    refine linked_append.mpr ⟨some memory.fresh, frontLinked, rfl, ?_⟩
    rw [frontFinal]
    refine ⟨rfl, ?_⟩
    rw [idFinal]
    exact behindLinked.congr behindFinal
  · simpa [memory'] using represents.insert_taken room
  · simpa [memory'] using Nat.succ_le_of_lt room
  · have tiles := represents.tiles
    rw [extentsOf_append, extentsOf_cons] at tiles
    rw [extentsOf_append, extentsOf_cons, extentsOf_cons, beforeFinal, frontFinal, idFinal,
      extentsOf_congr behindFinal, restExtent]
    rw [regionKept]
    apply tiles.exchange [memory.pool[id].extent] [frontBlock.extent, _]
    intro start stop blockTiles
    exact blockTiles.cut false memory.pool[id].used positive smaller
  · simpa [regionKept] using noWrap
  · rw [frontFinal]
    rfl
  · rw [idFinal, restExtent]

/-- Cutting off what a request leaves puts it, as a free extent of its own, behind the block. -/
theorem splitBack (represents : Represents memory (initial ++ id :: behind)) {size : UInt32}
    (positive : 0 < size.toNat) (smaller : size.toNat < memory.pool[id].size.toNat)
    (room : memory.poolUsed < maxBlocks) :
    let memory' := memory.splitBack id size
    Represents memory' (initial ++ id :: memory.fresh :: behind) ∧
      extentsOf memory'.pool initial = extentsOf memory.pool initial ∧
      memory'.pool[id].extent =
        ⟨memory.pool[id].start.toNat, size.toNat, memory.pool[id].used⟩ ∧
      memory'.pool[memory.fresh].extent =
        ⟨memory.pool[id].start.toNat + size.toNat,
          memory.pool[id].size.toNat - size.toNat, false⟩ ∧
      extentsOf memory'.pool behind = extentsOf memory.pool behind := by
  obtain ⟨notBefore, notBehind⟩ := represents.notMem_sides
  obtain ⟨middle, beforeLinked, middleEq, behindLinked⟩ := linked_append.mp represents.linked
  have fresh := represents.fresh_notMem room
  have freshNotBefore : memory.fresh ∉ initial := fun member =>
    fresh (List.mem_append_left _ member)
  obtain ⟨freshNe, freshNotBehind⟩ : memory.fresh ≠ id ∧ memory.fresh ∉ behind :=
    List.ne_and_not_mem_of_not_mem_cons fun member => fresh (List.mem_append_right _ member)
  let backBlock : Block :=
    ⟨memory.pool[id].start + size, memory.pool[id].size - size, false, memory.pool[id].next⟩
  let rest : Block := { memory.pool[id] with size, next := some memory.fresh }
  let memory' := (memory.push backBlock).2.setBlock id rest
  have splitEq : memory.splitBack id size = memory' := by
    have smallerWord : size < memory.pool[id].size := UInt32.lt_iff_toNat_lt.mpr smaller
    simp only [Allocator.splitBack, smallerWord, if_true]
    rfl
  have idFinal : memory'.pool[id] = rest := getElem_put_self _ id rest
  have backFinal : memory'.pool[memory.fresh] = backBlock :=
    (getElem_put_of_ne rest freshNe.symm).trans
      (getElem_put_self memory.pool memory.fresh backBlock)
  have sideKept : ∀ ids : List BlockId, id ∉ ids → memory.fresh ∉ ids →
      ∀ other ∈ ids, memory'.pool[other] = memory.pool[other] := by
    intro ids notListed freshNotListed other member
    exact (getElem_put_of_notMem _ rest notListed other member).trans
      (getElem_put_of_notMem memory.pool backBlock freshNotListed other member)
  have beforeFinal := sideKept initial notBefore freshNotBefore
  have behindFinal := sideKept behind notBehind freshNotBehind
  have noWrap := represents.stop_lt
  have blockBounds := represents.bounds (List.mem_append_right initial List.mem_cons_self)
  have backExtent : backBlock.extent =
      ⟨memory.pool[id].start.toNat + size.toNat,
        memory.pool[id].size.toNat - size.toNat, false⟩ := by
    have noBorrow : size ≤ memory.pool[id].size := UInt32.le_iff_toNat_le.mpr (by omega)
    simp only [backBlock, Block.extent, UInt32.toNat_add, UInt32.toNat_sub_of_le _ _ noBorrow]
    rw [Nat.mod_eq_of_lt (by omega)]
  rw [splitEq]
  refine ⟨⟨?_, ?_, ?_, Nat.succ_le_of_lt room, ?_, noWrap⟩, extentsOf_congr beforeFinal, ?_, ?_,
    extentsOf_congr behindFinal⟩
  · refine linked_append.mpr ⟨middle, beforeLinked.congr beforeFinal, middleEq, ?_⟩
    rw [idFinal]
    refine ⟨rfl, ?_⟩
    rw [backFinal]
    exact behindLinked.congr behindFinal
  · rw [List.append_cons]
    refine Represents.insert_distinct ?_ room
    rwa [← List.append_cons]
  · rw [List.append_cons]
    refine Represents.insert_taken ?_ room
    rwa [← List.append_cons]
  · have tiles := represents.tiles
    rw [extentsOf_append, extentsOf_cons] at tiles
    rw [extentsOf_append, extentsOf_cons, extentsOf_cons, extentsOf_congr beforeFinal, idFinal,
      backFinal, extentsOf_congr behindFinal, backExtent]
    apply tiles.exchange [memory.pool[id].extent] [rest.extent, _]
    intro start stop blockTiles
    exact blockTiles.cut memory.pool[id].used false positive smaller
  · rw [idFinal]
    rfl
  · rw [backFinal, backExtent]

end Represents

namespace Allocator

variable {memory : Allocator}

@[simp]
theorem splitFront_region (fit : Fit) : (memory.splitFront fit).region = memory.region := by
  by_cases noPadding : fit.padding = 0
  · simp [splitFront, noPadding]
  · simp [splitFront, noPadding, push]

theorem splitFront_poolUsed (fit : Fit) :
    (memory.splitFront fit).poolUsed =
      memory.poolUsed + if fit.padding = 0 then 0 else 1 := by
  by_cases noPadding : fit.padding = 0
  · simp [splitFront, noPadding]
  · simp [splitFront, noPadding, push]

@[simp]
theorem splitBack_region (id : BlockId) (size : UInt32) :
    (memory.splitBack id size).region = memory.region := by
  by_cases smaller : size < memory.pool[id].size
  · simp only [splitBack, smaller, if_true]
    rfl
  · simp only [splitBack, smaller, if_false]

@[simp]
theorem carve_region (request : UInt32) (fit : Fit) :
    (memory.carve request fit).2.region = memory.region := by
  simp [carve]

end Allocator

namespace Represents

variable {memory : Allocator} {initial behind : List BlockId} {id : BlockId}

/-- The front of a block is cut off where there is padding, and the chain goes on with the rest. -/
theorem cutFront (represents : Represents memory (initial ++ id :: behind)) {padding : UInt32}
    (smaller : padding.toNat < memory.pool[id].size.toNat)
    (room : padding = 0 ∨ memory.poolUsed < maxBlocks) :
    let memory' := memory.splitFront ⟨initial.getLast?, id, padding⟩
    ∃ initial', Represents memory' (initial' ++ id :: behind) ∧
      extentsOf memory'.pool initial' =
        extentsOf memory.pool initial ++
          Extent.gap memory.pool[id].start.toNat padding.toNat ∧
      memory'.pool[id].extent =
        ⟨memory.pool[id].start.toNat + padding.toNat,
          memory.pool[id].size.toNat - padding.toNat, memory.pool[id].used⟩ ∧
      extentsOf memory'.pool behind = extentsOf memory.pool behind := by
  by_cases noPadding : padding = 0
  · subst noPadding
    refine ⟨initial, ?_⟩
    simpa [Allocator.splitFront, Extent.gap, Block.extent] using represents
  · have positive : 0 < padding.toNat := by
      apply Nat.pos_of_ne_zero
      intro zero
      exact noPadding (UInt32.toNat_inj.mp zero)
    obtain ⟨holds, beforeKept, frontExtent, restExtent, behindKept⟩ :=
      represents.splitFront positive smaller (room.resolve_left noPadding)
    refine ⟨initial ++ [memory.fresh], ?_, ?_, restExtent, behindKept⟩
    · rwa [← List.append_cons]
    · rw [extentsOf_append, extentsOf_cons, beforeKept, frontExtent]
      simp [Extent.gap, positive.ne']

/-- The back of a block is cut off where a request leaves some of it. -/
theorem cutBack (represents : Represents memory (initial ++ id :: behind)) {size : UInt32}
    (positive : 0 < size.toNat) (fits : size.toNat ≤ memory.pool[id].size.toNat)
    (room : size = memory.pool[id].size ∨ memory.poolUsed < maxBlocks) :
    let memory' := memory.splitBack id size
    ∃ behind', Represents memory' (initial ++ id :: behind') ∧
      extentsOf memory'.pool initial = extentsOf memory.pool initial ∧
      memory'.pool[id].extent =
        ⟨memory.pool[id].start.toNat, size.toNat, memory.pool[id].used⟩ ∧
      extentsOf memory'.pool behind' =
        Extent.gap (memory.pool[id].start.toNat + size.toNat)
            (memory.pool[id].size.toNat - size.toNat) ++
          extentsOf memory.pool behind := by
  by_cases whole : size = memory.pool[id].size
  · have untouched : memory.splitBack id size = memory := by
      simp [Allocator.splitBack, whole]
    have sizeEq : memory.pool[id].size.toNat = size.toNat := congrArg UInt32.toNat whole.symm
    rw [untouched]
    refine ⟨behind, represents, rfl, ?_, ?_⟩
    · rw [← sizeEq]
      rfl
    · rw [← sizeEq, Nat.sub_self, Extent.gap, if_pos rfl, List.nil_append]
  · have smaller : size.toNat < memory.pool[id].size.toNat := by
      apply Nat.lt_of_le_of_ne fits
      intro equal
      exact whole (UInt32.toNat_inj.mp equal)
    obtain ⟨holds, beforeKept, restExtent, backExtent, behindKept⟩ :=
      represents.splitBack positive smaller (room.resolve_left whole)
    refine ⟨memory.fresh :: behind, holds, beforeKept, restExtent, ?_⟩
    rw [extentsOf_cons, backExtent, behindKept, Extent.gap,
      if_neg (Nat.sub_ne_zero_of_lt smaller), List.singleton_append]

theorem setUsed (represents : Represents memory (initial ++ id :: behind)) (used : Bool) :
    Represents (memory.setBlock id { memory.pool[id] with used := used })
      (initial ++ id :: behind) := by
  let marked : Block := { memory.pool[id] with used := used }
  have sameNext : marked.next = memory.pool[id].next := rfl
  apply represents.setBlock sameNext
  intro start stop blockTiles
  exact blockTiles.mark used

/-- Carving a request out of a block cuts its extent around the request. -/
theorem carve (represents : Represents memory (initial ++ id :: behind))
    {request padding : UInt32} (positive : 0 < request.toNat)
    (fits : request.toNat + padding.toNat ≤ memory.pool[id].size.toNat)
    (room : memory.entriesNeeded request ⟨initial.getLast?, id, padding⟩ ≤
      maxBlocks - memory.poolUsed) :
    let carved := memory.carve request ⟨initial.getLast?, id, padding⟩
    carved.1.toNat = memory.pool[id].start.toNat + padding.toNat ∧
      ∃ ids, Represents carved.2 ids ∧
        extentsOf carved.2.pool ids =
          extentsOf memory.pool initial ++
            (memory.pool[id].extent.split padding.toNat request.toNat ++
              extentsOf memory.pool behind) := by
  have noWrap := represents.stop_lt
  have blockBounds := represents.bounds (List.mem_append_right initial List.mem_cons_self)
  have frontRoom : padding = 0 ∨ memory.poolUsed < maxBlocks := by
    by_cases noPadding : padding = 0
    · exact Or.inl noPadding
    · apply Or.inr
      simp only [Allocator.entriesNeeded, noPadding, if_false] at room
      omega
  obtain ⟨initial', frontHolds, frontBefore, frontExtent, frontBehind⟩ :=
    represents.cutFront (by omega) frontRoom
  have frontUsed : (memory.splitFront ⟨initial.getLast?, id, padding⟩).poolUsed =
      memory.poolUsed + if padding = 0 then 0 else 1 :=
    Allocator.splitFront_poolUsed _
  simp only [Allocator.carve]
  generalize memory.splitFront ⟨initial.getLast?, id, padding⟩ = front
    at frontHolds frontBefore frontExtent frontBehind frontUsed ⊢
  have frontStart : front.pool[id].start.toNat =
      memory.pool[id].start.toNat + padding.toNat := congrArg Extent.start frontExtent
  have frontSize : front.pool[id].size.toNat =
      memory.pool[id].size.toNat - padding.toNat := congrArg Extent.size frontExtent
  have backRoom : request = front.pool[id].size ∨ front.poolUsed < maxBlocks := by
    by_cases whole : request = front.pool[id].size
    · exact Or.inl whole
    · apply Or.inr
      have remains : request + padding < memory.pool[id].size := by
        have sizeNe : request.toNat ≠ front.pool[id].size.toNat := fun equal =>
          whole (UInt32.toNat_inj.mp equal)
        rw [UInt32.lt_iff_toNat_lt, UInt32.toNat_add, Nat.mod_eq_of_lt (by omega)]
        omega
      simp only [Allocator.entriesNeeded, remains, if_true] at room
      omega
  have requestFits : request.toNat ≤ front.pool[id].size.toNat := by
    omega
  obtain ⟨behind', cutHolds, cutBefore, cutExtent, cutBehind⟩ :=
    frontHolds.cutBack positive requestFits backRoom
  generalize front.splitBack id request = cut at cutHolds cutBefore cutExtent cutBehind ⊢
  have cutStart : cut.pool[id].start.toNat = front.pool[id].start.toNat :=
    congrArg Extent.start cutExtent
  refine ⟨cutStart.trans frontStart, initial' ++ id :: behind', cutHolds.setUsed true, ?_⟩
  let taken : Block := { cut.pool[id] with used := true }
  have takenExtent : taken.extent = { cut.pool[id].extent with used := true } := rfl
  rw [cutHolds.setBlock_extents taken, takenExtent, cutBefore, cutExtent, frontBefore, cutBehind,
    frontBehind, frontStart, frontSize]
  simp [Extent.split, Block.extent]

end Represents

/-! ## The search and the call -/

namespace Allocator

variable {memory memory' : Allocator}

theorem paddingFor?_eq_some {request padding : UInt32} {id : BlockId}
    (fits : memory.paddingFor? request id = some padding) :
    memory.pool[id].used = false ∧
      request.toNat + padding.toNat ≤ memory.pool[id].size.toNat := by
  simp only [paddingFor?] at fits
  split at fits
  · rename_i holds
    cases fits
    simpa using holds
  · cases fits

/-- The search stops at the first block that can hold the request, with the block before it. -/
theorem findFit?_eq_some {request : UInt32} {before : Option BlockId} {ids : List BlockId}
    {fit : Fit} (found : memory.findFit? request before ids = some fit) :
    ∃ initial behind, ids = initial ++ fit.id :: behind ∧
      fit.before = initial.getLast?.or before ∧
      memory.paddingFor? request fit.id = some fit.padding ∧
      ∀ id ∈ initial, memory.paddingFor? request id = none := by
  induction ids generalizing before with
  | nil =>
      simp [findFit?] at found
  | cons head tail inductionHypothesis =>
      rw [findFit?] at found
      cases headFits : memory.paddingFor? request head with
      | some padding =>
          simp only [headFits, Option.some.injEq] at found
          subst found
          exact ⟨[], tail, rfl, rfl, headFits, by simp⟩
      | none =>
          simp only [headFits] at found
          obtain ⟨initial, behind, shape, beforeEq, fits, earlier⟩ := inductionHypothesis found
          refine ⟨head :: initial, behind, by rw [shape, List.cons_append], ?_, fits, ?_⟩
          · rw [beforeEq, List.getLast?_cons]
            cases initial.getLast? with
            | none => rfl
            | some last => rfl
          · simpa [headFits] using earlier

/-- A request that succeeds found a block and enough entries to cut it. -/
theorem alloc_eq_ok {size address : UInt32}
    (done : memory.alloc size = .ok address memory') :
    ∃ request fit,
      memory.region.roundRequest size = .ok request ∧
      memory.findFit? request none memory.chain = some fit ∧
      memory.entriesNeeded request fit ≤ maxBlocks - memory.poolUsed ∧
      memory.carve request fit = (address, memory') := by
  unfold alloc at done
  cases rounded : memory.region.roundRequest size with
  | error error =>
      simp [rounded] at done
  | ok request =>
      cases found : memory.findFit? request none memory.chain with
      | none =>
          simp [rounded, found] at done
      | some fit =>
          by_cases exhausted : maxBlocks - memory.poolUsed < memory.entriesNeeded request fit
          · simp [rounded, found, exhausted] at done
          · simp only [rounded, found, exhausted, if_false, Attempt.ok.injEq] at done
            exact ⟨request, fit, rfl, found, Nat.le_of_not_lt exhausted, Prod.ext done.1 done.2⟩

/-- A request that is refused has taken nothing. -/
theorem alloc_eq_error {size : UInt32} {cause : MemoryError}
    (refused : memory.alloc size = .error cause memory') : memory' = memory := by
  unfold alloc at refused
  cases rounded : memory.region.roundRequest size with
  | error error =>
      simp only [rounded, Attempt.error.injEq] at refused
      exact refused.2.symm
  | ok request =>
      cases found : memory.findFit? request none memory.chain with
      | none =>
          simp only [rounded, found, Attempt.error.injEq] at refused
          exact refused.2.symm
      | some fit =>
          by_cases exhausted : maxBlocks - memory.poolUsed < memory.entriesNeeded request fit
          · simp only [rounded, found, exhausted, if_true, Attempt.error.injEq] at refused
            exact refused.2.symm
          · simp [rounded, found, exhausted] at refused

/-- The address alone tells that a request succeeded. -/
theorem exists_alloc_eq_ok {size address : UInt32}
    (granted : (memory.alloc size).result? = some address) :
    ∃ memory', memory.alloc size = .ok address memory' := by
  cases done : memory.alloc size with
  | error cause after =>
      rw [done] at granted
      cases granted
  | ok result after =>
      rw [done] at granted
      have addressEq : result = address := Option.some.inj granted
      exact ⟨after, by rw [← addressEq]⟩

/-- A successful request cuts one free extent around itself and changes nothing else. -/
theorem alloc_extents {size address : UInt32} (sound : memory.Sound)
    (minBlock_pos : 0 < memory.region.minBlock.toNat)
    (done : memory.alloc size = .ok address memory') :
    ∃ request before extent behind padding,
      memory.region.roundRequest size = .ok request ∧
      memory.extents = before ++ extent :: behind ∧ extent.used = false ∧
      request.toNat + padding ≤ extent.size ∧
      address.toNat = extent.start + padding ∧
      memory'.Sound ∧ memory'.region = memory.region ∧
      memory'.extents = before ++ (extent.split padding request.toNat ++ behind) := by
  obtain ⟨request, fit, rounded, found, room, carveEq⟩ := alloc_eq_ok done
  obtain ⟨initial, behind, shape, beforeEq, fits, _⟩ := findFit?_eq_some found
  obtain ⟨free, enough⟩ := paddingFor?_eq_some fits
  rw [Option.or_none] at beforeEq
  have represents : Represents memory (initial ++ fit.id :: behind) := by
    rw [← shape]
    exact sound
  have positive : 0 < request.toNat :=
    Nat.lt_of_lt_of_le minBlock_pos (Region.le_of_roundRequest rounded).2
  have fitEq : fit = ⟨initial.getLast?, fit.id, fit.padding⟩ := by
    rw [← beforeEq]
  have carved := represents.carve positive enough (fitEq ▸ room)
  rw [← fitEq, carveEq] at carved
  obtain ⟨addressEq, ids, holds, extentsEq⟩ := carved
  have regionKept : memory'.region = memory.region :=
    calc
      memory'.region = (memory.carve request fit).2.region := by rw [carveEq]
      _ = memory.region := carve_region request fit
  refine ⟨request, extentsOf memory.pool initial, memory.pool[fit.id].extent,
    extentsOf memory.pool behind, fit.padding.toNat, rounded, ?_, free, enough, addressEq,
    holds.sound, regionKept, ?_⟩
  · rw [represents.extents_eq, extentsOf_append, extentsOf_cons]
  · rw [holds.extents_eq, extentsEq]

theorem alloc_sound {size address : UInt32} (sound : memory.Sound)
    (minBlock_pos : 0 < memory.region.minBlock.toNat)
    (done : memory.alloc size = .ok address memory') :
    memory'.Sound ∧ memory'.region = memory.region := by
  obtain ⟨_, _, _, _, _, _, _, _, _, _, holds, regionKept, _⟩ :=
    alloc_extents sound minBlock_pos done
  exact ⟨holds, regionKept⟩

/-- A successful request adds one extent to the used ones, as large as the rounded request. -/
theorem alloc_usedExtents {size address : UInt32} (sound : memory.Sound)
    (minBlock_pos : 0 < memory.region.minBlock.toNat)
    (done : memory.alloc size = .ok address memory') :
    ∃ request, memory.region.roundRequest size = .ok request ∧
      (usedExtents memory'.extents).Perm
        (⟨address.toNat, request.toNat, true⟩ :: usedExtents memory.extents) := by
  obtain ⟨request, before, extent, behind, padding, rounded, shape, free, _, addressEq, _, _,
    extentsEq⟩ := alloc_extents sound minBlock_pos done
  refine ⟨request, rounded, ?_⟩
  have freeGone : usedExtents [extent] = [] := by
    simp [usedExtents, free]
  rw [extentsEq, shape, usedExtents_append, usedExtents_append, usedExtents_split,
    usedExtents_append, usedExtents_cons extent, freeGone, ← addressEq]
  exact List.perm_middle

end Allocator

end Microkernel.Memory
