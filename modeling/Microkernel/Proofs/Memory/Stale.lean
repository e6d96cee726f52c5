import Microkernel.Proofs.Memory.Partition
import Microkernel.Proofs.Process.Congruence

/-!
# Stale pool entries are never seen

`init` writes the first entry of the pool and leaves the others as they were, links and all.  An
allocator reads only what its links reach, and no link that it follows leads to an entry that has
not been taken since `init`.  So two allocators with the same entries up to `poolUsed` answer every
request alike and still have the same entries after it, whatever the rest of their pools holds.
Nothing is asked of the region: this holds of configurations that no block fits in as well.
-/

namespace Microkernel

open Memory

namespace Memory

namespace Allocator

/-- The entry that a link leads to, if it leads to one, has been taken. -/
def Taken (memory : Allocator) (link : Option BlockId) : Prop :=
  ∀ id ∈ link, id.val < memory.poolUsed

private theorem taken_some {memory : Allocator} {id : BlockId} (taken : id.val < memory.poolUsed) :
    memory.Taken (some id) := by
  rintro _ ⟨⟩
  exact taken

private theorem taken_none (memory : Allocator) : memory.Taken none := by
  rintro _ ⟨⟩

theorem Taken.push {memory : Allocator} {link : Option BlockId} (taken : memory.Taken link)
    (block : Block) : (memory.push block).2.Taken link :=
  fun id member => Nat.lt_succ_of_lt (taken id member)

private theorem fresh_lt (memory : Allocator) : memory.fresh.val < memory.poolUsed + 1 :=
  Nat.lt_succ_of_le (Nat.mod_le _ _)

/-- An entry that is taken with the next one, and is not the next one, was taken before. -/
theorem lt_poolUsed_of_ne_fresh {memory : Allocator} {id : BlockId}
    (taken : id.val < memory.poolUsed + 1) (other : memory.fresh ≠ id) :
    id.val < memory.poolUsed := by
  refine Nat.lt_of_le_of_ne (Nat.le_of_lt_succ taken) ?_
  intro atEnd
  refine other (Fin.ext ?_)
  rw [fresh, ← atEnd]
  exact Nat.mod_eq_of_lt id.isLt

/-- The part of a block in front of the padding goes into the next entry of the pool. -/
theorem splitFront_of_padding {memory : Allocator} {fit : Fit} (padded : fit.padding ≠ 0) :
    let front : Block := ⟨memory.pool[fit.id].start, fit.padding, false, some fit.id⟩
    let linked := (memory.push front).2.link fit.before memory.fresh
    let block := linked.pool[fit.id]
    memory.splitFront fit = linked.setBlock fit.id
      { block with start := block.start + fit.padding, size := block.size - fit.padding } := by
  rw [splitFront, if_neg padded]
  rfl

private theorem le_splitBack_poolUsed (memory : Allocator) (id : BlockId) (size : UInt32) :
    memory.poolUsed ≤ (memory.splitBack id size).poolUsed := by
  unfold splitBack
  dsimp only
  split
  · exact Nat.le_succ _
  · exact Nat.le_refl _

end Allocator

/-- Two allocators with the same entries among those that have been taken, where no link leads to
any other entry. -/
structure SameTaken (memory other : Allocator) : Prop where
  region : memory.region = other.region
  poolUsed : memory.poolUsed = other.poolUsed
  head : memory.head = other.head
  headTaken : memory.Taken memory.head
  entry : ∀ id : BlockId, id.val < memory.poolUsed → other.pool[id] = memory.pool[id]
  nextTaken : ∀ id : BlockId, id.val < memory.poolUsed → memory.Taken memory.pool[id].next

namespace SameTaken

open Allocator

variable {memory other : Allocator}

section Reading

variable (same : SameTaken memory other)

include same

theorem chainFrom {first : Option BlockId} (taken : memory.Taken first) (count : Nat) :
    Allocator.chainFrom other.pool count first = Allocator.chainFrom memory.pool count first ∧
      ∀ id ∈ Allocator.chainFrom memory.pool count first, id.val < memory.poolUsed := by
  induction count generalizing first with
  | zero =>
      simp [Allocator.chainFrom]
  | succ count inductionHypothesis =>
      cases first with
      | none =>
          simp [Allocator.chainFrom]
      | some id =>
          have here : id.val < memory.poolUsed := taken id rfl
          obtain ⟨restEq, restTaken⟩ := inductionHypothesis (same.nextTaken id here)
          simp only [Allocator.chainFrom, same.entry id here, restEq, List.forall_mem_cons]
          exact ⟨trivial, here, restTaken⟩

theorem chain_eq : other.chain = memory.chain := by
  rw [chain, chain, ← same.head]
  exact (same.chainFrom same.headTaken maxBlocks).1

private theorem taken_of_mem_chain : ∀ id ∈ memory.chain, id.val < memory.poolUsed :=
  (same.chainFrom same.headTaken maxBlocks).2

theorem blocks_eq : other.blocks = memory.blocks := by
  rw [blocks, blocks, same.chain_eq]
  apply List.map_congr_left
  intro id member
  exact same.entry id (same.taken_of_mem_chain id member)

private theorem paddingFor?_eq (request : UInt32) {id : BlockId}
    (taken : id.val < memory.poolUsed) :
    other.paddingFor? request id = memory.paddingFor? request id := by
  simp only [paddingFor?, same.entry id taken, same.region]

private theorem findFit?_eq (request : UInt32) (before : Option BlockId) {ids : List BlockId}
    (taken : ∀ id ∈ ids, id.val < memory.poolUsed) :
    other.findFit? request before ids = memory.findFit? request before ids := by
  induction ids generalizing before with
  | nil =>
      rfl
  | cons id rest inductionHypothesis =>
      obtain ⟨here, behind⟩ := List.forall_mem_cons.mp taken
      rw [findFit?, findFit?, same.paddingFor?_eq request here,
        inductionHypothesis (some id) behind]

private theorem findUsed?_eq (address : UInt32) (before : Option BlockId) {ids : List BlockId}
    (taken : ∀ id ∈ ids, id.val < memory.poolUsed) :
    other.findUsed? address before ids = memory.findUsed? address before ids := by
  induction ids generalizing before with
  | nil =>
      rfl
  | cons id rest inductionHypothesis =>
      obtain ⟨here, behind⟩ := List.forall_mem_cons.mp taken
      rw [findUsed?, findUsed?, same.entry id here, inductionHypothesis (some id) behind]

private theorem entriesNeeded_eq (request : UInt32) {fit : Fit}
    (taken : fit.id.val < memory.poolUsed) :
    other.entriesNeeded request fit = memory.entriesNeeded request fit := by
  rw [entriesNeeded, entriesNeeded, same.entry fit.id taken]

end Reading

/-- What a search of the chain stops at has been taken, and so has the block before it. -/
theorem taken_of_split {ids initial behind : List BlockId} {id : BlockId}
    {before : Option BlockId} (taken : ∀ id ∈ ids, id.val < memory.poolUsed)
    (split : ids = initial ++ id :: behind) (beforeEq : before = initial.getLast?.or none) :
    id.val < memory.poolUsed ∧ memory.Taken before := by
  rw [split] at taken
  refine ⟨taken id (List.mem_append_right initial List.mem_cons_self), ?_⟩
  intro previous member
  rw [beforeEq, Option.or_none] at member
  exact taken previous (List.mem_append_left _ (List.mem_of_getLast? member))

section Writing

variable (same : SameTaken memory other)

include same

theorem setBlock (id : BlockId) {block : Block} (next : memory.Taken block.next) :
    SameTaken (memory.setBlock id block) (other.setBlock id block) := by
  refine ⟨same.region, same.poolUsed, same.head, same.headTaken, ?_, ?_⟩
  · intro index indexTaken
    rw [setBlock_pool, setBlock_pool]
    by_cases written : id = index
    · rw [written, getElem_put_self, getElem_put_self]
    · rw [getElem_put_of_ne _ written, getElem_put_of_ne _ written]
      exact same.entry index indexTaken
  · intro index indexTaken
    rw [setBlock_pool]
    by_cases written : id = index
    · rw [written, getElem_put_self]
      exact next
    · rw [getElem_put_of_ne _ written]
      exact same.nextTaken index indexTaken

theorem update {id : BlockId} (taken : id.val < memory.poolUsed) (change : Block → Block)
    (next : memory.Taken (change memory.pool[id]).next) :
    SameTaken (memory.setBlock id (change memory.pool[id]))
      (other.setBlock id (change other.pool[id])) := by
  rw [same.entry id taken]
  exact same.setBlock id next

private theorem fresh_eq : other.fresh = memory.fresh :=
  congrArg (Fin.ofNat maxBlocks) same.poolUsed.symm

/-- The next entry is the same on both sides, and what it held before is written over. -/
theorem push {block : Block} (next : memory.Taken block.next) :
    SameTaken (memory.push block).2 (other.push block).2 := by
  refine ⟨same.region, congrArg (· + 1) same.poolUsed, same.head, same.headTaken.push block,
    ?_, ?_⟩
  · intro index indexTaken
    change (other.pool.put other.fresh block)[index] = (memory.pool.put memory.fresh block)[index]
    rw [same.fresh_eq]
    by_cases written : memory.fresh = index
    · rw [written, getElem_put_self, getElem_put_self]
    · rw [getElem_put_of_ne _ written, getElem_put_of_ne _ written]
      exact same.entry index (lt_poolUsed_of_ne_fresh indexTaken written)
  · intro index indexTaken
    change (memory.push block).2.Taken (memory.pool.put memory.fresh block)[index].next
    by_cases written : memory.fresh = index
    · rw [written, getElem_put_self]
      exact next.push block
    · rw [getElem_put_of_ne _ written]
      exact (same.nextTaken index (lt_poolUsed_of_ne_fresh indexTaken written)).push block

theorem link {before : Option BlockId} (beforeTaken : memory.Taken before) {id : BlockId}
    (taken : id.val < memory.poolUsed) :
    SameTaken (memory.link before id) (other.link before id) := by
  cases before with
  | none =>
      exact ⟨same.region, same.poolUsed, rfl, taken_some taken, same.entry, same.nextTaken⟩
  | some previous =>
      exact same.update (beforeTaken previous rfl) (fun block => { block with next := some id })
        (taken_some taken)

theorem splitFront {fit : Fit} (taken : fit.id.val < memory.poolUsed)
    (beforeTaken : memory.Taken fit.before) :
    SameTaken (memory.splitFront fit) (other.splitFront fit) := by
  by_cases noPadding : fit.padding = 0
  · rw [Allocator.splitFront, Allocator.splitFront, if_pos noPadding, if_pos noPadding]
    exact same
  · rw [splitFront_of_padding noPadding, splitFront_of_padding noPadding, same.entry fit.id taken,
      same.fresh_eq]
    let front : Block := ⟨memory.pool[fit.id].start, fit.padding, false, some fit.id⟩
    have pushed : SameTaken (memory.push front).2 (other.push front).2 :=
      same.push (taken_some taken)
    have linked := pushed.link (beforeTaken.push front) memory.fresh_lt
    have takenLater :
        fit.id.val < ((memory.push front).2.link fit.before memory.fresh).poolUsed := by
      rw [link_poolUsed]
      exact Nat.lt_succ_of_lt taken
    exact linked.update takenLater
      (fun block => { block with
        start := block.start + fit.padding, size := block.size - fit.padding })
      (linked.nextTaken fit.id takenLater)

theorem splitBack {id : BlockId} (taken : id.val < memory.poolUsed) (size : UInt32) :
    SameTaken (memory.splitBack id size) (other.splitBack id size) := by
  rw [Allocator.splitBack, Allocator.splitBack, same.entry id taken]
  dsimp only
  split
  · let block := memory.pool[id]
    let back : Block := ⟨block.start + size, block.size - size, false, block.next⟩
    have pushed : SameTaken (memory.push back).2 (other.push back).2 :=
      same.push (same.nextTaken id taken)
    change SameTaken
      ((memory.push back).2.setBlock id { block with size, next := some memory.fresh })
      ((other.push back).2.setBlock id { block with size, next := some other.fresh })
    rw [same.fresh_eq]
    exact pushed.setBlock id (taken_some memory.fresh_lt)
  · exact same

theorem carve (request : UInt32) {fit : Fit} (taken : fit.id.val < memory.poolUsed)
    (beforeTaken : memory.Taken fit.before) :
    (memory.carve request fit).1 = (other.carve request fit).1 ∧
      SameTaken (memory.carve request fit).2 (other.carve request fit).2 := by
  have cutFront := same.splitFront taken beforeTaken
  have takenFront : fit.id.val < (memory.splitFront fit).poolUsed := by
    rw [splitFront_poolUsed]
    omega
  have cut := cutFront.splitBack takenFront request
  have takenBack := takenFront.trans_le (le_splitBack_poolUsed _ fit.id request)
  refine ⟨congrArg Block.start (cut.entry fit.id takenBack).symm, ?_⟩
  exact cut.update takenBack (fun block => { block with used := true })
    (cut.nextTaken fit.id takenBack)

theorem alloc (size : UInt32) :
    SameOutcome SameTaken (memory.alloc size) (other.alloc size) := by
  rw [Allocator.alloc, Allocator.alloc, same.region]
  split
  · exact .error _ same
  · next request _ =>
    rw [same.chain_eq, same.findFit?_eq request none same.taken_of_mem_chain]
    cases found : memory.findFit? request none memory.chain with
    | none => exact .error _ same
    | some fit =>
        obtain ⟨initial, behind, split, beforeEq, _⟩ := findFit?_eq_some found
        obtain ⟨taken, beforeTaken⟩ := taken_of_split same.taken_of_mem_chain split beforeEq
        dsimp only
        rw [same.entriesNeeded_eq request taken, same.poolUsed]
        split
        · exact .error _ same
        · obtain ⟨addressEq, sameAfter⟩ := same.carve request taken beforeTaken
          rw [addressEq]
          exact .ok _ sameAfter

theorem absorb {id behind : BlockId} (taken : id.val < memory.poolUsed)
    (behindTaken : behind.val < memory.poolUsed) :
    SameTaken (memory.absorb id behind) (other.absorb id behind) := by
  rw [Allocator.absorb, Allocator.absorb, same.entry behind behindTaken]
  exact same.update taken
    (fun block => { block with
      size := block.size + memory.pool[behind].size, next := memory.pool[behind].next })
    (same.nextTaken behind behindTaken)

theorem mergeBehind {id : BlockId} (taken : id.val < memory.poolUsed) :
    SameTaken (memory.mergeBehind id) (other.mergeBehind id) := by
  have nextTaken := same.nextTaken id taken
  rw [Allocator.mergeBehind, Allocator.mergeBehind, same.entry id taken]
  cases next : memory.pool[id].next with
  | none => exact same
  | some behind =>
      have behindTaken : behind.val < memory.poolUsed := nextTaken behind next
      dsimp only
      rw [same.entry behind behindTaken]
      split
      · exact same
      · exact same.absorb taken behindTaken

theorem mergeInto {before : Option BlockId} (beforeTaken : memory.Taken before) {id : BlockId}
    (taken : id.val < memory.poolUsed) :
    SameTaken (memory.mergeInto before id) (other.mergeInto before id) := by
  cases before with
  | none => exact same
  | some previous =>
      have previousTaken : previous.val < memory.poolUsed := beforeTaken previous rfl
      simp only [Allocator.mergeInto, same.entry previous previousTaken]
      split
      · exact same
      · exact same.absorb previousTaken taken

theorem release {found : Found} (taken : found.id.val < memory.poolUsed)
    (beforeTaken : memory.Taken found.before) :
    SameTaken (memory.release found) (other.release found) := by
  have freed := same.update taken (fun block => { block with used := false })
    (same.nextTaken found.id taken)
  have merged := freed.mergeBehind taken
  refine merged.mergeInto ?_ ?_
  · rw [Taken, mergeBehind_poolUsed]
    exact beforeTaken
  · rw [mergeBehind_poolUsed]
    exact taken

theorem free (address : UInt32) :
    SameOutcome SameTaken (memory.free address) (other.free address) := by
  rw [Allocator.free, Allocator.free, same.chain_eq,
    same.findUsed?_eq address none same.taken_of_mem_chain]
  cases search : memory.findUsed? address none memory.chain with
  | none => exact .error _ same
  | some found =>
      obtain ⟨initial, behind, split, beforeEq, _⟩ := findUsed?_eq_some search
      obtain ⟨taken, beforeTaken⟩ := taken_of_split same.taken_of_mem_chain split beforeEq
      exact .ok () (same.release taken beforeTaken)

end Writing

/-- After `init` the two have one entry in common, whatever they held before. -/
theorem init (regionEq : memory.region = other.region) : SameTaken memory.init other.init := by
  have first {id : BlockId} (taken : id.val < 1) : id = 0 :=
    Fin.ext (Nat.lt_one_iff.mp taken)
  refine ⟨regionEq, rfl, rfl, taken_some Nat.zero_lt_one, ?_, ?_⟩
  · intro id taken
    rw [first taken, init_entry, init_entry, regionEq]
  · intro id taken
    rw [first taken, init_entry]
    exact taken_none memory.init

end SameTaken

end Memory

/-- Allocators that differ in stale entries only cannot be told apart. -/
theorem indistinct_sameTaken : Indistinct SameTaken :=
  ⟨SameTaken.region, SameTaken.alloc, SameTaken.free⟩

end Microkernel
