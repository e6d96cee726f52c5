import Mathlib.Data.Fintype.Card
import Microkernel.Proofs.Entries
import Microkernel.Proofs.Memory.Extents

/-!
# The chain behind the extents

The blocks of a region hang together by links from one pool entry to the next, and the pool also
holds entries that have been taken over and are never reached again.  `Linked` says what following
the links visits.  `Represents` is what every operation keeps: the links end, they visit distinct
entries that have been taken, and the extents of these entries tile the region.
-/

namespace Microkernel.Memory

/-- The block without its link. -/
def Block.extent (block : Block) : Extent :=
  ⟨block.start.toNat, block.size.toNat, block.used⟩

/-- Following the links from `first` visits the listed entries in order and arrives at `last`. -/
def Linked (pool : Vector Block maxBlocks) :
    Option BlockId → List BlockId → Option BlockId → Prop
  | first, [], last => first = last
  | first, id :: rest, last => first = some id ∧ Linked pool pool[id].next rest last

/-- The extents of the listed entries. -/
def extentsOf (pool : Vector Block maxBlocks) (ids : List BlockId) : List Extent :=
  ids.map fun id => pool[id].extent

/-- The extents of the region in address order. -/
def Allocator.extents (memory : Allocator) : List Extent :=
  memory.blocks.map Block.extent

theorem linked_append {pool : Vector Block maxBlocks} {first last : Option BlockId}
    {left right : List BlockId} :
    Linked pool first (left ++ right) last ↔
      ∃ middle, Linked pool first left middle ∧ Linked pool middle right last := by
  induction left generalizing first with
  | nil =>
      simp [Linked]
  | cons head tail inductionHypothesis =>
      simp only [List.cons_append, Linked, inductionHypothesis]
      constructor
      · rintro ⟨firstEq, middle, tailLinked, rightLinked⟩
        exact ⟨middle, ⟨firstEq, tailLinked⟩, rightLinked⟩
      · rintro ⟨middle, ⟨firstEq, tailLinked⟩, rightLinked⟩
        exact ⟨firstEq, middle, tailLinked, rightLinked⟩

/-- Only the entries that a stretch visits matter to it. -/
theorem Linked.congr {pool changed : Vector Block maxBlocks} {first last : Option BlockId}
    {ids : List BlockId} (linked : Linked pool first ids last)
    (agree : ∀ id ∈ ids, changed[id] = pool[id]) : Linked changed first ids last := by
  induction ids generalizing first with
  | nil =>
      exact linked
  | cons head tail inductionHypothesis =>
      obtain ⟨firstEq, tailLinked⟩ := linked
      refine ⟨firstEq, ?_⟩
      rw [agree head List.mem_cons_self]
      apply inductionHypothesis tailLinked
      intro id member
      exact agree id (List.mem_cons_of_mem head member)

/-- Writing the last entry of a stretch makes the stretch arrive where the new link leads. -/
theorem Linked.set_last {pool : Vector Block maxBlocks} {first last : Option BlockId}
    {initial : List BlockId} {id : BlockId} (block : Block)
    (linked : Linked pool first (initial ++ [id]) last) (notBefore : id ∉ initial) :
    Linked (pool.put id block) first (initial ++ [id]) block.next := by
  obtain ⟨middle, initialLinked, middleEq, _⟩ := linked_append.mp linked
  have agree := getElem_put_of_notMem pool block notBefore
  refine linked_append.mpr ⟨middle, initialLinked.congr agree, middleEq, ?_⟩
  simp [Linked]

theorem extentsOf_congr {pool changed : Vector Block maxBlocks} {ids : List BlockId}
    (agree : ∀ id ∈ ids, changed[id] = pool[id]) :
    extentsOf changed ids = extentsOf pool ids := by
  apply List.map_congr_left
  intro id member
  rw [agree id member]

@[simp]
theorem extentsOf_append (pool : Vector Block maxBlocks) (left right : List BlockId) :
    extentsOf pool (left ++ right) = extentsOf pool left ++ extentsOf pool right :=
  List.map_append

@[simp]
theorem extentsOf_cons (pool : Vector Block maxBlocks) (id : BlockId) (rest : List BlockId) :
    extentsOf pool (id :: rest) = pool[id].extent :: extentsOf pool rest :=
  rfl

@[simp]
theorem extentsOf_nil (pool : Vector Block maxBlocks) : extentsOf pool [] = [] :=
  rfl

/-- Enough steps along the links find exactly the entries that the links visit. -/
theorem chainFrom_eq_of_linked {pool : Vector Block maxBlocks} {first : Option BlockId}
    {ids : List BlockId} {count : Nat} (linked : Linked pool first ids none)
    (enough : ids.length ≤ count) : Allocator.chainFrom pool count first = ids := by
  induction ids generalizing first count with
  | nil =>
      have firstEq : first = none := linked
      subst first
      cases count with
      | zero => rfl
      | succ count => rfl
  | cons head tail inductionHypothesis =>
      obtain ⟨firstEq, tailLinked⟩ := linked
      subst first
      cases count with
      | zero =>
          simp at enough
      | succ count =>
          have tailEnough : tail.length ≤ count := by
            simpa using enough
          simp only [Allocator.chainFrom, inductionHypothesis tailLinked tailEnough]

/-- The pool entries in the chain of an allocator, in address order, and what holds of them
between any two operations. -/
structure Represents (memory : Allocator) (ids : List BlockId) : Prop where
  linked : Linked memory.pool memory.head ids none
  distinct : ids.Nodup
  taken : ∀ id ∈ ids, id.val < memory.poolUsed
  poolUsed_le : memory.poolUsed ≤ maxBlocks
  tiles : Tiles memory.region.base.toNat (extentsOf memory.pool ids)
    (memory.region.base.toNat + memory.region.size.toNat)
  stop_lt : memory.region.base.toNat + memory.region.size.toNat < 2 ^ 32

/-- An allocator between two operations. -/
def Allocator.Sound (memory : Allocator) : Prop :=
  Represents memory memory.chain

namespace Represents

variable {memory : Allocator} {ids : List BlockId}

theorem chain_eq (represents : Represents memory ids) : memory.chain = ids := by
  have short : ids.length ≤ maxBlocks := by
    simpa using represents.distinct.length_le_card
  exact chainFrom_eq_of_linked represents.linked short

theorem sound (represents : Represents memory ids) : memory.Sound := by
  rw [Allocator.Sound, represents.chain_eq]
  exact represents

theorem extents_eq (represents : Represents memory ids) :
    memory.extents = extentsOf memory.pool ids := by
  rw [Allocator.extents, Allocator.blocks, represents.chain_eq, List.map_map]
  rfl

theorem tiles_extents (represents : Represents memory ids) :
    Tiles memory.region.base.toNat memory.extents
      (memory.region.base.toNat + memory.region.size.toNat) := by
  rw [represents.extents_eq]
  exact represents.tiles

theorem bounds (represents : Represents memory ids) {id : BlockId} (member : id ∈ ids) :
    memory.region.base.toNat ≤ memory.pool[id].start.toNat ∧ 0 < memory.pool[id].size.toNat ∧
      memory.pool[id].start.toNat + memory.pool[id].size.toNat ≤
        memory.region.base.toNat + memory.region.size.toNat := by
  have extentMember : memory.pool[id].extent ∈ extentsOf memory.pool ids :=
    List.mem_map.mpr ⟨id, member, rfl⟩
  exact represents.tiles.bounds extentMember

end Represents

end Microkernel.Memory
