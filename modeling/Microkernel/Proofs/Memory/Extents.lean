import Mathlib.Algebra.Order.Ring.Nat
import Mathlib.Data.List.Nodup
import Mathlib.Data.List.Pairwise
import Microkernel.Memory.Allocator

/-!
# Extents

A block without its link is an extent, measured in numbers that do not wrap.  This module holds
the list theory of a region that is covered by extents:

* `Tiles` says that non-empty extents follow one another without gap or overlap;
* `Extent.split` cuts a free extent around a request;
* `released` gives an extent back and joins it with its free neighbours.

Nothing here knows of the pool or of the links between its entries.
-/

namespace Microkernel.Memory

/-- A stretch of memory, free or used. -/
structure Extent where
  start : Nat
  size : Nat
  used : Bool
  deriving DecidableEq

namespace Extent

def stop (extent : Extent) : Nat :=
  extent.start + extent.size

/-- Two extents without a common byte. -/
def Apart (left right : Extent) : Prop :=
  left.stop ≤ right.start ∨ right.stop ≤ left.start

/-- The free extent of a size, none if there is nothing to hold. -/
def gap (start size : Nat) : List Extent :=
  if size = 0 then [] else [⟨start, size, false⟩]

/-- An extent cut around a request, with what is free before and behind it. -/
def split (extent : Extent) (padding request : Nat) : List Extent :=
  gap extent.start padding ++
    ⟨extent.start + padding, request, true⟩ ::
      gap (extent.start + padding + request) (extent.size - padding - request)

/-- An extent that has taken over the one behind it. -/
def join (extent behind : Extent) : Extent :=
  { extent with size := extent.size + behind.size }

end Extent

/-- Non-empty extents that cover the bytes from `first` up to `last`, each one starting where the
one before it ends. -/
def Tiles : Nat → List Extent → Nat → Prop
  | first, [], last => first = last
  | first, extent :: rest, last =>
      extent.start = first ∧ 0 < extent.size ∧ Tiles extent.stop rest last

def usedExtents (extents : List Extent) : List Extent :=
  extents.filter Extent.used

/-- A free extent takes over the first of the extents behind it, if that one is free. -/
def absorbFree (extent : Extent) : List Extent → List Extent
  | [] => [extent]
  | behind :: rest =>
      if behind.used then extent :: behind :: rest
      else extent.join behind :: rest

/-- The last of the extents before a free one takes that one over, if it is free itself. -/
def absorbInto (before extents : List Extent) : List Extent :=
  match before.getLast? with
  | some previous =>
      if previous.used then before ++ extents
      else before.dropLast ++ absorbFree previous extents
  | none => extents

/-- The extents of a region after one of them was given back. -/
def released (before : List Extent) (extent : Extent) (behind : List Extent) : List Extent :=
  absorbInto before (absorbFree { extent with used := false } behind)

theorem tiles_append {first last : Nat} {left right : List Extent} :
    Tiles first (left ++ right) last ↔
      ∃ middle, Tiles first left middle ∧ Tiles middle right last := by
  induction left generalizing first with
  | nil =>
      simp [Tiles]
  | cons head tail inductionHypothesis =>
      simp only [List.cons_append, Tiles, inductionHypothesis]
      constructor
      · rintro ⟨startEq, positive, middle, tailTiles, rightTiles⟩
        exact ⟨middle, ⟨startEq, positive, tailTiles⟩, rightTiles⟩
      · rintro ⟨middle, ⟨startEq, positive, tailTiles⟩, rightTiles⟩
        exact ⟨startEq, positive, middle, tailTiles, rightTiles⟩

/-- A part of a tiling may be exchanged for anything that covers the same bytes. -/
theorem Tiles.exchange {first last : Nat} {left right : List Extent} (old new : List Extent)
    (tiles : Tiles first (left ++ (old ++ right)) last)
    (covers : ∀ start stop, Tiles start old stop → Tiles start new stop) :
    Tiles first (left ++ (new ++ right)) last := by
  obtain ⟨start, leftTiles, restTiles⟩ := tiles_append.mp tiles
  obtain ⟨stop, oldTiles, rightTiles⟩ := tiles_append.mp restTiles
  exact tiles_append.mpr
    ⟨start, leftTiles, tiles_append.mpr ⟨stop, covers start stop oldTiles, rightTiles⟩⟩

theorem Tiles.le {first last : Nat} {extents : List Extent}
    (tiles : Tiles first extents last) : first ≤ last := by
  induction extents generalizing first with
  | nil =>
      exact Nat.le_of_eq tiles
  | cons head tail inductionHypothesis =>
      obtain ⟨startEq, _, tailTiles⟩ := tiles
      have tailLe := inductionHypothesis tailTiles
      simp only [Extent.stop] at tailLe
      omega

theorem Tiles.bounds {first last : Nat} {extents : List Extent}
    (tiles : Tiles first extents last) {extent : Extent} (member : extent ∈ extents) :
    first ≤ extent.start ∧ 0 < extent.size ∧ extent.stop ≤ last := by
  induction extents generalizing first with
  | nil =>
      simp at member
  | cons head tail inductionHypothesis =>
      obtain ⟨startEq, positive, tailTiles⟩ := tiles
      rcases List.mem_cons.mp member with equal | tailMember
      · subst extent
        exact ⟨Nat.le_of_eq startEq.symm, positive, tailTiles.le⟩
      · have tailBounds := inductionHypothesis tailTiles tailMember
        simp only [Extent.stop] at tailBounds ⊢
        omega

/-- In a tiling every extent ends before the next ones start. -/
theorem Tiles.ordered {first last : Nat} {extents : List Extent}
    (tiles : Tiles first extents last) :
    extents.Pairwise fun left right => left.stop ≤ right.start := by
  induction extents generalizing first with
  | nil =>
      exact List.Pairwise.nil
  | cons head tail inductionHypothesis =>
      obtain ⟨_, _, tailTiles⟩ := tiles
      refine List.Pairwise.cons ?_ (inductionHypothesis tailTiles)
      intro later laterMember
      exact (tailTiles.bounds laterMember).1

theorem Tiles.apart {first last : Nat} {extents : List Extent}
    (tiles : Tiles first extents last) {left right : Extent}
    (leftMember : left ∈ extents) (rightMember : right ∈ extents) (different : left ≠ right) :
    Extent.Apart left right := by
  have symmetric : Std.Symm Extent.Apart := ⟨fun _ _ ordered => Or.symm ordered⟩
  have allApart : extents.Pairwise Extent.Apart := tiles.ordered.imp Or.inl
  exact allApart.forall leftMember rightMember different

theorem Tiles.starts_nodup {first last : Nat} {extents : List Extent}
    (tiles : Tiles first extents last) : (extents.map Extent.start).Nodup := by
  have separated : (extents.map Extent.start).Pairwise (· < ·) := by
    rw [List.pairwise_map]
    apply tiles.ordered.imp_of_mem
    intro left right leftMember _ ordered
    have positive := (tiles.bounds leftMember).2.1
    simp only [Extent.stop] at ordered
    omega
  exact separated.imp Nat.ne_of_lt

/-- Two extents of a tiling that start at the same byte are the same. -/
theorem Tiles.eq_of_start {first last : Nat} {extents : List Extent}
    (tiles : Tiles first extents last) {left right : Extent}
    (leftMember : left ∈ extents) (rightMember : right ∈ extents)
    (sameStart : left.start = right.start) : left = right :=
  List.inj_on_of_nodup_map tiles.starts_nodup leftMember rightMember sameStart

/-- The sizes of a tiling add up to the bytes that it covers. -/
theorem Tiles.sum_sizes {first last : Nat} {extents : List Extent}
    (tiles : Tiles first extents last) :
    first + (extents.map Extent.size).sum = last := by
  induction extents generalizing first with
  | nil =>
      simpa [Tiles] using tiles
  | cons head tail inductionHypothesis =>
      obtain ⟨startEq, _, tailTiles⟩ := tiles
      have tailSum := inductionHypothesis tailTiles
      simp only [Extent.stop] at tailSum
      simp only [List.map_cons, List.sum_cons]
      omega

/-- An extent cut in two covers what it covered. -/
theorem Tiles.cut {start stop size : Nat} {extent : Extent} (frontUsed backUsed : Bool)
    (tiles : Tiles start [extent] stop) (positive : 0 < size) (smaller : size < extent.size) :
    Tiles start
      [⟨extent.start, size, frontUsed⟩,
        ⟨extent.start + size, extent.size - size, backUsed⟩] stop := by
  obtain ⟨startEq, _, stopEq⟩ := tiles
  simp only [Tiles, Extent.stop, true_and] at stopEq ⊢
  omega

theorem Tiles.mark {start stop : Nat} {extent : Extent} (used : Bool)
    (tiles : Tiles start [extent] stop) : Tiles start [{ extent with used }] stop :=
  tiles

theorem Tiles.join {start stop : Nat} {extent behind : Extent}
    (tiles : Tiles start [extent, behind] stop) :
    Tiles start [extent.join behind] stop := by
  obtain ⟨startEq, positive, behindStart, _, stopEq⟩ := tiles
  simp only [Tiles, Extent.stop] at behindStart stopEq
  refine ⟨startEq, Nat.add_pos_left positive _, ?_⟩
  simp only [Tiles, Extent.stop, Extent.join]
  omega

@[simp]
theorem usedExtents_append (left right : List Extent) :
    usedExtents (left ++ right) = usedExtents left ++ usedExtents right :=
  List.filter_append left right

theorem usedExtents_cons (extent : Extent) (rest : List Extent) :
    usedExtents (extent :: rest) = usedExtents [extent] ++ usedExtents rest := by
  rw [← usedExtents_append, List.singleton_append]

@[simp]
theorem usedExtents_gap (start size : Nat) : usedExtents (Extent.gap start size) = [] := by
  by_cases empty : size = 0
  · simp [Extent.gap, usedExtents, empty]
  · simp [Extent.gap, usedExtents, empty]

/-- A cut leaves one used extent, the request. -/
@[simp]
theorem usedExtents_split (extent : Extent) (padding request : Nat) :
    usedExtents (extent.split padding request) =
      [⟨extent.start + padding, request, true⟩] := by
  rw [Extent.split, usedExtents_append, usedExtents_cons, usedExtents_gap, usedExtents_gap]
  simp [usedExtents]

private theorem usedExtents_absorbFree {extent : Extent} (free : extent.used = false)
    (behind : List Extent) :
    usedExtents (absorbFree extent behind) = usedExtents behind := by
  cases behind with
  | nil =>
      simp [absorbFree, usedExtents, free]
  | cons next rest =>
      by_cases nextUsed : next.used
      · simp [absorbFree, usedExtents, free, nextUsed]
      · simp [absorbFree, usedExtents, Extent.join, free, nextUsed]

@[simp]
theorem usedExtents_absorbInto (before extents : List Extent) :
    usedExtents (absorbInto before extents) = usedExtents before ++ usedExtents extents := by
  rcases List.eq_nil_or_concat' before with empty | ⟨initial, previous, shape⟩
  · subst before
    rfl
  · subst before
    cases previousUsed : previous.used with
    | false =>
        have previousGone : usedExtents [previous] = [] := by
          simp [usedExtents, previousUsed]
        have joined : absorbInto (initial ++ [previous]) extents =
            initial ++ absorbFree previous extents := by
          simp [absorbInto, previousUsed]
        rw [joined, usedExtents_append, usedExtents_append, previousGone, List.append_nil,
          usedExtents_absorbFree previousUsed]
    | true =>
        have untouched : absorbInto (initial ++ [previous]) extents =
            initial ++ [previous] ++ extents := by
          simp [absorbInto, previousUsed]
        rw [untouched, usedExtents_append]

/-- Giving an extent back takes it, and nothing else, off the used ones. -/
theorem usedExtents_released (before : List Extent) (extent : Extent) (behind : List Extent) :
    usedExtents (released before extent behind) =
      usedExtents before ++ usedExtents behind := by
  rw [released, usedExtents_absorbInto, usedExtents_absorbFree rfl]

end Microkernel.Memory
