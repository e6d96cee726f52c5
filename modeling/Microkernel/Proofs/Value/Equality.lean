import Mathlib.Data.List.Forall2
import Microkernel.Proofs.Decimal.Nearness
import Microkernel.Proofs.Value.Nodes
import Microkernel.Value.Equality

/-!
# Equality as likeness of trees

Two values are equal if they are alike at the end of every path: the same tag, the same length, the
same keys slot by slot, the same payload of a leaf, except that floating-point numbers only have to
be near each other.  That equality can be taken either way round then comes down to nearness, and so
does whether a copy equals its original, since nearness is the one comparison that a leaf may fail
against itself.
-/

namespace Microkernel.Value

/-- That the comparison stops where the shorter list ends does no harm to lists of one length. -/
theorem itemsEqual_iff {as bs : List Value} (sameLength : as.length = bs.length) :
    itemsEqual as bs = true ↔ List.Forall₂ (fun a b => a.equal b = true) as bs := by
  induction as generalizing bs with
  | nil =>
      obtain rfl := List.eq_nil_of_length_eq_zero sameLength.symm
      simp [itemsEqual]
  | cons a rest inductionHypothesis =>
      cases bs with
      | nil => cases sameLength
      | cons b rest' => simp [itemsEqual, inductionHypothesis (Nat.succ.inj sameLength)]

private theorem valuesEqual_eq (as bs : List (Option String × Value)) :
    valuesEqual as bs = itemsEqual (as.map Prod.snd) (bs.map Prod.snd) := by
  induction as generalizing bs with
  | nil =>
      rfl
  | cons a rest inductionHypothesis =>
      cases bs with
      | nil => rfl
      | cons b rest' => simp only [valuesEqual, itemsEqual, inductionHypothesis, List.map_cons]

private theorem keysEqual_iff {as bs : List (Option String × Value)}
    (sameLength : as.length = bs.length) :
    keysEqual as bs = true ↔ as.map Prod.fst = bs.map Prod.fst := by
  rw [← List.forall₂_eq_eq_eq, List.forall₂_map_left_iff, List.forall₂_map_right_iff,
    List.forall₂_iff_zip]
  simp [keysEqual, sameLength]

private theorem equal_list_iff (as bs : List Value) :
    (list as).equal (list bs) = true ↔ List.Forall₂ (fun a b => a.equal b = true) as bs := by
  simp only [equal, Bool.and_eq_true, beq_iff_eq]
  constructor
  · rintro ⟨sameLength, items⟩
    exact (itemsEqual_iff sameLength).mp items
  · intro items
    exact ⟨items.length_eq, (itemsEqual_iff items.length_eq).mpr items⟩

/-- Maps are equal if their keys and their values are, as two lists each. -/
theorem equal_map_iff (as bs : List (Option String × Value)) :
    (map as).equal (map bs) = true ↔ as.map Prod.fst = bs.map Prod.fst ∧
      List.Forall₂ (fun a b => a.equal b = true) (as.map Prod.snd) (bs.map Prod.snd) := by
  simp only [equal, Bool.and_eq_true, beq_iff_eq, valuesEqual_eq]
  constructor
  · rintro ⟨sameLength, keys, values⟩
    exact ⟨(keysEqual_iff sameLength).mp keys, (itemsEqual_iff (by simpa)).mp values⟩
  · rintro ⟨keys, values⟩
    have sameLength : as.length = bs.length := by simpa using congrArg List.length keys
    exact ⟨sameLength, (keysEqual_iff sameLength).mpr keys, (itemsEqual_iff (by simpa)).mpr values⟩

/-- Nodes that count as equal. -/
def Node.Matches : Node → Node → Prop
  | .float32 x, .float32 y => x.near y = true
  | a, b => a = b

/-- The same paths lead somewhere in both values, and to nodes that count as equal. -/
def Alike (a b : Value) : Prop :=
  ∀ path, Option.Rel Node.Matches (a.node? path) (b.node? path)

private theorem Alike.root_matches {a b : Value} (alike : Alike a b) : a.root.Matches b.root := by
  cases alike [] with
  | some matching => exact matching

private theorem alike_iff (a b : Value) :
    Alike a b ↔ a.root.Matches b.root ∧
      ∀ step, Option.Rel Alike (a.child? step) (b.child? step) := by
  constructor
  · intro alike
    refine ⟨alike.root_matches, fun step => ?_⟩
    have below : ∀ rest, Option.Rel Node.Matches ((a.child? step).bind (node? · rest))
        ((b.child? step).bind (node? · rest)) := by
      intro rest
      simpa only [node?_cons] using alike (step :: rest)
    cases childA : a.child? step with
    | none =>
        cases childB : b.child? step with
        | none => exact Option.Rel.none
        | some child =>
            have first := below []
            simp only [childA, childB, Option.bind_none, Option.bind_some, node?_nil] at first
            exact nomatch first
    | some child =>
        cases childB : b.child? step with
        | none =>
            have first := below []
            simp only [childA, childB, Option.bind_none, Option.bind_some, node?_nil] at first
            exact nomatch first
        | some child' =>
            rw [childA, childB] at below
            exact Option.Rel.some below
  · rintro ⟨matching, children⟩ path
    cases path with
    | nil => exact Option.Rel.some matching
    | cons step rest =>
        rw [node?_cons, node?_cons]
        have below := children step
        generalize a.child? step = childA, b.child? step = childB at below ⊢
        cases below with
        | none => exact Option.Rel.none
        | some alike => exact alike rest

/-- Likeness position by position, the end of both lists included. -/
theorem forall₂_iff_getElem? {R : Value → Value → Prop} (as bs : List Value) :
    List.Forall₂ R as bs ↔ ∀ index : Nat, Option.Rel R as[index]? bs[index]? := by
  induction as generalizing bs with
  | nil =>
      cases bs with
      | nil => simp
      | cons b rest => exact ⟨nofun, fun same => nomatch same 0⟩
  | cons a rest inductionHypothesis =>
      cases bs with
      | nil => exact ⟨nofun, fun same => nomatch same 0⟩
      | cons b rest' =>
          rw [List.forall₂_cons, inductionHypothesis]
          constructor
          · rintro ⟨first, later⟩ index
            cases index with
            | zero => exact Option.Rel.some first
            | succ index => simpa using later index
          · intro same
            refine ⟨?_, fun index => by simpa using same (index + 1)⟩
            cases same 0 with
            | some first => exact first

private theorem alike_list (as bs : List Value) :
    Alike (.list as) (.list bs) ↔ List.Forall₂ Alike as bs := by
  rw [alike_iff]
  constructor
  · rintro ⟨_, children⟩
    exact (forall₂_iff_getElem? as bs).mpr fun index => children (.slot index)
  · intro items
    refine ⟨congrArg Node.list items.length_eq, fun step => ?_⟩
    cases step with
    | key name => exact Option.Rel.none
    | slot index => exact (forall₂_iff_getElem? as bs).mp items index

/-- The values that two maps with the same keys hold under a key are those of the same slot. -/
theorem rel_lookup {R : Value → Value → Prop} {as bs : List (Option String × Value)}
    (keys : as.map Prod.fst = bs.map Prod.fst)
    (values : List.Forall₂ R (as.map Prod.snd) (bs.map Prod.snd)) (name : String) :
    Option.Rel R (lookup name as) (lookup name bs) := by
  induction as generalizing bs with
  | nil =>
      cases bs with
      | nil => exact Option.Rel.none
      | cons slot rest => exact nomatch keys
  | cons slot rest inductionHypothesis =>
      cases bs with
      | nil => exact nomatch keys
      | cons slot' rest' =>
          obtain ⟨sameKey, sameKeys⟩ := List.cons.inj keys
          obtain ⟨first, later⟩ := List.forall₂_cons.mp values
          simp only [lookup, sameKey]
          split
          · exact Option.Rel.some first
          · exact inductionHypothesis sameKeys later

private theorem alike_map (as bs : List (Option String × Value)) :
    Alike (.map as) (.map bs) ↔ as.map Prod.fst = bs.map Prod.fst ∧
      List.Forall₂ Alike (as.map Prod.snd) (bs.map Prod.snd) := by
  rw [alike_iff]
  constructor
  · rintro ⟨keys, children⟩
    refine ⟨Node.map.inj keys, (forall₂_iff_getElem? _ _).mpr fun index => ?_⟩
    simpa only [child?_map_slot] using children (.slot index)
  · rintro ⟨keys, values⟩
    refine ⟨congrArg Node.map keys, fun step => ?_⟩
    cases step with
    | key name => exact rel_lookup keys values name
    | slot index =>
        rw [child?_map_slot, child?_map_slot]
        exact (forall₂_iff_getElem? _ _).mp values index

private theorem alike_iff_root_matches {a : Value} (leaf : a.isTable = false) (b : Value) :
    Alike a b ↔ a.root.Matches b.root := by
  refine ⟨Alike.root_matches, fun matching => (alike_iff a b).mpr ⟨matching, fun step => ?_⟩⟩
  have leaf' : b.isTable = false := by
    cases b with
    | list slots =>
        cases a with
        | list slots' => cases leaf
        | _ => exact nomatch matching
    | map slots =>
        cases a with
        | map slots' => cases leaf
        | _ => exact nomatch matching
    | _ => rfl
  rw [child?_of_leaf leaf, child?_of_leaf leaf']
  exact Option.Rel.none

private theorem equal_iff_root_matches {a : Value} (leaf : a.isTable = false) (b : Value) :
    a.equal b = true ↔ a.root.Matches b.root := by
  cases a with
  | list slots => cases leaf
  | map slots => cases leaf
  | _ => cases b <;> simp [equal, root, Node.Matches]

private theorem forall₂_congr {R S : Value → Value → Prop} {as : List Value}
    (same : ∀ a ∈ as, ∀ b, R a b ↔ S a b) (bs : List Value) :
    List.Forall₂ R as bs ↔ List.Forall₂ S as bs := by
  constructor
  · intro items
    exact ((List.forall₂_and_left as bs).mpr ⟨same, items⟩).imp fun _ b item =>
      (item.1 b).mp item.2
  · intro items
    exact ((List.forall₂_and_left as bs).mpr ⟨same, items⟩).imp fun _ b item =>
      (item.1 b).mpr item.2

theorem equal_iff_alike (a b : Value) : a.equal b = true ↔ Alike a b := by
  induction a generalizing b with
  | list slots inductionHypothesis =>
      cases b with
      | list slots' =>
          rw [equal_list_iff, alike_list]
          exact forall₂_congr inductionHypothesis slots'
      | _ => exact ⟨nofun, fun alike => nomatch alike.root_matches⟩
  | map slots inductionHypothesis =>
      cases b with
      | map slots' =>
          rw [equal_map_iff, alike_map]
          exact and_congr_right fun _ => forall₂_congr inductionHypothesis _
      | _ => exact ⟨nofun, fun alike => nomatch alike.root_matches⟩
  | _ =>
      rw [equal_iff_root_matches rfl, alike_iff_root_matches rfl]

private theorem Node.matches_comm (x y : Node) : x.Matches y ↔ y.Matches x := by
  cases x with
  | float32 x =>
      cases y with
      | float32 y => simp only [Matches, Single.near_comm]
      | _ => exact ⟨nofun, nofun⟩
  | _ =>
      cases y with
      | float32 y => exact ⟨nofun, nofun⟩
      | _ => exact eq_comm

private theorem alike_comm (a b : Value) : Alike a b ↔ Alike b a := by
  have reversed : ∀ {a b : Value}, Alike a b → Alike b a := by
    intro a b alike path
    have here := alike path
    generalize a.node? path = nodeA, b.node? path = nodeB at here ⊢
    cases here with
    | none => exact Option.Rel.none
    | some matching => exact Option.Rel.some ((Node.matches_comm _ _).mp matching)
  exact ⟨reversed, reversed⟩

private theorem equal_comm (a b : Value) : a.equal b = b.equal a := by
  rw [Bool.eq_iff_iff, equal_iff_alike, equal_iff_alike, alike_comm]

mutual

private theorem copy_eq : (value : Value) → value.copy = value
  | .none => rfl
  | .retVal _ => rfl
  | .uint32 _ => rfl
  | .int32 _ => rfl
  | .float32 _ => rfl
  | .str _ => rfl
  | .list slots => congrArg list (copyItems_eq slots)
  | .map slots => congrArg map (copySlots_eq slots)

private theorem copyItems_eq : (slots : List Value) → copyItems slots = slots
  | [] => rfl
  | item :: rest => congrArg₂ List.cons (copy_eq item) (copyItems_eq rest)

private theorem copySlots_eq : (slots : List (Option String × Value)) → copySlots slots = slots
  | [] => rfl
  | (key, value) :: rest =>
    congrArg₂ List.cons (congrArg (Prod.mk key) (copy_eq value)) (copySlots_eq rest)

end

private theorem Node.matches_self_iff (node : Node) :
    node.Matches node ↔ ∀ x, node = .float32 x → x.near x = true := by
  cases node with
  | float32 x => exact ⟨fun near _ same => Node.float32.inj same ▸ near, fun near => near x rfl⟩
  | _ => exact ⟨fun _ => nofun, fun _ => rfl⟩

private theorem root_eq_float32 {value : Value} {x : Single} :
    value.root = .float32 x ↔ value = .float32 x := by
  cases value <;> simp [root]

/-- A value is like itself as far as its floating-point leaves are near themselves. -/
theorem alike_self_iff (a : Value) :
    Alike a a ↔ ∀ path x, a.at? path = some (.float32 x) → x.near x = true := by
  constructor
  · intro alike path x found
    have here := alike path
    rw [node?, found] at here
    cases here with
    | some near => exact near
  · intro near path
    cases found : a.at? path with
    | none =>
        rw [node?, found]
        exact Option.Rel.none
    | some value =>
        rw [node?, found]
        refine Option.Rel.some ((Node.matches_self_iff _).mpr fun x float => ?_)
        rw [root_eq_float32] at float
        exact near path x (found.trans (congrArg some float))

private theorem equal_copy_iff (a : Value) :
    a.equal a.copy = true ↔ ∀ path x, a.at? path = some (.float32 x) → x.near x = true := by
  rw [copy_eq, equal_iff_alike, alike_self_iff]

/-- Equality is likeness of trees up to nearness of the numbers at their leaves.  It holds both ways
round, and a copy equals its original exactly if every floating-point leaf is near itself. -/
theorem equal_structural (a b : Value) :
    (a.equal b = true ↔ Alike a b) ∧ a.equal b = b.equal a ∧
      (a.equal a.copy = true ↔
        ∀ path x, a.at? path = some (.float32 x) → x.near x = true) ∧
      ((∀ path x, a.at? path ≠ some (.float32 x)) → a.equal a.copy = true) := by
  refine ⟨equal_iff_alike a b, equal_comm a b, equal_copy_iff a, fun noFloat => ?_⟩
  exact (equal_copy_iff a).mpr fun path x found => absurd found (noFloat path x)

theorem equal_structural_singleton :
    (∀ path x, (list [.uint32 7]).at? path ≠ some (.float32 x)) ∧
      (list [.uint32 7]).equal (list [.uint32 7]).copy = true := by
  have noFloat : ∀ path x, (list [.uint32 7]).at? path ≠ some (.float32 x) := by
    intro path x found
    match path with
    | [] => cases found
    | .key name :: rest => cases found
    | [.slot 0] => cases found
    | .slot 0 :: step :: rest => cases step <;> cases found
    | .slot (index + 1) :: rest => cases found
  exact ⟨noFloat, (equal_structural _ .none).2.2.2 noFloat⟩

end Microkernel.Value
