import Microkernel.Value.Table

/-!
# Slots after a write

What the slots of lists and maps hold after one of them has been overwritten.  A write under a key
takes no key away, and a write at a position leaves every other position alone.
-/

namespace Microkernel.Value

theorem lookup_assign (key name : String) (item : Value)
    (slots : List (Option String × Value)) :
    lookup name (assign key item slots) =
      if name = key then (lookup key slots).map fun _ => item else lookup name slots := by
  induction slots with
  | nil =>
      simp [lookup, assign]
  | cons slot rest inductionHypothesis =>
      obtain ⟨slotKey, value⟩ := slot
      by_cases slotIsKey : slotKey = some key
      · subst slotIsKey
        by_cases same : name = key
        · simp [lookup, assign, same]
        · simp [lookup, assign, same, Ne.symm same]
      · by_cases slotIsName : slotKey = some name
        · have different : name ≠ key := by
            rintro rfl
            exact slotIsKey slotIsName
          simp [lookup, assign, slotIsName, different]
        · simp only [lookup, assign, if_neg slotIsKey, if_neg slotIsName, inductionHypothesis]

theorem mapFind?_mapPut (value : Value) (key name : String) (item : Value) :
    (value.mapPut key item).mapFind? name =
      if name = key then (value.mapFind? key).map fun _ => item else value.mapFind? name := by
  cases value with
  | map slots =>
      exact lookup_assign key name item slots
  | _ =>
      simp [mapPut, mapFind?]

/-- A value is found under a key after a write exactly if one was found there before. -/
theorem isSome_mapFind?_mapPut (value : Value) (key name : String) (item : Value) :
    ((value.mapPut key item).mapFind? name).isSome = (value.mapFind? name).isSome := by
  rw [mapFind?_mapPut]
  split
  · next same => rw [Option.isSome_map, same]
  · rfl

theorem map_fst_assign (key : String) (item : Value) (slots : List (Option String × Value)) :
    (assign key item slots).map Prod.fst = slots.map Prod.fst := by
  induction slots with
  | nil =>
      rfl
  | cons slot rest inductionHypothesis =>
      obtain ⟨slotKey, value⟩ := slot
      by_cases slotIsKey : slotKey = some key
      · simp [assign, slotIsKey]
      · simp [assign, slotIsKey, inductionHypothesis]

theorem lookup_eq_none_iff (key : String) (slots : List (Option String × Value)) :
    lookup key slots = Option.none ↔ some key ∉ slots.map Prod.fst := by
  induction slots with
  | nil =>
      simp [lookup]
  | cons slot rest inductionHypothesis =>
      obtain ⟨slotKey, value⟩ := slot
      by_cases slotIsKey : slotKey = some key
      · simp [lookup, slotIsKey]
      · rw [lookup, if_neg slotIsKey, inductionHypothesis, List.map_cons, List.mem_cons, not_or]
        exact ⟨fun absent => ⟨Ne.symm slotIsKey, absent⟩, And.right⟩

theorem claim?_eq_none_iff (key : String) (item : Value) (slots : List (Option String × Value)) :
    claim? key item slots = Option.none ↔ Option.none ∉ slots.map Prod.fst := by
  induction slots with
  | nil =>
      simp [claim?]
  | cons slot rest inductionHypothesis =>
      obtain ⟨slotKey, value⟩ := slot
      cases slotKey with
      | none => simp [claim?]
      | some other => simp [claim?, inductionHypothesis]

/-- The first free slot is the one that comes right after the keys. -/
theorem map_fst_claim? {keys : List String} {spare : Nat} {slots : List (Option String × Value)}
    (fst_eq : slots.map Prod.fst = keys.map some ++ List.replicate (spare + 1) Option.none)
    (key : String) (item : Value) :
    ∃ slots', claim? key item slots = some slots' ∧
      slots'.map Prod.fst = (keys ++ [key]).map some ++ List.replicate spare Option.none := by
  induction keys generalizing slots with
  | nil =>
      obtain ⟨slot, rest, rfl, free, restEq⟩ := List.map_eq_cons_iff.mp fst_eq
      obtain ⟨slotKey, value⟩ := slot
      subst free
      exact ⟨_, rfl, congrArg (some key :: ·) restEq⟩
  | cons first keys inductionHypothesis =>
      obtain ⟨slot, rest, rfl, taken, restEq⟩ := List.map_eq_cons_iff.mp fst_eq
      obtain ⟨slotKey, value⟩ := slot
      subst taken
      obtain ⟨rest', restClaimed, restEq'⟩ := inductionHypothesis restEq
      refine ⟨(some first, value) :: rest', ?_, congrArg (some first :: ·) restEq'⟩
      rw [claim?, restClaimed]
      rfl

/-- Claiming a slot makes one key known that was not. -/
theorem lookup_claim? {key : String} {item : Value} {slots slots' : List (Option String × Value)}
    (absent : lookup key slots = Option.none) (claimed : claim? key item slots = some slots')
    (name : String) :
    lookup name slots' = if name = key then some item else lookup name slots := by
  induction slots generalizing slots' with
  | nil =>
      cases claimed
  | cons slot rest inductionHypothesis =>
      obtain ⟨slotKey, value⟩ := slot
      cases slotKey with
      | none =>
          cases claimed
          simp [lookup, eq_comm]
      | some other =>
          obtain ⟨rest', restClaimed, rfl⟩ := Option.map_eq_some_iff.mp claimed
          have different : other ≠ key := by
            rintro rfl
            simp [lookup] at absent
          have restAbsent : lookup key rest = Option.none := by
            simpa [lookup, different] using absent
          simp only [lookup, Option.some.injEq, inductionHypothesis restAbsent restClaimed]
          by_cases same : name = key
          · simp [same, different]
          · simp [same]

private theorem distinct_cons {slot : Option String × Value} {rest : List (Option String × Value)}
    (distinct : ((slot :: rest).filterMap Prod.fst).Nodup) :
    (rest.filterMap Prod.fst).Nodup ∧
      ∀ (key : String) (value : Value), (some key, value) ∈ rest → slot.1 ≠ some key := by
  refine ⟨distinct.sublist ((List.sublist_cons_self slot rest).filterMap Prod.fst), ?_⟩
  intro key value later slotIsKey
  have repeated : key ∈ rest.filterMap Prod.fst := List.mem_filterMap.mpr ⟨_, later, rfl⟩
  rw [List.filterMap_cons_some slotIsKey] at distinct
  exact (List.nodup_cons.mp distinct).1 repeated

/-- Where no key is repeated, each slot with a key is the one that is found. -/
theorem lookup_of_getElem? {key : String} {value : Value} {slots : List (Option String × Value)}
    {index : Nat} (distinct : (slots.filterMap Prod.fst).Nodup)
    (here : slots[index]? = some (some key, value)) : lookup key slots = some value := by
  induction slots generalizing index with
  | nil =>
      cases here
  | cons slot rest inductionHypothesis =>
      obtain ⟨distinct', notLater⟩ := distinct_cons distinct
      cases index with
      | zero =>
          cases here
          exact if_pos rfl
      | succ index =>
          have later : rest[index]? = some (some key, value) := here
          rw [lookup, if_neg (notLater key value (List.mem_of_getElem? later))]
          exact inductionHypothesis distinct' later

theorem map_fst_modify (item : Value) (slots : List (Option String × Value)) (index : Nat) :
    (slots.modify index fun slot => (slot.1, item)).map Prod.fst = slots.map Prod.fst := by
  induction slots generalizing index with
  | nil =>
      simp
  | cons slot rest inductionHypothesis =>
      cases index with
      | zero => rfl
      | succ index => simp [inductionHypothesis]

/-- Where no key is repeated, a value that is written at a position is found under the key of its
slot, and a slot without a key is not found at all. -/
theorem lookup_modify {slotKey : Option String} {old : Value}
    {slots : List (Option String × Value)} {index : Nat}
    (distinct : (slots.filterMap Prod.fst).Nodup) (here : slots[index]? = some (slotKey, old))
    (item : Value) (name : String) :
    lookup name (slots.modify index fun slot => (slot.1, item)) =
      if slotKey = some name then some item else lookup name slots := by
  induction slots generalizing index with
  | nil =>
      cases here
  | cons slot rest inductionHypothesis =>
      obtain ⟨distinct', notLater⟩ := distinct_cons distinct
      cases index with
      | zero =>
          cases here
          simp only [List.modify_zero_cons, lookup]
          split
          · rfl
          · rfl
      | succ index =>
          have later : rest[index]? = some (slotKey, old) := here
          simp only [List.modify_succ_cons, lookup, inductionHypothesis distinct' later]
          by_cases headIsName : slot.1 = some name
          · -- The key of the first slot does not come again.
            have different : slotKey ≠ some name := by
              rintro rfl
              exact notLater name old (List.mem_of_getElem? later) headIsName
            simp [headIsName, different]
          · simp [headIsName]

/-- The value under a key is that of the first slot with the key. -/
theorem lookup_eq_getElem? (key : String) (slots : List (Option String × Value)) :
    lookup key slots =
      ((slots.map Prod.fst).findIdx? (· == some key)).bind fun index =>
        slots[index]?.map Prod.snd := by
  induction slots with
  | nil =>
      rfl
  | cons slot rest inductionHypothesis =>
      obtain ⟨slotKey, value⟩ := slot
      by_cases slotIsKey : slotKey = some key
      · simp [lookup, List.findIdx?_cons, slotIsKey]
      · simp [lookup, List.findIdx?_cons, slotIsKey, inductionHypothesis, Option.bind_map,
          Function.comp_def]

/-- An assignment writes the first slot with the key. -/
theorem getElem?_assign (key : String) (item : Value) (slots : List (Option String × Value))
    (index : Nat) :
    (assign key item slots)[index]? =
      if (slots.map Prod.fst).findIdx? (· == some key) = some index then some (some key, item)
      else slots[index]? := by
  induction slots generalizing index with
  | nil =>
      rfl
  | cons slot rest inductionHypothesis =>
      obtain ⟨slotKey, value⟩ := slot
      by_cases slotIsKey : slotKey = some key
      · cases index with
        | zero => simp [assign, List.findIdx?_cons, slotIsKey]
        | succ index => simp [assign, List.findIdx?_cons, slotIsKey]
      · cases index with
        | zero => simp [assign, List.findIdx?_cons, slotIsKey]
        | succ index =>
            simp [assign, List.findIdx?_cons, slotIsKey, inductionHypothesis]

theorem listGet?_listPut_self {value old : Value} {index : Nat}
    (found : value.listGet? index = some old) (item : Value) :
    (value.listPut index item).listGet? index = some item := by
  cases value with
  | list slots => exact List.getElem?_set_self (List.getElem?_eq_some_iff.mp found).1
  | _ => cases found

theorem listGet?_listPut_of_ne (value item : Value) {position index : Nat}
    (different : position ≠ index) :
    (value.listPut position item).listGet? index = value.listGet? index := by
  cases value with
  | list slots =>
      exact List.getElem?_set_ne different
  | _ =>
      rfl

end Microkernel.Value
