import Microkernel.Proofs.Value.Table

/-!
# A map is a finite map of fixed capacity

A map that starts with free slots only is filled under keys, and its values are assigned to, both
under a key and behind its back at a position.  Beside the map stands what was done to it: the keys
in the order of their first insertion and everything that was stored under a key, the latest first.
Whatever is done, the keys keep to the first slots, each in one slot only, an insertion is refused
for lack of a free slot and for nothing else, and the value found under a key is the one that was
stored last.  A value assigned to a slot without a key belongs to nobody: the key that claims the
slot brings its own.
-/

namespace Microkernel.Value

/-- What is done to a map. -/
inductive MapAction where
  /-- Store under a key, new or not. -/
  | set (key : String) (item : Value)
  /-- Assign to the value found under a key. -/
  | put (key : String) (item : Value)
  /-- Assign to the value of the slot at a position. -/
  | putValue (index : Nat) (item : Value)

/-- A map with what was done to it. -/
structure MapHistory where
  map : Value
  /-- The keys that were set, in the order in which they first were. -/
  keys : List String
  /-- What was stored under which key, the latest first. -/
  stores : List (String × Value)

namespace MapHistory

def start (capacity : Nat) : MapHistory :=
  ⟨freshMap capacity, [], []⟩

/-- A refused insertion does nothing, and neither does an assignment to a key that is absent.  An
assignment at a position is stored under the key of its slot, if the slot has one. -/
def step (history : MapHistory) : MapAction → MapHistory
  | .set key item =>
    match history.map.mapSet key item with
    | .ok map =>
      ⟨map, if key ∈ history.keys then history.keys else history.keys ++ [key],
        (key, item) :: history.stores⟩
    | .error _ => history
  | .put key item =>
    ⟨history.map.mapPut key item, history.keys,
      if (history.map.mapFind? key).isSome then (key, item) :: history.stores
      else history.stores⟩
  | .putValue index item =>
    ⟨history.map.mapPutValue index item, history.keys,
      match history.map.mapKey? index with
      | some (.str key) => (key, item) :: history.stores
      | _ => history.stores⟩

def run (capacity : Nat) (actions : List MapAction) : MapHistory :=
  actions.foldl step (start capacity)

/-- The map is the finite map that its history says it is. -/
structure Faithful (capacity : Nat) (history : MapHistory) : Prop where
  size_eq : history.map.kind = .map ∧ history.map.size = capacity
  /-- There are as many keys as slots, free ones included. -/
  mapKey?_isSome : ∀ index, (history.map.mapKey? index).isSome ↔ index < capacity
  /-- There are as many values as slots. -/
  mapValue?_isSome : ∀ index, (history.map.mapValue? index).isSome ↔ index < capacity
  keys_nodup : history.keys.Nodup
  keys_length : history.keys.length ≤ capacity
  /-- The keys take the first slots in order, the other slots have none. -/
  mapKey?_eq : ∀ index < capacity,
    history.map.mapKey? index = some ((history.keys[index]?.map Value.str).getD .none)
  /-- An insertion succeeds for a key that is there and as long as there is room. -/
  mapSet_ok : ∀ key item, (∃ map, history.map.mapSet key item = .ok map) ↔
    key ∈ history.keys ∨ history.keys.length < capacity
  /-- Otherwise the map is full, and stays as it is. -/
  mapSet_full : ∀ key item, ¬ (key ∈ history.keys ∨ history.keys.length < capacity) →
    history.map.mapSet key item = .error (.tableFull capacity) ∧
      history.step (.set key item) = history
  mapFind?_eq_none : ∀ key, history.map.mapFind? key = Option.none ↔ key ∉ history.keys
  /-- What is found is what was stored last. -/
  mapFind?_eq : ∀ key, history.map.mapFind? key = history.stores.lookup key
  /-- A key and the value that is found under it stand in the same slot. -/
  mapValue?_eq : ∀ index key, history.keys[index]? = some key →
    history.map.mapValue? index = history.map.mapFind? key

/-- The slots of a map with these keys. -/
structure Filled (capacity : Nat) (keys : List String) (slots : List (Option String × Value)) :
    Prop where
  nodup : keys.Nodup
  length_le : keys.length ≤ capacity
  fst_eq : slots.map Prod.fst =
    keys.map some ++ List.replicate (capacity - keys.length) Option.none

namespace Filled

variable {capacity : Nat} {keys : List String} {slots : List (Option String × Value)}

theorem fresh (capacity : Nat) :
    Filled capacity [] (List.replicate capacity (Option.none, Value.none)) :=
  ⟨List.nodup_nil, Nat.zero_le capacity, by simp⟩

private theorem of_fst (filled : Filled capacity keys slots) {slots' : List (Option String × Value)}
    (same : slots'.map Prod.fst = slots.map Prod.fst) : Filled capacity keys slots' :=
  ⟨filled.nodup, filled.length_le, same.trans filled.fst_eq⟩

theorem length_eq (filled : Filled capacity keys slots) : slots.length = capacity := by
  have lengths := congrArg List.length filled.fst_eq
  simp only [List.length_map, List.length_append, List.length_replicate] at lengths
  rw [lengths, Nat.add_sub_cancel' filled.length_le]

private theorem lookup_eq_none (filled : Filled capacity keys slots) (key : String) :
    lookup key slots = Option.none ↔ key ∉ keys := by
  rw [lookup_eq_none_iff, filled.fst_eq]
  simp

theorem distinct (filled : Filled capacity keys slots) : (slots.filterMap Prod.fst).Nodup := by
  have keysEq : slots.filterMap Prod.fst = keys := by
    have mapped : (slots.map Prod.fst).filterMap id = keys := by
      rw [filled.fst_eq]
      simp
    simpa using mapped
  rw [keysEq]
  exact filled.nodup

private theorem exists_slot (filled : Filled capacity keys slots) {index : Nat}
    (inRange : index < capacity) : ∃ value, slots[index]? = some (keys[index]?, value) := by
  have slotKey : (slots.map Prod.fst)[index]? = some keys[index]? := by
    rw [filled.fst_eq]
    rcases Nat.lt_or_ge index keys.length with taken | free
    · rw [List.getElem?_append_left (by simpa using taken)]
      simp [taken]
    · rw [List.getElem?_append_right (by simpa using free)]
      simp only [List.length_map, List.getElem?_eq_none free]
      rw [List.getElem?_replicate_of_lt (by omega)]
  rw [List.getElem?_map] at slotKey
  obtain ⟨⟨key, value⟩, found, keyEq⟩ := Option.map_eq_some_iff.mp slotKey
  subst keyEq
  exact ⟨value, found⟩

private theorem claim?_eq_some (filled : Filled capacity keys slots) {key : String}
    (new : key ∉ keys)
    (room : keys.length < capacity) (item : Value) :
    ∃ slots', claim? key item slots = some slots' ∧ Filled capacity (keys ++ [key]) slots' := by
  have fst_eq := filled.fst_eq
  rw [show capacity - keys.length = capacity - (keys ++ [key]).length + 1 by
    rw [List.length_append, List.length_singleton]; omega] at fst_eq
  obtain ⟨slots', claimed, fst_eq'⟩ := map_fst_claim? fst_eq key item
  refine ⟨slots', claimed, ?_, ?_, fst_eq'⟩
  · have notKey : ∀ other ∈ keys, ¬ other = key := by
      rintro other member rfl
      exact new member
    simpa [List.nodup_append, filled.nodup] using notKey
  · rw [List.length_append]
    exact room

private theorem claim?_eq_none (filled : Filled capacity keys slots) (full : capacity ≤ keys.length)
    (key : String) (item : Value) : claim? key item slots = Option.none := by
  rw [claim?_eq_none_iff, filled.fst_eq, Nat.sub_eq_zero_of_le full]
  simp

/-- An insertion under a key that is there writes in place, one under a new key claims a slot. -/
theorem mapSet_eq_ok (filled : Filled capacity keys slots) (key : String) (item : Value)
    (accepted : key ∈ keys ∨ keys.length < capacity) :
    ∃ slots', (Value.map slots).mapSet key item = .ok (.map slots') ∧
      Filled capacity (if key ∈ keys then keys else keys ++ [key]) slots' ∧
      ∀ name, lookup name slots' = if name = key then some item else lookup name slots := by
  by_cases present : key ∈ keys
  · rw [if_pos present]
    cases found : lookup key slots with
    | none => exact absurd present ((filled.lookup_eq_none key).mp found)
    | some old =>
        refine ⟨assign key item slots, by simp [mapSet, found], ?_, fun name => ?_⟩
        · exact filled.of_fst (map_fst_assign key item slots)
        · rw [lookup_assign, found]
          rfl
  · rw [if_neg present]
    have absent := (filled.lookup_eq_none key).mpr present
    obtain ⟨slots', claimed, filled'⟩ :=
      filled.claim?_eq_some present (accepted.resolve_left present) item
    exact ⟨slots', by simp [mapSet, absent, claimed], filled', lookup_claim? absent claimed⟩

private theorem mapSet_eq_error (filled : Filled capacity keys slots) (key : String) (item : Value)
    (refused : ¬ (key ∈ keys ∨ keys.length < capacity)) :
    (Value.map slots).mapSet key item = .error (.tableFull capacity) := by
  obtain ⟨new, full⟩ := not_or.mp refused
  have absent := (filled.lookup_eq_none key).mpr new
  have noSlot := filled.claim?_eq_none (Nat.le_of_not_lt full) key item
  simp [mapSet, absent, noSlot, filled.length_eq]

end Filled

/-- The map has the keys that were set and finds what was stored last. -/
structure Kept (capacity : Nat) (history : MapHistory) (slots : List (Option String × Value)) :
    Prop where
  map_eq : history.map = .map slots
  filled : Filled capacity history.keys slots
  lookup_eq : ∀ name, lookup name slots = history.stores.lookup name

namespace Kept

variable {capacity : Nat} {history : MapHistory} {slots : List (Option String × Value)}

theorem start (capacity : Nat) :
    Kept capacity (start capacity) (List.replicate capacity (Option.none, Value.none)) where
  map_eq := rfl
  filled := Filled.fresh capacity
  lookup_eq name := by
    rw [(Filled.fresh capacity).lookup_eq_none name |>.mpr List.not_mem_nil]
    rfl

private theorem lookup_cons (kept : Kept capacity history slots) {key : String} {item : Value}
    {slots' : List (Option String × Value)}
    (written : ∀ name, lookup name slots' = if name = key then some item else lookup name slots)
    (name : String) : lookup name slots' = ((key, item) :: history.stores).lookup name := by
  rw [written, List.lookup_cons, kept.lookup_eq]
  by_cases same : name = key
  · simp [same]
  · rw [if_neg same, beq_eq_false_iff_ne.mpr same]

private theorem step_set (kept : Kept capacity history slots) (key : String) (item : Value) :
    ∃ slots', Kept capacity (history.step (.set key item)) slots' := by
  by_cases accepted : key ∈ history.keys ∨ history.keys.length < capacity
  · obtain ⟨slots', done, filled', written⟩ := kept.filled.mapSet_eq_ok key item accepted
    refine ⟨slots', ?_⟩
    simp only [step, kept.map_eq, done]
    exact ⟨rfl, filled', kept.lookup_cons written⟩
  · have refused := kept.filled.mapSet_eq_error key item accepted
    refine ⟨slots, ?_⟩
    simp only [step, kept.map_eq, refused]
    exact kept

private theorem step_put (kept : Kept capacity history slots) (key : String) (item : Value) :
    ∃ slots', Kept capacity (history.step (.put key item)) slots' := by
  have filled' := kept.filled.of_fst (map_fst_assign key item slots)
  refine ⟨assign key item slots, ?_⟩
  simp only [step, kept.map_eq, mapPut, mapFind?]
  cases found : lookup key slots with
  | none =>
      refine ⟨rfl, filled', fun name => ?_⟩
      rw [lookup_assign, found]
      by_cases same : name = key
      · rw [if_pos same, same]
        exact found.symm.trans (kept.lookup_eq key)
      · rw [if_neg same]
        exact kept.lookup_eq name
  | some old =>
      refine ⟨rfl, filled', fun name => kept.lookup_cons (fun name => ?_) name⟩
      rw [lookup_assign, found]
      rfl

private theorem step_putValue (kept : Kept capacity history slots) (index : Nat) (item : Value) :
    ∃ slots', Kept capacity (history.step (.putValue index item)) slots' := by
  have filled' := kept.filled.of_fst (map_fst_modify item slots index)
  refine ⟨slots.modify index fun slot => (slot.1, item), ?_⟩
  simp only [step, kept.map_eq, mapPutValue, mapKey?]
  cases here : slots[index]? with
  | none =>
      refine ⟨rfl, filled', fun name => ?_⟩
      rw [List.modify_eq_self (List.getElem?_eq_none_iff.mp here)]
      exact kept.lookup_eq name
  | some slot =>
      obtain ⟨slotKey, old⟩ := slot
      have written := lookup_modify kept.filled.distinct here item
      cases slotKey with
      | none => exact ⟨rfl, filled', fun name => (written name).trans (kept.lookup_eq name)⟩
      | some key =>
          refine ⟨rfl, filled', fun name => kept.lookup_cons (fun name => ?_) name⟩
          simpa [eq_comm] using written name

theorem step (kept : Kept capacity history slots) (action : MapAction) :
    ∃ slots', Kept capacity (history.step action) slots' := by
  cases action with
  | set key item => exact kept.step_set key item
  | put key item => exact kept.step_put key item
  | putValue index item => exact kept.step_putValue index item

theorem run (kept : Kept capacity history slots) (actions : List MapAction) :
    ∃ slots', Kept capacity (actions.foldl MapHistory.step history) slots' := by
  induction actions generalizing history slots with
  | nil =>
      exact ⟨slots, kept⟩
  | cons action rest inductionHypothesis =>
      obtain ⟨slots', kept'⟩ := kept.step action
      exact inductionHypothesis kept'

theorem faithful (kept : Kept capacity history slots) : Faithful capacity history where
  size_eq := by
    rw [kept.map_eq]
    exact ⟨rfl, kept.filled.length_eq⟩
  mapKey?_isSome index := by
    simp [kept.map_eq, mapKey?, kept.filled.length_eq]
  mapValue?_isSome index := by
    simp [kept.map_eq, mapValue?, kept.filled.length_eq]
  keys_nodup := kept.filled.nodup
  keys_length := kept.filled.length_le
  mapKey?_eq index inRange := by
    obtain ⟨value, found⟩ := kept.filled.exists_slot inRange
    simp [kept.map_eq, mapKey?, found]
  mapSet_ok key item := by
    rw [kept.map_eq]
    constructor
    · rintro ⟨map, done⟩
      by_cases accepted : key ∈ history.keys ∨ history.keys.length < capacity
      · exact accepted
      · rw [kept.filled.mapSet_eq_error key item accepted] at done
        cases done
    · intro accepted
      obtain ⟨slots', done, _⟩ := kept.filled.mapSet_eq_ok key item accepted
      exact ⟨_, done⟩
  mapSet_full key item refused := by
    have full := kept.filled.mapSet_eq_error key item refused
    rw [← kept.map_eq] at full
    refine ⟨full, ?_⟩
    rw [MapHistory.step, full]
  mapFind?_eq_none key := by
    rw [kept.map_eq]
    exact kept.filled.lookup_eq_none key
  mapFind?_eq key := by
    rw [kept.map_eq]
    exact kept.lookup_eq key
  mapValue?_eq index key keyHere := by
    obtain ⟨taken, _⟩ := List.getElem?_eq_some_iff.mp keyHere
    obtain ⟨value, found⟩ :=
      kept.filled.exists_slot (Nat.lt_of_lt_of_le taken kept.filled.length_le)
    rw [keyHere] at found
    have lookedUp := lookup_of_getElem? kept.filled.distinct found
    simp [kept.map_eq, mapValue?, mapFind?, found, lookedUp]

end Kept

/-- Whatever is done to a map of fixed capacity, it remains the finite map of its history. -/
theorem run_faithful (capacity : Nat) (actions : List MapAction) :
    Faithful capacity (run capacity actions) := by
  obtain ⟨slots, kept⟩ := (Kept.start capacity).run actions
  exact kept.faithful

end MapHistory

end Microkernel.Value
