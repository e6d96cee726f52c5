import Mathlib.Data.List.DropRight
import Mathlib.Data.List.FinRange
import Mathlib.Data.List.Iterate
import Microkernel.Proofs.Process.Slots

/-!
# Going round the table

The cursor comes to the slots in a fixed order, the order of `ahead`.  A walk passes the slots that
are not runnable, empties the dying ones among them, and stops on the first runnable one.  An
interrupt of the timer makes no slot runnable and none unrunnable, so a run of interrupts meets the
runnable slots one after the other.
-/

namespace Microkernel.ProcessTable

open Memory (Allocator)

/-- The slots that a cursor comes to in some steps, in the order in which it comes to them. -/
def ahead (steps : Nat) (cursor : Pid) : List Pid :=
  List.iterate nextSlot (nextSlot cursor) steps

/-- Once round the table: the slots after the cursor and, last, the slot under it. -/
def lap (cursor : Pid) : List Pid :=
  ahead maxProcesses cursor

/-- The slots of a lap up to the last runnable one. -/
def round (table : ProcessTable) : List Pid :=
  (lap table.current).rdropWhile fun pid => !table.slots[pid].isRunnable

def runnableCount (table : ProcessTable) : Nat :=
  table.slots.toList.countP Process.isRunnable

/-- The slots after some of them were emptied. -/
def reap (slots : Vector Process maxProcesses) (dead : List Pid) : Vector Process maxProcesses :=
  dead.foldl (fun slots (pid : Pid) => slots.put pid .empty) slots

/-- The allocator after the memory of some slots was given back, in the order of the list. -/
def releaseAll (slots : Vector Process maxProcesses) (dead : List Pid) (memory : Allocator) :
    Allocator :=
  dead.foldl (fun memory pid => releaseBlock memory slots[pid].base) memory

def dyingOf (slots : Vector Process maxProcesses) (pids : List Pid) : List Pid :=
  pids.filter fun pid => slots[pid].isDying

def runnableOf (slots : Vector Process maxProcesses) (pids : List Pid) : List Pid :=
  pids.filter fun pid => slots[pid].isRunnable

/-- The slots that a timer interrupt reclaims, in the order in which it does. -/
def reclaims (table : ProcessTable) (memory : Allocator) (frame : TrapFrame) : List Pid :=
  if table.activeCount < 2 then [] else (table.turn memory frame).reclaimed

theorem ahead_succ (steps : Nat) (cursor : Pid) :
    ahead (steps + 1) cursor = nextSlot cursor :: ahead steps (nextSlot cursor) :=
  rfl

private theorem ahead_add (few more : Nat) (cursor : Pid) :
    ahead (few + more) cursor = ahead few cursor ++ ahead more (nextSlot^[few] cursor) := by
  rw [ahead, List.iterate_add, ← Function.iterate_succ_apply, Function.iterate_succ_apply']
  rfl

theorem length_ahead (steps : Nat) (cursor : Pid) : (ahead steps cursor).length = steps :=
  List.length_iterate nextSlot (nextSlot cursor) steps

private theorem ahead_extends {few many : Nat} (le : few ≤ many) (cursor : Pid) :
    ahead few cursor <+: ahead many cursor := by
  have taken := List.take_iterate nextSlot (nextSlot cursor) few many
  rw [Nat.min_eq_left le] at taken
  rw [ahead, ← taken]
  exact List.take_prefix few _

/-- What follows a slot in the order is the order from that slot on. -/
theorem ahead_after {steps : Nat} {cursor pid : Pid} {passed rest : List Pid}
    (split : ahead steps cursor = passed ++ pid :: rest) : rest = ahead rest.length pid := by
  induction passed generalizing steps cursor with
  | nil =>
      cases steps with
      | zero =>
          cases split
      | succ steps =>
          rw [ahead_succ, List.nil_append, List.cons.injEq] at split
          obtain ⟨rfl, rfl⟩ := split
          rw [length_ahead]
  | cons first passed inductionHypothesis =>
      cases steps with
      | zero =>
          cases split
      | succ steps =>
          rw [ahead_succ, List.cons_append, List.cons.injEq] at split
          exact inductionHypothesis split.2

private theorem lap_perm (cursor : Pid) : (lap cursor).Perm (List.finRange maxProcesses) := by
  revert cursor
  decide +kernel

theorem lap_nodup (cursor : Pid) : (lap cursor).Nodup :=
  (lap_perm cursor).nodup_iff.mpr (List.nodup_finRange maxProcesses)

theorem mem_lap (cursor pid : Pid) : pid ∈ lap cursor :=
  (lap_perm cursor).mem_iff.mpr (List.mem_finRange pid)

theorem lap_getLast? (cursor : Pid) : (lap cursor).getLast? = some cursor := by
  revert cursor
  decide +kernel

private theorem ahead_nodup {steps : Nat} (within : steps ≤ maxProcesses) (cursor : Pid) :
    (ahead steps cursor).Nodup :=
  (lap_nodup cursor).sublist (ahead_extends within cursor).sublist

theorem length_runnableOf_lap (table : ProcessTable) (cursor : Pid) :
    (runnableOf table.slots (lap cursor)).length = table.runnableCount := by
  have counted := (lap_perm cursor).countP_eq fun pid => table.slots[pid].isRunnable
  rw [runnableCount, toList_eq_map, List.countP_map, runnableOf, ← List.countP_eq_length_filter,
    counted]
  rfl

theorem runnableCount_le_activeCount (table : ProcessTable) :
    table.runnableCount ≤ table.activeCount := by
  apply List.countP_mono_left
  intro process _ runnable
  rw [Process.isRunnable, Bool.and_eq_true] at runnable
  exact runnable.1

theorem round_extends (table : ProcessTable) : table.round <+: lap table.current :=
  List.rdropWhile_prefix _ _

theorem ahead_round (table : ProcessTable) :
    ahead table.round.length table.current = table.round := by
  have within := (round_extends table).length_le
  rw [lap, length_ahead] at within
  have taken := List.take_iterate nextSlot (nextSlot table.current) table.round.length maxProcesses
  rw [Nat.min_eq_left within] at taken
  exact taken.symm.trans (List.prefix_iff_eq_take.mp (round_extends table)).symm

theorem round_ends {table : ProcessTable} {last : Pid} (isLast : table.round.getLast? = some last) :
    table.slots[last].isRunnable = true := by
  obtain ⟨notNil, rfl⟩ := List.mem_getLast?_eq_getLast isLast
  have kept := List.rdropWhile_last_not _ _ notNil
  apply Bool.eq_true_of_not_eq_false
  intro idle
  exact kept (congrArg not idle)

theorem runnableOf_round (table : ProcessTable) :
    runnableOf table.slots table.round = runnableOf table.slots (lap table.current) := by
  let isIdle := fun pid : Pid => !table.slots[pid].isRunnable
  have noneBehind : runnableOf table.slots ((lap table.current).rtakeWhile isIdle) = [] := by
    apply List.filter_eq_nil_iff.mpr
    intro pid member
    simpa [isIdle] using List.mem_rtakeWhile_imp member
  have split : table.round ++ (lap table.current).rtakeWhile isIdle = lap table.current :=
    List.rdropWhile_append_rtakeWhile
  rw [← split, runnableOf, runnableOf, List.filter_append]
  exact ((congrArg (_ ++ ·) noneBehind).trans (List.append_nil _)).symm

theorem round_eq_lap {table : ProcessTable}
    (runnable : table.slots[table.current].isRunnable = true) :
    table.round = lap table.current := by
  apply List.rdropWhile_eq_self_iff.mpr
  intro notNil
  have isLast := lap_getLast? table.current
  rw [List.getLast?_eq_getLast_of_ne_nil notNil, Option.some.injEq] at isLast
  rw [isLast, runnable]
  exact Bool.false_ne_true

section Reap

variable {slots : Vector Process maxProcesses} {memory : Allocator} {pid : Pid} {dead : List Pid}

theorem reap_slot_of_notMem (alive : pid ∉ dead) : (reap slots dead)[pid] = slots[pid] := by
  induction dead generalizing slots with
  | nil =>
      rfl
  | cons first dead inductionHypothesis =>
      rw [List.mem_cons, not_or] at alive
      rw [reap, List.foldl_cons]
      exact (inductionHypothesis alive.2).trans (getElem_put_of_ne _ (Ne.symm alive.1))

theorem reap_slot_of_mem (member : pid ∈ dead) : (reap slots dead)[pid] = .empty := by
  induction dead generalizing slots with
  | nil =>
      cases member
  | cons first dead inductionHypothesis =>
      rw [reap, List.foldl_cons]
      by_cases later : pid ∈ dead
      · exact inductionHypothesis later
      · have here : pid = first := (List.mem_cons.mp member).resolve_right later
        subst here
        exact (reap_slot_of_notMem later).trans (getElem_put_self slots pid .empty)

theorem dyingOf_congr {slots slots' : Vector Process maxProcesses} {pids : List Pid}
    (same : ∀ pid ∈ pids, slots'[pid].isDying = slots[pid].isDying) :
    dyingOf slots' pids = dyingOf slots pids :=
  List.filter_congr same

theorem releaseAll_congr {slots slots' : Vector Process maxProcesses} {dead : List Pid}
    (same : ∀ pid ∈ dead, slots'[pid].base = slots[pid].base) (memory : Allocator) :
    releaseAll slots' dead memory = releaseAll slots dead memory := by
  induction dead generalizing memory with
  | nil =>
      rfl
  | cons first dead inductionHypothesis =>
      rw [releaseAll, releaseAll, List.foldl_cons, List.foldl_cons, same first List.mem_cons_self]
      exact inductionHypothesis (fun pid member => same pid (List.mem_cons_of_mem first member)) _

theorem exists_first_runnable {pids : List Pid} (some : 0 < (runnableOf slots pids).length) :
    ∃ passed pid later, pids = passed ++ pid :: later ∧
      (∀ other ∈ passed, slots[other].isRunnable ≠ true) ∧ slots[pid].isRunnable = true := by
  obtain ⟨pid, others, selected⟩ := List.exists_cons_of_length_pos some
  obtain ⟨passed, later, split, idle, runnable, _⟩ := List.filter_eq_cons_iff.mp selected
  exact ⟨passed, pid, later, split, idle, runnable⟩

/-- Among slots of which the first runnable one is known, that one comes first. -/
theorem runnableOf_split {passed later : List Pid}
    (idle : ∀ other ∈ passed, slots[other].isRunnable ≠ true)
    (runnable : slots[pid].isRunnable = true) :
    runnableOf slots (passed ++ pid :: later) = pid :: runnableOf slots later := by
  have noneBefore : runnableOf slots passed = [] := List.filter_eq_nil_iff.mpr idle
  have first : runnableOf slots (pid :: later) = pid :: runnableOf slots later :=
    List.filter_cons_of_pos runnable
  refine (List.filter_append passed (pid :: later)).trans ?_
  exact congrArg₂ List.append noneBefore first

theorem dyingOf_split {passed later : List Pid} (runnable : slots[pid].isRunnable = true) :
    dyingOf slots (passed ++ pid :: later) = dyingOf slots passed ++ dyingOf slots later := by
  have notFirst : dyingOf slots (pid :: later) = dyingOf slots later :=
    List.filter_cons_of_neg (not_isDying_of_isRunnable runnable)
  refine (List.filter_append passed (pid :: later)).trans ?_
  exact congrArg (dyingOf slots passed ++ ·) notFirst

theorem runnableOf_congr {slots slots' : Vector Process maxProcesses} {pids : List Pid}
    (same : ∀ pid ∈ pids, slots'[pid].isRunnable = slots[pid].isRunnable) :
    runnableOf slots' pids = runnableOf slots pids :=
  List.filter_congr same

private theorem dyingOf_put {changed : Pid} {pids : List Pid} (process : Process)
    (notListed : changed ∉ pids) :
    dyingOf (slots.put changed process) pids = dyingOf slots pids := by
  apply dyingOf_congr
  intro pid member
  rw [getElem_put_of_notMem slots process notListed pid member]

private theorem releaseAll_put {changed : Pid} (process : Process) (notListed : changed ∉ dead) :
    releaseAll (slots.put changed process) dead memory = releaseAll slots dead memory := by
  apply releaseAll_congr
  intro pid member
  rw [getElem_put_of_notMem slots process notListed pid member]

end Reap

/-! ## A walk and a turn -/

/-- A walk empties the dying slots among those that it passes and gives their memory back; what is
left is the walk on from there. -/
theorem walk_past {few : Nat} (more : Nat) {cursor : Pid} {slots : Vector Process maxProcesses}
    (memory : Allocator) (nodup : (ahead few cursor).Nodup)
    (idle : ∀ pid ∈ ahead few cursor, slots[pid].isRunnable ≠ true) :
    let dead := dyingOf slots (ahead few cursor)
    let rest := walk more (nextSlot^[few] cursor) (reap slots dead) (releaseAll slots dead memory)
    walk (few + more) cursor slots memory = { rest with reclaimed := dead ++ rest.reclaimed } := by
  induction few generalizing cursor slots memory with
  | zero =>
      rw [Nat.zero_add]
      rfl
  | succ few inductionHypothesis =>
      rw [ahead_succ, List.nodup_cons] at nodup
      rw [ahead_succ, List.forall_mem_cons] at idle
      obtain ⟨notLater, nodupLater⟩ := nodup
      obtain ⟨idleHere, idleLater⟩ := idle
      rw [Nat.add_right_comm, ahead_succ, Function.iterate_succ_apply]
      by_cases dying : slots[nextSlot cursor].isDying = true
      · -- The slots behind stay as they are when this one is emptied, since it is none of them.
        have kept := getElem_put_of_notMem slots .empty notLater
        have idleKept : ∀ pid ∈ ahead few (nextSlot cursor),
            (slots.put (nextSlot cursor) .empty)[pid].isRunnable ≠ true := by
          intro pid member
          rw [kept pid member]
          exact idleLater pid member
        have notDead : nextSlot cursor ∉ dyingOf slots (ahead few (nextSlot cursor)) :=
          fun member => notLater (List.mem_of_mem_filter member)
        have deadCons : dyingOf slots (nextSlot cursor :: ahead few (nextSlot cursor)) =
            nextSlot cursor :: dyingOf slots (ahead few (nextSlot cursor)) :=
          List.filter_cons_of_pos dying
        rw [walk_of_dying dying, inductionHypothesis _ nodupLater idleKept,
          dyingOf_put .empty notLater, releaseAll_put .empty notDead, deadCons]
        rfl
      · have deadEq : dyingOf slots (nextSlot cursor :: ahead few (nextSlot cursor)) =
            dyingOf slots (ahead few (nextSlot cursor)) :=
          List.filter_cons_of_neg dying
        rw [walk_of_idle dying idleHere, deadEq]
        exact inductionHypothesis memory nodupLater idleLater

/-- A walk stops on the first runnable slot ahead; the dying slots that it passes are emptied and
their memory is given back. -/
theorem walk_of_ahead {steps : Nat} {cursor pid : Pid} {passed rest : List Pid}
    {slots : Vector Process maxProcesses} (memory : Allocator)
    (split : ahead steps cursor = passed ++ pid :: rest) (nodup : (passed ++ pid :: rest).Nodup)
    (idle : ∀ other ∈ passed, slots[other].isRunnable ≠ true)
    (runnable : slots[pid].isRunnable = true) :
    let dead := dyingOf slots passed
    walk steps cursor slots memory =
      ⟨reap slots dead, releaseAll slots dead memory, some pid, dead⟩ := by
  have stepsEq : steps = passed.length + (rest.length + 1) := by
    rw [← length_ahead steps cursor, split, List.length_append, List.length_cons]
  rw [stepsEq, ahead_add, ahead_succ] at split
  obtain ⟨passedEq, restEq⟩ := List.append_inj split (length_ahead _ cursor)
  obtain ⟨pidEq, _⟩ := List.cons.inj restEq
  have nodupPassed := (List.nodup_append.mp nodup).1
  rw [← passedEq] at nodupPassed idle
  have notDead : pid ∉ dyingOf slots passed := fun member =>
    not_isDying_of_isRunnable runnable (List.mem_filter.mp member).2
  have walked := walk_past (rest.length + 1) memory nodupPassed idle
  rw [passedEq] at walked
  have stillRunnable : (reap slots (dyingOf slots passed))[nextSlot
      (nextSlot^[passed.length] cursor)].isRunnable = true := by
    rw [pidEq, reap_slot_of_notMem notDead]
    exact runnable
  rw [stepsEq, walked, walk_of_runnable stillRunnable, pidEq, List.append_nil]

/-- A walk gives back the memory of the slots that it reclaims and changes nothing else in the
allocator. -/
theorem walk_memory (steps : Nat) (cursor : Pid) (slots : Vector Process maxProcesses)
    (memory : Allocator) :
    (walk steps cursor slots memory).memory =
      releaseAll slots (walk steps cursor slots memory).reclaimed memory := by
  induction steps generalizing cursor slots memory with
  | zero =>
      rfl
  | succ steps inductionHypothesis =>
      by_cases dying : slots[nextSlot cursor].isDying = true
      · -- The slot that is emptied here is not dying any more, so it is not reclaimed again.
        have notAgain : nextSlot cursor ∉ (walk steps (nextSlot cursor)
            (slots.put (nextSlot cursor) .empty)
            (releaseBlock memory slots[nextSlot cursor].base)).reclaimed := by
          intro member
          have dyingAgain := isDying_of_mem_reclaimed member
          rw [getElem_put_self] at dyingAgain
          exact Bool.false_ne_true dyingAgain
        rw [walk_of_dying dying]
        refine (inductionHypothesis _ _ _).trans ?_
        exact releaseAll_put .empty notAgain
      · by_cases runnable : slots[nextSlot cursor].isRunnable = true
        · rw [walk_of_runnable runnable]
          rfl
        · rw [walk_of_idle dying runnable]
          exact inductionHypothesis _ _ _

/-- A walk empties the slots that it reclaims and leaves all others as they are. -/
theorem walk_slots (steps : Nat) (cursor : Pid) (slots : Vector Process maxProcesses)
    (memory : Allocator) :
    (walk steps cursor slots memory).slots =
      reap slots (walk steps cursor slots memory).reclaimed := by
  induction steps generalizing cursor slots memory with
  | zero =>
      rfl
  | succ steps inductionHypothesis =>
      by_cases dying : slots[nextSlot cursor].isDying = true
      · rw [walk_of_dying dying]
        exact inductionHypothesis _ _ _
      · by_cases runnable : slots[nextSlot cursor].isRunnable = true
        · rw [walk_of_runnable runnable]
          rfl
        · rw [walk_of_idle dying runnable]
          exact inductionHypothesis _ _ _

theorem savedSlots_isRunnable (table : ProcessTable) (frame : TrapFrame) (pid : Pid) :
    (table.savedSlots frame)[pid].isRunnable = table.slots[pid].isRunnable := by
  obtain ⟨regs, savedEq⟩ := savedSlots_slot table frame pid
  rw [savedEq]
  rfl

theorem savedSlots_isDying (table : ProcessTable) (frame : TrapFrame) (pid : Pid) :
    (table.savedSlots frame)[pid].isDying = table.slots[pid].isDying := by
  obtain ⟨regs, savedEq⟩ := savedSlots_slot table frame pid
  rw [savedEq]
  rfl

theorem releaseAll_savedSlots (table : ProcessTable) (frame : TrapFrame) (dead : List Pid)
    (memory : Allocator) :
    releaseAll (table.savedSlots frame) dead memory = releaseAll table.slots dead memory := by
  apply releaseAll_congr
  intro pid _
  obtain ⟨regs, savedEq⟩ := savedSlots_slot table frame pid
  rw [savedEq]

theorem turn_of_ahead {table : ProcessTable} {steps : Nat} {pid : Pid} {passed rest : List Pid}
    (memory : Allocator) (frame : TrapFrame) (within : steps ≤ maxProcesses)
    (split : ahead steps table.current = passed ++ pid :: rest)
    (idle : ∀ other ∈ passed, table.slots[other].isRunnable ≠ true)
    (runnable : table.slots[pid].isRunnable = true) :
    let dead := dyingOf table.slots passed
    table.turn memory frame =
      ⟨reap (table.savedSlots frame) dead, releaseAll table.slots dead memory, some pid, dead⟩ := by
  obtain ⟨beyond, whole⟩ := ahead_extends within table.current
  rw [split, List.append_assoc, List.cons_append] at whole
  have nodup := lap_nodup table.current
  rw [lap, ← whole] at nodup
  have idleSaved : ∀ other ∈ passed, (table.savedSlots frame)[other].isRunnable ≠ true := by
    intro other member
    rw [savedSlots_isRunnable]
    exact idle other member
  have runnableSaved : (table.savedSlots frame)[pid].isRunnable = true := by
    rw [savedSlots_isRunnable]
    exact runnable
  have walked := walk_of_ahead memory whole.symm nodup idleSaved runnableSaved
  have deadEq : dyingOf (table.savedSlots frame) passed = dyingOf table.slots passed :=
    dyingOf_congr fun other _ => savedSlots_isDying table frame other
  rw [turn, walked, deadEq, releaseAll_savedSlots]

/-- An interrupt of the timer makes no slot runnable and leaves none unrunnable. -/
theorem schedule_isRunnable (table : ProcessTable) (memory : Allocator) (frame : TrapFrame)
    (pid : Pid) :
    (table.schedule memory frame).2.1.slots[pid].isRunnable = table.slots[pid].isRunnable := by
  rcases schedule_slot table memory frame pid with unchanged | saved | ⟨dying, emptied⟩
  · rw [unchanged]
  · rw [saved, savedSlots_isRunnable]
  · rw [emptied, isRunnable_empty, Process.isRunnable, dying, Bool.not_true, Bool.and_false]

/-- What an interrupt of the timer does to a table whose first runnable slot ahead is known, with
the slots that it passes before that one and the slots behind it. -/
structure Advance (table table' : ProcessTable) (passed : List Pid) (pid : Pid)
    (later : List Pid) : Prop where
  current : table'.current = pid
  isRunnable : ∀ other : Pid, table'.slots[other].isRunnable = table.slots[other].isRunnable
  passed_empty : ∀ other ∈ passed, table.slots[other].isDying = true →
    table'.slots[other] = .empty
  later_isDying : ∀ other ∈ later, table'.slots[other].isDying = table.slots[other].isDying
  still_empty : ∀ other, table.current ≠ other → table.slots[other] = .empty →
    table'.slots[other] = .empty

/-- With enough active slots an interrupt of the timer moves the cursor to the first runnable slot
ahead. -/
theorem schedule_of_ahead {table : ProcessTable} {steps : Nat} {pid : Pid}
    {passed later : List Pid} (memory : Allocator) (frame : TrapFrame)
    (enough : 2 ≤ table.activeCount) (within : steps ≤ maxProcesses)
    (split : ahead steps table.current = passed ++ pid :: later)
    (idle : ∀ other ∈ passed, table.slots[other].isRunnable ≠ true)
    (runnable : table.slots[pid].isRunnable = true) :
    Advance table (table.schedule memory frame).2.1 passed pid later ∧
      table.reclaims memory frame = dyingOf table.slots passed := by
  have turned := turn_of_ahead memory frame within split idle runnable
  have notFew : ¬ table.activeCount < 2 := Nat.not_lt.mpr enough
  let dead := dyingOf table.slots passed
  have scheduled : (table.schedule memory frame).2.1 =
      { table with slots := reap (table.savedSlots frame) dead, current := pid } := by
    rw [schedule, if_neg notFew, turned]
  have reclaimed : table.reclaims memory frame = dead := by
    rw [reclaims, if_neg notFew, turned]
  refine ⟨⟨?_, schedule_isRunnable table memory frame, ?_, ?_, ?_⟩, reclaimed⟩
  · rw [scheduled]
  · intro other member dying
    rw [scheduled]
    exact reap_slot_of_mem (List.mem_filter.mpr ⟨member, dying⟩)
  · -- No slot comes twice, so the slots behind are none of those that are emptied.
    have nodup := ahead_nodup within table.current
    rw [split] at nodup
    intro other member
    have notDead : other ∉ dead := by
      intro isDead
      apply List.disjoint_of_nodup_append nodup (List.mem_of_mem_filter isDead)
      exact List.mem_cons_of_mem pid member
    rw [scheduled, ← savedSlots_isDying table frame other]
    exact congrArg Process.isDying (reap_slot_of_notMem notDead)
  · intro other away empty
    rcases schedule_slot_of_ne memory frame away with unchanged | ⟨_, emptied⟩
    · exact unchanged.trans empty
    · exact emptied

theorem schedule_memory (table : ProcessTable) (memory : Allocator) (frame : TrapFrame) :
    (table.schedule memory frame).2.2 =
      releaseAll table.slots (table.reclaims memory frame) memory := by
  have turned : (table.turn memory frame).memory =
      releaseAll table.slots (table.turn memory frame).reclaimed memory := by
    rw [turn, walk_memory, releaseAll_savedSlots]
  rcases schedule_cases table memory frame with
    ⟨few, scheduled⟩ | ⟨enough, _, _, scheduled⟩ | ⟨enough, _, scheduled⟩
  · rw [scheduled, reclaims, if_pos few]
    rfl
  · rw [scheduled, reclaims, if_neg (Nat.not_lt.mpr enough)]
    exact turned
  · rw [scheduled, reclaims, if_neg (Nat.not_lt.mpr enough)]
    exact turned

theorem isDying_of_mem_reclaims {table : ProcessTable} {memory : Allocator} {frame : TrapFrame}
    {pid : Pid} (member : pid ∈ table.reclaims memory frame) :
    table.slots[pid].isDying = true := by
  unfold reclaims at member
  split at member
  · cases member
  · rw [← savedSlots_isDying table frame pid]
    exact isDying_of_mem_reclaimed member

/-- A slot that is not reclaimed may get a frame and keeps the rest. -/
theorem schedule_slot_of_notMem {table : ProcessTable} {memory : Allocator} {frame : TrapFrame}
    {pid : Pid} (spared : pid ∉ table.reclaims memory frame) :
    ∃ regs, (table.schedule memory frame).2.1.slots[pid] = { table.slots[pid] with regs } := by
  have turned : pid ∉ (table.turn memory frame).reclaimed →
      ∃ regs, (table.turn memory frame).slots[pid] = { table.slots[pid] with regs } := by
    intro alive
    rw [turn] at alive ⊢
    rw [walk_slots, reap_slot_of_notMem alive]
    exact savedSlots_slot table frame pid
  rcases schedule_cases table memory frame with
    ⟨_, scheduled⟩ | ⟨enough, _, _, scheduled⟩ | ⟨enough, _, scheduled⟩
  · rw [scheduled]
    exact ⟨table.slots[pid].regs, rfl⟩
  · rw [reclaims, if_neg (Nat.not_lt.mpr enough)] at spared
    rw [scheduled]
    exact turned spared
  · rw [reclaims, if_neg (Nat.not_lt.mpr enough)] at spared
    rw [scheduled]
    exact turned spared

theorem Advance.runnableCount {table table' : ProcessTable} {passed later : List Pid} {pid : Pid}
    (advance : Advance table table' passed pid later) :
    table'.runnableCount = table.runnableCount := by
  rw [← length_runnableOf_lap table' pid, ← length_runnableOf_lap table pid]
  exact congrArg List.length (runnableOf_congr fun other _ => advance.isRunnable other)

/-- No free slot takes part in scheduling or waits to be reclaimed. -/
def Tidy (table : ProcessTable) : Prop :=
  ∀ pid : Pid, table.slots[pid].isFree = true → table.slots[pid].flags = .none

namespace Tidy

variable {table table' : ProcessTable} {memory memory' : Allocator}

theorem clear (table : ProcessTable) : table.clear.Tidy := by
  intro pid _
  rw [clear_slot]
  rfl

theorem create (tidy : table.Tidy) {size : UInt32} {pid : Pid}
    (done : table.create memory size = .ok pid (table', memory')) : table'.Tidy := by
  obtain ⟨base, total, _, _, _, tableEq⟩ := create_eq_ok done
  rw [tableEq]
  let FreeIdle := fun (_ : Pid) (process : Process) =>
    process.isFree = true → process.flags = .none
  refine forall_getElem_put (P := FreeIdle) (fun _ => rfl) ?_
  exact fun other _ => tidy other

theorem update (tidy : table.Tidy) {number : Nat} {change : Process → Process}
    (flagsOnly : OnlyFlags change) (done : table.update number change = .ok () table') :
    table'.Tidy := by
  intro pid free
  rcases update_slot flagsOnly done pid with unchanged | ⟨occupied, flags, changed⟩
  · rw [unchanged] at free ⊢
    exact tidy pid free
  · rw [changed] at free
    exact absurd (occupied.symm.trans free) Bool.false_ne_true

theorem schedule (tidy : table.Tidy) (memory : Allocator) (frame : TrapFrame) :
    (table.schedule memory frame).2.1.Tidy := by
  intro pid free
  rcases schedule_slot table memory frame pid with unchanged | saved | ⟨_, emptied⟩
  · rw [unchanged] at free ⊢
    exact tidy pid free
  · obtain ⟨regs, savedEq⟩ := savedSlots_slot table frame pid
    rw [saved, savedEq] at free ⊢
    exact tidy pid free
  · rw [emptied]
    rfl

end Tidy

end Microkernel.ProcessTable
