import Microkernel.Client.Session
import Microkernel.Proofs.Client.SerialLine

/-!
# Lines as they are typed

What a line is can be said of the received bytes alone: which of them are left once the erased ones
are gone, at which byte the line is complete, and what the screen shows meanwhile.  The line editor,
which polls for one byte after the other and waits for room before each byte that it shows, comes to
the same.
-/

namespace Microkernel.Client

open Program (Ends Meets)
open Stream' (Seq)

/-- A line after one more byte was typed, with a byte for each of its characters. -/
def typed (line : List UInt8) (byte : UInt8) : List UInt8 :=
  if byte = 0x08 ∨ byte = 0x7F then line.dropLast
  else if byte = 0x0A ∨ byte = 0x0D ∨ byte = 0x00 then line
  else line ++ [byte]

def edited (line bytes : List UInt8) : List UInt8 :=
  bytes.foldl typed line

/-- What the screen is sent for one byte: the byte itself, or left, blank and left if a character
was taken away. -/
def echoed (line : List UInt8) (byte : UInt8) : List UInt8 :=
  if byte = 0x08 ∨ byte = 0x7F then
    if line = [] then [] else [0x1B, 0x5B, 0x44, 0x20, 0x1B, 0x5B, 0x44]
  else if byte = 0x0A ∨ byte = 0x0D ∨ byte = 0x00 then []
  else [byte]

def transcript : List UInt8 → List UInt8 → List UInt8
  | _, [] => []
  | line, byte :: rest => echoed line byte ++ transcript (typed line byte) rest

/-- A line that began like this is complete after these bytes: the last of them ends it, or it has
as many characters as asked for. -/
def Complete (limit : Nat) (line bytes : List UInt8) : Prop :=
  (∃ last ∈ bytes.getLast?, last = 0x0A ∨ last = 0x0D) ∨ limit ≤ (edited line bytes).length

/-- The line is complete after these bytes and was not before. -/
structure Completes (limit : Nat) (line bytes : List UInt8) : Prop where
  complete : Complete limit line bytes
  first : ∀ fewer, fewer <+: bytes → Complete limit line fewer → fewer = bytes

section Bytes

variable {limit : Nat} {line : List UInt8} {byte : UInt8} {rest : List UInt8}

private theorem not_complete_nil (short : line.length < limit) : ¬ Complete limit line [] := by
  rintro (⟨last, member, _⟩ | long)
  · cases member
  · exact absurd long (Nat.not_le.mpr short)

private theorem complete_singleton_iff :
    Complete limit line [byte] ↔
      (byte = 0x0A ∨ byte = 0x0D) ∨ limit ≤ (typed line byte).length := by
  simp [Complete, edited]

private theorem complete_cons_iff (more : rest ≠ []) :
    Complete limit line (byte :: rest) ↔ Complete limit (typed line byte) rest := by
  obtain ⟨second, others, rfl⟩ := List.exists_cons_of_ne_nil more
  rw [Complete, Complete, List.getLast?_cons_cons]
  rfl

private theorem not_complete_singleton (goesOn : ¬ (byte = 0x0A ∨ byte = 0x0D))
    (shorter : (typed line byte).length < limit) : ¬ Complete limit line [byte] := by
  rw [complete_singleton_iff, not_or]
  exact ⟨goesOn, Nat.not_le.mpr shorter⟩

private theorem length_typed_lt (incomplete : ¬ Complete limit line [byte]) :
    (typed line byte).length < limit := by
  rw [complete_singleton_iff, not_or] at incomplete
  exact Nat.not_le.mp incomplete.2

private theorem length_typed_le (line : List UInt8) (byte : UInt8) :
    (typed line byte).length ≤ line.length + 1 := by
  unfold typed
  split
  · rw [List.length_dropLast]
    omega
  · split
    · omega
    · rw [List.length_append, List.length_singleton]

private theorem completes_singleton (short : line.length < limit)
    (complete : Complete limit line [byte]) : Completes limit line [byte] := by
  refine ⟨complete, fun fewer front fewerComplete => ?_⟩
  rcases List.prefix_cons_iff.mp front with rfl | ⟨others, rfl, othersFront⟩
  · exact absurd fewerComplete (not_complete_nil short)
  · rw [List.prefix_nil.mp othersFront]

/-- A line that a byte leaves incomplete is completed by what follows. -/
theorem Completes.cons (short : line.length < limit) (incomplete : ¬ Complete limit line [byte])
    (completes : Completes limit (typed line byte) rest) :
    Completes limit line (byte :: rest) := by
  have shortAfter := length_typed_lt incomplete
  have more : rest ≠ [] := by
    rintro rfl
    exact not_complete_nil shortAfter completes.complete
  refine ⟨(complete_cons_iff more).mpr completes.complete, fun fewer front fewerComplete => ?_⟩
  rcases List.prefix_cons_iff.mp front with rfl | ⟨others, rfl, othersFront⟩
  · exact absurd fewerComplete (not_complete_nil short)
  · by_cases onlyOne : others = []
    · rw [onlyOne] at fewerComplete
      exact absurd fewerComplete incomplete
    · rw [completes.first others othersFront ((complete_cons_iff onlyOne).mp fewerComplete)]

/-- The byte that ends a line is no part of it. -/
theorem not_ending_of_mem_edited {bytes : List UInt8}
    (unended : ∀ member ∈ line, ¬ (member = 0x0A ∨ member = 0x0D)) :
    ∀ member ∈ edited line bytes, ¬ (member = 0x0A ∨ member = 0x0D) := by
  induction bytes generalizing line with
  | nil => exact unended
  | cons byte rest inductionHypothesis =>
      apply inductionHypothesis
      intro member inTyped
      unfold typed at inTyped
      split at inTyped
      · exact unended member (List.dropLast_subset line inTyped)
      · split at inTyped
        · exact unended member inTyped
        · next visible =>
          rcases List.mem_append.mp inTyped with inLine | last
          · exact unended member inLine
          · rw [List.mem_singleton.mp last]
            exact fun ending => visible (ending.imp_right .inl)

end Bytes

/-- The character of a number below 256. -/
def latin1 (byte : UInt8) : Char :=
  Char.ofNat byte.toNat

private theorem toNat_latin1 (byte : UInt8) : (latin1 byte).toNat = byte.toNat := by
  have small : byte.toNat < 256 := byte.toNat_lt
  have valid : byte.toNat.isValidChar := .inl (by omega)
  have named : Char.ofNat byte.toNat = Char.ofNatAux byte.toNat valid := dif_pos valid
  rw [latin1, named]
  rfl

private theorem latin1_injective : Function.Injective latin1 := by
  intro byte other same
  have codes := congrArg Char.toNat same
  rw [toNat_latin1, toNat_latin1] at codes
  exact UInt8.toNat_inj.mp codes

private theorem unended_latin1 {line : List UInt8}
    (unended : ∀ byte ∈ line, ¬ (byte = 0x0A ∨ byte = 0x0D)) :
    ∀ c ∈ line.map latin1, c ≠ '\n' ∧ c ≠ '\r' := by
  intro c inLine
  obtain ⟨byte, member, rfl⟩ := List.mem_map.mp inLine
  obtain ⟨notFeed, notReturn⟩ := not_or.mp (unended byte member)
  exact ⟨latin1_injective.ne notFeed, latin1_injective.ne notReturn⟩

section Keys

variable {byte : UInt8}

private theorem ofByte_of_erasing (erases : byte = 0x08 ∨ byte = 0x7F) :
    Key.ofByte byte = .erase := by
  rcases erases with rfl | rfl
  · rfl
  · rfl

private theorem ofByte_of_character (keeps : ¬ (byte = 0x08 ∨ byte = 0x7F))
    (visible : ¬ (byte = 0x0A ∨ byte = 0x0D ∨ byte = 0x00)) :
    Key.ofByte byte = .character (latin1 byte) := by
  obtain ⟨notFeed, notReturn, notZero⟩ : byte ≠ 0x0A ∧ byte ≠ 0x0D ∧ byte ≠ 0x00 := by
    simpa only [not_or] using visible
  have notEnding : ¬ (byte = Console.carriageReturn ∨ byte = Console.lineFeed) :=
    not_or.mpr ⟨notReturn, notFeed⟩
  have notErasing : ¬ (byte = Key.backspace ∨ byte = Key.delete) := keeps
  rw [Key.ofByte, if_neg notEnding, if_neg notErasing, if_neg notZero]
  rfl

private theorem ofByte_eq_finish_iff : Key.ofByte byte = .finish ↔ byte = 0x0A ∨ byte = 0x0D := by
  constructor
  · intro finish
    by_cases erases : byte = 0x08 ∨ byte = 0x7F
    · rw [ofByte_of_erasing erases] at finish
      cases finish
    · by_cases silent : byte = 0x0A ∨ byte = 0x0D ∨ byte = 0x00
      · rcases silent with feed | ret | rfl
        · exact .inl feed
        · exact .inr ret
        · cases finish
      · rw [ofByte_of_character erases silent] at finish
        cases finish
  · rintro (rfl | rfl)
    · rfl
    · rfl

/-- A key does to the characters what its byte does to the bytes. -/
theorem after_ofByte (line : List UInt8) (byte : UInt8) :
    (Key.ofByte byte).after (line.map latin1) = (typed line byte).map latin1 := by
  by_cases erases : byte = 0x08 ∨ byte = 0x7F
  · rw [ofByte_of_erasing erases, typed, if_pos erases, List.map_dropLast]
    rfl
  · by_cases silent : byte = 0x0A ∨ byte = 0x0D ∨ byte = 0x00
    · rw [typed, if_neg erases, if_pos silent]
      rcases silent with rfl | rfl | rfl
      · rfl
      · rfl
      · rfl
    · rw [ofByte_of_character erases silent, typed, if_neg erases, if_neg silent, List.map_append]
      rfl

private theorem echo_ofByte (line : List UInt8) (byte : UInt8) :
    (Key.ofByte byte).echo (line.map latin1) byte = echoed line byte := by
  by_cases erases : byte = 0x08 ∨ byte = 0x7F
  · rw [ofByte_of_erasing erases, echoed, if_pos erases]
    cases line with
    | nil => rfl
    | cons first rest => rfl
  · by_cases silent : byte = 0x0A ∨ byte = 0x0D ∨ byte = 0x00
    · rw [echoed, if_neg erases, if_pos silent]
      rcases silent with rfl | rfl | rfl
      · rfl
      · rfl
      · rfl
    · rw [ofByte_of_character erases silent, echoed, if_neg erases, if_neg silent]
      rfl

private theorem typed_of_ending (ending : byte = 0x0A ∨ byte = 0x0D) (line : List UInt8) :
    typed line byte = line := by
  rcases ending with rfl | rfl
  · rfl
  · rfl

private theorem echoed_of_ending (ending : byte = 0x0A ∨ byte = 0x0D) (line : List UInt8) :
    echoed line byte = [] := by
  rcases ending with rfl | rfl
  · rfl
  · rfl

end Keys

/-- What the editor does with a received byte. -/
def takeByte (patience : Nat) (echoing : Bool) (limit rounds : Nat) (line : List Char)
    (byte : UInt8) : Program LineRead :=
  let key := Key.ofByte byte
  if key = .finish then .done ⟨line, .ok line.length⟩
  else
    (putAll patience (if echoing then key.echo line byte else [])).attempt.bind fun
      | .error error => .done ⟨key.before line, .error error⟩
      | .ok () =>
        let line := key.after line
        if line.length = limit then .done ⟨line, .ok line.length⟩
        else readOn patience echoing limit rounds line

private theorem readOn_succ (patience : Nat) (echoing : Bool) (limit rounds : Nat)
    (line : List Char) :
    readOn patience echoing limit (rounds + 1) line = getch.attempt.bind fun
      | .error error => .done ⟨line, .error error⟩
      | .ok none => readOn patience echoing limit rounds line
      | .ok (some byte) => takeByte patience echoing limit rounds line byte :=
  rfl

/-- A line as it is handed back. -/
def finished (line : List UInt8) : LineRead :=
  ⟨line.map latin1, .ok line.length⟩

private theorem takeByte_of_ending {byte : UInt8} (ending : byte = 0x0A ∨ byte = 0x0D)
    (patience : Nat)
    (echoing : Bool) (limit rounds : Nat) (line : List UInt8) :
    takeByte patience echoing limit rounds (line.map latin1) byte = .done (finished line) := by
  simp only [takeByte, if_pos (ofByte_eq_finish_iff.mpr ending), List.length_map, finished]

/-- A byte that does not end the line is shown before anything else. -/
theorem takeByte_of_not_ending {byte : UInt8} (goesOn : ¬ (byte = 0x0A ∨ byte = 0x0D))
    (patience : Nat) (echoing : Bool) (limit rounds : Nat) (line : List UInt8) :
    takeByte patience echoing limit rounds (line.map latin1) byte =
      (putAll patience (if echoing then echoed line byte else [])).attempt.bind fun
        | .error error => .done ⟨(Key.ofByte byte).before (line.map latin1), .error error⟩
        | .ok () =>
          if (typed line byte).length = limit then .done (finished (typed line byte))
          else readOn patience echoing limit rounds ((typed line byte).map latin1) := by
  simp only [takeByte, if_neg (mt ofByte_eq_finish_iff.mp goesOn), echo_ofByte, after_ofByte,
    List.length_map, finished]

section Reading

variable {S : Type} {Holds : S → Seq UInt8 → List UInt8 → Prop} {state after : S}
  {unread later : Seq UInt8} {shown : List UInt8} {limit : Nat} {echoing : Bool}
  {line : List UInt8} {byte : UInt8} {read : LineRead}

/-- Reading on from a line has come to its end: it took the bytes up to the one that completes the
line, and left those behind. -/
def HasRead (Holds : S → Seq UInt8 → List UInt8 → Prop) (echoing : Bool) (limit : Nat)
    (line : List UInt8) (unread : Seq UInt8) (shown : List UInt8) (read : LineRead) (after : S) :
    Prop :=
  ∃ taken later, unread = (Seq.ofList taken).append later ∧ Completes limit line taken ∧
    (edited line taken).length ≤ limit ∧ read = finished (edited line taken) ∧
    Holds after later (shown ++ if echoing then transcript line taken else [])

private theorem hasRead_of_complete (short : line.length < limit)
    (complete : Complete limit line [byte])
    (holds : Holds after later (shown ++ if echoing then echoed line byte else [])) :
    HasRead Holds echoing limit line (.cons byte later) shown (finished (typed line byte))
      after := by
  refine ⟨[byte], later, ?_, completes_singleton short complete, ?_, rfl, ?_⟩
  · rw [Seq.ofList_cons, Seq.ofList_nil, Seq.cons_append, Seq.nil_append]
  · exact (length_typed_le line byte).trans short
  · rw [transcript, transcript, List.append_nil]
    exact holds

theorem HasRead.cons (short : line.length < limit) (incomplete : ¬ Complete limit line [byte])
    (hasRead : HasRead Holds echoing limit (typed line byte) later
      (shown ++ if echoing then echoed line byte else []) read after) :
    HasRead Holds echoing limit line (.cons byte later) shown read after := by
  obtain ⟨taken, last, split, completes, bounded, readEq, holds⟩ := hasRead
  refine ⟨byte :: taken, last, ?_, completes.cons short incomplete, bounded, readEq, ?_⟩
  · rw [split, Seq.ofList_cons, Seq.cons_append]
  · rw [List.append_assoc] at holds
    cases echoing with
    | true => exact holds
    | false => exact holds

/-! ## The whole line -/

variable [Boundary S]

/-- A byte is dealt with as `HasRead` says, if reading on from a line that it leaves short is. -/
theorem takeByte_meets (serial : SerialLine Holds) (patience rounds : Nat)
    (short : line.length < limit) (holds : Holds state later shown)
    (onward : ∀ {middle : S} {shown : List UInt8}, (typed line byte).length < limit →
      Holds middle later shown →
        Meets (readOn patience echoing limit rounds ((typed line byte).map latin1)) middle
          (HasRead Holds echoing limit (typed line byte) later shown)) :
    Meets (takeByte patience echoing limit rounds (line.map latin1) byte) state
      (HasRead Holds echoing limit line (.cons byte later) shown) := by
  by_cases ending : byte = 0x0A ∨ byte = 0x0D
  · have holdsStill : Holds state later
        (shown ++ if echoing then echoed line byte else []) := by
      rw [echoed_of_ending ending, ite_self, List.append_nil]
      exact holds
    have hasRead :=
      hasRead_of_complete short (complete_singleton_iff.mpr (.inl ending)) holdsStill
    rw [typed_of_ending ending] at hasRead
    rw [takeByte_of_ending ending]
    exact (Ends.done (finished line) state).meets hasRead
  · rw [takeByte_of_not_ending ending]
    refine (serial.putAll_meets holds patience _).attempt.bind ?_
    rintro _ middle ⟨_, rfl, holdsMiddle⟩
    dsimp only
    by_cases full : (typed line byte).length = limit
    · rw [if_pos full]
      have complete : Complete limit line [byte] :=
        complete_singleton_iff.mpr (.inr (Nat.le_of_eq full.symm))
      exact (Ends.done _ middle).meets (hasRead_of_complete short complete holdsMiddle)
    · rw [if_neg full]
      have shorter := Nat.lt_of_le_of_ne ((length_typed_le line byte).trans short) full
      rcases onward shorter holdsMiddle with stalled | ⟨read, after, ends, hasRead⟩
      · exact .inl stalled
      · exact ends.meets (hasRead.cons short (not_complete_singleton ending shorter))

/-- Reading on never fails, and it ends as the bytes say. -/
theorem readOn_meets (serial : SerialLine Holds) (patience rounds : Nat)
    (short : line.length < limit) (holds : Holds state unread shown) :
    Meets (readOn patience echoing limit rounds (line.map latin1)) state
      (HasRead Holds echoing limit line unread shown) := by
  induction rounds generalizing state unread shown line with
  | zero => exact .inl rfl
  | succ rounds inductionHypothesis =>
      obtain ⟨_, later, middle, ends, received, holdsMiddle⟩ := serial.getch_ends holds
      rw [readOn_succ]
      refine ends.attempt.bind_meets ?_
      cases received with
      | nothing => exact inductionHypothesis short holdsMiddle
      | byte byte later =>
          exact takeByte_meets serial patience rounds short holdsMiddle inductionHypothesis

/-- The next byte is reached after some polls, and they leave it to the editor. -/
theorem exists_polls (serial : SerialLine Holds) (delivers : Delivers state)
    (holds : Holds state (.cons byte later) shown) :
    ∃ polls middle, Holds middle later shown ∧
      ∀ patience echoing limit rounds line read after,
        Ends (takeByte patience echoing limit rounds line byte) middle read after →
          Ends (readOn patience echoing limit (rounds + polls + 1) line) state read after := by
  induction delivers with
  | now waits taken =>
      obtain ⟨_, split, holdsAfter⟩ :=
        serial.after_getc_byte (serial.after_rxEmpty holds waits) taken
      obtain ⟨rfl, rfl⟩ := Seq.cons_eq_cons.mp split
      have ends := getch_of_waiting waits taken
      rw [byteOf?_byte] at ends
      exact ⟨0, _, holdsAfter, fun _ _ _ _ _ _ _ onward => ends.attempt.bind onward⟩
  | empty nothing asked _ inductionHypothesis =>
      obtain ⟨polls, middle, holdsMiddle, onward⟩ :=
        inductionHypothesis (serial.after_rxEmpty holds asked)
      have ends := getch_of_nothing nothing asked
      refine ⟨polls + 1, middle, holdsMiddle, ?_⟩
      intro patience echoing limit rounds line read after byteEnds
      exact ends.attempt.bind (onward patience echoing limit rounds line read after byteEnds)
  | missed waits missed _ inductionHypothesis =>
      obtain ⟨polls, middle, holdsMiddle, onward⟩ :=
        inductionHypothesis (serial.after_getc_none (serial.after_rxEmpty holds waits) missed)
      have ends := getch_of_waiting waits missed
      refine ⟨polls + 1, middle, holdsMiddle, ?_⟩
      intro patience echoing limit rounds line read after byteEnds
      exact ends.attempt.bind (onward patience echoing limit rounds line read after byteEnds)

/-- Given enough patience, the program comes to an end. -/
def Returns (program : (patience rounds : Nat) → Program LineRead) (state : S) : Prop :=
  ∃ enough, ∀ patience rounds, enough ≤ patience → enough ≤ rounds →
    ∃ read after, Ends (program patience rounds) state read after

private theorem takeByte_returns (serial : SerialLine Holds) (responsive : Responsive Holds)
    (short : line.length < limit) (holds : Holds state later shown)
    (onward : ∀ {middle : S} {shown : List UInt8}, ¬ Complete limit line [byte] →
      Holds middle later shown →
        Returns (fun patience rounds =>
          readOn patience echoing limit rounds ((typed line byte).map latin1)) middle) :
    Returns (fun patience rounds =>
      takeByte patience echoing limit rounds (line.map latin1) byte) state := by
  by_cases ending : byte = 0x0A ∨ byte = 0x0D
  · refine ⟨0, fun patience rounds _ _ => ⟨finished line, state, ?_⟩⟩
    simp only [takeByte_of_ending ending]
    exact .done (finished line) state
  · obtain ⟨enoughPut, middle, holdsMiddle, put⟩ :=
      serial.putAll_returns responsive holds (if echoing then echoed line byte else [])
    by_cases full : (typed line byte).length = limit
    · refine ⟨enoughPut, fun patience rounds patient _ =>
        ⟨finished (typed line byte), middle, ?_⟩⟩
      simp only [takeByte_of_not_ending ending]
      refine (put patience patient).attempt.bind ?_
      rw [if_pos full]
      exact .done (finished (typed line byte)) middle
    · have shorter := Nat.lt_of_le_of_ne ((length_typed_le line byte).trans short) full
      obtain ⟨enoughRest, ends⟩ := onward (not_complete_singleton ending shorter) holdsMiddle
      refine ⟨max enoughPut enoughRest, fun patience rounds patient often => ?_⟩
      obtain ⟨putPatient, restPatient⟩ := Nat.max_le.mp patient
      obtain ⟨read, after, restEnds⟩ := ends patience rounds restPatient (Nat.max_le.mp often).2
      refine ⟨read, after, ?_⟩
      simp only [takeByte_of_not_ending ending]
      refine (put patience putPatient).attempt.bind ?_
      rw [if_neg full]
      exact restEnds

/-- Reading on comes to an end if the bytes complete the line. -/
theorem readOn_returns (serial : SerialLine Holds) (responsive : Responsive Holds)
    {bytes : List UInt8} (short : line.length < limit) (complete : Complete limit line bytes)
    (holds : Holds state ((Seq.ofList bytes).append later) shown) :
    Returns (fun patience rounds =>
      readOn patience echoing limit rounds (line.map latin1)) state := by
  induction bytes generalizing state shown line with
  | nil => exact absurd complete (not_complete_nil short)
  | cons byte rest inductionHypothesis =>
      rw [Seq.ofList_cons, Seq.cons_append] at holds
      obtain ⟨polls, middle, holdsMiddle, polled⟩ :=
        exists_polls serial (responsive.delivers holds) holds
      obtain ⟨enough, taken⟩ : Returns (fun patience rounds =>
          takeByte patience echoing limit rounds (line.map latin1) byte) middle := by
        refine takeByte_returns serial responsive short holdsMiddle ?_
        intro last shown incomplete holdsLast
        have more : rest ≠ [] := by
          rintro rfl
          exact incomplete complete
        exact inductionHypothesis (length_typed_lt incomplete)
          ((complete_cons_iff more).mp complete) holdsLast
      refine ⟨enough + polls + 1, fun patience rounds patient often => ?_⟩
      obtain ⟨left, rfl⟩ : ∃ left, rounds = left + polls + 1 :=
        ⟨rounds - polls - 1, by omega⟩
      obtain ⟨read, after, ends⟩ := taken patience left (by omega) (by omega)
      exact ⟨read, after, polled patience echoing limit left _ read after ends⟩

end Reading

/-- A line is read as it was typed.  With no characters asked for the buffer is emptied and nothing
else happens.  Otherwise reading never fails, and when it ends, it has taken the received bytes up
to the one that completes the line and none behind it; the buffer holds the edited line, whatever
it held before, the count is its length, and an echoing session has put out what the typing shows
and nothing else.  It does end, given patience, on a line that answers in the long run, if what is
received completes a line at all. -/
theorem line_read_as_typed {S : Type} [Boundary S] {Holds : S → Seq UInt8 → List UInt8 → Prop}
    (serial : SerialLine Holds) {session : Session S} {unread : Seq UInt8} {shown : List UInt8}
    (holds : Holds session.boundary unread shown) (limit : Nat) (held : List Char) :
    (limit = 0 → ∀ patience,
      let ran := session.readInto patience limit held
      ran.outcome = .done ⟨[], .ok 0⟩ ∧ ran.state = session) ∧
    (0 < limit →
      (∀ patience,
        let ran := session.readInto patience limit held
        ran.outcome = .stalled ∨ ∃ taken later line,
          unread = (Seq.ofList taken).append later ∧ Completes limit [] taken ∧
            ran.outcome = .done ⟨line, .ok line.length⟩ ∧ line.length ≤ limit ∧
            line.map Char.toNat = (edited [] taken).map UInt8.toNat ∧
            (∀ c ∈ line, c ≠ '\n' ∧ c ≠ '\r') ∧
            ran.state.echoing = session.echoing ∧
            Holds ran.state.boundary later
              (shown ++ if session.echoing then transcript [] taken else [])) ∧
      (Responsive Holds →
        (∃ taken later, unread = (Seq.ofList taken).append later ∧ Complete limit [] taken) →
          ∃ enough, ∀ patience, enough ≤ patience →
            (session.readInto patience limit held).outcome ≠ .stalled)) := by
  refine ⟨?_, fun positive => ?_⟩
  · rintro rfl patience
    exact ⟨rfl, rfl⟩
  · have reading (patience : Nat) : readInto patience session.echoing limit held =
        readOn patience session.echoing limit patience (([] : List UInt8).map latin1) :=
      if_neg positive.ne'
    have short : ([] : List UInt8).length < limit := positive
    simp only [Session.readInto, Session.run, reading]
    refine ⟨fun patience => ?_, ?_⟩
    · rcases readOn_meets serial patience patience short holds with
        stalled | ⟨_, after, ends, hasRead⟩
      · exact .inl stalled
      · obtain ⟨taken, later, split, completes, bounded, rfl, holdsAfter⟩ := hasRead
        rw [← ends.state] at holdsAfter
        refine .inr ⟨taken, later, (edited [] taken).map latin1, split, completes, ?_, ?_, ?_, ?_,
          trivial, holdsAfter⟩
        · rw [ends.outcome, finished, List.length_map]
        · rw [List.length_map]
          exact bounded
        · rw [List.map_map]
          exact List.map_congr_left fun byte _ => toNat_latin1 byte
        · exact unended_latin1 (not_ending_of_mem_edited (by simp))
    · rintro responsive ⟨taken, later, rfl, complete⟩
      obtain ⟨enough, returns⟩ := readOn_returns serial responsive short complete holds
      refine ⟨enough, fun patience patient stalled => ?_⟩
      obtain ⟨read, after, ends⟩ := returns patience patience patient patient
      cases ends.outcome.symm.trans stalled

def lineRead? : Program.Outcome LineRead → Option (List Char × Nat)
  | .done ⟨line, .ok count⟩ => some (line, count)
  | _ => none

private theorem eq_done_of_lineRead? {outcome : Program.Outcome LineRead} {line : List Char}
    {count : Nat}
    (ended : lineRead? outcome = some (line, count)) : outcome = .done ⟨line, .ok count⟩ := by
  rcases outcome with ⟨_, _ | _⟩ | _ | _
  · cases ended
  · cases ended
    rfl
  · cases ended
  · cases ended

/-- Nothing to erase, a letter erased again, a byte that is ignored, and one byte too many for the
line, which arrive with gaps. -/
theorem line_read_as_typed_paced :
    let coming : List (Nat × UInt8) :=
      [(0, 0x08), (2, 0x61), (0, 0xE9), (1, 0x7F), (0, 0x00), (0, 0x62), (3, 0xFF), (0, 0x0D)]
    let session : Session PacedLine := .new ⟨coming, 1, 1, []⟩
    let unread := Seq.ofList (coming.map Prod.snd)
    let ran := session.readInto 16 3 ['o', 'l', 'd']
    SerialLine PacedLine.Carries ∧ Responsive PacedLine.Carries ∧
      PacedLine.Carries session.boundary unread [] ∧ 0 < 3 ∧
      ran.outcome = .done ⟨['a', 'b', 'ÿ'], .ok 3⟩ ∧
      (∃ taken later, unread = (Seq.ofList taken).append later ∧ Completes 3 [] taken ∧
        PacedLine.Carries ran.state.boundary later (transcript [] taken)) ∧
      ∃ enough, ∀ patience, enough ≤ patience →
        (session.readInto patience 3 ['o', 'l', 'd']).outcome ≠ .stalled := by
  intro coming session unread ran
  have carries : PacedLine.Carries session.boundary unread [] := ⟨rfl, rfl⟩
  have outcomeEq : ran.outcome = .done ⟨['a', 'b', 'ÿ'], .ok 3⟩ :=
    eq_done_of_lineRead? (by decide +kernel)
  obtain ⟨_, reads⟩ := line_read_as_typed PacedLine.serialLine carries 3 ['o', 'l', 'd']
  obtain ⟨exactly, returns⟩ := reads (by decide)
  have complete : Complete 3 [] [0x08, 0x61, 0xE9, 0x7F, 0x00, 0x62, 0xFF] := .inr (by decide)
  have split : unread = (Seq.ofList [0x08, 0x61, 0xE9, 0x7F, 0x00, 0x62, 0xFF]).append
      (Seq.ofList [0x0D]) := by
    rw [← Seq.ofList_append]
    rfl
  refine ⟨PacedLine.serialLine, PacedLine.responsive, carries, by decide, outcomeEq, ?_,
    returns PacedLine.responsive ⟨_, _, split, complete⟩⟩
  rcases exactly 16 with
    stalled | ⟨taken, later, line, splitEq, completes, _, _, _, _, _, holds⟩
  · cases outcomeEq.symm.trans stalled
  · exact ⟨taken, later, splitEq, completes, holds⟩

end Microkernel.Client
