import CrossOver.Lib.Bytes

/-!
# Length-prefixed frames

A stream of frames, each the little-endian length of its body and then the
body, with a limit on the length.  `Parses` relates a stream to the bodies of
its complete frames and to the tail behind them; it can be computed piecewise,
a chunk of the stream at a time.
-/

namespace CrossOver.Lib

/-- The length of `body` in `width` bytes, then `body`. -/
def frame (width : Nat) (body : Bytes) : Bytes := leBytes width body.length ++ body

def LegalLength (limit len : Nat) : Prop := 0 < len ∧ len ≤ limit

instance (limit len : Nat) : Decidable (LegalLength limit len) :=
  inferInstanceAs (Decidable (0 < len ∧ len ≤ limit))

/-- A header that gives no legal length. -/
def BadHeader (width limit : Nat) (bytes : Bytes) : Prop :=
  width ≤ bytes.length ∧ ¬ LegalLength limit (leValue (bytes.take width))

instance (width limit : Nat) (bytes : Bytes) : Decidable (BadHeader width limit bytes) :=
  inferInstanceAs (Decidable (_ ∧ ¬ _))

/-- The bodies of the complete frames at the front of a stream, and what is left. -/
inductive Parses (width limit : Nat) : Bytes → List Bytes → Bytes → Prop where
  | stop {tail : Bytes} :
      (∀ body rest, LegalLength limit body.length → tail ≠ frame width body ++ rest) →
      Parses width limit tail [] tail
  | next {body rest tail : Bytes} {bodies : List Bytes} : LegalLength limit body.length →
      Parses width limit rest bodies tail →
      Parses width limit (frame width body ++ rest) (body :: bodies) tail

section Framing

variable {width limit : Nat} {stream tail : Bytes} {bodies : List Bytes}

@[simp]
theorem frame_length (width : Nat) (body : Bytes) :
    (frame width body).length = width + body.length := by
  simp [frame]

/-- The tail that one chunk leaves is parsed again with the next one. -/
theorem Parses.append {chunk rest : Bytes} {more : List Bytes}
    (first : Parses width limit stream bodies tail)
    (second : Parses width limit (tail ++ chunk) more rest) :
    Parses width limit (stream ++ chunk) (bodies ++ more) rest := by
  induction first with
  | stop => exact second
  | next legal _ inductionHypothesis =>
      rw [List.append_assoc]
      exact .next legal (inductionHypothesis second)

/-- Too few bytes for a frame. -/
theorem Parses.short (few : tail.length ≤ width) : Parses width limit tail [] tail := by
  refine .stop ?_
  rintro body rest legal rfl
  have positive := legal.1
  simp only [List.length_append, frame_length] at few
  omega

section Headers

variable (wide : limit < 256 ^ width)

include wide

theorem leValue_frame {body : Bytes} (rest : Bytes) (legal : LegalLength limit body.length) :
    leValue ((frame width body ++ rest).take width) = body.length := by
  rw [frame, List.append_assoc, List.take_append_of_le_length (by simp),
    List.take_of_length_le (by simp), leValue_leBytes (legal.2.trans_lt wide)]

theorem frame_inj {body body' rest rest' : Bytes} (legal : LegalLength limit body.length)
    (legal' : LegalLength limit body'.length)
    (same : frame width body ++ rest = frame width body' ++ rest') :
    body = body' ∧ rest = rest' := by
  have lengths : body.length = body'.length := by
    rw [← leValue_frame wide rest legal, ← leValue_frame wide rest' legal', same]
  rw [frame, frame, lengths, List.append_assoc, List.append_assoc,
    List.append_cancel_left_eq] at same
  exact List.append_inj same lengths

theorem Parses.unique {bodies' : List Bytes} {tail' : Bytes}
    (first : Parses width limit stream bodies tail)
    (second : Parses width limit stream bodies' tail') : bodies = bodies' ∧ tail = tail' := by
  induction first generalizing bodies' tail' with
  | stop none =>
      cases second with
      | stop => exact ⟨rfl, rfl⟩
      | next legal => exact absurd rfl (none _ _ legal)
  | @next body rest _ _ legal _ inductionHypothesis =>
      generalize same : frame width body ++ rest = stream at second
      cases second with
      | stop none => exact absurd same.symm (none _ _ legal)
      | next legal' later =>
          obtain ⟨rfl, rfl⟩ := frame_inj wide legal legal' same
          obtain ⟨rfl, rfl⟩ := inductionHypothesis later
          exact ⟨rfl, rfl⟩

theorem Parses.bad (bad : BadHeader width limit tail) : Parses width limit tail [] tail := by
  refine .stop ?_
  rintro body rest legal rfl
  apply bad.2
  rw [leValue_frame wide rest legal]
  exact legal

/-- A legal header whose body has not arrived. -/
theorem Parses.incomplete (missing : tail.length < width + leValue (tail.take width)) :
    Parses width limit tail [] tail := by
  refine .stop ?_
  rintro body rest legal rfl
  rw [leValue_frame wide rest legal] at missing
  simp only [List.length_append, frame_length] at missing
  omega

theorem Parses.stuck (parses : Parses width limit stream bodies tail)
    (bad : BadHeader width limit tail) (more : Bytes) :
    Parses width limit (stream ++ more) bodies (tail ++ more) ∧
      BadHeader width limit (tail ++ more) := by
  have still : BadHeader width limit (tail ++ more) := by
    refine ⟨bad.1.trans (by simp), ?_⟩
    rw [List.take_append_of_le_length bad.1]
    exact bad.2
  refine ⟨?_, still⟩
  have joined := parses.append (Parses.bad wide still)
  rwa [List.append_nil] at joined

end Headers

def frames (width : Nat) (bodies : List Bytes) : Bytes := bodies.flatMap (frame width)

@[simp]
theorem frames_cons (width : Nat) (body : Bytes) (bodies : List Bytes) :
    frames width (body :: bodies) = frame width body ++ frames width bodies := rfl

theorem Parses.split (parses : Parses width limit stream bodies tail) :
    stream = frames width bodies ++ tail ∧ ∀ body ∈ bodies, LegalLength limit body.length := by
  induction parses with
  | stop => exact ⟨rfl, by simp⟩
  | @next body rest tail bodies legal _ inductionHypothesis =>
      obtain ⟨split, legalRest⟩ := inductionHypothesis
      refine ⟨?_, ?_⟩
      · rw [split, frames_cons, List.append_assoc]
      · intro other membership
        rcases List.mem_cons.mp membership with rfl | later
        · exact legal
        · exact legalRest other later

theorem Parses.tail_stops (parses : Parses width limit stream bodies tail) {body rest : Bytes}
    (legal : LegalLength limit body.length) : tail ≠ frame width body ++ rest := by
  induction parses with
  | stop none => exact none body rest legal
  | next _ _ inductionHypothesis => exact inductionHypothesis

section Streams

variable (wide : limit < 256 ^ width) {messages : List Bytes}
  (legal : ∀ message ∈ messages, LegalLength limit message.length)

include wide legal

/-- Legal frames can be taken off a stream of legal frames in one way only. -/
theorem frames_split (legalFront : ∀ body ∈ bodies, LegalLength limit body.length)
    (same : frames width bodies ++ tail = frames width messages) :
    ∃ rest, messages = bodies ++ rest ∧ tail = frames width rest := by
  induction bodies generalizing messages with
  | nil => exact ⟨messages, rfl, same⟩
  | cons body bodies inductionHypothesis =>
      have first := legalFront body List.mem_cons_self
      cases messages with
      | nil =>
          have length := congrArg List.length same
          have positive := first.1
          rw [frames_cons, show frames width [] = [] from rfl, List.length_nil, List.length_append,
            List.length_append, frame_length] at length
          omega
      | cons message later =>
          rw [frames_cons, frames_cons, List.append_assoc] at same
          obtain ⟨rfl, behind⟩ := frame_inj wide first (legal message List.mem_cons_self) same
          obtain ⟨rest, split, tailEq⟩ := inductionHypothesis
            (fun other membership => legal other (List.mem_cons_of_mem _ membership))
            (fun other membership => legalFront other (List.mem_cons_of_mem _ membership)) behind
          exact ⟨rest, by rw [split, List.cons_append], tailEq⟩

/-- A stream of legal frames, cut anywhere, shows no bad header, and all of it
gives back the bodies. -/
theorem Parses.of_frames {more : Bytes} (some : 0 < width)
    (parses : Parses width limit stream bodies tail)
    (cut : stream ++ more = frames width messages) :
    ¬ BadHeader width limit tail ∧ (more = [] → bodies = messages) := by
  obtain ⟨split, legalFront⟩ := parses.split
  rw [split, List.append_assoc] at cut
  obtain ⟨rest, messagesEq, behind⟩ := frames_split wide legal legalFront cut
  subst messagesEq
  cases rest with
  | nil =>
      have none : tail = [] := List.append_eq_nil_iff.mp behind |>.1
      refine ⟨?_, fun _ => (List.append_nil bodies).symm⟩
      rintro ⟨long, _⟩
      rw [none, List.length_nil] at long
      omega
  | cons message later =>
      have first := legal message (by simp)
      constructor
      · rintro ⟨long, illegal⟩
        have header : tail.take width = (frame width message ++ frames width later).take width := by
          rw [← frames_cons, ← behind, List.take_append_of_le_length long]
        rw [header, leValue_frame wide _ first] at illegal
        exact illegal first
      · rintro rfl
        rw [List.append_nil, frames_cons] at behind
        exact absurd behind (parses.tail_stops first)

end Streams

theorem frame_take_drop {len : Nat} (value : leValue (stream.take width) = len)
    (complete : width + len ≤ stream.length) :
    frame width ((stream.drop width).take len) ++ stream.drop (width + len) = stream := by
  have header : (stream.take width).length = width := by
    rw [List.length_take]
    omega
  have size : ((stream.drop width).take len).length = len := by
    rw [List.length_take, List.length_drop]
    omega
  have written := leBytes_leValue (stream.take width)
  rw [header, value] at written
  rw [frame, size, written, List.append_assoc, ← List.drop_drop, List.take_append_drop,
    List.take_append_drop]

end Framing

end CrossOver.Lib
