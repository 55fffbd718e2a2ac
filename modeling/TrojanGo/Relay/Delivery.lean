import TrojanGo.Relay.Pipes

/-!
# What comes through a relay

As long as the handler closes nothing before both copiers are done, a copier knows at every point
of its loop where each byte from its side is. The handlers do not wait that long.
-/
namespace TrojanGo.Pipes

open Lib

/-! ### What the copiers keep -/

variable {t : Thread Op Res Bool} {op : Op} {result : Res op}

section Copiers

variable {relay : Relay} {s s' : State} {side : Side} {fate : Fate}

@[simp] theorem State.update_same (s : State) (side : Side) (f : Conn → Conn) :
    (s.update side f).conns side = f (s.conns side) := by simp [update]

@[simp] theorem State.update_other (s : State) (side : Side) (f : Conn → Conn) :
    (s.update side f).conns side.other = s.conns side.other := by simp [update]

@[simp] theorem State.update_from_other (s : State) (side : Side) (f : Conn → Conn) :
    (s.update side.other f).conns side = s.conns side := by simp [update]

/-- Nothing that came from this side is lost; the copier holds some of it. -/
def Lossless (side : Side) (held : Bytes) (s : State) : Prop :=
  (s.conns side.other).delivered ++ held ++ (s.conns side).inbox = (s.conns side).sent

/-- The peer has finished, and all it has sent is delivered. -/
structure Complete (side : Side) (s : State) : Prop where
  ended : (s.conns side).ended = true
  inbox : (s.conns side).inbox = []
  delivered : (s.conns side.other).delivered = (s.conns side).sent

theorem Lossless.complete (lossless : Lossless side [] s) (ended : (s.conns side).ended = true)
    (inbox : (s.conns side).inbox = []) : Complete side s := by
  refine ⟨ended, inbox, ?_⟩
  simpa [Lossless, inbox] using lossless

/-- What the others can do to the bytes from this side: the peer sends more of them. -/
structure Grows (side : Side) (s s' : State) : Prop where
  delivered : (s'.conns side.other).delivered = (s.conns side.other).delivered
  arrives : ∃ bytes, (s'.conns side).sent = (s.conns side).sent ++ bytes ∧
    (s'.conns side).inbox = (s.conns side).inbox ++ bytes ∧
    ((s.conns side).ended = true → bytes = [] ∧ (s'.conns side).ended = true)

theorem Lossless.grows {held : Bytes} (lossless : Lossless side held s) (grows : Grows side s s') :
    Lossless side held s' := by
  obtain ⟨bytes, sent, inbox, -⟩ := grows.arrives
  rw [Lossless, grows.delivered, sent, inbox, ← List.append_assoc]
  exact congrArg (· ++ bytes) lossless

theorem Complete.grows (complete : Complete side s) (grows : Grows side s s') :
    Complete side s' := by
  obtain ⟨bytes, sent, inbox, final⟩ := grows.arrives
  obtain ⟨rfl, ended⟩ := final complete.ended
  refine ⟨ended, ?_, ?_⟩
  · simpa [complete.inbox] using inbox
  · rw [grows.delivered, sent, complete.delivered, List.append_nil]

/-- The rest of a copier that only has to report its end. -/
def Leaving (side : Side) : Pipe Bool → Prop
  | .ret ended => ended = true
  | .call op next => (op = .closeWrite side.other ∨ op = .post side ∨ op = .wgDone) ∧
      ∀ result, Leaving side (next result)

theorem leave_leaving (relay : Relay) (side : Side) : Leaving side (relay.leave side) := by
  cases relay with
  | gateway tcp =>
    simp only [Relay.leave]
    split
    · exact ⟨.inl rfl, fun _ => ⟨.inr (.inl rfl), fun _ => rfl⟩⟩
    · exact ⟨.inr (.inl rfl), fun _ => rfl⟩
  | proxy => exact ⟨.inr (.inl rfl), fun _ => ⟨.inr (.inr rfl), fun _ => rfl⟩⟩
  | redirector => exact ⟨.inr (.inl rfl), fun _ => rfl⟩

/-- Where a copier stands, and what it knows there. -/
inductive Stage (relay : Relay) (side : Side) (s : State) : Thread Op Res Bool → Prop where
  | between (lossless : Lossless side [] s) : Stage relay side s (.idle false)
  | reading (lossless : Lossless side [] s) :
      Stage relay side s (.running (relay.copyConn side))
  | writing (bytes : Bytes) (found : Found) (nonempty : bytes ≠ []) (sound : found ≠ .error)
      (last : found = .eof → (s.conns side).ended = true ∧ (s.conns side).inbox = [])
      (lossless : Lossless side bytes s) :
      Stage relay side s (.running (.call (.write side.other bytes) (relay.copied side found)))
  | written (lossless : Lossless side [] s) : Stage relay side s (.running (.ret false))
  | leaving (p : Pipe Bool) (leaving : Leaving side p) (complete : Complete side s) :
      Stage relay side s (.running p)
  | ended (complete : Complete side s) : Stage relay side s (.idle true)

theorem Stage.grows (stage : Stage relay side s t) (grows : Grows side s s') :
    Stage relay side s' t := by
  cases stage with
  | between lossless => exact .between (lossless.grows grows)
  | reading lossless => exact .reading (lossless.grows grows)
  | writing bytes found nonempty sound last lossless =>
    -- a peer that has finished sends no more, so the last bytes stay the last
    refine .writing bytes found nonempty sound (fun eof => ?_) (lossless.grows grows)
    obtain ⟨ended, inbox⟩ := last eof
    obtain ⟨more, -, inbox', final⟩ := grows.arrives
    obtain ⟨rfl, ended'⟩ := final ended
    exact ⟨ended', by simpa [inbox] using inbox'⟩
  | written lossless => exact .written (lossless.grows grows)
  | leaving p leaving complete => exact .leaving p leaving (complete.grows grows)
  | ended complete => exact .ended (complete.grows grows)

/-- Nothing is reported or closed before its time. -/
structure Books (s : State) : Prop where
  posted : ∀ side, s.posted side = true → Complete side s
  shut : ∀ side, (s.conns side.other).shut = true → Complete side s
  closed : ∀ side, (s.conns side).closed = true → ∀ side', s.posted side' = true

/-- A connection is closed only after both copiers are done. -/
def Patient (s : State) : Op → Prop
  | .close _ => s.posted .inbound = true ∧ s.posted .outbound = true
  | _ => True

instance (s : State) : (op : Op) → Decidable (Patient s op)
  | .close _ => inferInstanceAs (Decidable (_ ∧ _))
  | .read _ | .write _ _ | .closeWrite _ | .post _ | .wgDone | .await _ | .wgWait | .send _ _
  | .finish _ => .isTrue trivial

/-! One operation after another. -/

theorem Grows.of_same (data : (s'.conns side).sent = (s.conns side).sent ∧
      (s'.conns side).inbox = (s.conns side).inbox ∧ (s'.conns side).ended = (s.conns side).ended)
    (delivered : (s'.conns side.other).delivered = (s.conns side.other).delivered) :
    Grows side s s' := by
  refine ⟨delivered, [], ?_, ?_, fun ended => ⟨rfl, ?_⟩⟩
  · simpa using data.1
  · simpa using data.2.1
  · rw [data.2.2, ended]

theorem Grows.refl (side : Side) (s : State) : Grows side s s := .of_same ⟨rfl, rfl, rfl⟩ rfl

/-- What is left to show of the books after an operation. -/
theorem Books.next (books : Books s) (kept : ∀ side, Complete side s → Complete side s')
    (posted : ∀ side, s'.posted side = true → s.posted side = true ∨ Complete side s')
    (stays : ∀ side, s.posted side = true → s'.posted side = true)
    (shut : ∀ side, (s'.conns side.other).shut = true →
      (s.conns side.other).shut = true ∨ Complete side s')
    (closed : ∀ side, (s'.conns side).closed = true → (s.conns side).closed = true ∨
      ∀ side', s'.posted side' = true) : Books s' := by
  grind [Books]

/-- An operation that moves bytes closes nothing. -/
theorem Books.moves (books : Books s) {on : Side} {f : Conn → Conn}
    (kept : ∀ side, Complete side s → Complete side (s.update on f))
    (same : ∀ conn, (f conn).shut = conn.shut ∧ (f conn).closed = conn.closed) :
    Books (s.update on f) := by
  have control : ∀ side, ((s.update on f).conns side).shut = (s.conns side).shut ∧
      ((s.update on f).conns side).closed = (s.conns side).closed := by
    intro side
    rcases side.eq_or on with rfl | rfl <;> simp [same]
  refine books.next kept (fun _ => .inl) (fun _ now => now) (fun side now => .inl ?_)
    fun side now => .inl ?_
  · rw [← (control side.other).1, now]
  · rw [← (control side).2, now]

/-- The operations of the handler and of the peers. -/
def Outside : Op → Prop
  | .await _ | .close _ | .wgWait | .send _ _ | .finish _ => True
  | _ => False

/-- Everything they can do. -/
inductive Acts (s : State) : Op → State → Prop
  | waits {op : Op} (received : Nat) : Acts s op { s with received }
  | closes (on : Side) : Acts s (.close on) (s.update on fun conn => { conn with closed := true })
  | sends {on : Side} (bytes : Bytes) (unfinished : ¬ (s.conns on).ended = true) :
      Acts s (.send on bytes) (s.update on fun conn =>
        { conn with sent := conn.sent ++ bytes, inbox := conn.inbox ++ bytes })
  | finishes (on : Side) :
      Acts s (.finish on) (s.update on fun conn => { conn with ended := true })

theorem outside_acts (outside : Outside op) (done : exec fate s op = some (result, s')) :
    Acts s op s' := by
  cases op with
  | read | write | closeWrite | post | wgDone => exact outside.elim
  | await | wgWait =>
    simp only [exec] at done
    repeat' split at done
    all_goals cases done
    all_goals exact .waits _
  | close on =>
    cases done
    exact .closes on
  | send on bytes =>
    simp only [exec] at done
    split at done
    · cases done
    next unfinished =>
      cases done
      exact .sends bytes unfinished
  | finish on =>
    cases done
    exact .finishes on

/-- For the bytes from one side they only make more arrive. -/
theorem outside_grows (outside : Outside op) (done : exec fate s op = some (result, s'))
    (side : Side) : Grows side s s' := by
  cases outside_acts outside done with
  | waits => exact .of_same ⟨rfl, rfl, rfl⟩ rfl
  | closes on => rcases side.eq_or on with rfl | rfl <;> exact .of_same (by simp) (by simp)
  | @sends on bytes unfinished =>
    rcases side.eq_or on with rfl | rfl
    · exact ⟨by simp, bytes, by simp, by simp, fun ended => absurd ended unfinished⟩
    · exact .of_same (by simp) (by simp)
  | finishes on =>
    rcases side.eq_or on with rfl | rfl
    · exact ⟨by simp, [], by simp, by simp, fun _ => ⟨rfl, by simp⟩⟩
    · exact .of_same (by simp) (by simp)

/-- A patient handler closes when both directions are reported complete. -/
theorem outside_books (outside : Outside op) (books : Books s) (patient : Patient s op)
    (done : exec fate s op = some (result, s')) : Books s' := by
  have kept : ∀ side, Complete side s → Complete side s' :=
    fun side complete => complete.grows (outside_grows outside done side)
  cases outside_acts outside done with
  | waits =>
    exact books.next kept (fun _ => .inl) (fun _ now => now) (fun _ => .inl) fun _ => .inl
  | closes on =>
    refine books.next kept (fun _ => .inl) (fun _ now => now) (fun side now => .inl ?_)
      fun _ _ => .inr fun side' => ?_
    · rcases side.other.eq_or on with rfl | rfl <;> simpa using now
    · cases side' with
      | inbound => exact patient.1
      | outbound => exact patient.2
  | sends | finishes => exact books.moves kept fun _ => ⟨rfl, rfl⟩

theorem copyConn_eq (relay : Relay) (side : Side) :
    relay.copyConn side = .call (.read side) fun r =>
      if r.1 = [] then relay.copied side r.2 true
      else .call (.write side.other r.1) (relay.copied side r.2) := rfl

theorem copied_leave {found : Found} (done : found ≠ .more) (written : Bool) :
    relay.copied side found written = relay.leave side := by
  simp [Relay.copied, done]

/-- Of the first `n` bytes from this side, those that are not delivered yet. -/
def missing (side : Side) (n : Nat) (s : State) : Nat :=
  n - (s.conns side.other).delivered.length

/-- How many turns of the copier it can take until this many bytes are delivered: four to a
round of its loop. -/
def turnsLeft (k : Nat) : Thread Op Res Bool → Nat
  | .idle false => 4 * k
  | .running (.call (.read _) _) => 4 * k - 1
  | .running (.call (.write _ _) _) => 4 * k - 2
  | .running (.ret false) => 4 * k + 1
  | _ => 0

/-- A copier takes nothing back, and its step brings the end nearer. -/
structure Moved (side : Side) (s s' : State) (t t' : Thread Op Res Bool) : Prop where
  sent : (s'.conns side).sent = (s.conns side).sent
  delivered : (s.conns side.other).delivered.length ≤ (s'.conns side.other).delivered.length
  nearer : ∀ n ≤ (s.conns side).sent.length, missing side n s' = 0 ∨
    turnsLeft (missing side n s') t' < turnsLeft (missing side n s) t

/-- What one operation of a copier achieves. -/
structure Steps (relay : Relay) (side : Side) (s s' : State) (t : Thread Op Res Bool)
    (p : Pipe Bool) : Prop extends Moved side s s' t (.running p) where
  books : Books s'
  stage : Stage relay side s' (.running p)
  apart : Grows side.other s s'

theorem Complete.missing_eq (complete : Complete side s) {n : Nat}
    (within : n ≤ (s.conns side).sent.length) : missing side n s = 0 := by
  rw [missing, complete.delivered]
  omega

/-- With the last bytes delivered it does not matter where the copier stands. -/
theorem Steps.last {p : Pipe Bool} (books : Books s') (leaving : Leaving side p)
    (complete : Complete side s') (apart : Grows side.other s s')
    (sent : (s'.conns side).sent = (s.conns side).sent)
    (delivered : (s.conns side.other).delivered.length ≤
      (s'.conns side.other).delivered.length) : Steps relay side s s' t p :=
  ⟨⟨sent, delivered, fun _ within => .inl (complete.missing_eq (sent ▸ within))⟩, books,
    .leaving p leaving complete, apart⟩

theorem read_steps {result : Bytes × Found} (books : Books s) (lossless : Lossless side [] s)
    (done : exec fate s (.read side) = some (result, s')) :
    Steps relay side s s' (.running (relay.copyConn side))
      (if result.1 = [] then relay.copied side result.2 true
      else .call (.write side.other result.1) (relay.copied side result.2)) := by
  simp only [exec] at done
  split at done
  next closed =>
    -- a connection that is closed has nothing to read any more
    cases done
    have complete := books.posted side (books.closed side closed side)
    rw [if_pos rfl, copied_leave (by simp)]
    exact .last books (leave_leaving relay side) complete (.refl _ s) rfl le_rfl
  split at done
  next empty =>
    split at done
    next ended =>
      cases done
      rw [if_pos rfl, copied_leave (by simp)]
      exact .last books (leave_leaving relay side) (lossless.complete ended empty)
        (.refl _ s) rfl le_rfl
    · cases done
  next nonempty =>
    split at done
    · cases done
    next positive =>
      cases done
      have taken : (s.conns side).inbox.take fate.count ≠ [] := by
        simp [List.take_eq_nil_iff, nonempty, positive]
      have apart : Grows side.other s
          (s.update side fun conn =>
            { conn with inbox := (s.conns side).inbox.drop fate.count }) :=
        .of_same (by simp) (by simp)
      rw [if_neg taken]
      -- the bytes move from the connection into the hands of the copier
      refine ⟨⟨by simp, by simp, fun n within => ?_⟩,
        books.moves (fun side' complete => ?_) fun _ => ⟨rfl, rfl⟩, ?_, apart⟩
      · simp only [copyConn_eq, turnsLeft, missing, State.update_other]
        omega
      · rcases side.eq_or side' with rfl | rfl
        · exact absurd complete.inbox nonempty
        · exact complete.grows apart
      · refine .writing _ _ taken ?_ (fun eof => ?_) ?_
        · split <;> simp
        · split at eof
          next last => exact ⟨by simpa using last.2.1, by simpa using last.2.2⟩
          · cases eof
        · simpa [Lossless] using lossless

theorem write_steps {bytes : Bytes} {found : Found} {written : Bool} (books : Books s)
    (nonempty : bytes ≠ []) (sound : found ≠ .error)
    (last : found = .eof → (s.conns side).ended = true ∧ (s.conns side).inbox = [])
    (lossless : Lossless side bytes s)
    (done : exec fate s (.write side.other bytes) = some (written, s')) :
    Steps relay side s s' (.running (.call (.write side.other bytes) (relay.copied side found)))
      (relay.copied side found written) := by
  -- as long as the copier holds bytes, nobody has closed anything
  have incomplete : ¬ Complete side s := fun complete => nonempty <| by
    simpa [Lossless, complete.inbox, complete.delivered] using lossless
  simp only [exec] at done
  split at done
  next refused =>
    -- a connection is closed, or shut for writing, only once this direction is complete
    rcases refused with closed | shut
    · exact absurd (books.posted side (books.closed side.other closed side)) incomplete
    · exact absurd (books.shut side shut) incomplete
  next accepted =>
    cases done
    have apart : Grows side.other s (s.update side.other fun conn =>
        { conn with delivered := conn.delivered ++ bytes }) :=
      .of_same (by simp) (by simp)
    have delivered : Lossless side [] (s.update side.other fun conn =>
        { conn with delivered := conn.delivered ++ bytes }) := by
      simpa [Lossless] using lossless
    have books' : Books (s.update side.other fun conn =>
        { conn with delivered := conn.delivered ++ bytes }) := by
      refine books.moves (fun side' complete => ?_) fun _ => ⟨rfl, rfl⟩
      rcases side.eq_or side' with rfl | rfl
      · exact absurd complete incomplete
      · exact complete.grows apart
    cases found with
    | error => exact absurd rfl sound
    | more =>
      refine ⟨⟨by simp, by simp, fun n within => ?_⟩, books', .written delivered, apart⟩
      -- at least one byte was written
      have positive := List.length_pos_iff.mpr nonempty
      rw [show relay.copied side .more true = .ret false from rfl]
      simp only [turnsLeft, missing, State.update_same, List.length_append]
      omega
    | eof =>
      obtain ⟨ended, inbox⟩ := last rfl
      rw [copied_leave (by simp)]
      exact .last books' (leave_leaving relay side)
        (delivered.complete (by simpa using ended) (by simpa using inbox)) apart (by simp)
        (by simp)

variable {next : Res op → Pipe Bool}

/-- On its way out a copier changes no byte. -/
theorem leave_steps (books : Books s) (leaving : Leaving side (.call op next))
    (complete : Complete side s) (done : exec fate s op = some (result, s')) :
    Steps relay side s s' (.running (.call op next)) (next result) := by
  obtain ⟨rfl | rfl | rfl, rest⟩ := leaving
  · -- `CloseWrite` on the other connection: its writer is this copier alone
    cases done
    have grows : ∀ side', Grows side' s (s.update side.other fun conn =>
        { conn with shut := true }) := by
      intro side'
      rcases side.eq_or side' with rfl | rfl <;> exact .of_same (by simp) (by simp)
    have complete' := complete.grows (grows side)
    refine .last (books.next (fun side' complete => complete.grows (grows side')) (fun _ => .inl)
      (fun _ now => now) (fun side' now => ?_) (fun side' now => .inl ?_))
      (rest _) complete' (grows side.other) (by simp) (by simp)
    · rcases side.eq_or side' with rfl | rfl
      · exact .inr complete'
      · exact .inl (by simpa using now)
    · rcases side.eq_or side' with rfl | rfl <;> simpa using now
  · -- the report that this direction is complete
    cases done
    have grows : ∀ side', Grows side' s { s with posted := Function.update s.posted side true } :=
      fun _ => .of_same ⟨rfl, rfl, rfl⟩ rfl
    have complete' := complete.grows (grows side)
    refine .last (books.next (fun side' complete => complete.grows (grows side'))
      (fun side' now => ?_) (fun side' before => ?_) (fun _ => .inl) (fun _ => .inl))
      (rest _) complete' (grows side.other) rfl le_rfl
    · grind
    · rcases side.eq_or side' with rfl | rfl <;> simp [before]
  · cases done
    have grows : ∀ side', Grows side' s { s with working := s.working - 1 } :=
      fun _ => .of_same ⟨rfl, rfl, rfl⟩ rfl
    exact .last (books.next (fun side' complete => complete.grows (grows side')) (fun _ => .inl)
      (fun _ now => now) (fun _ => .inl) (fun _ => .inl))
      (rest _) (complete.grows (grows side)) (grows side.other) rfl le_rfl

theorem Stage.steps (books : Books s) (stage : Stage relay side s t)
    (held : t = .running (.call op next)) (done : exec fate s op = some (result, s')) :
    Steps relay side s s' t (next result) := by
  cases stage with
  | between | written | ended => cases held
  | reading lossless =>
    rw [copyConn_eq] at held
    cases held
    exact read_steps books lossless done
  | writing bytes found nonempty sound last lossless =>
    cases held
    exact write_steps books nonempty sound last lossless done
  | leaving p leaving complete =>
    cases held
    exact leave_steps books leaving complete done

theorem Stage.leaves {ended : Bool} (stage : Stage relay side s t)
    (held : t = .running (.ret ended)) : Stage relay side s (.idle ended) := by
  cases stage with
  | between | writing | ended => cases held
  | reading lossless =>
    rw [copyConn_eq] at held
    cases held
  | written lossless =>
    cases held
    exact .between lossless
  | leaving p leaving complete =>
    cases held
    cases leaving
    exact .ended complete

end Copiers

/-! ### Whole runs -/

section Runs

variable {relay : Relay} {c c' : Config} {label : Label Party Call Fate}

structure Relaying (relay : Relay) (c : Config) : Prop where
  books : Books c.shared
  copiers : ∀ side, Stage relay side c.shared (c.threads (.copier side))
  outside : ∀ party p, (∀ side, party ≠ .copier side) → c.threads party = .running p →
    p.Only Outside

theorem start_relaying (relay : Relay) : Relaying relay (start relay) := by
  refine ⟨⟨fun side now => ?_, fun side now => ?_, fun side now => ?_⟩, fun side => ?_,
    fun party p _ held => ?_⟩
  · cases now
  · cases now
  · cases now
  · exact .between rfl
  · cases held

theorem handle_outside (relay : Relay) : relay.handle.Only Outside := by
  have closing : (do ask (.close .outbound); ask (.close .inbound); return true).Only Outside :=
    ⟨trivial, fun _ => ⟨trivial, fun _ => trivial⟩⟩
  cases relay with
  | gateway | redirector => exact ⟨trivial, fun _ => closing⟩
  | proxy =>
    exact ⟨trivial, fun _ => ⟨trivial, fun _ => ⟨trivial, fun _ => ⟨trivial, fun _ => closing⟩⟩⟩⟩

/-- A thread that is not a copier goes on. -/
theorem Relaying.outsider (relaying : Relaying relay c) {s' : State} {party : Party}
    (other : ∀ side, party ≠ .copier side) (books : Books s')
    (grows : ∀ side, Grows side c.shared s') (only : ∀ p, t = .running p → p.Only Outside) :
    Relaying relay ⟨s', Function.update c.threads party t⟩ := by
  refine ⟨books, fun side => ?_, fun party' p other' held => ?_⟩
  · simp only [Function.update_of_ne (other side).symm]
    exact (relaying.copiers side).grows (grows side)
  · by_cases same : party' = party
    · subst same
      exact only p (by simpa using held)
    · exact relaying.outside party' p other' (by simpa [Function.update_of_ne same] using held)

variable {side : Side}

/-- A copier goes on. -/
theorem Relaying.copier (relaying : Relaying relay c) {s' : State} (books : Books s')
    (stage : Stage relay side s' t) (apart : Grows side.other c.shared s') :
    Relaying relay ⟨s', Function.update c.threads (.copier side) t⟩ := by
  refine ⟨books, fun side' => ?_, fun party p other held => ?_⟩
  · rcases side.eq_or side' with rfl | rfl
    · simpa using stage
    · have different : Party.copier side.other ≠ .copier side := by simp
      simp only [Function.update_of_ne different]
      exact (relaying.copiers side.other).grows apart
  · exact relaying.outside party p other (by simpa [Function.update_of_ne (other side)] using held)

/-- Every step of a patient run keeps it. -/
theorem Relaying.next (relaying : Relaying relay c) (admitted : Machine.Admitted Patient c label)
    (stepped : (machine relay).next c label = some c') : Relaying relay c' := by
  cases Machine.next_cases stepped with
  | @enter party call memory p held found =>
    cases party with
    | copier side =>
      have stage := relaying.copiers side
      rw [held] at stage
      cases stage with
      | ended => cases found
      | between lossless =>
        cases found
        exact relaying.copier relaying.books (.reading lossless) (.refl _ _)
    | handler =>
      refine relaying.outsider (by simp) relaying.books (fun side => .refl _ _) ?_
      rintro _ ⟨⟩
      cases memory with
      | true => cases found
      | false =>
        cases found
        exact handle_outside relay
    | peer side =>
      refine relaying.outsider (by simp) relaying.books (fun side => .refl _ _) ?_
      rintro _ ⟨⟩
      cases memory with
      | true => cases found
      | false => cases call <;> cases found <;> exact ⟨trivial, fun _ => trivial⟩
  | @step party fate op rest result s' held done =>
    have patient : Patient c.shared op := by simpa [Machine.Admitted, held] using admitted
    cases party with
    | copier side =>
      have steps := (relaying.copiers side).steps relaying.books held done
      exact relaying.copier steps.books steps.stage steps.apart
    | handler | peer =>
      have issued := relaying.outside _ _ (by simp) held
      refine relaying.outsider (by simp) (outside_books issued.1 relaying.books patient done)
        (outside_grows issued.1 done) ?_
      rintro _ ⟨⟩
      exact issued.2 result
  | @leave party memory held =>
    cases party with
    | copier side =>
      have stage := relaying.copiers side
      exact relaying.copier relaying.books (stage.leaves held) (.refl _ _)
    | handler | peer =>
      refine relaying.outsider (by simp) relaying.books (fun side => .refl _ _) ?_
      rintro _ ⟨⟩
  | crash kept => cases kept

theorem Stage.delivered_le {s : State} (stage : Stage relay side s t) :
    (s.conns side.other).delivered <+: (s.conns side).sent := by
  cases stage with
  | between lossless | reading lossless | written lossless | writing bytes _ _ _ _ lossless =>
    exact ⟨_, by simpa [Lossless] using lossless⟩
  | leaving _ _ complete | ended complete => rw [complete.delivered]

section

variable (relaying : Relaying relay c)

include relaying

/-- Bytes that are not delivered yet can always be moved on by their copier. -/
theorem Relaying.can_move
    (behind : (c.shared.conns side.other).delivered ≠ (c.shared.conns side).sent) :
    ∃ label : Label Party Call Fate, label.thread = some (.copier side) ∧
      ((machine relay).next c label).isSome := by
  have stage := relaying.copiers side
  generalize held : c.threads (.copier side) = t at stage
  cases stage with
  | between =>
    exact ⟨.enter (.copier side) (), rfl, by simp [Machine.next, held, machine, body]⟩
  | reading lossless =>
    -- the copier holds nothing, so what is behind is still to be read
    have nonempty : (c.shared.conns side).inbox ≠ [] := by
      intro empty
      exact behind (by simpa [Lossless, empty] using lossless)
    refine ⟨.step (.copier side) {}, rfl, ?_⟩
    rw [copyConn_eq] at held
    by_cases closed : (c.shared.conns side).closed = true
    · simp [Machine.next, held, machine, exec, closed]
    · simp [Machine.next, held, machine, exec, closed, nonempty]
  | writing bytes =>
    refine ⟨.step (.copier side) {}, rfl, ?_⟩
    simp only [Machine.next, held, machine, exec]
    split <;> rfl
  | written => exact ⟨.leave (.copier side), rfl, by simp [Machine.next, held]⟩
  | leaving _ _ complete | ended complete => exact absurd complete.delivered behind

/-- A step of another thread leaves the copier where it stands. -/
theorem Relaying.others (stepped : (machine relay).next c label = some c')
    (other : label.thread ≠ some (.copier side)) :
    c'.threads (.copier side) = c.threads (.copier side) ∧ Grows side c.shared c'.shared := by
  have untouched : ∀ party t, label.thread = some party →
      Function.update c.threads party t (.copier side) = c.threads (.copier side) := by grind
  cases Machine.next_cases stepped with
  | enter | leave => exact ⟨untouched _ _ rfl, .refl _ _⟩
  | @step party fate op rest result s' held done =>
    refine ⟨untouched _ _ rfl, ?_⟩
    cases party with
    | copier side' =>
      rcases side.eq_or side' with rfl | rfl
      · exact absurd rfl other
      · have apart := ((relaying.copiers side.other).steps relaying.books held done).apart
        rwa [Side.other_other] at apart
    | handler | peer =>
      have issued := relaying.outside _ _ (by simp) held
      exact outside_grows issued.1 done side
  | crash kept => cases kept

/-- A step of the copier itself. -/
theorem Relaying.own (stepped : (machine relay).next c label = some c')
    (own : label.thread = some (.copier side)) : Moved side c.shared c'.shared
      (c.threads (.copier side)) (c'.threads (.copier side)) := by
  have stage := relaying.copiers side
  cases Machine.next_cases stepped with
  | enter held found =>
    cases own
    refine ⟨rfl, le_rfl, fun n within => ?_⟩
    rw [held] at stage ⊢
    cases stage with
    | ended => cases found
    | between =>
      cases found
      simp only [Function.update_self, copyConn_eq, turnsLeft]
      omega
  | step held done =>
    cases own
    simp only [Function.update_self]
    exact (stage.steps relaying.books held done).toMoved
  | leave held =>
    cases own
    refine ⟨rfl, le_rfl, fun n within => ?_⟩
    simp only [Function.update_self]
    generalize c.threads (.copier side) = t at stage held
    cases stage with
    | between | writing | ended => cases held
    | reading lossless =>
      rw [copyConn_eq] at held
      cases held
    | written lossless =>
      cases held
      simp only [turnsLeft]
      omega
    | leaving p leaving complete => exact .inl (complete.missing_eq within)
  | crash => cases own

/-- Nothing that was sent or delivered is taken back. -/
theorem Relaying.extends (stepped : (machine relay).next c label = some c') (side : Side) :
    (c.shared.conns side).sent <+: (c'.shared.conns side).sent ∧
      (c.shared.conns side.other).delivered.length ≤
        (c'.shared.conns side.other).delivered.length := by
  by_cases own : label.thread = some (.copier side)
  · have moved := relaying.own stepped own
    exact ⟨by rw [moved.sent], moved.delivered⟩
  · obtain ⟨-, grows⟩ := relaying.others stepped own
    obtain ⟨bytes, sent, -⟩ := grows.arrives
    exact ⟨⟨bytes, sent.symm⟩, by rw [grows.delivered]⟩

theorem Relaying.arrived {n : Nat} (within : n ≤ (c.shared.conns side).sent.length)
    (none : turnsLeft (missing side n c.shared) (c.threads (.copier side)) = 0) :
    missing side n c.shared = 0 := by
  have stage := relaying.copiers side
  generalize c.threads (.copier side) = t at stage none
  cases stage with
  | reading =>
    simp only [copyConn_eq, turnsLeft] at none
    omega
  | between | writing | written =>
    simp only [turnsLeft] at none
    omega
  | leaving _ _ complete | ended complete => exact complete.missing_eq within

/-- After enough turns of the copier everything that was sent by now is delivered. -/
theorem Relaying.delivers {more : List (Label Party Call Fate)}
    (patient : (machine relay).RunMeets Patient c more) (ran : (machine relay).run c more = some c')
    (enough : turnsLeft (missing side (c.shared.conns side).sent.length c.shared)
      (c.threads (.copier side)) ≤ Machine.turns (.copier side) more) :
    (c.shared.conns side).sent <+: (c'.shared.conns side.other).delivered := by
  -- later bytes may be sent meanwhile: the measure counts only those that were sent by now
  let good (d : Config) : Prop :=
    Relaying relay d ∧ (c.shared.conns side).sent <+: (d.shared.conns side).sent
  have keeps : ∀ d label d', good d → Machine.Admitted Patient d label →
      (machine relay).next d label = some d' → good d' :=
    fun d label d' ⟨relaying, sent⟩ admitted stepped =>
      ⟨relaying.next admitted stepped, sent.trans (relaying.extends stepped side).1⟩
  have arrived : missing side (c.shared.conns side).sent.length c'.shared = 0 := by
    refine Machine.run_reaches good
      (fun d => missing side (c.shared.conns side).sent.length d.shared = 0)
      (fun d => turnsLeft (missing side (c.shared.conns side).sent.length d.shared)
        (d.threads (.copier side)))
      (.copier side) keeps ?_ ?_ ?_ ?_ ⟨relaying, List.prefix_refl _⟩ patient ran enough
    · rintro d label d' ⟨relaying, -⟩ _ stepped reached
      have longer := (relaying.extends stepped side).2
      simp only [missing] at reached ⊢
      omega
    · rintro d label d' ⟨relaying, -⟩ _ stepped other
      obtain ⟨thread, grows⟩ := relaying.others stepped other
      simp only [missing, thread, grows.delivered, le_refl]
    · rintro d label d' ⟨relaying, sent⟩ _ stepped own
      exact (relaying.own stepped own).nearer _ sent.length_le
    · rintro d ⟨relaying, sent⟩ none
      exact relaying.arrived sent.length_le none
  have good' := Machine.run_induction good keeps ⟨relaying, List.prefix_refl _⟩ patient ran
  refine List.prefix_of_prefix_length_le good'.2 (good'.1.copiers side).delivered_le ?_
  simp only [missing] at arrived
  omega

end

/-- Where the handler closes nothing before both copiers are done, what a peer has sent comes
through in every schedule: all that is delivered was sent, in order; a copier that is behind can
go on; and after enough turns of the copier everything that was sent by now is delivered. -/
theorem delivers_if_patient (relay : Relay) (labels : List (Label Party Call Fate)) (c : Config)
    (patient : (machine relay).RunMeets Patient (start relay) labels)
    (ran : (machine relay).run (start relay) labels = some c) (side : Side) :
    (c.shared.conns side.other).delivered <+: (c.shared.conns side).sent ∧
    ((c.shared.conns side.other).delivered ≠ (c.shared.conns side).sent →
      ∃ label : Label Party Call Fate, label.thread = some (.copier side) ∧
        ((machine relay).next c label).isSome) ∧
    ∃ enough, ∀ more c', (machine relay).RunMeets Patient c more →
      (machine relay).run c more = some c' → enough ≤ Machine.turns (.copier side) more →
      (c.shared.conns side).sent <+: (c'.shared.conns side.other).delivered := by
  have relaying := Machine.run_induction (Relaying relay) (fun _ _ _ relaying => relaying.next)
    (start_relaying relay) patient ran
  exact ⟨(relaying.copiers side).delivered_le, relaying.can_move, _,
    fun more c' patient' ran' enough => relaying.delivers patient' ran' enough⟩

/-- The outbound side sends three bytes, the inbound side finishes, and the handler closes both
connections after the first of the copiers, each of which takes so many operations to end. -/
private def firstFinishes (n : Nat) : List (Label Party Call Fate) :=
  [.enter (.peer .outbound) (.bytes [1, 2, 3]), .step (.peer .outbound) {},
    .leave (.peer .outbound), .enter (.peer .inbound) .finish, .step (.peer .inbound) {},
    .leave (.peer .inbound), .enter (.copier .inbound) ()] ++
  List.replicate n (.step (.copier .inbound) {}) ++ [.leave (.copier .inbound),
    .enter .handler (), .step .handler {}, .step .handler {}, .step .handler {},
    .enter (.peer .outbound) .finish, .step (.peer .outbound) {}, .leave (.peer .outbound),
    .enter (.copier .outbound) ()] ++
  List.replicate n (.step (.copier .outbound) {}) ++ [.leave (.copier .outbound)]

/-- A copier has read two of the three bytes. -/
private def twoRead : List (Label Party Call Fate) :=
  [.enter (.peer .outbound) (.bytes [1, 2, 3]), .step (.peer .outbound) {},
    .leave (.peer .outbound), .enter (.copier .outbound) (),
    .step (.copier .outbound) { count := 2 }]

/-- Bytes that the other copier holds are on their way. -/
theorem held_bytes_delivered :
    ∃ c, (machine .proxy).run (start .proxy) twoRead = some c ∧
      (c.shared.conns .outbound).sent = [1, 2, 3] ∧
      ∃ enough, ∀ more c', (machine .proxy).RunMeets Patient c more →
        (machine .proxy).run c more = some c' →
        enough ≤ Machine.turns (.copier .outbound) more →
        (c.shared.conns .outbound).sent <+: (c'.shared.conns .inbound).delivered := by
  refine Machine.run_checked_and (by decide +kernel) fun c ran => ?_
  exact (delivers_if_patient .proxy twoRead c (by decide +kernel) ran .outbound).2.2

/-- The outbound side has sent three bytes and finished; its copier has returned without having
delivered any of them. -/
def Lost (c : Config) : Prop :=
  (c.shared.conns .outbound).sent = [1, 2, 3] ∧ (c.shared.conns .outbound).ended = true ∧
    (c.shared.conns .inbound).delivered = [] ∧ (c.threads (.copier .outbound)).memory = some true

instance : DecidablePred Lost := fun _ => inferInstanceAs (Decidable (_ ∧ _ ∧ _ ∧ _))

/-- In each of the three relays the end of one direction cuts the other off. -/
theorem first_end_cuts_the_other :
    (∃ c, (machine (.gateway fun _ => true)).run (start (.gateway fun _ => true))
      (firstFinishes 3) = some c ∧ Lost c) ∧
    (∃ c, (machine .proxy).run (start .proxy) (firstFinishes 3) = some c ∧ Lost c) ∧
    (∃ c, (machine .redirector).run (start .redirector) (firstFinishes 2) = some c ∧ Lost c) :=
  ⟨Machine.run_checked (by decide +kernel), Machine.run_checked (by decide +kernel),
    Machine.run_checked (by decide +kernel)⟩

end Runs

end TrojanGo.Pipes
