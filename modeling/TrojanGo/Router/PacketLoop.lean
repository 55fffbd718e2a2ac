import Mathlib.Logic.Function.Basic
import TrojanGo.Lib.Events

/-!
# The readers of a routed UDP connection

Two goroutines read, one from the proxy and one from the direct connection, and put what they have
read into one channel.
-/
namespace TrojanGo.Router.PacketLoop

open Lib.Events

inductive Reader where
  | proxy
  | direct
  deriving DecidableEq

inductive Phase (Packet : Type) where
  | reading
  /-- with a packet for the channel -/
  | sending (packet : Packet)
  | exited

def packetChanSize : Nat := 16

structure State (Packet : Type) where
  phase : Reader → Phase Packet := fun _ => .reading
  packetChan : List Packet := []
  /-- the context is done -/
  cancelled : Bool := false
  /-- the connections that fail all further reads -/
  failing : Reader → Bool := fun _ => false

inductive Event (Packet : Type) where
  | read (r : Reader) (packet : Packet)
  | fail (r : Reader)
  | send (r : Reader)
  /-- `ReadWithMetadata` takes a packet -/
  | receive
  | cancel
  | break (r : Reader)

/-- The steps of the readers; the others belong to who uses the connection. -/
def Event.ofReader {Packet : Type} : Event Packet → Bool
  | .read _ _ | .fail _ | .send _ => true
  | _ => false

variable {Packet : Type}

def State.set (s : State Packet) (r : Reader) (phase : Phase Packet) : State Packet :=
  { s with phase := Function.update s.phase r phase }

def step (s : State Packet) : Event Packet → Option (State Packet)
  | .read r packet =>
    match s.phase r with
    | .reading => if s.failing r then none else some (s.set r (.sending packet))
    | _ => none
  | .fail r =>
    match s.phase r with
    -- an error is logged and the read repeated, unless the context is done
    | .reading => some (if s.cancelled then s.set r .exited else s)
    | _ => none
  | .send r =>
    match s.phase r with
    -- there is no other case to wait for
    | .sending packet =>
      if s.packetChan.length < packetChanSize then
        some { s.set r .reading with packetChan := s.packetChan ++ [packet] }
      else none
    | _ => none
  | .receive =>
    match s.packetChan with
    | [] => none
    | _ :: rest => some { s with packetChan := rest }
  | .cancel => some { s with cancelled := true }
  | .break r => some { s with failing := Function.update s.failing r true }

/-- `Close` has returned, and the connections below fail all further reads. -/
def State.Closed (s : State Packet) : Prop := s.cancelled ∧ ∀ r, s.failing r

/-- In every schedule the readers take finitely many steps, and when they take no more, it is
because they have exited. -/
structure Exits (s : State Packet) : Prop where
  finite : ∃ n, ∀ events s', run step s events = some s' → events.countP Event.ofReader ≤ n
  exited : ∀ events s', run step s events = some s' → Rests step Event.ofReader s' →
    ∀ r, s'.phase r = .exited

/-- The proxy connection fails all reads and its reader repeats them, as often as one likes. -/
def Spins (s : State Packet) : Prop :=
  s.failing .proxy ∧ ∀ n, run step s (List.replicate n (.fail .proxy)) = some s

/-! ### Packets without a place -/

def Phase.held : Phase Packet → Nat
  | .sending _ => 1
  | _ => 0

/-- How many packets the readers hold. -/
def State.held (s : State Packet) : Nat := (s.phase .proxy).held + (s.phase .direct).held

/-- A reader holds a packet, and the channel has no room for all that they hold. -/
def State.Clogged (s : State Packet) : Prop :=
  0 < s.held ∧ packetChanSize < s.packetChan.length + s.held

/-- How many steps a reader has left once the connection is closed. -/
def Phase.left : Phase Packet → Nat
  | .sending _ => 2
  | .reading => 1
  | .exited => 0

def State.left (s : State Packet) : Nat := (s.phase .proxy).left + (s.phase .direct).left

variable {s s' : State Packet} {event : Event Packet}

theorem Closed.step (closed : s.Closed) (stepped : step s event = some s') :
    s'.Closed ∧ s'.left + (if event.ofReader then 1 else 0) ≤ s.left ∧
      (s'.Clogged → s.Clogged) ∧ (event.ofReader → s.Clogged → s'.Clogged) := by
  obtain ⟨cancelled, failing⟩ := closed
  simp only [State.Clogged, State.left, State.held]
  cases event with
  | read r packet =>
    simp only [PacketLoop.step, failing r, if_true] at stepped
    split at stepped <;> cases stepped
  | fail r =>
    simp only [PacketLoop.step, cancelled, if_true] at stepped
    split at stepped
    · next phase =>
      cases stepped
      refine ⟨⟨cancelled, failing⟩, ?_⟩
      cases r <;> simp only [State.set, Function.update_self, Function.update_of_ne, ne_eq, phase,
        reduceCtorEq, not_false_eq_true, Event.ofReader, if_true, Phase.left, Phase.held] <;> omega
    · cases stepped
  | send r =>
    simp only [PacketLoop.step] at stepped
    split at stepped
    · next packet phase =>
      split at stepped
      · next room =>
        cases stepped
        refine ⟨⟨cancelled, failing⟩, ?_⟩
        -- the packet goes from the reader into the channel
        cases r <;> simp [State.set, phase, Event.ofReader, Phase.left, Phase.held] <;> omega
      · cases stepped
    · cases stepped
  | receive =>
    simp only [PacketLoop.step] at stepped
    split at stepped
    · cases stepped
    · next packet rest queue =>
      cases stepped
      refine ⟨⟨cancelled, failing⟩, ?_⟩
      simp [queue, Event.ofReader]
      omega
  | cancel =>
    cases stepped
    exact ⟨⟨rfl, failing⟩, Nat.le_refl _, id, fun reader => by cases reader⟩
  | «break» r =>
    cases stepped
    refine ⟨⟨cancelled, fun r' => ?_⟩, Nat.le_refl _, id, fun reader => by cases reader⟩
    by_cases same : r' = r
    · simp [same]
    · simp [same, failing r']

/-- A reader that has not exited can go on unless the channel is full. -/
theorem rests_exited (rests : Rests step Event.ofReader s) (free : ¬ s.Clogged) (r : Reader) :
    s.phase r = .exited := by
  cases phase : s.phase r with
  | exited => rfl
  | reading => simpa [PacketLoop.step, phase] using rests (.fail r) rfl
  | sending packet =>
    have full : ¬ s.packetChan.length < packetChanSize := by
      simpa [PacketLoop.step, phase] using rests (.send r) rfl
    have held : 0 < s.held := by
      cases r <;> simp only [State.held, phase, Phase.held] <;> omega
    exact absurd ⟨held, by omega⟩ free

theorem exits_iff (closed : s.Closed) : Exits s ↔ ¬ s.Clogged := by
  constructor
  · intro exits clogged
    have falls (s : State Packet) (event : Event Packet) (s' : State Packet)
        (holds : s.Closed ∧ s.Clogged) (mine : event.ofReader) (stepped : step s event = some s') :
        (s'.Closed ∧ s'.Clogged) ∧ s'.left < s.left := by grind [Closed.step]
    obtain ⟨events, s', ran, ⟨-, clogged'⟩, rests⟩ := exists_rests falls ⟨closed, clogged⟩
    have gone := exits.exited events s' ran rests
    simp [State.Clogged, State.held, gone, Phase.held] at clogged'
  · intro free
    refine ⟨⟨s.left, fun events s' ran => ?_⟩, fun events s' ran rests r => ?_⟩
    · exact count_le (fun s event s' closed stepped =>
        ⟨(Closed.step closed stepped).1, (Closed.step closed stepped).2.1⟩) closed ran
    · have keeps (s : State Packet) (event : Event Packet) (s' : State Packet)
          (holds : s.Closed ∧ ¬ s.Clogged) (stepped : step s event = some s') :
          s'.Closed ∧ ¬ s'.Clogged := by
        obtain ⟨closed', -, clogs, -⟩ := Closed.step holds.1 stepped
        exact ⟨closed', fun clogged => holds.2 (clogs clogged)⟩
      exact rests_exited rests (run_keeps keeps ⟨closed, free⟩ ran).2 r

/-- The reader of a failing connection spins as long as the context is not done. -/
theorem spins_iff : Spins s ↔ s.failing .proxy ∧ s.cancelled = false ∧
    s.phase .proxy = .reading := by
  constructor
  · rintro ⟨failing, again⟩
    have once : step s (.fail .proxy) = some s := by simpa [run_cons, run] using again 1
    simp only [step] at once
    split at once
    · next phase =>
      cases cancelled : s.cancelled with
      | false => exact ⟨failing, rfl, phase⟩
      | true =>
        have stays := congrArg (·.phase .proxy) (Option.some.inj once)
        simp [cancelled, State.set, phase] at stays
    · cases once
  · rintro ⟨failing, running, phase⟩
    refine ⟨failing, fun n => ?_⟩
    induction n with
    | zero => rfl
    | succ n ih =>
      rw [List.replicate_succ, run_cons]
      simpa [step, phase, running] using ih

/-- The readers of a closed connection exit in every schedule unless the channel is clogged, and an
open one spins exactly while its proxy connection fails and its reader is not held up. -/
theorem readers_end_iff (s : State Packet) :
    ((s.Closed → Exits s) ∧ ¬ (s.cancelled = false ∧ Spins s)) ↔
      (s.Closed → ¬ s.Clogged) ∧
        (s.failing .proxy → s.cancelled = false → s.phase .proxy ≠ .reading) := by
  rw [spins_iff]
  constructor
  · rintro ⟨exits, calm⟩
    exact ⟨fun closed => (exits_iff closed).mp (exits closed),
      fun failing running reading => calm ⟨running, failing, running, reading⟩⟩
  · rintro ⟨free, held⟩
    exact ⟨fun closed => (exits_iff closed).mpr (free closed),
      fun ⟨running, failing, _, reading⟩ => held failing running reading⟩

/-- A reader with a seventeenth packet stays after the connection has been closed, and while it is
open, a failing proxy connection keeps its reader busy. -/
theorem reader_stays_and_spins :
    (∃ (events : List (Event Unit)) (s : State Unit), run step {} events = some s ∧ s.Closed ∧
      ¬ Exits s) ∧
    ∃ s : State Unit, run step {} [.break .proxy] = some s ∧ s.cancelled = false ∧ Spins s := by
  constructor
  · refine ⟨(List.replicate 16 [.read .proxy (), .send .proxy]).flatten ++
      [.read .proxy (), .cancel, .break .proxy, .break .direct], _, rfl, ?_⟩
    refine ⟨⟨rfl, fun r => by cases r <;> rfl⟩, fun exits => ?_⟩
    refine (exits_iff ⟨rfl, fun r => by cases r <;> rfl⟩).mp exits ⟨?_, ?_⟩ <;> decide
  · exact ⟨_, rfl, rfl, spins_iff.mpr ⟨rfl, rfl, rfl⟩⟩

end TrojanGo.Router.PacketLoop
