import TrojanGo.Lib.Threads
import TrojanGo.Trojan.Handshake

/-!
# Writing through an outbound connection

The first payload or a timer sends the header inside a `sync.Once`. Its function is not run again,
also if the write of the header failed; a payload is then passed on without a header.
-/
namespace TrojanGo.Outbound

open Lib
open Tunnel (Metadata)
open Trojan (writeHeader)

/-! ### The connection -/

inductive Goroutine where
  /-- the caller of `Write` -/
  | writer
  /-- the timer of `DialConn` -/
  | flusher
  deriving DecidableEq

/-- `sync.Once`. -/
inductive Once where
  | untouched
  | running (g : Goroutine)
  | finished
  deriving DecidableEq

inductive WriteError where
  | flushHeader
  | underlay
  deriving DecidableEq

/-- A call of `Write` that has returned. -/
structure Result where
  payload : Bytes
  n : Nat
  err : Option WriteError
  deriving DecidableEq

/-- What does not change: the header's parts, the timeout, and for each write to the connection
below whether it succeeds or after how many bytes it fails. -/
structure Dial where
  hash : Bytes
  metadata : Metadata
  flushTimeout : Int
  fails : Nat → Option Nat

def Dial.header (d : Dial) : Bytes := writeHeader d.hash d.metadata []

structure State where
  headerWrittenOnce : Once := .untouched
  /-- the channel is closed -/
  headerSent : Bool := false
  sent : Nat := 0
  /-- what the connection below has taken -/
  wire : Bytes := []
  /-- how many writes there were -/
  writes : Nat := 0
  results : List Result := []
  /-- the payloads of writes of the caller that succeeded below, in their order -/
  accepted : List Bytes := []
  deriving DecidableEq

/-- One write to the connection below: whether it succeeds, and how much it takes. -/
def State.write (d : Dial) (s : State) (bytes : Bytes) : (Nat × Bool) × State :=
  match d.fails s.writes with
  | none => ((bytes.length, true), { s with wire := s.wire ++ bytes, writes := s.writes + 1 })
  | some k =>
    (((bytes.take k).length, false),
      { s with wire := s.wire ++ bytes.take k, writes := s.writes + 1 })

inductive Op where
  /-- come to the `Once`; the answer is whether its function is to be run -/
  | enter (g : Goroutine)
  /-- write the header, and the payload behind it -/
  | flush (payload : Option Bytes)
  | closeHeaderSent
  | leave
  | send (payload : Bytes)
  /-- `AddTraffic` and the connection's own count -/
  | count (n : Nat)
  | report (result : Result)
  /-- wait for the header or the timer; the answer is whether it was the header -/
  | select
  deriving DecidableEq

@[reducible] def Res : Op → Type
  | .enter _ | .flush _ | .select => Bool
  | .send _ => Nat × Bool
  | _ => Unit

/-- The payload is accepted if the write below succeeds. -/
def State.accept (s : State) (payload : Option Bytes) (ok : Bool) : State :=
  if ok then { s with accepted := s.accepted ++ payload.toList } else s

/-- The fate is whether the timer has fired. -/
def exec (d : Dial) (fired : Bool) (s : State) : (op : Op) → Option (Res op × State)
  | .enter g =>
    match s.headerWrittenOnce with
    | .untouched => some (true, { s with headerWrittenOnce := .running g })
    | .running _ => none
    | .finished => some (false, s)
  | .flush payload =>
    match s.write d (writeHeader d.hash d.metadata (payload.getD [])) with
    | ((_, ok), s) => some (ok, s.accept payload ok)
  | .closeHeaderSent => some ((), { s with headerSent := true })
  | .leave => some ((), { s with headerWrittenOnce := .finished })
  | .send payload =>
    match s.write d payload with
    | ((n, ok), s) => some ((n, ok), s.accept (some payload) ok)
  | .count n => some ((), { s with sent := s.sent + n })
  | .report result => some ((), { s with results := s.results ++ [result] })
  | .select => if fired then some (false, s) else if s.headerSent then some (true, s) else none

section Frames

variable (d : Dial) (s : State) (bytes : Bytes) (payload : Option Bytes) (ok : Bool)

@[simp] theorem State.write_once :
    (s.write d bytes).2.headerWrittenOnce = s.headerWrittenOnce := by
  unfold State.write
  split <;> rfl

@[simp] theorem State.write_accepted : (s.write d bytes).2.accepted = s.accepted := by
  unfold State.write
  split <;> rfl

@[simp] theorem State.write_results : (s.write d bytes).2.results = s.results := by
  unfold State.write
  split <;> rfl

@[simp] theorem State.accept_once :
    (s.accept payload ok).headerWrittenOnce = s.headerWrittenOnce := by
  unfold State.accept
  split <;> rfl

@[simp] theorem State.accept_results : (s.accept payload ok).results = s.results := by
  unfold State.accept
  split <;> rfl

@[simp] theorem State.accept_accepted :
    (s.accept payload ok).accepted = if ok then s.accepted ++ payload.toList else s.accepted := by
  unfold State.accept
  split <;> rfl

end Frames

/-! ### The programs -/

abbrev Go (α : Type) := Prog Op Res α

abbrev ask (op : Op) : Go (Res op) := Prog.ask op

/-- The function of the `Once`: whether the header was written, and whether there was an error. -/
def flushHeader (payload : Option Bytes) : Go (Bool × Bool) := do
  let ok ← ask (.flush payload)
  if ok then ask .closeHeaderSent
  ask .leave
  return (ok, !ok)

/-- `WriteHeader`. -/
def writeHeaderOnce (g : Goroutine) (payload : Option Bytes) : Go (Bool × Bool) := do
  if ← ask (.enter g) then flushHeader payload
  else return (false, false)

/-- `Write`. -/
def write (payload : Bytes) : Go Unit := do
  let (written, err) ← writeHeaderOnce .writer (some payload)
  if err then ask (.report ⟨payload, 0, some .flushHeader⟩)
  else if written then ask (.report ⟨payload, payload.length, none⟩)
  else
    let (n, ok) ← ask (.send payload)
    ask (.count n)
    ask (.report ⟨payload, n, if ok then none else some .underlay⟩)

/-- The goroutine that `DialConn` starts. -/
def flushLater (d : Dial) : Go Unit := do
  if d.flushTimeout ≤ 0 then return
  if ← ask .select then return
  let _ ← writeHeaderOnce .flusher none
  return

@[reducible] def Call : Goroutine → Type
  | .writer => Bytes
  | .flusher => Unit

/-- Whether the goroutine has been started. -/
@[reducible] def Mem : Goroutine → Type
  | .writer => Unit
  | .flusher => Bool

def machine (d : Dial) : Machine Goroutine State Bool Call Mem Op Res where
  exec := exec d
  body
    | .writer, payload, _ => some (write payload)
    | .flusher, _, started => if started then none else some (flushLater d >>= fun _ => pure true)
  reboot _ := none
  memory _
    | .writer => ()
    | .flusher => false

/-! ### What is on the wire -/

/-- The writes below fail cleanly: a failing write of the header takes nothing of the payload
behind it, one that does not take the whole header is the last to take anything, and a failing
write of a payload takes nothing. -/
structure Dial.Clean (d : Dial) : Prop where
  first : ∀ k, d.fails 0 = some k → k ≤ d.header.length
  broken : ∀ k, d.fails 0 = some k → k < d.header.length → ∀ i, 0 < i → d.fails i ≠ none
  later : ∀ i k, 0 < i → d.fails i = some k → k = 0

structure State.Fresh (s : State) : Prop where
  wire : s.wire = []
  writes : s.writes = 0
  accepted : s.accepted = []

/-- The whole header is on the wire, and the accepted payloads behind it. -/
structure State.Whole (d : Dial) (s : State) : Prop where
  first : ∀ k, d.fails 0 = some k → k = d.header.length
  wire : s.wire = d.header ++ s.accepted.flatten

/-- The write of the header failed before its end. -/
structure State.Cut (d : Dial) (s : State) : Prop where
  accepted : s.accepted = []
  first : ∃ k, d.fails 0 = some k ∧ k < d.header.length ∧ s.wire = d.header.take k

def State.Written (d : Dial) (s : State) : Prop := 0 < s.writes ∧ (s.Whole d ∨ s.Cut d)

variable {d : Dial} {s s' : State} {g : Goroutine}

theorem State.Written.of_same (written : s.Written d) (wire : s'.wire = s.wire)
    (writes : s'.writes = s.writes) (accepted : s'.accepted = s.accepted) : s'.Written d := by
  refine ⟨writes ▸ written.1, written.2.imp (fun whole => ⟨whole.first, ?_⟩) fun cut => ⟨?_, ?_⟩⟩
  · rw [wire, accepted, whole.wire]
  · rw [accepted, cut.accepted]
  · rw [wire]
    exact cut.first

/-- The bytes on the wire begin the stream of the header and the accepted payloads. -/
def State.OnStream (d : Dial) (s : State) : Prop := s.wire <+: d.header ++ s.accepted.flatten

section Writes

variable {d : Dial} (clean : d.Clean) {s : State}
include clean

theorem State.Fresh.flush (fresh : s.Fresh) (payload : Option Bytes) :
    let written := s.write d (writeHeader d.hash d.metadata (payload.getD []))
    (written.2.accept payload written.1.2).Written d := by
  have whole : writeHeader d.hash d.metadata (payload.getD []) = d.header ++ payload.getD [] := by
    simp [Dial.header, writeHeader]
  rw [whole, State.write, fresh.writes]
  cases failed : d.fails 0 with
  | none =>
    refine ⟨Nat.succ_pos _, .inl ⟨fun k at_ => ?_, ?_⟩⟩
    · rw [failed] at at_
      cases at_
    · cases payload <;> simp [State.accept, fresh.wire, fresh.accepted]
  | some k =>
    have fits := clean.first k failed
    have cut : (d.header ++ payload.getD []).take k = d.header.take k := by
      rw [List.take_append_of_le_length fits]
    refine ⟨Nat.succ_pos _, ?_⟩
    simp only [State.accept, Bool.false_eq_true, if_false, cut, fresh.wire, List.nil_append]
    rcases Nat.lt_or_eq_of_le fits with less | rfl
    · exact .inr ⟨fresh.accepted, k, failed, less, rfl⟩
    · refine .inl ⟨fun k at_ => ?_, ?_⟩
      · rw [failed] at at_
        exact (Option.some.inj at_).symm
      · simp [fresh.accepted]

theorem State.Written.send (written : s.Written d) (payload : Bytes) :
    ((s.write d payload).2.accept (some payload) (s.write d payload).1.2).Written d := by
  obtain ⟨positive, state⟩ := written
  unfold State.write
  cases failed : d.fails s.writes with
  | none =>
    rcases state with whole | cut
    · refine ⟨Nat.succ_pos _, .inl ⟨whole.first, ?_⟩⟩
      simp [State.accept, whole.wire]
    · obtain ⟨k, first, less, -⟩ := cut.first
      exact absurd failed (clean.broken k first less s.writes positive)
  | some k =>
    obtain rfl := clean.later s.writes k positive failed
    refine ⟨Nat.succ_pos _, ?_⟩
    simp only [State.accept, Bool.false_eq_true, if_false, List.take_zero, List.append_nil]
    exact state.imp (fun whole => ⟨whole.first, whole.wire⟩)
      fun cut => ⟨cut.accepted, cut.first⟩

end Writes

/-! ### The protocol between the two goroutines -/

def Inv (d : Dial) (s : State) : Prop :=
  match s.headerWrittenOnce with
  | .untouched => s.Fresh
  | .running _ => s.Fresh ∨ s.Written d
  | .finished => s.Written d

theorem Inv.of_running (inside : s.headerWrittenOnce = .running g) (written : s.Written d) :
    Inv d s := by
  unfold Inv
  rw [inside]
  exact .inr written

theorem Inv.onStream (inv : Inv d s) : s.OnStream d := by
  have fresh : s.Fresh → s.OnStream d := fun fresh => by
    simp [State.OnStream, fresh.wire]
  have written : s.Written d → s.OnStream d := by
    rintro ⟨-, whole | cut⟩
    · rw [State.OnStream, whole.wire]
    · obtain ⟨k, -, -, wire⟩ := cut.first
      rw [State.OnStream, wire]
      exact (List.take_prefix _ _).trans (List.prefix_append _ _)
  unfold Inv at inv
  split at inv
  · exact fresh inv
  · exact inv.elim fresh written
  · exact written inv

/-- What the others leave alone: everything while this goroutine is inside the `Once`, that it is
finished, and what only the caller of `Write` changes. -/
structure Kept (g : Goroutine) (s s' : State) : Prop where
  inside : s.headerWrittenOnce = .running g → s' = s
  finished : s.headerWrittenOnce = .finished → s'.headerWrittenOnce = .finished
  own : g = .writer → s'.accepted = s.accepted ∧ s'.results = s.results

theorem Kept.refl (g : Goroutine) (s : State) : Kept g s s := ⟨fun _ => rfl, id, fun _ => ⟨rfl, rfl⟩⟩

theorem Kept.trans {s'' : State} (first : Kept g s s') (second : Kept g s' s'') : Kept g s s'' where
  inside here := by
    have same := first.inside here
    rw [second.inside (same ▸ here), same]
  finished done := second.finished (first.finished done)
  own mine := by
    obtain ⟨accepted, results⟩ := first.own mine
    obtain ⟨accepted', results'⟩ := second.own mine
    exact ⟨accepted'.trans accepted, results'.trans results⟩

/-- The accepted payloads are those of the calls that returned without an error. -/
def Settled (s : State) : Prop :=
  s.accepted = (s.results.filter fun r => r.err = none).map Result.payload

def protocol (d : Dial) : (machine d).Protocol where
  admits _ _ := True
  inv := Inv d
  rely := Kept
  guar g s s' := ∀ g', g ≠ g' → Kept g' s s'
  knows
    | .writer, _, s => Settled s
    | .flusher, _, _ => True

abbrev contract (d : Dial) (g : Goroutine) : Prog.Contract State Op := (protocol d).contract g

theorem contract_lawful (d : Dial) (g : Goroutine) : (contract d g).Lawful where
  refl := Kept.refl g
  trans _ _ _ first second := first.trans second

/-- What a goroutine may do that is not locked out of the `Once`. -/
theorem guar_of_free (free : ∀ g', g ≠ g' → s.headerWrittenOnce ≠ .running g')
    (finished : s.headerWrittenOnce = .finished → s'.headerWrittenOnce = .finished)
    (own : g = .flusher → s'.accepted = s.accepted ∧ s'.results = s.results) :
    (contract d g).guar s s' := by
  intro g' other
  refine ⟨fun inside => absurd inside (free g' other), finished, ?_⟩
  rintro rfl
  cases g with
  | writer => exact absurd rfl other
  | flusher => exact own rfl

/-- What only the caller of `Write` changes. -/
def Books (g : Goroutine) (accepted : List Bytes) (results : List Result) (s : State) : Prop :=
  g = .writer → s.accepted = accepted ∧ s.results = results

section Programs

variable {d : Dial} {g : Goroutine} {accepted : List Bytes} {results : List Result} {s : State}

theorem books_stable : (contract d g).Stable (Books g accepted results) := by
  intro s s' kept _ books mine
  obtain ⟨first, second⟩ := kept.own mine
  obtain ⟨first', second'⟩ := books mine
  exact ⟨first.trans first', second.trans second'⟩

theorem inside_stable (known : State → Prop) :
    (contract d g).Stable fun s => s.headerWrittenOnce = .running g ∧ known s := by
  rintro s s' kept - ⟨inside, holds⟩
  rw [kept.inside inside]
  exact ⟨inside, holds⟩

theorem finished_stable :
    (contract d g).Stable fun s =>
      s.headerWrittenOnce = .finished ∧ Books g accepted results s := by
  rintro s s' kept inv ⟨done, books⟩
  exact ⟨kept.finished done, books_stable s s' kept inv books⟩

theorem running_free {s : State} (inside : s.headerWrittenOnce = .running g) :
    ∀ g', g ≠ g' → s.headerWrittenOnce ≠ .running g' := by
  intro g' other inside'
  rw [inside] at inside'
  exact other (Once.running.inj inside')

theorem finished_free {s : State} (done : s.headerWrittenOnce = .finished) :
    ∀ g', g ≠ g' → s.headerWrittenOnce ≠ .running g' := by
  intro g' _ inside
  rw [done] at inside
  cases inside

/-- The end of the function of the `Once`. -/
theorem leave_wp {ok : Bool} (inside : s.headerWrittenOnce = .running g) (written : s.Written d)
    (books : Books g accepted results s) :
    (ask .leave >>= fun _ => pure (ok, !ok) : Go (Bool × Bool)).wp (exec d) (contract d g)
      (fun result s' => s'.headerWrittenOnce = .finished ∧ Books g accepted results s' ∧
        result = (ok, !ok)) s := by
  refine Prog.wp_op (inside_stable fun s => s.Written d ∧ Books g accepted results s)
    ⟨inside, written, books⟩ ?_
  rintro s - ⟨inside, written, books⟩ - fate result s' done
  simp only [exec, Option.some.injEq, Prod.mk.injEq, true_and] at done
  subst done
  refine ⟨written.of_same rfl rfl rfl,
    guar_of_free (running_free inside) (fun _ => rfl) fun _ => ⟨rfl, rfl⟩, ?_⟩
  exact Prog.wp_return finished_stable ⟨rfl, books⟩ fun s _ known => ⟨known.1, known.2, rfl⟩

/-- The `Once` is finished, and the payload is accepted if the header was written here. -/
def Flushed (g : Goroutine) (payload : Option Bytes) (accepted : List Bytes)
    (results : List Result) (result : Bool × Bool) (s : State) : Prop :=
  s.headerWrittenOnce = .finished ∧
    Books g (if result.1 then accepted ++ payload.toList else accepted) results s ∧
    (result.2 = true → result.1 = false)

variable {payload : Option Bytes}

theorem flushHeader_wp (clean : d.Clean) (alone : g = .flusher → payload = none)
    (inside : s.headerWrittenOnce = .running g) (fresh : s.Fresh)
    (books : Books g accepted results s) :
    (flushHeader payload).wp (exec d) (contract d g) (Flushed g payload accepted results) s := by
  refine Prog.wp_op (inside_stable fun s => s.Fresh ∧ Books g accepted results s)
    ⟨inside, fresh, books⟩ ?_
  rintro s - ⟨inside, fresh, books⟩ - fate ok s' executed
  simp only [exec, Option.some.injEq, Prod.mk.injEq] at executed
  obtain ⟨rfl, rfl⟩ := executed
  let below := s.write d (writeHeader d.hash d.metadata (payload.getD []))
  let after := below.2.accept payload below.1.2
  have written : after.Written d := fresh.flush clean payload
  have inside' : after.headerWrittenOnce = .running g := by simp [after, below, inside]
  have books' : Books g (if below.1.2 then accepted ++ payload.toList else accepted) results
      after := by
    intro mine
    obtain ⟨first, second⟩ := books mine
    simp only [after, State.accept_accepted, State.accept_results, below, State.write_accepted,
      State.write_results, first, second, and_self]
  have quiet : g = .flusher → after.accepted = s.accepted ∧ after.results = s.results := by
    intro mine
    simp [after, below, alone mine]
  have ends : ∀ {s : State}, s.headerWrittenOnce = .running g → s.Written d →
      Books g (if below.1.2 then accepted ++ payload.toList else accepted) results s →
      (ask .leave >>= fun _ => pure (below.1.2, !below.1.2) : Go (Bool × Bool)).wp (exec d)
        (contract d g) (Flushed g payload accepted results) s := by
    intro s inside written books
    refine Prog.wp_mono ?_ (leave_wp inside written books)
    rintro _ s' - ⟨done, books, rfl⟩
    exact ⟨done, books, by simp⟩
  refine ⟨Inv.of_running inside' written,
    guar_of_free (running_free inside) (by simp [inside]) quiet, ?_⟩
  show Prog.wp _ _ (if below.1.2 then (ask .closeHeaderSent >>= fun _ => ask .leave >>= fun _ =>
    pure (below.1.2, !below.1.2)) else (ask .leave >>= fun _ =>
    pure (below.1.2, !below.1.2)) : Go (Bool × Bool)) _ after
  split
  · refine Prog.wp_op (inside_stable fun s => s.Written d ∧ Books g _ results s)
      ⟨inside', written, books'⟩ ?_
    rintro s - ⟨inside, written, books⟩ - fate result s' executed
    simp only [exec, Option.some.injEq, Prod.mk.injEq, true_and] at executed
    subst executed
    have written' : State.Written d { s with headerSent := true } := written.of_same rfl rfl rfl
    exact ⟨Inv.of_running inside written',
      guar_of_free (running_free inside) (by simp [inside]) fun _ => ⟨rfl, rfl⟩,
      ends inside written' books⟩
  · exact ends inside' written books'

theorem writeHeaderOnce_wp (clean : d.Clean) (alone : g = .flusher → payload = none)
    (books : Books g accepted results s) :
    (writeHeaderOnce g payload).wp (exec d) (contract d g)
      (Flushed g payload accepted results) s := by
  refine Prog.wp_op books_stable books ?_
  intro s inv books _ fate entered s' done
  cases once : s.headerWrittenOnce with
  | running g' => simp [exec, once] at done
  | finished =>
    simp only [exec, once, Option.some.injEq, Prod.mk.injEq] at done
    obtain ⟨rfl, rfl⟩ := done
    refine ⟨inv, fun g' _ => Kept.refl g' _, ?_⟩
    exact Prog.wp_return finished_stable ⟨once, books⟩ fun s _ known =>
      ⟨known.1, known.2, fun never => by cases never⟩
  | untouched =>
    simp only [exec, once, Option.some.injEq, Prod.mk.injEq] at done
    obtain ⟨rfl, rfl⟩ := done
    have fresh : s.Fresh := by
      have inv : Inv d s := inv
      simpa [Inv, once] using inv
    have fresh' : State.Fresh { s with headerWrittenOnce := .running g } :=
      ⟨fresh.wire, fresh.writes, fresh.accepted⟩
    exact ⟨.inl fresh', guar_of_free (by simp [once]) (by simp [once]) fun _ => ⟨rfl, rfl⟩,
      flushHeader_wp clean alone rfl fresh' books⟩

theorem Inv.of_finished (done : s.headerWrittenOnce = .finished) (written : s.Written d) :
    Inv d s := by
  unfold Inv
  rw [done]
  exact written

theorem Inv.written (inv : Inv d s) (done : s.headerWrittenOnce = .finished) : s.Written d := by
  unfold Inv at inv
  rwa [done] at inv

theorem settled_stable : (contract d .writer).Stable Settled := by
  intro s s' kept _ settled
  obtain ⟨accepted, results⟩ := kept.own rfl
  rw [Settled, accepted, results]
  exact settled

theorem report_wp {result : Result} (done : s.headerWrittenOnce = .finished)
    (books : Books .writer (accepted ++ if result.err = none then [result.payload] else [])
      results s)
    (settled : accepted = (results.filter fun r => r.err = none).map Result.payload) :
    (ask (.report result) : Go Unit).wp (exec d) (contract d .writer) (fun _ => Settled) s := by
  show Prog.wp _ _ (ask (.report result) >>= fun _ => pure () : Go Unit) _ s
  refine Prog.wp_op finished_stable ⟨done, books⟩ ?_
  rintro s inv ⟨done, books⟩ - fate _ s' executed
  simp only [exec, Option.some.injEq, Prod.mk.injEq, true_and] at executed
  subst executed
  obtain ⟨first, second⟩ := books rfl
  have settled' : Settled { s with results := s.results ++ [result] } := by
    simp only [Settled, first, second, settled, List.filter_append, List.map_append]
    by_cases fine : result.err = none <;> simp [fine]
  refine ⟨Inv.of_finished done ((Inv.written inv done).of_same rfl rfl rfl),
    guar_of_free (finished_free done) (fun _ => done) (fun never => by cases never), ?_⟩
  exact Prog.wp_return settled_stable settled' fun _ _ settled => settled

/-- The payload is passed on as it is. -/
theorem send_wp (clean : d.Clean) (payload : Bytes) (done : s.headerWrittenOnce = .finished)
    (books : Books .writer accepted results s)
    (settled : accepted = (results.filter fun r => r.err = none).map Result.payload) :
    (do
      let (n, ok) ← ask (.send payload)
      ask (.count n)
      ask (.report ⟨payload, n, if ok then none else some .underlay⟩) : Go Unit).wp (exec d)
      (contract d .writer) (fun _ => Settled) s := by
  refine Prog.wp_op finished_stable ⟨done, books⟩ ?_
  rintro s inv ⟨done, books⟩ - fate result s' executed
  simp only [exec, Option.some.injEq, Prod.mk.injEq] at executed
  obtain ⟨rfl, rfl⟩ := executed
  let below := s.write d payload
  let after := below.2.accept (some payload) below.1.2
  have written : after.Written d := (Inv.written inv done).send clean payload
  have done' : after.headerWrittenOnce = .finished := by simp [after, below, done]
  have books' : Books .writer (accepted ++ if below.1.2 then [payload] else []) results after := by
    intro mine
    obtain ⟨first, second⟩ := books mine
    refine ⟨?_, by simp [after, below, second]⟩
    simp only [after, State.accept_accepted, below, State.write_accepted, first]
    split <;> simp
  refine ⟨Inv.of_finished done' written,
    guar_of_free (finished_free done) (fun _ => done') (fun never => by cases never), ?_⟩
  show Prog.wp _ _ (ask (.count below.1.1) >>= fun _ =>
    ask (.report ⟨payload, below.1.1, if below.1.2 then none else some .underlay⟩) : Go Unit) _ after
  refine Prog.wp_op finished_stable ⟨done', books'⟩ ?_
  rintro s inv ⟨done, books⟩ - fate result s' executed
  simp only [exec, Option.some.injEq, Prod.mk.injEq, true_and] at executed
  subst executed
  refine ⟨Inv.of_finished done ((Inv.written inv done).of_same rfl rfl rfl),
    guar_of_free (finished_free done) (fun _ => done) (fun never => by cases never), ?_⟩
  refine report_wp done (fun mine => ?_) settled
  obtain ⟨first, second⟩ := books mine
  refine ⟨first.trans ?_, second⟩
  cases below.1.2 <;> rfl

theorem write_wp (clean : d.Clean) (payload : Bytes) (settled : Settled s) :
    (write payload).wp (exec d) (contract d .writer) (fun _ => Settled) s := by
  refine Prog.wp_seq (contract_lawful d .writer)
    (writeHeaderOnce_wp clean (fun never => by cases never) fun _ => ⟨rfl, rfl⟩) ?_
  rintro ⟨written, err⟩ s' inv ⟨done, books, apart⟩
  simp only
  split
  next failed =>
    obtain rfl : written = false := apart failed
    exact report_wp done (by simpa using books) settled
  · split
    next here =>
      subst here
      exact report_wp done (by simpa using books) settled
    next elsewhere =>
      exact send_wp clean payload done (by simpa [elsewhere] using books) settled

theorem flushLater_wp (clean : d.Clean) :
    (flushLater d >>= fun _ => pure true : Go Bool).wp (exec d) (contract d .flusher)
      (fun _ _ => True) s := by
  have lawful := contract_lawful d .flusher
  have nothing : ∀ {α : Type} (value : α) (s : State),
      (pure value : Go α).wp (exec d) (contract d .flusher) (fun _ _ => True) s :=
    fun _ _ _ _ _ => trivial
  have once : ∀ s, (writeHeaderOnce .flusher none).wp (exec d) (contract d .flusher)
      (Flushed .flusher none [] []) s := fun s =>
    writeHeaderOnce_wp clean (fun _ => rfl) fun never => by cases never
  have goroutine : (flushLater d).wp (exec d) (contract d .flusher) (fun _ _ => True) s := by
    unfold flushLater
    split
    · exact nothing _ s
    refine Prog.wp_ask ?_
    intro s' _ inv _ fired sent s'' done
    have same : s'' = s' := by
      simp only [exec] at done
      split at done
      · cases done
        rfl
      · split at done <;> cases done
        rfl
    subst same
    refine ⟨inv, fun g _ => Kept.refl g _, ?_⟩
    split
    · exact nothing _ _
    · exact Prog.wp_seq lawful (once _) fun _ s _ _ => nothing _ s
  exact Prog.wp_seq lawful goroutine fun _ s _ _ => nothing true s

end Programs

theorem protocol_sound (clean : d.Clean) : (protocol d).Sound where
  lawful g := contract_lawful d g
  stable g memory s s' known kept inv := by
    cases g with
    | writer => exact settled_stable s s' kept inv known
    | flusher => trivial
  compatible g g' s s' other guarantee := guarantee g' other
  body g call memory p s found known := by
    cases g with
    | writer =>
      cases found
      exact write_wp clean call known
    | flusher =>
      simp only [machine] at found
      split at found
      · cases found
      · cases found
        exact flushLater_wp clean
  boot s s' inv rebooted := by cases rebooted

/-- The bytes on the wire begin the stream of the header and the payloads that were accepted, and
these are the payloads of the calls of `Write` that returned without an error. -/
theorem wire_on_stream {d : Dial} (clean : d.Clean)
    {labels : (machine d).Labels} {c : Machine.Config State Op Res Mem}
    (ran : (machine d).runFrom {} labels = some c) :
    c.shared.OnStream d ∧ (c.threads .writer = .idle () → Settled c.shared) := by
  have start : (protocol d).Good ((machine d).boot {}) := by
    refine ⟨⟨rfl, rfl, rfl⟩, fun g => ?_⟩
    cases g with
    | writer => rfl
    | flusher => trivial
  have good := start.run (protocol_sound clean)
    (Machine.runMeets_of_admits (fun _ _ => trivial) _ _) ran
  refine ⟨Inv.onStream good.inv, fun idle => ?_⟩
  have known := good.threads .writer
  rwa [idle] at known

/-- A connection whose timer is on. -/
def timedDial (fails : Nat → Option Nat) : Dial where
  hash := [97, 98]
  metadata := { command := 1, address := { addressType := .ipv4, ip := [1, 2, 3, 4], port := 80 } }
  flushTimeout := 1
  fails

/-- The timer fires, and the caller writes a payload. -/
def timerFirst : List (Label Goroutine Call Bool) :=
  [.enter .flusher (), .step .flusher true, .step .flusher true, .step .flusher true,
    .step .flusher true, .leave .flusher,
    .enter .writer [1], .step .writer true, .step .writer true, .step .writer true,
    .step .writer true, .leave .writer]

theorem wire_on_stream_failing :
    let d := timedDial fun i => some (if i = 0 then 2 else 0)
    ∃ c, (machine d).runFrom {} timerFirst = some c ∧ c.shared.OnStream d := by
  intro d
  have clean : d.Clean := by
    refine ⟨fun k failed => ?_, fun k _ _ i _ => by simp [d, timedDial], fun i k later failed => ?_⟩
    · cases failed
      decide
    · grind [timedDial]
  exact Machine.run_witness (fun _ => True) (by decide) fun c ran _ => (wire_on_stream clean ran).1

/-- The timer's write of the header fails. The next `Write` sends its payload without a header,
and reports success. -/
theorem payload_without_header :
    let d := timedDial fun i => if i = 0 then some 0 else none
    ∃ c, (machine d).runFrom {} timerFirst = some c ∧
      c.shared.wire = [1] ∧ c.shared.results = [⟨[1], 1, none⟩] ∧ ¬ c.shared.OnStream d := by
  intro d
  exact Machine.run_witness (fun c => c.shared.wire = [1] ∧ c.shared.results = [⟨[1], 1, none⟩] ∧
    ¬ c.shared.wire <+: d.header ++ c.shared.accepted.flatten) (by decide) fun _ _ holds => holds

end TrojanGo.Outbound
