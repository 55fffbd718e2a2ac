import TrojanGo.Plane.Reporting

/-!
# Runs of one reporter

One reporter of traffic, the manager of a node or the reporter of a listener, in every run of
its rounds with connections, account changes, failing writes, lost answers and restarts.
-/
namespace TrojanGo.Plane

open Lib

/-! ### What a run keeps -/

section

variable {κ : Type} [DecidableEq κ] {clients : κ → Client} {embedded : List Nat} {restarts : Bool}
  {disk : Disk} {db : Master.Db} {labels : List (Label (Actor κ) Call Fate)}
  {c : Machine.Config (World κ) (Op κ) Res Memory}

/-- A run that drops nothing from the counters drops nothing, restarts or not. -/
theorem clean_run {admits : World κ → Op κ → Prop} (keeps : ∀ s op, admits s op → op.drops s = false)
    (meets : (machine clients embedded restarts).MeetsFrom admits (World.initial disk db) labels)
    (ran : (machine clients embedded restarts).runFrom (World.initial disk db) labels = some c) :
    c.shared.Clean := by
  refine Machine.run_invariant World.Clean ?_ ?_ ⟨fun _ _ => rfl, fun _ _ => rfl⟩ meets ran
  · intro fate s op result s' clean admitted done
    exact Clean.exec clean (keeps s op admitted) done
  · intro s s' _ kept
    rw [restart_of_reboot kept]
    exact Clean.restart s

/-- Only restarts lose bytes. -/
theorem nothing_lost
    (ran : (machine clients embedded false).runFrom (World.initial disk db) labels = some c)
    (h : String) (d : Dir) : c.shared.lost h d = 0 := by
  have meets : (machine clients embedded false).MeetsFrom (fun _ _ => True) (World.initial disk db)
    labels :=
    Machine.runMeets_of_admits (fun _ _ => trivial) _ _
  have kept : c.shared.lost = fun _ _ => 0 := by
    apply Machine.run_invariant (fun s : World κ => s.lost = fun _ _ => 0) _ _ rfl meets ran
    · intro fate s op result s' before _ done
      rw [lost_exec done]
      exact before
    · intro s s' _ kept
      cases kept
  rw [kept]

variable {s : World κ}

omit [DecidableEq κ] in
/-- A restart loses at most what is in the counters. -/
theorem restart_lost (balanced : s.Balanced) (clean : s.Clean) (h : String) (d : Dir) :
    s.restart.lost h d ≤ s.lost h d + s.live h d := by
  have balance := balanced h d
  have drained := clean.drained h d
  have gone := clean.gone h d
  have taken : s.taken h d ≤ s.restart.taken h d := Nat.le_max_left _ _
  change s.counted h d - s.restart.taken h d ≤ _
  omega

omit [DecidableEq κ] in
/-- All batches sent together are no more than what was taken. -/
theorem sent_le_taken (inv : Inv s) (h : String) (d : Dir) :
    batched s.sent h d ≤ s.taken h d := by
  -- a batch that was sent and not acknowledged is the one in the file
  apply Nat.le_trans _ (inv.lower h d)
  by_cases waits : s.file.pendingSyncID ∈ s.sent ∧ s.file.pendingSyncID ∉ s.acked
  · obtain ⟨sent, absent⟩ := waits
    obtain ⟨batch, found⟩ := Finmap.mem_iff.mp sent
    have named := (inv.sentNamed _ batch found).1
    have same := (inv.file.known named).2 batch found
    subst same
    rw [inFlight_of_open named absent, Nat.add_comm, ← batched_insert absent]
    apply total_le_of_subset
    intro id b sent
    rcases inv.file.covers id b sent with done | ⟨rfl, rfl⟩
    · have other : id ≠ s.file.pendingSyncID := by
        rintro rfl
        exact absent (Finmap.mem_of_lookup_eq_some done)
      rwa [Finmap.lookup_insert_of_ne _ other]
    · exact Finmap.lookup_insert _
  · apply Nat.le_trans _ (Nat.le_add_right _ _)
    apply total_le_of_subset
    intro id b sent
    rcases inv.file.covers id b sent with done | ⟨rfl, rfl⟩
    · exact done
    · have mem : s.file.pendingSyncID ∈ s.acked := by
        by_contra absent
        exact waits ⟨Finmap.mem_of_lookup_eq_some sent, absent⟩
      obtain ⟨batch, acked⟩ := Finmap.mem_iff.mp mem
      have agrees := inv.ackedSent _ batch acked
      rw [sent] at agrees
      rw [acked, agrees]

/-- Every byte taken under a checkpoint is in the outbox file or in an acknowledged batch, and
the batches sent under distinct sync IDs contain no byte twice. -/
def World.ReportedOnce (s : World κ) : Prop :=
  ∀ h d, s.taken h d ≤ held s.acked s.file h d ∧ batched s.sent h d ≤ s.taken h d

omit [DecidableEq κ] in
theorem Inv.reportedOnce (inv : Inv s) : s.ReportedOnce := by
  intro h d
  constructor
  · exact inv.upper h d
  · exact sent_le_taken inv h d

end

/-- With a single reporter, only one reporter writes the outbox file. -/
theorem soleWriter_unit (s : World Unit) (op : Op Unit) : SoleWriter s op := by
  have mine : ∀ c, s.Mine c := by
    intro c
    cases writer : s.writer with
    | none => exact .inl writer
    | some w => exact .inr writer
  cases op with
  | replace c | remove c => exact mine c
  | _ => trivial

/-- Between two rounds the memory of the reporter accounts for what was taken. -/
theorem idle_accounts {s : World Unit} {memory : State} (inv : Inv s)
    (known : Knows () memory.normalize s) (h : String) (d : Dir) :
    s.taken h d = (value memory.queued h).get d +
      (batched s.acked h d + inFlight s.acked memory h d) := by
  have mine : s.Mine () := by
    cases writer : s.writer with
    | none => exact .inl writer
    | some w => exact .inr writer
  have amount := (known.own inv mine).amount h d
  exact amount

/-! ### Conservation -/

/-- The operation is part of removing a user, which clears its counters, or subtracts. -/
def Op.removes {κ : Type} : Op κ → Bool
  | .mapDelete _ _ | .subtract _ _ _ _ => true
  | .clear _ _ _ checkpointed => !checkpointed
  | _ => false

theorem drops_of_removes {κ : Type} (s : World κ) (op : Op κ)
    (steady : op.removes = false ∧ op.wraps s = false) : op.drops s = false := by
  obtain ⟨kept, small⟩ := steady
  cases op with
  | clear me i d checkpointed => simp_all [Op.removes, Op.drops]
  | subtract => cases kept
  | _ => exact small

/-- In every run of one reporter, without a restart or with any number of them: all batches
sent under distinct sync IDs add up to at most the bytes counted; between two rounds every
counted byte is in a counter, in the queue, in the batch that waits for its acknowledgement, or
in an acknowledged batch, except for what restarts lost; and a restart loses at most what is in
the counters at that moment. -/
theorem outbox_conserves_traffic (client : Client) (embedded : List Nat) (restarts : Bool)
    (disk : Disk) (db : Master.Db) (labels : (machine (fun _ => client) embedded restarts).Labels)
    (c : (machine (fun _ => client) embedded restarts).State)
    (meets : (machine (fun _ => client) embedded restarts).MeetsFrom
      (fun s op => op.removes = false ∧ op.wraps s = false) (World.initial disk db) labels)
    (ran : (machine (fun _ => client) embedded restarts).runFrom (World.initial disk db) labels =
        some c) :
    (∀ h d, batched c.shared.sent h d ≤ c.shared.counted h d) ∧
    (∀ memory, c.threads (.client ()) = .idle memory → ∀ h d,
      c.shared.counted h d = c.shared.live h d + (value memory.state.queued h).get d +
        inFlight c.shared.acked memory.state h d + batched c.shared.acked h d +
        c.shared.lost h d) ∧
    (restarts = false → ∀ h d, c.shared.lost h d = 0) ∧
    ∀ c', (machine (fun _ => client) embedded restarts).next c .crash = some c' → ∀ h d,
      c'.shared.lost h d ≤ c.shared.lost h d + c.shared.live h d := by
  have good := (good_initial (fun _ => client) embedded restarts disk db).run
    (protocol_sound _ embedded restarts) (Machine.runMeets_of_admits soleWriter_unit _ labels) ran
  have clean := clean_run drops_of_removes meets ran
  have inv : Inv c.shared := good.inv
  refine ⟨?_, ?_, ?_, ?_⟩
  · -- what was sent was taken, and what was taken was counted
    intro h d
    have sent := sent_le_taken inv h d
    have balance := inv.balanced h d
    omega
  · -- between two rounds the memory says where the taken bytes are
    intro memory idle h d
    have known := good.threads (.client ())
    rw [idle] at known
    have amount := idle_accounts inv known h d
    have balance := inv.balanced h d
    have gone := clean.gone h d
    have drained := clean.drained h d
    omega
  · rintro rfl
    exact nothing_lost ran
  · intro c' crashed h d
    obtain ⟨s', kept, rfl⟩ := Option.map_eq_some_iff.mp crashed
    rw [restart_of_reboot kept]
    exact restart_lost inv.balanced clean h d

/-! A user is added, a connection moves 5 bytes down and 7 bytes up, and one flush reports
them in a single batch that is acknowledged and discarded. -/

def flushFate : Fate := { order := [0], id := "a", response := some { status := 200, users := none } }

def flushLabels : List (Label (Actor Unit) Call Fate) :=
  joins 0 "u" ++ moves 0 5 7 ++ [.enter (.client ()) ()] ++
  List.replicate 27 (.step (.client ()) flushFate) ++ [.leave (.client ())]

theorem flushed_traffic_conserved :
    let M := machine (fun _ : Unit => .reporter 0) [] true
    ∃ c memory, M.runFrom (World.initial .absent {}) flushLabels = some c ∧
      c.threads (.client ()) = .idle memory ∧
      c.shared.counted "u" .up = 7 ∧ batched c.shared.acked "u" .up = 7 ∧
      batched c.shared.sent "u" .up ≤ c.shared.counted "u" .up := by
  intro M
  obtain ⟨c, ran, idle, counted, acked⟩ : ∃ c, M.runFrom (World.initial .absent {}) flushLabels =
    some c ∧ (c.threads (.client ())).memory.isSome = true ∧
      c.shared.counted "u" .up = 7 ∧ batched c.shared.acked "u" .up = 7 :=
    by exact Machine.run_checked (by decide +kernel)
  have conserved := outbox_conserves_traffic (.reporter 0) [] true .absent {} flushLabels c
    (by decide +kernel) ran
  cases thread : c.threads (.client ()) with
  | idle memory => exact ⟨c, memory, ran, thread, counted, acked, conserved.1 "u" .up⟩
  | running rest =>
    rw [thread] at idle
    cases idle

/-! A counter that is never collected wraps around after 2^64 bytes. -/

def wrapLabels : List (Label (Actor Unit) Call Fate) :=
  joins 0 "u" ++ [2 ^ 63 - 1, 2 ^ 63 - 1, 2].flatMap (moves 0 0)

theorem wrapped_counter_forgets_traffic :
    let M := machine (fun _ : Unit => .reporter 0) [] false
    ∃ c memory, M.MeetsFrom (fun _ op => op.removes = false) (World.initial .absent {}) wrapLabels ∧
      M.runFrom (World.initial .absent {}) wrapLabels = some c ∧
      c.threads (.client ()) = .idle memory ∧
      c.shared.counted "u" .up ≠ c.shared.live "u" .up + (value memory.state.queued "u").get .up +
        inFlight c.shared.acked memory.state "u" .up + batched c.shared.acked "u" .up +
        c.shared.lost "u" .up := by
  intro M
  obtain ⟨c, ran, wrapped⟩ : ∃ c, M.runFrom (World.initial .absent {}) wrapLabels = some c ∧
      ((c.threads (.client ())).memory.any fun memory =>
        decide (c.shared.counted "u" .up ≠ c.shared.live "u" .up +
          (value (ClientMemory.state memory).queued "u").get .up +
          inFlight c.shared.acked (ClientMemory.state memory) "u" .up +
          batched c.shared.acked "u" .up + c.shared.lost "u" .up)) = true :=
    by exact Machine.run_checked (by decide +kernel)
  cases thread : c.threads (.client ()) with
  | idle memory =>
    rw [thread] at wrapped
    exact ⟨c, memory, by decide +kernel, ran, thread, of_decide_eq_true wrapped⟩
  | running rest =>
    rw [thread] at wrapped
    cases wrapped

end TrojanGo.Plane
