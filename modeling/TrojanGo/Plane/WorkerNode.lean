import TrojanGo.Plane.OutboxRuns

/-!
# A worker node with an embedded admin server

The node sync manager and the traffic worker of the embedded admin server consume the same
counters. Nothing reports the local database of a worker node to the master.
-/
namespace TrojanGo.Plane

open Lib

/-- A worker node: its manager, and the authenticators its traffic worker reads. -/
abbrev workerNode (auths : List Nat) (hasDb : Bool) (embedded : List Nat) :
    Machine (Actor Unit) (World Unit) Fate Call Memory (Op Unit) Res :=
  machine (fun _ => .manager auths hasDb) embedded false

/-- Every counted byte is in a counter or was taken for the master, where it is in the outbox or
in one acknowledged batch. -/
def World.HeldOrReported {κ : Type} (s : World κ) : Prop :=
  (∀ h d, s.counted h d = s.live h d + s.taken h d) ∧ s.ReportedOnce

/-- In every run in which nothing but a checkpoint takes bytes from a counter. Between two rounds
the manager's memory says where the taken bytes are. -/
theorem undrained_traffic_is_reported (auths : List Nat) (hasDb : Bool) (embedded : List Nat)
    (disk : Disk) (db : Master.Db) (labels : (workerNode auths hasDb embedded).Labels)
    (c : (workerNode auths hasDb embedded).State)
    (meets : (workerNode auths hasDb embedded).MeetsFrom (fun s op => op.drops s = false)
      (World.initial disk db) labels)
    (ran : (workerNode auths hasDb embedded).runFrom (World.initial disk db) labels = some c) :
    c.shared.HeldOrReported ∧
    ∀ memory, c.threads (.client ()) = .idle memory → ∀ h d,
      c.shared.counted h d = c.shared.live h d + (value memory.state.queued h).get d +
        inFlight c.shared.acked memory.state h d + batched c.shared.acked h d := by
  have good := (good_initial _ embedded false disk db).run (protocol_sound _ embedded false)
    (Machine.runMeets_of_admits soleWriter_unit _ labels) ran
  have inv : Inv c.shared := good.inv
  have clean := clean_run (fun _ _ kept => kept) meets ran
  have counted : ∀ h d, c.shared.counted h d = c.shared.live h d + c.shared.taken h d := by
    intro h d
    have balance := inv.balanced h d
    have gone := clean.gone h d
    have drained := clean.drained h d
    have lost := nothing_lost ran h d
    omega
  constructor
  · exact ⟨counted, inv.reportedOnce⟩
  · intro memory idle h d
    have known := good.threads (.client ())
    rw [idle] at known
    have amount := idle_accounts inv known h d
    have split := counted h d
    omega

/-! ### Runs of one node -/

abbrev oneNode : Machine (Actor Unit) (World Unit) Fate Call Memory (Op Unit) Res :=
  workerNode [0] false [0]

def nodeDb : Master.Db := { users := [{ id := 1, hash := "u" }] }

/-- The user is added, and a connection moves 7 bytes up. -/
def nodeTraffic : List (Label (Actor Unit) Call Fate) :=
  joins 0 "u" ++ moves 0 0 7

/-- The manager takes the bytes before the worker reads the counter. -/
def managerFirst : List (Label (Actor Unit) Call Fate) :=
  nodeTraffic ++ [.enter (.client ()) ()] ++
    List.replicate 16 (.step (.client ()) { order := [0] }) ++
    [.enter .embedded ()] ++ List.replicate 3 (.step .embedded { order := [0] })

theorem manager_first_reports :
    ∃ c, oneNode.runFrom (World.initial .absent nodeDb) managerFirst = some c ∧
      c.shared.taken "u" .up = 7 ∧ c.shared.HeldOrReported := by
  refine Machine.run_checked_and (by decide +kernel) fun c ran => ?_
  exact (undrained_traffic_is_reported [0] false [0] .absent nodeDb managerFirst c
    (by decide +kernel) ran).1

/-- The worker copies the counter to the local database before the manager sees it. -/
def workerDrains : List (Label (Actor Unit) Call Fate) :=
  nodeTraffic ++ [.enter .embedded ()] ++ List.replicate 8 (.step .embedded { order := [0] })

/-- Between the worker's reading and its subtraction the manager takes the 7 bytes and the
connection moves 5 more, which the subtraction removes. -/
def workerOverlaps : List (Label (Actor Unit) Call Fate) :=
  nodeTraffic ++ [.enter .embedded ()] ++ List.replicate 3 (.step .embedded { order := [0] }) ++
    [.enter (.client ()) ()] ++ List.replicate 16 (.step (.client ()) { order := [0] }) ++
    moves 0 0 5 ++ List.replicate 5 (.step .embedded {})

theorem embedded_worker_withholds_traffic :
    (∃ c, oneNode.runFrom (World.initial .absent nodeDb) workerDrains = some c ∧
      c.shared.counted "u" .up = 7 ∧ c.shared.live "u" .up = 0 ∧ c.shared.taken "u" .up = 0 ∧
      ¬ c.shared.HeldOrReported) ∧
    ∃ c, oneNode.runFrom (World.initial .absent nodeDb) workerOverlaps = some c ∧
      c.shared.counted "u" .up = 12 ∧ c.shared.live "u" .up = 0 ∧ c.shared.taken "u" .up = 7 ∧
      (c.shared.db.users.map Master.User.upload) = [7] ∧ ¬ c.shared.HeldOrReported := by
  constructor
  · refine Machine.run_witness (fun c => c.shared.counted "u" .up = 7 ∧ c.shared.live "u" .up = 0 ∧
      c.shared.taken "u" .up = 0) (by decide +kernel) ?_
    rintro c ran ⟨counted, live, taken⟩
    refine ⟨counted, live, taken, fun reported => ?_⟩
    have balance := reported.1 "u" .up
    omega
  · refine Machine.run_witness (fun c => c.shared.counted "u" .up = 12 ∧ c.shared.live "u" .up = 0 ∧
      c.shared.taken "u" .up = 7 ∧ (c.shared.db.users.map Master.User.upload) = [7])
      (by decide +kernel) ?_
    rintro c ran ⟨counted, live, taken, stored⟩
    refine ⟨counted, live, taken, stored, fun reported => ?_⟩
    have balance := reported.1 "u" .up
    omega

end TrojanGo.Plane
