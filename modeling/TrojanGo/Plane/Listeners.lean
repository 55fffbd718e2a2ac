import TrojanGo.Plane.OutboxRuns

/-!
# Several listeners, one outbox

Each trojan listener creates a reporter of its own on the same outbox file. The file is a faithful
record as long as only one of them writes it between two starts.
-/
namespace TrojanGo.Plane

open Lib

variable {κ : Type}

/-- The listeners of a server, each with the authenticator it reports for. -/
abbrev listeners [DecidableEq κ] (auths : κ → Nat) (embedded : List Nat) :
    Machine (Actor κ) (World κ) Fate Call Memory (Op κ) Res :=
  machine (fun c => .reporter (auths c)) embedded true

/-- In every run in which each write of the outbox file is made while no other listener has
written it since the process started. -/
theorem sole_writer_reports_once [DecidableEq κ] (auths : κ → Nat) (embedded : List Nat)
    (disk : Disk) (db : Master.Db) (labels : (listeners auths embedded).Labels)
    (c : (listeners auths embedded).State)
    (meets : (listeners auths embedded).MeetsFrom SoleWriter (World.initial disk db) labels)
    (ran : (listeners auths embedded).runFrom (World.initial disk db) labels = some c) :
    c.shared.ReportedOnce := by
  have good := (good_initial _ embedded true disk db).run (protocol_sound _ embedded true) meets ran
  exact Inv.reportedOnce good.inv

/-! ### Two listeners -/

/-- Two listeners with an authenticator each. -/
abbrev twoListeners : Machine (Actor Bool) (World Bool) Fate Call Memory (Op Bool) Res :=
  listeners (fun second => if second then 1 else 0) []

/-- The user is added to both authenticators and moves 7 bytes up through the first listener
and 3 bytes up through the second one. -/
def trafficOnBoth : List (Label (Actor Bool) Call Fate) :=
  [(0, 7), (1, 3)].flatMap fun (n, bytes) =>
    joins n "u" ++ moves n 0 bytes

def flushSteps (second : Bool) (steps : Nat) (fate : Fate) : List (Label (Actor Bool) Call Fate) :=
  .enter (.client second) () :: List.replicate steps (.step (.client second) fate)

instance (s : World κ) [DecidableEq κ] : (op : Op κ) → Decidable (SoleWriter s op)
  | .replace c _ | .remove c => inferInstanceAs (Decidable (s.writer = none ∨ s.writer = some c))
  | .listUsers _ | .mapLoad _ _ | .mapStore _ _ | .mapDelete _ _ | .lock _ _ | .unlock _ _
  | .load _ _ | .add _ _ _ _ | .clear _ _ _ _ | .subtract _ _ _ _ | .attempt | .refuse
  | .newSyncID
  | .post _ _ _ _ | .syncReady | .commit _ | .cacheUsers _ => .isTrue trivial

/-- Only the first listener has users with traffic; the second one finds nothing to report. -/
def firstReports : List (Label (Actor Bool) Call Fate) :=
  trafficOnBoth ++ flushSteps false 27 flushFate ++ flushSteps true 1 {}

theorem first_listener_reports_once :
    ∃ c, twoListeners.runFrom (World.initial .absent {}) firstReports = some c ∧
      batched c.shared.sent "u" .up = 7 ∧ c.shared.ReportedOnce := by
  refine Machine.run_checked_and (by decide +kernel) fun c ran => ?_
  exact sole_writer_reports_once _ [] .absent {} firstReports c (by decide +kernel) ran

/-- The first listener freezes its batch and gets no answer; then the checkpoint of the second
one replaces the file. -/
def secondOverwrites : List (Label (Actor Bool) Call Fate) :=
  trafficOnBoth ++ flushSteps false 25 { order := [0], id := "a" } ++
    flushSteps true 11 { order := [1] }

/-- The first listener checkpoints its traffic and the process restarts; both listeners load the
queue from the file, freeze it and send it. -/
def bothReload : List (Label (Actor Bool) Call Fate) :=
  trafficOnBoth ++ flushSteps false 15 { order := [0] } ++ [.crash] ++
    flushSteps false 11 { id := "a" } ++ flushSteps true 11 { id := "b" }

theorem two_listeners_lose_and_repeat :
    (∃ c, twoListeners.runFrom (World.initial .absent {}) secondOverwrites = some c ∧
      c.shared.taken "u" .up = 7 ∧ held c.shared.acked c.shared.file "u" .up = 3 ∧
      ¬ c.shared.ReportedOnce) ∧
    ∃ c, twoListeners.runFrom (World.initial .absent {}) bothReload = some c ∧
      c.shared.taken "u" .up = 7 ∧ batched c.shared.sent "u" .up = 14 ∧
      ¬ c.shared.ReportedOnce := by
  constructor
  · refine Machine.run_witness (fun c => c.shared.taken "u" .up = 7 ∧
      held c.shared.acked c.shared.file "u" .up = 3) (by decide +kernel) ?_
    rintro c ran ⟨taken, kept⟩
    refine ⟨taken, kept, fun once => ?_⟩
    have missing := (once "u" .up).1
    omega
  · refine Machine.run_witness (fun c => c.shared.taken "u" .up = 7 ∧
      batched c.shared.sent "u" .up = 14) (by decide +kernel) ?_
    rintro c ran ⟨taken, sent⟩
    refine ⟨taken, sent, fun once => ?_⟩
    have twice := (once "u" .up).2
    omega

end TrojanGo.Plane
