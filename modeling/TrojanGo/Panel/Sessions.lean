import TrojanGo.Panel.History

/-!
# Idle sessions

A session that the table of session activity does not show is taken for a fresh one. The table is
lost with every restart and emptied by every password change.
-/
namespace TrojanGo.Panel

open Lib List
open Master (Time)

variable {env : Env} {w w' : World}

/-- Every request was accepted within the idle timeout of an earlier login or accepted
request of the same session. -/
def World.SessionsRecent (w : World) : Prop :=
  ∀ jti time later earlier, w.events = later ++ .accepted jti time :: earlier →
    ∃ seen, .active jti seen ∈ earlier ∧ seen ≤ time ∧ time - seen ≤ sessionIdleTimeout

/-- A session check finds the session in the table. -/
def Op.FindsSession (w : World) : Op → Prop
  | .loadActivity jti => (w.sessions.lookup jti).isSome = true
  | _ => True

instance (w : World) (op : Op) : Decidable (op.FindsSession w) := by
  unfold Op.FindsSession
  split <;> infer_instance

structure Tracked (w : World) : Prop where
  /-- the table shows only what happened -/
  noted : ∀ jti seen, w.sessions.lookup jti = some seen →
    .active jti seen ∈ w.events ∧ seen ≤ w.clock
  /-- every lookup found an earlier activity -/
  found : ∀ jti time entry later earlier,
    w.events = later ++ .looked jti time entry :: earlier →
    ∃ seen, entry = some seen ∧ .active jti seen ∈ earlier ∧ seen ≤ time

section

variable (tracked : Tracked w)

include tracked

/-- One more event that is not a lookup keeps what is known of the lookups. -/
theorem Tracked.found_cons {event : Event}
    (other : ∀ jti time entry, event ≠ .looked jti time entry) {jti : Jti} {time : Time}
    {entry : Option Time} {later earlier : List Event}
    (split : event :: w.events = later ++ .looked jti time entry :: earlier) :
    ∃ seen, entry = some seen ∧ .active jti seen ∈ earlier ∧ seen ≤ time := by
  cases later with
  | nil => grind
  | cons first later =>
    obtain ⟨-, rest⟩ := cons.inj split
    exact tracked.found jti time entry later earlier rest

/-- Operations on anything else. -/
theorem Tracked.unmoved (sessions : w'.sessions = w.sessions) (events : w'.events = w.events)
    (clock : w.clock ≤ w'.clock) : Tracked w' where
  noted := by
    intro jti seen entry
    rw [sessions] at entry
    obtain ⟨active, past⟩ := tracked.noted jti seen entry
    rw [events]
    exact ⟨active, Int.le_trans past clock⟩
  found := by
    rw [events]
    exact tracked.found

theorem Tracked.storeActivity (jti : Jti) :
    Tracked { w with
      sessions := w.sessions.insert jti w.clock
      events := .active jti w.clock :: w.events } where
  noted := by
    intro other seen entry
    rw [Table.lookup_insert] at entry
    split at entry
    next same =>
      cases entry
      exact ⟨same ▸ mem_cons_self, Int.le_refl _⟩
    · obtain ⟨active, past⟩ := tracked.noted other seen entry
      exact ⟨mem_cons_of_mem _ active, past⟩
  found := fun _ _ _ _ _ split => tracked.found_cons (fun _ _ _ same => by cases same) split

theorem Tracked.loadActivity {jti : Jti} (finds : (w.sessions.lookup jti).isSome = true) :
    Tracked { w with events := .looked jti w.clock (w.sessions.lookup jti) :: w.events } where
  noted := by
    intro other seen entry
    obtain ⟨active, past⟩ := tracked.noted other seen entry
    exact ⟨mem_cons_of_mem _ active, past⟩
  found := by
    intro other time entry later earlier split
    cases later with
    | nil =>
      obtain ⟨same, rest⟩ := cons.inj split
      cases same
      obtain ⟨seen, entry⟩ := Option.isSome_iff_exists.mp finds
      have noted := tracked.noted jti seen entry
      rw [← rest]
      exact ⟨seen, entry, noted⟩
    | cons first later =>
      obtain ⟨-, rest⟩ := cons.inj split
      exact tracked.found other time entry later earlier rest

theorem Tracked.accept (jti : Jti) (time : Time) :
    Tracked { w with events := .accepted jti time :: w.events } where
  noted := by
    intro other seen entry
    obtain ⟨active, past⟩ := tracked.noted other seen entry
    exact ⟨mem_cons_of_mem _ active, past⟩
  found := fun _ _ _ _ _ split => tracked.found_cons (fun _ _ _ same => by cases same) split

theorem Tracked.deleteSession (jti : Jti) :
    Tracked { w with sessions := w.sessions.erase jti } where
  noted := by
    intro other seen entry
    rw [Table.lookup_erase] at entry
    split at entry
    · cases entry
    · exact tracked.noted other seen entry
  found := tracked.found

theorem Tracked.restart : Tracked w.restart where
  noted := by rintro _ _ ⟨⟩
  found := tracked.found

end

theorem exec_tracked {fate : Fate} {op : Op} {result : Res op} (before : Tracked w)
    (finds : op.FindsSession w) (done : exec env fate w op = some (result, w')) :
    Tracked w' := by
  have tracked : Tracked (w.tick fate.elapsed) :=
    before.unmoved rfl rfl (Grows.tick w fate.elapsed).clock
  cases exec_effect done with
  | active jti => exact tracked.storeActivity jti
  | looked => exact tracked.loadActivity finds
  | accepted jti time => exact tracked.accept jti time
  | delete jti => exact tracked.deleteSession jti
  | _ => exact tracked.unmoved rfl rfl (Int.le_refl _)

/-- In every run in which every session check finds its session in the table, restarts and
password changes included, requests are accepted only within the idle timeout. -/
theorem accepted_within_idle_timeout (env : Env) (username password : Option String)
    (clock : Time) {labels : (machine env).Labels} {c : (machine env).State}
    (finds : (machine env).MeetsFrom (fun w op => op.FindsSession w)
      (World.start username password clock) labels)
    (ran : (machine env).runFrom (World.start username password clock) labels =
      some c) : c.shared.SessionsRecent := by
  have start : Tracked (World.start username password clock) := by
    refine ⟨by rintro _ _ ⟨⟩, ?_⟩
    intro jti time entry later earlier split
    exact absurd split.symm (by simp [World.start])
  obtain ⟨good, tracked⟩ := (history_start env username password clock).run_invariant
    (history_sound env) (fun _ _ _ => trivial) Tracked
    (fun _ _ _ _ _ _ tracked finds done _ => exec_tracked tracked finds done)
    (fun _ _ _ tracked rebooted => by cases rebooted; exact tracked.restart) start finds ran
  intro jti time later earlier accepted
  obtain ⟨entry, looked, recent⟩ := good.inv.accepted jti time later earlier accepted
  -- the lookup is earlier than the acceptance, and what it found earlier still
  obtain ⟨between, before, split⟩ := append_of_mem looked
  have placed : c.shared.events =
      (later ++ .accepted jti time :: between) ++ .looked jti time entry :: before := by
    rw [accepted, split]
    simp
  obtain ⟨seen, same, active, past⟩ := tracked.found jti time entry _ before placed
  refine ⟨seen, ?_, past, recent seen same⟩
  rw [split]
  exact mem_append_right _ (mem_cons_of_mem _ active)

/-- A request twenty minutes after the login. -/
def Sample.soonAfterLogin : List (Label Nat (fun _ => Request) Fate) :=
  serve 0 (.login "192.0.2.1" (some ⟨"admin", "old"⟩)) 14 ++
    .enter 0 (.session (some token)) :: .step 0 { elapsed := 1200000000000 } :: steps 0 6

theorem request_soon_after_login :
    ∃ c, (machine Sample.server).runFrom (World.start (some "admin") (some "$2a$old") 0)
      Sample.soonAfterLogin = some c ∧
      (.session (some Sample.token), .granted) ∈ c.shared.replies ∧ c.shared.SessionsRecent := by
  refine Machine.run_checked_and (by decide +kernel) fun c ran => ?_
  exact accepted_within_idle_timeout Sample.server (some "admin") (some "$2a$old") 0
    (by decide +kernel) ran

/-- The process restarts after the login, and the token is used forty minutes later. -/
def Sample.longAfterRestart : List (Label Nat (fun _ => Request) Fate) :=
  serve 0 (.login "192.0.2.1" (some ⟨"admin", "old"⟩)) 14 ++
    .crash :: .enter 0 (.session (some token)) :: .step 0 { elapsed := 2400000000000 } :: steps 0 5

/-- After a restart a session that was idle for forty minutes is accepted. -/
theorem idle_session_accepted_after_restart :
    ∃ c, (machine Sample.server).runFrom (World.start (some "admin") (some "$2a$old") 0)
      Sample.longAfterRestart = some c ∧
      (.session (some Sample.token), .granted) ∈ c.shared.replies ∧
      ¬ c.shared.SessionsRecent := by
  refine Machine.run_witness (fun c => (.session (some Sample.token), .granted) ∈ c.shared.replies ∧
    c.shared.events = [.active 0 (40 * minute), .accepted 0 (40 * minute),
      .looked 0 (40 * minute) none, .active 0 0]) (by decide +kernel) ?_
  rintro c ran ⟨granted, events⟩
  refine ⟨granted, fun recent => ?_⟩
  obtain ⟨seen, active, -, idle⟩ := recent 0 (40 * minute) [.active 0 (40 * minute)]
    [.looked 0 (40 * minute) none, .active 0 0] events
  simp only [mem_cons, reduceCtorEq, Event.active.injEq, true_and, not_mem_nil, or_false,
    false_or] at active
  subst active
  exact absurd idle (by decide)

end TrojanGo.Panel
