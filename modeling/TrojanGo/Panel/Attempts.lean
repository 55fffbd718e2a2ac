import TrojanGo.Panel.History

/-!
# Wrong passwords per client

The rate limit is checked before the password is compared, and a failure is recorded after. So
logins of one client that overlap all pass the check, and a full table records nothing.
-/
namespace TrojanGo.Panel

open Lib List
open Master (Time)

variable {env : Env} {w w' : World}

/-- No other login of the client is between its check and its outcome when one is checked,
and the table has room when a failure is recorded. -/
def Op.AloneWithRoom (w : World) : Op → Prop
  | .rateLimitExceeded _ clientIP => clientIP ∉ w.flights.map Prod.snd
  | .recordFailure _ _ => (makeRoom w.clock w.loginFailures).size < maxRateLimitEntries
  | _ => True

instance (w : World) (op : Op) : Decidable (op.AloneWithRoom w) := by
  unfold Op.AloneWithRoom
  split <;> infer_instance

/-- The windows of failed logins respect the limit, apart from those the table started with,
and a window that has reached it lets no further attempt through. -/
structure AttemptsLimited (table : Table String RateLimitEntry) (w : World) : Prop where
  bounded : ∀ clientIP entry, w.windows clientIP = some entry →
    entry.count ≤ loginFailureLimit ∨ table.lookup clientIP = some entry
  rejects : ∀ clientIP entry, w.windows clientIP = some entry →
    loginFailureLimit ≤ entry.count → w.clock < entry.resetAt →
    (rateLimitExceeded w.clock w.loginFailures clientIP loginFailureLimit).1 = true

/-! ### The table and the windows -/

/-- The table shows a window as it is, or has dropped it because it is closed. -/
def Shows (clock : Time) (entry window : Option RateLimitEntry) : Prop :=
  entry = window ∨ entry = none ∧ ∀ closed ∈ window, closed.resetAt ≤ clock

variable {clock : Time} {entry window : Option RateLimitEntry}

theorem Shows.later {clock' : Time} (shows : Shows clock entry window) (grown : clock ≤ clock') :
    Shows clock' entry window := by
  rcases shows with same | ⟨dropped, closed⟩
  · exact .inl same
  · exact .inr ⟨dropped, fun window inside => Int.le_trans (closed window inside) grown⟩

/-- Dropping closed windows changes nothing. -/
theorem Shows.filter (shows : Shows clock entry window) :
    Shows clock (entry.filter fun value => decide (clock < value.resetAt)) window := by
  rcases shows with rfl | ⟨rfl, closed⟩
  · cases entry with
    | none => exact .inl rfl
    | some value =>
      by_cases active : clock < value.resetAt
      · left
        simp [active]
      · right
        refine ⟨by simpa using Int.not_lt.mp active, ?_⟩
        rintro _ ⟨⟩
        exact Int.not_lt.mp active
  · exact .inr ⟨rfl, closed⟩

theorem Shows.countEvent {window : Time} {spec : Option RateLimitEntry}
    (shows : Shows clock entry spec) :
    countEvent clock window entry = countEvent clock window spec := by
  rcases shows with rfl | ⟨rfl, closed⟩
  · rfl
  · cases spec with
    | none => rfl
    | some value => grind [Panel.countEvent]

variable {clientIP : String}

theorem makeRoom_shows {table : Table String RateLimitEntry}
    (shows : Shows clock (table.lookup clientIP) window) :
    Shows clock ((makeRoom clock table).lookup clientIP) window := by
  unfold makeRoom
  split
  · rw [Table.lookup_filter]
    exact shows.filter
  · exact shows

/-- Room that is there now is there later. -/
theorem makeRoom_later {clock' : Time} {table : Table String RateLimitEntry}
    (grown : clock ≤ clock') (room : (makeRoom clock table).size < maxRateLimitEntries) :
    (makeRoom clock' table).size < maxRateLimitEntries := by
  unfold makeRoom at room ⊢
  split
  next full =>
    rw [if_pos full] at room
    refine Nat.lt_of_le_of_lt ?_ room
    apply List.Sublist.length_le
    apply monotone_filter_right
    intro entry active
    simp only [decide_eq_true_eq] at active ⊢
    grind
  next other => exact Nat.lt_of_not_le other

/-! ### The invariant -/

structure Limited (table : Table String RateLimitEntry) (w : World) : Prop where
  shows : ∀ clientIP, Shows w.clock (w.loginFailures.lookup clientIP) (w.windows clientIP)
  single : (w.flights.map Prod.snd).Nodup
  bounded : ∀ clientIP entry, w.windows clientIP = some entry →
    entry.count ≤ loginFailureLimit ∨ table.lookup clientIP = some entry
  /-- a login in flight has passed the check, so its failure still fits -/
  fits : ∀ clientIP entry, w.windows clientIP = some entry → w.clock < entry.resetAt →
    clientIP ∈ w.flights.map Prod.snd → entry.count < loginFailureLimit

variable {table : Table String RateLimitEntry}

theorem Limited.attemptsLimited (limited : Limited table w) : AttemptsLimited table w where
  bounded := limited.bounded
  rejects := by
    intro clientIP entry window reached active
    rcases limited.shows clientIP with same | ⟨-, closed⟩
    · simp [rateLimitExceeded, same, window, active, reached]
    · have past := closed entry window
      grind

/-- Operations that only take time or end flights. -/
theorem Limited.unmoved (limited : Limited table w)
    (failures : w'.loginFailures = w.loginFailures) (windows : w'.windows = w.windows)
    (clock : w.clock ≤ w'.clock) (flights : w'.flights.Sublist w.flights) : Limited table w' where
  shows := by
    intro clientIP
    rw [failures, windows]
    exact (limited.shows clientIP).later clock
  single := limited.single.sublist (flights.map _)
  bounded := by
    rw [windows]
    exact limited.bounded
  fits := by
    intro clientIP entry window active flying
    rw [windows] at window
    refine limited.fits clientIP entry window ?_ ((flights.map _).subset flying)
    grind

theorem Limited.tick (limited : Limited table w) (elapsed : Nat) :
    Limited table (w.tick elapsed) :=
  limited.unmoved rfl rfl (Grows.tick w elapsed).clock (List.Sublist.refl _)

variable {thread : Nat}

variable {failures : Table String RateLimitEntry} {flights : List (Nat × String)} {op : Op}

section

variable (limited : Limited table w) (alone : clientIP ∉ w.flights.map Prod.snd)

include limited alone

/-- A login that passes the check takes off. -/
theorem Limited.depart (shows : ∀ other, Shows w.clock (failures.lookup other) (w.windows other))
    (fits : ∀ entry, w.windows clientIP = some entry → w.clock < entry.resetAt →
      entry.count < loginFailureLimit) :
    Limited table { w with
      loginFailures := failures
      flights := (thread, clientIP) :: w.flights } where
  shows := shows
  single := List.nodup_cons.mpr ⟨alone, limited.single⟩
  bounded := limited.bounded
  fits := by
    intro other entry window active flying
    rcases mem_cons.mp flying with rfl | before
    · exact fits entry window active
    · exact limited.fits other entry window active before

theorem Limited.rateLimitExceeded :
    Limited table { w with
      loginFailures := (Panel.rateLimitExceeded w.clock w.loginFailures clientIP
        loginFailureLimit).2
      flights := if (Panel.rateLimitExceeded w.clock w.loginFailures clientIP
        loginFailureLimit).1 then w.flights else (thread, clientIP) :: w.flights } := by
  have known := limited.shows clientIP
  unfold Panel.rateLimitExceeded
  cases found : w.loginFailures.lookup clientIP with
  | none =>
    -- no window, or a closed one that was dropped
    simp only [Bool.false_eq_true, if_false]
    refine limited.depart alone limited.shows ?_
    intro entry window active
    rw [found, window] at known
    rcases known with same | ⟨-, closed⟩
    · cases same
    · have past := closed entry rfl
      grind
  | some entry =>
    have window : w.windows clientIP = some entry := by
      rw [found] at known
      rcases known with same | ⟨dropped, -⟩
      · exact same.symm
      · cases dropped
    dsimp only
    split
    next active =>
      -- an open window: the login is refused, or a failure more still fits
      by_cases reached : loginFailureLimit ≤ entry.count
      · simp only [reached, decide_true, if_true]
        exact limited
      · simp only [reached, decide_false, Bool.false_eq_true, if_false]
        refine limited.depart alone limited.shows ?_
        intro entry' same _
        rw [window] at same
        cases same
        omega
    next closed =>
      -- a closed window is deleted by the check
      simp only [Bool.false_eq_true, if_false]
      refine limited.depart alone ?_ ?_
      · intro other
        rw [Table.lookup_erase]
        split
        next same =>
          rw [same, window]
          refine .inr ⟨rfl, ?_⟩
          rintro _ ⟨⟩
          grind
        · exact limited.shows other
      · grind

end

/-- The only flight of a client has landed. -/
theorem landed (single : (flights.map Prod.snd).Nodup) (flying : (thread, clientIP) ∈ flights) :
    clientIP ∉ (flights.erase (thread, clientIP)).map Prod.snd := by
  intro mem
  obtain ⟨other, inside, same⟩ := mem_map.mp mem
  have equal := inj_on_of_nodup_map single (mem_of_mem_erase inside) flying same
  rw [equal, List.Nodup.mem_erase_iff (List.Nodup.of_map _ single)] at inside
  exact inside.1 rfl

section

variable (limited : Limited table w)

include limited

/-- A login lands and leaves another window behind for its client. -/
theorem Limited.land (own : Shows w.clock (failures.lookup clientIP) window)
    (others : ∀ other, other ≠ clientIP → Shows w.clock (failures.lookup other) (w.windows other))
    (bounded : ∀ entry ∈ window, entry.count ≤ loginFailureLimit ∧
      clientIP ∉ (w.flights.erase (thread, clientIP)).map Prod.snd) :
    Limited table { w with
      loginFailures := failures
      flights := w.flights.erase (thread, clientIP)
      windows := Function.update w.windows clientIP window } := by
  have sublist : (w.flights.erase (thread, clientIP)).Sublist w.flights := erase_sublist
  constructor
  · grind
  · exact limited.single.sublist (sublist.map _)
  · intro other entry held
    dsimp only at held
    by_cases same : other = clientIP
    · grind
    · rw [Function.update_of_ne same] at held
      exact limited.bounded other entry held
  · intro other entry held active flying
    dsimp only at held
    by_cases same : other = clientIP
    · grind
    · rw [Function.update_of_ne same] at held
      exact limited.fits other entry held active ((sublist.map _).subset flying)

/-- A failure opens a window or is one of those that still fit in. -/
theorem Limited.countEvent_le (flying : (thread, clientIP) ∈ w.flights) :
    (countEvent w.clock loginFailureWindow (w.windows clientIP)).count ≤ loginFailureLimit := by
  cases before : w.windows clientIP with
  | none => exact Nat.succ_le_succ (Nat.zero_le _)
  | some entry =>
    simp only [Panel.countEvent]
    split
    next active =>
      exact limited.fits clientIP entry before active (mem_map_of_mem flying)
    · exact Nat.succ_le_succ (Nat.zero_le _)

theorem Limited.recordFailure (flying : (thread, clientIP) ∈ w.flights)
    (room : (makeRoom w.clock w.loginFailures).size < maxRateLimitEntries) :
    Limited table { w with
      loginFailures := recordRateLimitEvent w.clock w.loginFailures clientIP loginFailureWindow
      flights := w.flights.erase (thread, clientIP)
      windows := Function.update w.windows clientIP
        (some (countEvent w.clock loginFailureWindow (w.windows clientIP))) } := by
  have freed (other : String) := makeRoom_shows (limited.shows other)
  have recorded : recordRateLimitEvent w.clock w.loginFailures clientIP loginFailureWindow =
      (makeRoom w.clock w.loginFailures).insert clientIP
        (countEvent w.clock loginFailureWindow (w.windows clientIP)) := by
    simp only [recordRateLimitEvent, if_neg (Nat.not_le.mpr room), (freed clientIP).countEvent]
  rw [recorded]
  apply limited.land
  · rw [Table.lookup_insert, if_pos rfl]
    exact .inl rfl
  · intro other differ
    rw [Table.lookup_insert, if_neg differ]
    exact freed other
  · rintro _ ⟨⟩
    exact ⟨limited.countEvent_le flying, landed limited.single flying⟩

theorem Limited.clearFailures (thread : Nat) (clientIP : String) :
    Limited table { w with
      loginFailures := w.loginFailures.erase clientIP
      flights := w.flights.erase (thread, clientIP)
      windows := Function.update w.windows clientIP none } := by
  apply limited.land
  · rw [Table.lookup_erase, if_pos rfl]
    exact .inl rfl
  · intro other differ
    rw [Table.lookup_erase, if_neg differ]
    exact limited.shows other
  · rintro _ ⟨⟩

end

/-! ### Operations -/

/-- The flights of other threads stay in the air. -/
def KeepsFlights (thread : Nat) (w w' : World) : Prop :=
  ∀ other clientIP, other ≠ thread → (other, clientIP) ∈ w.flights → (other, clientIP) ∈ w'.flights

/-- A failure is recorded only by a login in flight. -/
def Op.InFlight (w : World) : Op → Prop
  | .recordFailure thread clientIP => (thread, clientIP) ∈ w.flights
  | _ => True

theorem keepsFlights_erase {other : Nat} {ip : String} (differ : other ≠ thread)
    (flying : (other, ip) ∈ flights) :
    (other, ip) ∈ flights.erase (thread, clientIP) :=
  (mem_erase_of_ne (by simp [differ])).mpr flying

theorem exec_limited {fate : Fate} {result : Res op} (before : Limited table w)
    (admitted : op.AloneWithRoom w) (own : op.Of thread) (flying : op.InFlight w)
    (done : exec env fate w op = some (result, w')) :
    Limited table w' ∧ KeepsFlights thread w w' := by
  have limited := before.tick fate.elapsed
  have sameFlights : KeepsFlights thread w (w.tick fate.elapsed) := fun _ _ _ inside => inside
  cases op with
  | rateLimitExceeded thread' clientIP =>
    cases done
    refine ⟨limited.rateLimitExceeded admitted, ?_⟩
    intro other ip _ inside
    simp only
    split
    · exact inside
    · exact mem_cons_of_mem _ inside
  | recordFailure thread' clientIP =>
    cases own
    cases done
    -- the room that was there is there when the clock is read
    have room := makeRoom_later (Grows.tick w fate.elapsed).clock admitted
    exact ⟨limited.recordFailure flying room,
      fun other ip differ inside => keepsFlights_erase differ inside⟩
  | clearFailures thread' clientIP =>
    cases own
    cases done
    exact ⟨limited.clearFailures _ clientIP,
      fun other ip differ inside => keepsFlights_erase differ inside⟩
  | reply thread' request answer =>
    cases own
    cases done
    constructor
    · refine limited.unmoved rfl rfl (Int.le_refl _) ?_
      dsimp only
      split
      · exact erase_sublist
      · exact List.Sublist.refl _
    · intro other ip differ inside
      dsimp only
      split
      · exact keepsFlights_erase differ inside
      · exact inside
  | _ =>
    cases exec_effect done with
    | counted counts => exact counts.elim
    | _ => exact ⟨limited.unmoved rfl rfl (Int.le_refl _) (List.Sublist.refl _), sameFlights⟩

theorem Op.Calm.of (calm : op.Calm thread) : op.Of thread := by
  cases op <;> first | exact calm | exact calm.elim

theorem Op.Calm.inFlight (calm : op.Calm thread) (w : World) :
    op.InFlight w := by
  cases op with
  | recordFailure thread' clientIP => exact calm.elim
  | _ => trivial

/-! ### The handlers -/

/-- A thread may rely on its own flight. -/
def flying (env : Env) (table : Table String RateLimitEntry) : (machine env).Protocol where
  admits w op := op.AloneWithRoom w
  inv := Limited table
  rely thread w w' := ∀ clientIP, (thread, clientIP) ∈ w.flights → (thread, clientIP) ∈ w'.flights
  guar := KeepsFlights
  knows _ _ _ := True

theorem flying_lawful (env : Env) (table : Table String RateLimitEntry) (thread : Nat) :
    ((flying env table).contract thread).Lawful where
  refl _ _ inside := inside
  trans _ _ _ first second clientIP inside := second clientIP (first clientIP inside)

variable {thread : Nat}

theorem wp_calm {α : Type} {p : Handler α} (only : p.Only (Op.Calm thread)) :
    p.wp (exec env) ((flying env table).contract thread) (fun _ _ => True) w := by
  have stable : ((flying env table).contract thread).Stable fun _ => True :=
    fun _ _ _ _ _ => trivial
  refine Prog.wp_only only stable trivial ?_
  intro w op limited _ admitted calm fate result w' done
  obtain ⟨kept, flights⟩ := exec_limited limited admitted calm.of (calm.inFlight w) done
  exact ⟨kept, flights, trivial⟩

theorem onCreds_flights {fate : Fate} {result : Res op} (onCreds : op.OnCreds)
    (done : exec env fate w op = some (result, w')) : w'.flights = w.flights := by
  cases exec_effect done with
  | counted counts => cases op <;> first | exact counts.elim | exact onCreds.elim
  | replied => exact onCreds.elim
  | _ => rfl

/-- Reading the credentials keeps a login in flight. -/
theorem wp_onCreds {α : Type} {p : Handler α} (only : p.Only Op.OnCreds)
    (holds : (thread, clientIP) ∈ w.flights) :
    p.wp (exec env) ((flying env table).contract thread)
      (fun _ w => (thread, clientIP) ∈ w.flights) w := by
  have stable : ((flying env table).contract thread).Stable
      fun w => (thread, clientIP) ∈ w.flights := fun _ _ kept _ => kept clientIP
  refine Prog.wp_only only stable holds ?_
  intro w op limited held admitted onCreds fate result w' done
  have calm := (onCreds.quiet thread).2
  obtain ⟨kept, flights⟩ := exec_limited limited admitted calm.of (calm.inFlight w) done
  refine ⟨kept, flights, ?_⟩
  rw [onCreds_flights onCreds done]
  exact held

theorem wp_handleLogin (clientIP : String) (body : Option AdminUpdate)
    (holds : (thread, clientIP) ∈ w.flights) :
    (handleLogin env thread clientIP body).wp (exec env) ((flying env table).contract thread)
      (fun _ _ => True) w := by
  unfold handleLogin
  cases body with
  | none => exact wp_calm (.ask (by rfl))
  | some login =>
    refine Prog.wp_seq (flying_lawful env table thread)
      (wp_onCreds (loadAdminCreds_only env) holds) ?_
    intro loaded w limited held
    cases loaded with
    | none => exact wp_calm (.ask (by rfl))
    | some creds =>
      have opens : (openSession thread (.login clientIP (some login)) clientIP login.username
          creds).Only (Op.Calm thread) :=
        (openSession_only thread _ clientIP login.username creds).mono fun _ quiet => quiet.2
      dsimp only
      split
      · split
        · exact wp_calm (.bind ((upgradeLegacyPassword_only creds login.password).mono
            fun _ onCreds => (onCreds.quiet thread).2) fun _ => opens)
        · exact wp_calm opens
      · -- the failure is recorded while the login is still in flight
        refine Prog.wp_ask fun w' kept limited admitted fate _ w'' done => ?_
        have own : (Op.recordFailure thread clientIP).Of thread := rfl
        obtain ⟨limited', flights⟩ :=
          exec_limited limited (by exact admitted) own (kept clientIP held) done
        exact ⟨limited', flights, wp_calm (.ask (by rfl))⟩

theorem wp_login (clientIP : String) (body : Option AdminUpdate) :
    (login env thread clientIP body).wp (exec env) ((flying env table).contract thread)
      (fun _ _ => True) w := by
  unfold login
  refine Prog.wp_ask fun w' _ limited admitted fate exceeded w'' done => ?_
  have own : (Op.rateLimitExceeded thread clientIP).Of thread := rfl
  obtain ⟨limited', flights⟩ :=
    exec_limited limited (by exact admitted) own (by trivial) done
  refine ⟨limited', flights, ?_⟩
  cases exceeded with
  | true => exact wp_calm (.ask (by rfl))
  | false =>
    refine wp_handleLogin clientIP body ?_
    simp only [exec, perform, Option.some.injEq, Prod.mk.injEq] at done
    obtain ⟨passed, rfl⟩ := done
    simp only [passed, Bool.false_eq_true, if_false]
    exact mem_cons_self

theorem isSessionExpired_only (jti : Jti) (maxIdle : Time) (thread : Nat) :
    (isSessionExpired jti maxIdle).Only (Op.Calm thread) := by
  unfold isSessionExpired
  refine .step (by trivial) fun loaded => ?_
  obtain ⟨entry, time⟩ := loaded
  cases entry with
  | none => exact .ret _
  | some seen => exact .step (by trivial) fun _ => .ret _

theorem requireAdminSession_only (thread : Nat) (request : Request) (token : Option Token) :
    (requireAdminSession thread request token).Only (Op.Calm thread) := by
  have refuse (text : String) : (do
      ask (.reply thread request (.error 401 text))
      return false : Handler Bool).Only (Op.Calm thread) :=
    .step (by rfl) fun _ => .ret _
  unfold requireAdminSession
  cases token with
  | none => exact refuse _
  | some token =>
    have verifies : (verifyJWT token).Only (Op.Calm thread) := by
      unfold verifyJWT
      refine .step (by trivial) fun key => ?_
      split
      · exact .step (by trivial) fun _ => .ret _
      · exact .ret _
    refine .bind verifies fun verified => ?_
    cases verified with
    | false => exact refuse _
    | true =>
      simp only [if_true, enforceSessionIdleTimeout]
      cases token.jti with
      | none => exact refuse _
      | some jti =>
        refine .bind (isSessionExpired_only jti _ thread) fun result => ?_
        obtain ⟨expired, time⟩ := result
        cases expired with
        | true => exact refuse _
        | false =>
          refine .step (by trivial) fun _ => ?_
          exact .step (by trivial) fun _ => .ret _

theorem handleUpdateAdmin_only (thread : Nat) (token : Option Token) (body : Option AdminUpdate) :
    (handleUpdateAdmin thread token body).Only (Op.Calm thread) := by
  have answer (reply : Reply) :
      (ask (.reply thread (.update token body) reply)).Only (Op.Calm thread) :=
    .ask (by rfl)
  unfold handleUpdateAdmin
  cases body with
  | none => exact answer _
  | some update =>
    dsimp only
    split
    · exact answer _
    refine .step (by trivial) fun result => ?_
    cases result with
    | error reason => exact answer _
    | ok change =>
      cases change with
      | none => exact .step (by trivial) fun _ => answer _
      | some key =>
        have drops (tracked : List Jti) : (deleteSessions tracked).Only (Op.Calm thread) := by
          induction tracked with
          | nil => exact .ret _
          | cons jti rest ih => exact .step (by trivial) fun _ => ih
        have swaps : (setJWTSecret key).Only (Op.Calm thread) :=
          .step (by trivial) fun _ =>
            .step (by trivial) fun tracked => drops tracked
        refine .bind swaps fun _ => ?_
        exact .step (by trivial) fun _ => answer _

theorem flying_sound (env : Env) (table : Table String RateLimitEntry) :
    (flying env table).Sound where
  lawful := flying_lawful env table
  stable _ _ _ _ _ _ _ := trivial
  compatible thread other w w' differ kept clientIP inside := kept other clientIP differ.symm inside
  body := by
    rintro thread request memory p w found -
    cases found
    cases request with
    | login clientIP body => exact wp_login clientIP body
    | update token body =>
      refine wp_calm (.bind (requireAdminSession_only thread _ token) fun proceeds => ?_)
      cases proceeds with
      | true => exact handleUpdateAdmin_only thread token body
      | false => exact .ret _
    | session token =>
      refine wp_calm (.bind (requireAdminSession_only thread _ token) fun proceeds => ?_)
      cases proceeds with
      | true => exact .ask (by rfl)
      | false => exact .ret _
  boot := by
    rintro w _ _ ⟨⟩
    exact ⟨⟨fun _ => .inl rfl, List.nodup_nil, nofun, nofun⟩, fun _ => trivial⟩

/-! ### The limit -/

/-- A server with some failures already in its table. -/
def World.startLimited (username password : Option String) (clock : Time)
    (table : Table String RateLimitEntry) : World :=
  { World.start username password clock with
    loginFailures := table
    windows := table.lookup }

/-- In every run in which the logins of one client do not overlap and the table has room, no
window of a client counts more wrong passwords than the limit, and a window that has reached
it rejects every further attempt until it closes. -/
theorem wrong_passwords_limited (env : Env) (username password : Option String) (clock : Time)
    (table : Table String RateLimitEntry) {labels : (machine env).Labels} {c : (machine env).State}
    (alone : (machine env).MeetsFrom (fun w op => op.AloneWithRoom w)
      (World.startLimited username password clock table) labels)
    (ran : (machine env).runFrom (World.startLimited username password clock table) labels =
      some c) :
    AttemptsLimited table c.shared := by
  have start : Limited table (World.startLimited username password clock table) :=
    ⟨fun _ => .inl rfl, nodup_nil, fun _ _ => .inr, by rintro _ _ _ _ ⟨⟩⟩
  have good : (flying env table).Good
      ((machine env).boot (World.startLimited username password clock table)) :=
    ⟨start, fun _ => trivial⟩
  exact (good.run (flying_sound env table) alone ran).inv.attemptsLimited

namespace Sample

def wrong : Request := .login "192.0.2.1" (some ⟨"admin", "guess"⟩)

/-- Six wrong passwords one after the other; the first one fills the cache. -/
def sixInTurn : List (Label Nat (fun _ => Request) Fate) :=
  serve 0 wrong 10 ++ serve 0 wrong 4 ++ serve 0 wrong 4 ++ serve 0 wrong 4 ++ serve 0 wrong 4 ++
    serve 0 wrong 2

/-- Six wrong passwords at once: all of them pass the check before the first is compared. -/
def sixAtOnce : List (Label Nat (fun _ => Request) Fate) :=
  ((List.range 6).flatMap fun thread => .enter thread wrong :: steps thread 1) ++ steps 0 9 ++
    (List.range 5).flatMap fun thread => steps (thread + 1) 3

end Sample

theorem sixth_attempt_rejected :
    ∃ c, (machine Sample.server).runFrom (World.startLimited (some "admin") (some "$2a$old") 0 {})
      Sample.sixInTurn = some c ∧
      (Sample.wrong, .error 429 "登录尝试过于频繁，请稍后再试") ∈ c.shared.replies ∧
      AttemptsLimited {} c.shared := by
  refine Machine.run_checked_and (by decide +kernel) fun c ran => ?_
  exact wrong_passwords_limited Sample.server (some "admin") (some "$2a$old") 0 {}
    (by decide +kernel) ran

/-- Six wrong passwords of one client are compared within one window. -/
theorem six_wrong_passwords_compared :
    ∃ c, (machine Sample.server).runFrom (World.startLimited (some "admin") (some "$2a$old") 0 {})
      Sample.sixAtOnce = some c ∧
      c.shared.replies =
        List.replicate 6 (Sample.wrong, .error 401 "用户名或密码错误") ∧
      c.shared.windows "192.0.2.1" = some ⟨6, 15 * minute⟩ ∧ loginFailureLimit = 5 :=
  Machine.run_checked (by decide +kernel)

end TrojanGo.Panel
