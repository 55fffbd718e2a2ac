import TrojanGo.Panel.Handlers

/-!
# What the panel's history records

Facts that hold along every run, whatever is interleaved.
-/
namespace TrojanGo.Panel

open Lib Prog List
open Master (Time)

/-- The password change with number `n` set this password. -/
def World.Changed (w : World) (n : Nat) (password : String) : Prop :=
  ∃ earlier, password :: earlier <:+ w.changes ∧ earlier.length + 1 = n

theorem World.Changed.le {w : World} {n : Nat} {password : String} (changed : w.Changed n password) :
    n ≤ w.changes.length := by
  obtain ⟨earlier, made, rfl⟩ := changed
  exact made.length_le

/-- What the answer to an update stands for. -/
def Confirms (w : World) : Request → Reply → Prop
  | .update _ body, .updated (some n) =>
    ∃ update ∈ body, w.Changed n update.password ∧ n ∈ w.installed
  | _, _ => True

/-- A lookup of the session found it not idle for too long. -/
def Admitting (events : List Event) (jti : Jti) (time : Time) : Prop :=
  ∃ entry, .looked jti time entry ∈ events ∧ ∀ seen ∈ entry, time - seen ≤ sessionIdleTimeout

structure Recorded (w : World) : Prop where
  /-- every key that was put in force was drawn by a committed change -/
  drawn : ∀ key ∈ w.installed, key ≤ w.changes.length
  replies : ∀ request answer, (request, answer) ∈ w.replies → Confirms w request answer
  accepted : ∀ jti time later earlier, w.events = later ++ .accepted jti time :: earlier →
    Admitting earlier jti time

/-- Nothing of the history is lost. -/
structure Grows (w w' : World) : Prop where
  changes : w.changes <:+ w'.changes
  installed : w.installed <:+ w'.installed
  events : w.events <:+ w'.events
  clock : w.clock ≤ w'.clock

variable {env : Env} {w w' w'' : World}

theorem Grows.refl (w : World) : Grows w w :=
  ⟨suffix_refl _, suffix_refl _, suffix_refl _, Int.le_refl _⟩

theorem Grows.trans (first : Grows w w') (second : Grows w' w'') : Grows w w'' :=
  ⟨first.changes.trans second.changes, first.installed.trans second.installed,
    first.events.trans second.events, Int.le_trans first.clock second.clock⟩

theorem Grows.tick (w : World) (elapsed : Nat) : Grows w (w.tick elapsed) :=
  ⟨suffix_refl _, suffix_refl _, suffix_refl _, by simp only [World.tick]; grind⟩

variable {fate : Fate}

/-- An update's transaction is committed as a whole or leaves the state as it was. -/
theorem updateCredentials_cases {bcrypt : Bcrypt} {update : AdminUpdate}
    {result : Except String (Option Key)}
    (updated : w.updateCredentials bcrypt fate update = (result, w')) :
    (w' = w.commitUpdate bcrypt fate.salt update ∧
      (∀ value, result = .ok value →
        value = if update.password ≠ "" then some w'.storedKey else none)) ∨
    (w' = w ∧ ∃ reason, result = .error reason) := by
  unfold World.updateCredentials at updated
  dsimp only at updated
  split at updated
  · grind
  · grind

variable {op : Op} {result : Res op}

/-- The operation is about login failures. -/
def Op.Counts : Op → Prop
  | .rateLimitExceeded _ _ | .recordFailure _ _ | .clearFailures _ _ => True
  | _ => False

/-- What an operation makes of the state. The user name, the cache with its lock and the number of
the next session are no part of the history. -/
inductive Effect (env : Env) (w : World) : Op → World → Prop where
  | other {op : Op} (username : Option String) (cache : Option Creds) (credMu : Bool)
      (nextJti : Jti) : Effect env w op { w with username, cache, credMu, nextJti }
  | upgrade (hash : String) (change : Nat) :
      Effect env w (.upgradePassword hash change) { w with password := some ⟨hash, change⟩ }
  | change (update : AdminUpdate) (username : Option String) (salt : String) :
      Effect env w (.updateCredentials update) { w with
        username
        password := some ⟨env.bcrypt.hash salt update.password, w.changes.length + 1⟩
        storedKey := w.changes.length + 1
        changes := update.password :: w.changes }
  | sign (user : String) (jti : Jti) (exp : Time) (change : Nat) :
      Effect env w (.sign user jti exp change)
        { w with issued := ⟨w.key, user, some jti, exp, change⟩ :: w.issued }
  | install (key : Key) :
      Effect env w (.setSigningKey key) { w with key := key, installed := key :: w.installed }
  | delete (jti : Jti) :
      Effect env w (.deleteSession jti) { w with sessions := w.sessions.erase jti }
  | active (jti : Jti) : Effect env w (.storeActivity jti) { w with
      sessions := w.sessions.insert jti w.clock
      events := .active jti w.clock :: w.events }
  | looked (jti : Jti) : Effect env w (.loadActivity jti)
      { w with events := .looked jti w.clock (w.sessions.lookup jti) :: w.events }
  | accepted (jti : Jti) (time : Time) :
      Effect env w (.accept jti time) { w with events := .accepted jti time :: w.events }
  | counted {op : Op} (counts : op.Counts) (loginFailures : Table String RateLimitEntry)
      (flights : List (Nat × String)) (windows : String → Option RateLimitEntry) :
      Effect env w op { w with loginFailures, flights, windows }
  | replied (thread : Nat) (request : Request) (answer : Reply) (flights : List (Nat × String)) :
      Effect env w (.reply thread request answer)
        { w with flights, replies := (request, answer) :: w.replies }

theorem perform_effect (performed : perform env fate w op = some (result, w')) :
    Effect env w op w' := by
  cases op with
  | readCache | lockCreds | invalidateCache =>
    simp only [perform] at performed
    split at performed <;> cases performed
    constructor
  | upgradePassword hash change =>
    simp only [perform, Option.some.injEq, Prod.mk.injEq] at performed
    obtain ⟨-, rfl⟩ := performed
    split
    · exact .upgrade hash change
    · constructor
  | updateCredentials update =>
    simp only [perform, Option.some.injEq] at performed
    rcases updateCredentials_cases performed with ⟨rfl, -⟩ | ⟨rfl, -⟩
    · unfold World.commitUpdate
      dsimp only
      split <;> split <;> constructor
    · constructor
  | _ =>
    cases performed
    constructor
    all_goals trivial

theorem exec_effect (done : exec env fate w op = some (result, w')) :
    Effect env (w.tick fate.elapsed) op w' :=
  perform_effect done

theorem Effect.grows (effect : Effect env w op w') : Grows w w' := by
  cases effect with
  | change => exact ⟨suffix_cons _ _, suffix_refl _, suffix_refl _, Int.le_refl _⟩
  | install => exact ⟨suffix_refl _, suffix_cons _ _, suffix_refl _, Int.le_refl _⟩
  | active | looked | accepted =>
    exact ⟨suffix_refl _, suffix_refl _, suffix_cons _ _, Int.le_refl _⟩
  | _ => exact ⟨suffix_refl _, suffix_refl _, suffix_refl _, Int.le_refl _⟩

theorem exec_grows (done : exec env fate w op = some (result, w')) : Grows w w' :=
  (Grows.tick w fate.elapsed).trans (exec_effect done).grows

/-! ### The invariant -/

/-- The operation records nothing that is not so. -/
def Op.Justified (w : World) : Op → Prop
  | .reply _ request answer => Confirms w request answer
  | .accept jti time => Admitting w.events jti time
  | .setSigningKey key => key ≤ w.changes.length
  | _ => True

theorem Confirms.mono {request : Request} {answer : Reply} (grown : Grows w w')
    (holds : Confirms w request answer) : Confirms w' request answer := by
  unfold Confirms at holds ⊢
  split at holds
  next token body n =>
    obtain ⟨update, decoded, ⟨earlier, made, number⟩, installed⟩ := holds
    exact ⟨update, decoded, ⟨earlier, made.trans grown.changes, number⟩,
      grown.installed.subset installed⟩
  · trivial

theorem Admitting.mono {events events' : List Event} {jti : Jti} {time : Time}
    (grown : events <:+ events') (holds : Admitting events jti time) :
    Admitting events' jti time := by
  obtain ⟨entry, looked, recent⟩ := holds
  exact ⟨entry, grown.subset looked, recent⟩

/-- The keys an operation puts in force, the events it adds and the replies it gives. -/
theorem Effect.records (justified : op.Justified w) (effect : Effect env w op w') :
    (∀ key ∈ w'.installed, key ∈ w.installed ∨ key ≤ w.changes.length) ∧
    (w'.events = w.events ∨ ∃ event, w'.events = event :: w.events ∧
      ∀ jti time, event = .accepted jti time → Admitting w.events jti time) ∧
    ∀ request answer, (request, answer) ∈ w'.replies →
      (request, answer) ∈ w.replies ∨ Confirms w request answer := by
  cases effect with
  | install key =>
    refine ⟨?_, .inl rfl, fun _ _ => .inl⟩
    intro key' mem
    rcases mem_cons.mp mem with rfl | old
    · exact .inr justified
    · exact .inl old
  | active | looked =>
    exact ⟨fun _ => .inl, .inr ⟨_, rfl, fun _ _ same => by cases same⟩, fun _ _ => .inl⟩
  | accepted =>
    refine ⟨fun _ => .inl, .inr ⟨_, rfl, ?_⟩, fun _ _ => .inl⟩
    rintro _ _ ⟨⟩
    exact justified
  | replied =>
    refine ⟨fun _ => .inl, .inl rfl, ?_⟩
    intro request' answer' mem
    rcases mem_cons.mp mem with same | old
    · cases same
      exact .inr justified
    · exact .inl old
  | _ => exact ⟨fun _ => .inl, .inl rfl, fun _ _ => .inl⟩

theorem Recorded.exec (recorded : Recorded w) (justified : op.Justified w)
    (done : exec env fate w op = some (result, w')) :
    Recorded w' := by
  have grown := exec_grows done
  have same : op.Justified (w.tick fate.elapsed) := by cases op <;> exact justified
  obtain ⟨keys, events, replies⟩ := (exec_effect done).records same
  constructor
  · intro key mem
    have enough : key ≤ w.changes.length := by
      rcases keys key mem with old | new
      · exact recorded.drawn key old
      · exact new
    exact Nat.le_trans enough grown.changes.length_le
  · intro request answer mem
    rcases replies request answer mem with old | new
    · exact (recorded.replies request answer old).mono grown
    · exact new.mono (exec_effect done).grows
  · intro jti time later earlier split
    rcases events with kept | ⟨event, added, admitted⟩
    · exact recorded.accepted jti time later earlier (by rw [← split, kept]; rfl)
    · rw [added] at split
      cases later with
      | nil => grind
      | cons first later =>
        obtain ⟨-, rest⟩ := cons.inj split
        exact recorded.accepted jti time later earlier rest

/-! ### The handlers -/

def history (env : Env) : (machine env).Protocol where
  admits _ _ := True
  inv := Recorded
  rely _ := Grows
  guar _ := Grows
  knows _ _ _ := True

abbrev terms (env : Env) : Contract World Op := (history env).contract 0

theorem terms_lawful (env : Env) : (terms env).Lawful :=
  ⟨Grows.refl, fun _ _ _ => Grows.trans⟩

/-- Operations that record neither a password change nor its key nor an accepted request. -/
def Op.Plain : Op → Prop
  | .reply _ _ (.updated (some _)) => False
  | .accept _ _ | .setSigningKey _ => False
  | _ => True

theorem Op.Plain.justified (plain : op.Plain) (w : World) : op.Justified w := by
  cases op with
  | reply thread request answer =>
    cases request with
    | update token body =>
      cases answer with
      | updated change =>
        cases change with
        | none => trivial
        | some n => exact plain.elim
      | _ => trivial
    | _ => trivial
  | accept | setSigningKey => exact plain.elim
  | _ => trivial

variable {α : Type}

theorem wp_plain {p : Handler α} (only : p.Only Op.Plain) :
    p.wp (exec env) (terms env) (fun _ _ => True) w := by
  have stable : (terms env).Stable fun _ => True := fun _ _ _ _ _ => trivial
  refine wp_only only stable trivial ?_
  intro w op recorded _ _ plain fate result w' done
  exact ⟨recorded.exec (plain.justified w) done, exec_grows done, trivial⟩

/-- An assertion about the history that later events keep. -/
def Lasting (known : World → Prop) : Prop := ∀ w w', Grows w w' → known w → known w'

theorem lasting_true : Lasting fun _ => True := fun _ _ _ _ => trivial

variable {known : World → Prop}

section

variable (lasting : Lasting known) (holds : known w)

include lasting holds

/-- One operation of a handler under a lasting assertion. -/
theorem wp_note {next : Res op → Handler α} {post : α → World → Prop}
    (justified : ∀ w, known w → op.Justified w)
    (onward : ∀ w fate result w', known w → known w' → exec env fate w op = some (result, w') →
      (next result).wp (exec env) (terms env) post w') :
    (ask op >>= next).wp (exec env) (terms env) post w := by
  refine wp_op (fun w w' grown _ => lasting w w' grown) holds ?_
  intro w recorded known _ fate result w' done
  have grown := exec_grows done
  exact ⟨recorded.exec (justified w known) done, grown,
    onward w fate result w' known (lasting w w' grown known) done⟩

theorem wp_endNote (justified : ∀ w, known w → op.Justified w) :
    (ask op).wp (exec env) (terms env) (fun _ _ => True) w := by
  intro w' grown recorded _ fate result w'' done
  exact ⟨recorded.exec (justified w' (lasting w w' grown holds)) done, exec_grows done,
    fun _ _ _ => trivial⟩

theorem wp_close {value : α} {post : α → World → Prop} (ends : ∀ w, known w → post value w) :
    (pure value : Handler α).wp (exec env) (terms env) post w := by
  have stable : (terms env).Stable known := fun w w' grown _ => lasting w w' grown
  exact wp_return stable holds fun w _ => ends w

end

/-- Operations of a thread that neither record nor claim anything. -/
def Op.Quiet (thread : Nat) (op : Op) : Prop := op.Plain ∧ op.Calm thread

/-- Operations on the credentials and their cache. -/
def Op.OnCreds : Op → Prop
  | .readCache | .lockCreds | .lockedCache | .adminUsername | .adminPassword | .setCache _
  | .unlockCreds | .invalidateCache | .hashPassword _ | .upgradePassword _ _ => True
  | _ => False

theorem Op.OnCreds.quiet (onCreds : op.OnCreds) (thread : Nat) : op.Quiet thread := by
  cases op <;> first | exact onCreds.elim | constructor <;> trivial

theorem loadAdminCreds_only (env : Env) : (loadAdminCreds env).Only Op.OnCreds := by
  unfold loadAdminCreds
  refine .step (by trivial) fun cached => ?_
  cases cached with
  | some creds => exact .ret _
  | none =>
    refine .step (by trivial) fun _ => ?_
    refine .step (by trivial) fun cached => ?_
    cases cached with
    | some creds => exact .step (by trivial) fun _ => .ret _
    | none =>
      refine .step (by trivial) fun user => ?_
      cases user with
      | none => exact .step (by trivial) fun _ => .ret _
      | some user =>
        refine .step (by trivial) fun pass => ?_
        cases pass with
        | none => exact .step (by trivial) fun _ => .ret _
        | some pass =>
          refine .step (by trivial) fun _ => ?_
          exact .step (by trivial) fun _ => .ret _

theorem upgradeLegacyPassword_only (creds : Creds) (password : String) :
    (upgradeLegacyPassword creds password).Only Op.OnCreds := by
  grind [upgradeLegacyPassword, Op.OnCreds]

theorem openSession_only (thread : Nat) (request : Request) (clientIP user : String)
    (creds : Creds) : (openSession thread request clientIP user creds).Only (Op.Quiet thread) := by
  unfold openSession
  refine .step (by constructor <;> trivial) fun _ => ?_
  refine .step (by constructor <;> trivial) fun jti => ?_
  cases jti with
  | none => exact .ask (by constructor <;> trivial)
  | some jti =>
    refine .step (by constructor <;> trivial) fun now => ?_
    refine .step (by constructor <;> trivial) fun token => ?_
    refine .step (by constructor <;> trivial) fun _ => ?_
    exact .ask (by constructor <;> trivial)

theorem handleLogin_only (env : Env) (thread : Nat) (clientIP : String)
    (body : Option AdminUpdate) : (handleLogin env thread clientIP body).Only Op.Plain := by
  unfold handleLogin
  cases body with
  | none => exact .ask (by trivial)
  | some login =>
    have creds : ∀ op : Op, op.OnCreds → op.Plain := fun _ onCreds => (onCreds.quiet thread).1
    refine .bind ((loadAdminCreds_only env).mono creds) fun loaded => ?_
    cases loaded with
    | none => exact .ask (by trivial)
    | some loaded =>
      have opens : (openSession thread (.login clientIP (some login)) clientIP login.username
          loaded).Only Op.Plain :=
        (openSession_only thread _ clientIP login.username loaded).mono fun _ quiet => quiet.1
      dsimp only
      split
      · split
        · exact .bind
            ((upgradeLegacyPassword_only loaded login.password).mono creds) fun _ => opens
        · exact opens
      · refine .step (by trivial) fun _ => ?_
        exact .ask (by trivial)

theorem login_only (env : Env) (thread : Nat) (clientIP : String) (body : Option AdminUpdate) :
    (login env thread clientIP body).Only Op.Plain := by
  unfold login
  refine .step (by trivial) fun limited => ?_
  cases limited with
  | true => exact .ask (by trivial)
  | false => exact handleLogin_only env thread clientIP body

theorem deleteSessions_only (tracked : List Jti) : (deleteSessions tracked).Only Op.Plain := by
  induction tracked with
  | nil => exact .ret _
  | cons jti rest ih => exact .step (by trivial) fun _ => ih

theorem lasting_admitting (jti : Jti) (time : Time) :
    Lasting fun w => Admitting w.events jti time :=
  fun _ _ grown held => held.mono grown.events

/-- A lookup that does not call the session expired found no entry or a recent one. -/
theorem wp_isSessionExpired (jti : Jti) :
    (isSessionExpired jti sessionIdleTimeout).wp (exec env) (terms env)
      (fun result w => result.1 = false → Admitting w.events jti result.2) w := by
  unfold isSessionExpired
  refine wp_note lasting_true trivial (fun _ _ => trivial) ?_
  intro w fate loaded w' _ _ done
  obtain ⟨entry, time⟩ := loaded
  have looked : .looked jti time entry ∈ w'.events ∧ time ≤ w'.clock := by
    cases done
    exact ⟨mem_cons_self, Int.le_refl _⟩
  cases entry with
  | none =>
    refine wp_close (lasting_admitting jti time) ?_ fun _ held _ => held
    exact ⟨none, looked.1, by simp⟩
  | some seen =>
    have lasting : Lasting fun w => .looked jti time (some seen) ∈ w.events ∧ time ≤ w.clock :=
      fun _ _ grown held =>
        ⟨grown.events.subset held.1, Int.le_trans held.2 grown.clock⟩
    refine wp_note lasting looked (fun _ _ => trivial) ?_
    intro w fate now w' before after done
    have later : time ≤ now := by
      obtain ⟨rfl, -⟩ := Prod.mk.inj (Option.some.inj done)
      simp only [World.tick]
      have earlier := before.2
      grind
    refine wp_close lasting after ?_
    intro w held fresh
    refine ⟨some seen, held.1, ?_⟩
    rintro _ ⟨⟩
    simp only [decide_eq_false_iff_not] at fresh
    grind

theorem wp_enforceSessionIdleTimeout (thread : Nat) (request : Request) (token : Token) :
    (enforceSessionIdleTimeout thread request token).wp (exec env) (terms env)
      (fun _ _ => True) w := by
  unfold enforceSessionIdleTimeout
  cases token.jti with
  | none =>
    exact wp_plain (.step (by trivial) fun _ => .ret _)
  | some jti =>
    refine wp_seq (terms_lawful env) (wp_isSessionExpired jti) ?_
    rintro ⟨expired, time⟩ w _ admitting
    cases expired with
    | true =>
      exact wp_plain (.step (by trivial) fun _ => .ret _)
    | false =>
      refine wp_note (lasting_admitting jti time) (admitting rfl) (fun _ held => held) ?_
      intro w fate _ w' _ _ _
      exact wp_plain (.step (by trivial) fun _ => .ret _)

theorem wp_requireAdminSession (thread : Nat) (request : Request) (token : Option Token) :
    (requireAdminSession thread request token).wp (exec env) (terms env) (fun _ _ => True) w := by
  unfold requireAdminSession
  cases token with
  | none =>
    exact wp_plain (.step (by trivial) fun _ => .ret _)
  | some token =>
    refine wp_seq (terms_lawful env) (wp_plain (by grind [verifyJWT, Only, Op.Plain])) ?_
    intro verified w _ _
    cases verified with
    | true => exact wp_enforceSessionIdleTimeout thread request token
    | false =>
      exact wp_plain (.step (by trivial) fun _ => .ret _)

theorem updateCredentials_changed {update : AdminUpdate} {key : Key}
    (done : exec env fate w (.updateCredentials update) = some (.ok (some key), w')) :
    w'.Changed key update.password := by
  simp only [exec, perform, Option.some.injEq] at done
  rcases updateCredentials_cases done with ⟨rfl, value⟩ | ⟨-, reason, failed⟩
  · have named := value (some key) rfl
    split at named
    next changed =>
      cases named
      refine ⟨w.changes, ?_, ?_⟩
      · simp only [World.commitUpdate, if_pos changed]
        exact suffix_refl _
      · simp only [World.commitUpdate, if_pos changed]
        rfl
    · cases named
  · cases failed

theorem wp_setJWTSecret {key : Key} (lasting : Lasting known) (holds : known w)
    (drawn : ∀ w, known w → key ≤ w.changes.length) :
    (setJWTSecret key).wp (exec env) (terms env) (fun _ w => known w ∧ key ∈ w.installed) w := by
  unfold setJWTSecret
  have both : Lasting fun w => known w ∧ key ∈ w.installed :=
    fun w w' grown held => ⟨lasting w w' grown held.1, grown.installed.subset held.2⟩
  refine wp_note lasting holds drawn ?_
  intro w fate _ w' _ held done
  have inForce : key ∈ w'.installed := by
    cases done
    exact mem_cons_self
  refine wp_note both ⟨held, inForce⟩ (fun _ _ => trivial) ?_
  intro w fate tracked w' _ held _
  have stable : (terms env).Stable fun w => known w ∧ key ∈ w.installed :=
    fun w w' grown _ => both w w' grown
  refine wp_only (deleteSessions_only tracked) stable held ?_
  intro w op recorded held _ plain fate result w' done
  have grown := exec_grows done
  exact ⟨recorded.exec (plain.justified w) done, grown, both w w' grown held⟩

section

variable (thread : Nat) (token : Option Token)

include thread token

/-- A committed password change is confirmed only after its key was put in force. -/
theorem wp_handleUpdateAdmin (body : Option AdminUpdate) :
    (handleUpdateAdmin thread token body).wp (exec env) (terms env) (fun _ _ => True) w := by
  unfold handleUpdateAdmin
  cases body with
  | none => exact wp_plain (.ask (by trivial))
  | some update =>
    dsimp only
    split
    · exact wp_plain (.ask (by trivial))
    refine wp_note lasting_true trivial (fun _ _ => trivial) ?_
    intro w fate result w' _ _ done
    cases result with
    | error reason => exact wp_plain (.ask (by trivial))
    | ok change =>
      cases change with
      | none =>
        exact wp_plain (.step (by trivial) fun _ =>
          .ask (by trivial))
      | some key =>
        have changed := updateCredentials_changed done
        have lasting : Lasting fun w => w.Changed key update.password := by
          rintro w w' grown ⟨earlier, made, number⟩
          exact ⟨earlier, made.trans grown.changes, number⟩
        refine wp_seq (terms_lawful env) (wp_setJWTSecret lasting changed
          fun _ => World.Changed.le) ?_
        intro _ w _ inForce
        have both : Lasting fun w => w.Changed key update.password ∧ key ∈ w.installed :=
          fun w w' grown held => ⟨lasting w w' grown held.1, grown.installed.subset held.2⟩
        refine wp_note both inForce (fun _ _ => trivial) ?_
        intro w fate _ w' _ held _
        refine wp_endNote both held ?_
        exact fun w held => ⟨update, rfl, held.1, held.2⟩

theorem wp_session :
    (session thread token).wp (exec env) (terms env) (fun _ _ => True) w := by
  unfold session
  refine wp_seq (terms_lawful env) (wp_requireAdminSession thread _ token) ?_
  intro proceeds w _ _
  cases proceeds with
  | true => exact wp_plain (.ask (by trivial))
  | false => exact wp_plain (.ret _)

theorem wp_update (body : Option AdminUpdate) :
    (update thread token body).wp (exec env) (terms env) (fun _ _ => True) w := by
  unfold update
  refine wp_seq (terms_lawful env) (wp_requireAdminSession thread _ token) ?_
  intro proceeds w _ _
  cases proceeds with
  | true => exact wp_handleUpdateAdmin thread token body
  | false => exact wp_plain (.ret _)

end

theorem Recorded.restart (recorded : Recorded w) : Recorded w.restart where
  drawn := recorded.drawn
  replies := recorded.replies
  accepted := recorded.accepted

theorem history_sound (env : Env) : (history env).Sound where
  lawful _ := terms_lawful env
  stable _ _ _ _ _ _ _ := trivial
  compatible _ _ _ _ _ grown := grown
  body := by
    rintro i request memory p w found -
    cases found
    cases request with
    | login clientIP body => exact wp_plain (login_only env i clientIP body)
    | update token body => exact wp_update i token body
    | session token => exact wp_session i token
  boot := by
    rintro w _ recorded ⟨⟩
    exact ⟨recorded.restart, fun _ => trivial⟩

theorem Recorded.start (username password : Option String) (clock : Time) :
    Recorded (World.start username password clock) where
  drawn := by rintro _ ⟨⟩
  replies := by rintro _ _ ⟨⟩
  accepted := by
    intro jti time later earlier split
    exact absurd split.symm (by simp [World.start])

/-- Every run starts with a true history, which an assertion on the state can rely on. -/
theorem history_start (env : Env) (username password : Option String) (clock : Time) :
    (history env).Good ((machine env).boot (World.start username password clock)) :=
  ⟨Recorded.start username password clock, fun _ => trivial⟩

end TrojanGo.Panel
