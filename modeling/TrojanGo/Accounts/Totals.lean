import TrojanGo.Accounts.Rows
import TrojanGo.Lib.Sequential

/-!
# Exact counters

The counters of a user are the sums of the traffic in the accepted batches since the last reset.
Batches carry words of 64 bits, increments and columns are signed, and the guards against
overflow are spread over both.
-/
namespace TrojanGo.Accounts

open Lib Master Database List

/-! ### One batch -/

/-- The increment of a report at rate one. -/
def unscaled (t : Traffic) : TrafficIncrement := ⟨t.up, t.down, t.up + t.down⟩

@[simp] theorem unscaled_zero : unscaled 0 = 0 := rfl

theorem unscaled_add (s t : Traffic) : unscaled (s + t) = unscaled s + unscaled t := by
  ext <;> simp only [unscaled, Traffic.add_up, Traffic.add_down, TrafficIncrement.add_upload,
    TrafficIncrement.add_download, TrafficIncrement.add_used] <;> omega

theorem newTrafficIncrement_one {up down : Nat} {increment : TrafficIncrement}
    (made : newTrafficIncrement up down (.ofNat 1) = .ok increment) :
    increment = unscaled ⟨up, down⟩ ∧ up + down ≤ maxTrafficCounter := by
  have valid : validateTrafficRate (.ofNat 1) = .ok () := by decide
  have one : (Binary64.ofNat 1).eqNat 1 = true := by decide
  simp only [newTrafficIncrement, bind, Except.bind, pure, Except.pure, throw, throwThe,
    MonadExceptOf.throw, valid, one, if_true] at made
  split at made
  · cases made
  split at made
  · cases made
  split at made
  · cases made
  next largeUp largeDown largeTotal =>
    cases made
    exact ⟨rfl, by omega⟩

/-- What a batch reports for a user; an unnamed user is passed over. -/
def amount (traffic : TrafficMap) (hash : String) : Traffic :=
  if hash = "" then 0 else (traffic.lookup hash).getD 0

variable {entries : List (Σ _ : String, Traffic)}

variable {increments : Increments} {db : Db} {fingerprint : String → String}

theorem trafficIncrements_one (made : trafficIncrements (.ofNat 1) entries = .ok increments) :
    increments = entries.map (fun e => (e.1, unscaled e.2)) ∧
      ∀ e ∈ entries, e.2.up + e.2.down ≤ maxTrafficCounter := by
  induction entries generalizing increments with
  | nil =>
    cases made
    simp
  | cons first rest ih =>
    simp only [trafficIncrements, bind, Except.bind] at made
    split at made
    · cases made
    next head accepted =>
      split at made
      · cases made
      next others remaining =>
        cases made
        obtain ⟨rfl, fits⟩ := newTrafficIncrement_one accepted
        obtain ⟨rfl, rest⟩ := ih remaining
        exact ⟨rfl, forall_mem_cons.mpr ⟨fits, rest⟩⟩

/-- The keys of a batch are distinct, so at most one entry counts for a user. -/
theorem shareOf_entries (keys : entries.NodupKeys) (u : User) :
    Increments.shareOf ((entries.filter fun e => e.1 ≠ "").map fun e => (e.1, unscaled e.2)) u =
      unscaled (if u.hash = "" then 0 else (entries.dlookup u.hash).getD 0) := by
  induction entries with
  | nil => simp [Increments.shareOf]
  | cons entry entries ih =>
    obtain ⟨hash, t⟩ := entry
    obtain ⟨new, keys⟩ := nodupKeys_cons.mp keys
    have rest := ih keys
    by_cases unnamed : hash = ""
    · grind
    · rw [filter_cons_of_pos (by simpa using unnamed), map_cons, Increments.shareOf,
        map_cons, sum_cons]
      rw [Increments.shareOf] at rest
      rw [rest]
      by_cases same : u.hash = hash
      · -- no later entry has this key
        subst same
        have absent : entries.dlookup u.hash = none := dlookup_eq_none.mpr new
        simp [share, unnamed, absent]
      · rw [dlookup_cons_ne _ _ same]
        simp [share, same]

variable {traffic : TrafficMap}

/-! ### Rows -/

/-- What the counters of a row satisfy. -/
structure Sound (u : User) : Prop where
  upload : 0 ≤ u.upload
  download : 0 ≤ u.download
  used : u.used = u.upload + u.download
  bounded : u.used ≤ maxTrafficCounter

theorem Sound.credit {u : User} (sound : Sound u) {t : Traffic}
    (room : u.used + (t.up + t.down) ≤ maxTrafficCounter) : Sound (u.credit (unscaled t)) := by
  obtain ⟨upload, download, used, -⟩ := sound
  constructor <;> simp only [User.credit, unscaled] <;> omega

variable {db' : Db}

/-- The guards leave room for what they let through. -/
theorem persistTrafficIncrement_sound {hash : String} {t : Traffic}
    (sound : ∀ u ∈ db.users, Sound u)
    (persisted : persistTrafficIncrement hash (unscaled t) db = .ok ((), db')) :
    ∀ u ∈ db'.users, Sound u := by
  simp only [persistTrafficIncrement] at persisted
  split at persisted
  · cases persisted
    exact sound
  split at persisted
  · cases persisted
    intro u mem
    obtain ⟨old, inside, rfl⟩ := mem_map.mp mem
    unfold creditRow
    split
    next accepted =>
      have room := accepted.2
      simp only [User.accepts, decide_eq_true_eq] at room
      apply (sound old inside).credit
      have used := room.2.2.2
      simp only [unscaled] at used
      omega
    · exact sound old inside
  split at persisted
  · cases persisted
    exact sound
  · cases persisted

theorem persistTrafficIncrements_sound (sound : ∀ u ∈ db.users, Sound u)
    (persisted : persistTrafficIncrements (entries.map fun e => (e.1, unscaled e.2)) db =
      .ok ((), db')) : ∀ u ∈ db'.users, Sound u := by
  induction entries generalizing db with
  | nil =>
    cases persisted
    exact sound
  | cons entry entries ih =>
    obtain ⟨_, mid, first, rest⟩ := Tx.bind_ok persisted
    exact ih (persistTrafficIncrement_sound sound first) rest

/-! ### One transaction -/

/-- A value of the batch is too large: for a counter as such, or for the row of its user. -/
def Overflows (traffic : TrafficMap) (users : List User) : Prop :=
  ∃ hash t, hash ≠ "" ∧ traffic.lookup hash = some t ∧
    (maxTrafficCounter < t.up + t.down ∨ ∃ u ∈ users, u.hash = hash ∧
      (maxTrafficCounter < u.upload + t.up ∨ maxTrafficCounter < u.download + t.down ∨
        maxTrafficCounter < u.used + (t.up + t.down)))

/-- The batch is new and all of it is stored. -/
structure Takes (db db' : Db) (syncID : String) (traffic : TrafficMap) : Prop where
  fresh : (.dataPlane, syncID) ∉ db.receipts
  receipts : db'.receipts.Perm ((.dataPlane, syncID) :: db.receipts)
  fits : ∀ e ∈ named traffic, e.2.up + e.2.down ≤ maxTrafficCounter
  users : db'.users = db.users.map fun u => u.credit (unscaled (amount traffic u.hash))
  sound : (∀ u ∈ db.users, Sound u) → ∀ u ∈ db'.users, Sound u

variable {syncID : String}

theorem dataPlaneTrafficTx_ok {now : Time}
    (committed : dataPlaneTrafficTx now syncID traffic db = .ok ((), db')) :
    db' = db ∨ Takes db db' syncID traffic := by
  have creates := createsReceipt_dataPlane now syncID
  rcases accountBatch_ok creates committed with ⟨-, same⟩ | ⟨increments, adds⟩
  · exact .inl same
  obtain ⟨mid, users, persisted⟩ := adds.stored
  obtain ⟨listed, fits⟩ := trafficIncrements_one adds.converted
  refine .inr ⟨adds.fresh, adds.receipts, fits, ?_, ?_⟩
  · rw [adds.users, listed]
    exact congrArg (map · db.users) (funext fun u => congrArg u.credit
      (shareOf_entries traffic.nodupKeys u))
  · intro sound
    rw [← users] at sound
    rw [listed] at persisted
    exact persistTrafficIncrements_sound sound persisted

/-- A batch that is stored has no value that is too large. -/
theorem Takes.no_overflow (takes : Takes db db' syncID traffic) (sound : ∀ u ∈ db.users, Sound u) :
    ¬ Overflows traffic db.users := by
  rintro ⟨hash, t, unnamed, reported, large⟩
  have entry : ⟨hash, t⟩ ∈ named traffic := by
    apply mem_filter.mpr
    exact ⟨AList.mem_lookup_iff.mp reported, by simpa using unnamed⟩
  rcases large with large | ⟨u, mem, rfl, large⟩
  · exact absurd (takes.fits _ entry) (by simpa using large)
  have after : u.credit (unscaled t) ∈ db'.users := by
    rw [takes.users]
    apply mem_map.mpr
    exact ⟨u, mem, by simp [amount, unnamed, reported]⟩
  obtain ⟨upload, download, used, bounded⟩ := takes.sound sound _ after
  have before := sound u mem
  have := before.upload
  have := before.download
  simp only [User.credit, unscaled] at upload download used bounded
  omega

/-! ### One call -/

inductive Round where
  | batch (request : DataPlaneRequest)
  | reset

def Round.call : Round → Call
  | .batch request => .master (.request (.dataPlaneTraffic request))
  | .reset => .resetTraffic

theorem lift_run {α : Type} (env : Env) (handler : Master.Handler α) (fates : List Fate)
    (w : World) :
    ((lift handler).run (exec env) fates w).2 = { w with master :=
      (handler.run (Master.exec env.fingerprint) (fates.map Fate.toFate) w.master).2 } := by
  induction handler generalizing fates w with
  | ret value => rfl
  | call op next ih =>
    cases fates with
    | nil => rfl
    | cons fate fates =>
      simp only [lift, Prog.embed, Prog.run, exec, map_cons]
      cases Master.exec env.fingerprint fate.toFate w.master op with
      | none => rfl
      | some done => exact ih done.1 fates _

/-- What is left of a handler once it only answers. -/
def Answers : Master.Op → Prop
  | .respond _ _ => True
  | _ => False

theorem answers_run {rest : Master.Handler Unit} (only : rest.Only Answers)
    (fates : List Master.Fate) (w : Master.World) :
    (rest.run (Master.exec fingerprint) fates w).2.db = w.db := by
  induction rest generalizing fates w with
  | ret value => rfl
  | call op next ih =>
    cases fates with
    | nil => rfl
    | cons fate fates =>
      cases op with
      | respond request answer => exact ih () (only.2 ()) fates _
      | _ => exact only.1.elim

theorem handleDataPlaneTraffic_run (fingerprint : String → String) (request : DataPlaneRequest)
    (fates : List Master.Fate) (w : Master.World) :
    let after := ((handleDataPlaneTraffic request).run (Master.exec fingerprint) fates w).2
    after.db = w.db ∨ ∃ traffic, request.body.bind = some traffic ∧
      Takes w.db after.db request.syncID traffic := by
  unfold handleDataPlaneTraffic
  split
  · exact .inl (answers_run (by simp [Prog.Only, Prog.ask, Answers]) fates w)
  next traffic decoded =>
    split
    · exact .inl (answers_run (by simp [Prog.Only, Prog.ask, Answers]) fates w)
    split
    · exact .inl (answers_run (by simp [Prog.Only, Prog.ask, Answers]) fates w)
    cases fates with
    | nil => exact .inl rfl
    | cons fate fates =>
      -- whatever is answered, the transaction is the only statement that writes
      rcases ran : w.account fate ⟨.dataPlane, request.syncID, traffic⟩ (.ofNat 1)
        (dataPlaneTrafficTx fate.time request.syncID traffic) with ⟨result, w'⟩
      have stored : w'.db = w.db ∨
          dataPlaneTrafficTx fate.time request.syncID traffic w.db = .ok ((), w'.db) := by
        grind [World.account]
      have done : Master.exec fingerprint fate w (.dataPlaneTraffic request.syncID traffic) =
          some (result, w') := congrArg some ran
      intro after
      have same : after.db = w'.db := by
        show Master.World.db (Prog.run _ (Master.ask _ >>= _) _ _).2 = _
        rw [Prog.run_ask done]
        refine answers_run ?_ fates w'
        split
        · split <;> simp [Prog.Only, Prog.ask, Answers]
        · simp [Prog.Only, Prog.ask, Answers]
      rw [same]
      rcases stored with unchanged | committed
      · exact .inl unchanged
      · rcases dataPlaneTrafficTx_ok committed with unchanged | takes
        · exact .inl unchanged
        · exact .inr ⟨traffic, decoded, takes⟩

theorem batch_run (env : Env) (request : DataPlaneRequest) (fates : List Fate) (w : World) :
    let after := ((body env (Round.batch request).call).run (exec env) fates w).2
    after.db = w.db ∨ ∃ traffic, request.body.bind = some traffic ∧
      Takes w.db after.db request.syncID traffic := by
  simp only [Round.call, body, lift_run]
  exact handleDataPlaneTraffic_run env.fingerprint request _ w.master

theorem reset_run (env : Env) (fates : List Fate) (w : World) :
    ((body env Round.reset.call).run (exec env) fates w).2.users =
      if fates.head?.any fun fate => fate.ok || fate.committed then w.users.map clearCounters
      else w.users := by
  cases fates with
  | nil => rfl
  | cons fate fates =>
    simp only [Round.call, body, background, submit, Prog.ask, bind, Prog.bind, pure, Prog.run, exec, Write.tx,
      World.submit, resetTraffic]
    by_cases ok : fate.ok = true
    · simp [ok, World.users]
      rfl
    · by_cases committed : fate.committed = true
      · simp [ok, committed]
        rfl
      · simp [ok, committed]

/-! ### Rounds of batches and resets -/

/-- The rows with what they should hold: the rows after the last reset, and the batches that
were accepted since. -/
structure Ledger where
  world : World
  opening : List User
  taken : List TrafficMap := []

def Ledger.start (db : Db) : Ledger := { world := .start db, opening := db.users }

/-- What the accepted batches report for a user. -/
def Ledger.total (l : Ledger) (hash : String) : Traffic :=
  (l.taken.map fun traffic => amount traffic hash).sum

/-- One call. A batch is accepted when its receipt appears, and a reset takes effect unless
its transaction fails and is rolled back. -/
def Ledger.round (env : Env) (l : Ledger) (round : Round × List Fate) : Ledger :=
  let world := ((body env round.1.call).run (exec env) round.2 l.world).2
  match round.1 with
  | .batch request =>
    let key := (Source.dataPlane, request.syncID)
    if key ∉ l.world.db.receipts ∧ key ∈ world.db.receipts then
      { l with world := world, taken := request.body.bind.toList ++ l.taken }
    else { l with world := world }
  | .reset =>
    if round.2.head?.any fun fate => fate.ok || fate.committed then
      { world := world, opening := world.users }
    else { l with world := world }

/-- The rows hold exact sums, and every counter is in range. -/
structure Ledger.Exact (start : List User) (l : Ledger) : Prop where
  rows : l.world.users = l.opening.map fun u => u.credit (unscaled (l.total u.hash))
  sound : ∀ u ∈ l.world.users, Sound u
  opening : l.opening = start ∨ ∀ u ∈ l.opening, u.upload = 0 ∧ u.download = 0 ∧ u.used = 0

variable {start : List User} {l : Ledger}

/-- What one more batch adds to every row. -/
theorem Ledger.Exact.take (holds : l.Exact start) {world : World}
    (takes : Takes l.world.db world.db syncID traffic) :
    Exact start { l with world := world, taken := traffic :: l.taken } := by
  constructor
  · refine takes.users.trans ?_
    rw [show l.world.db.users = _ from holds.rows, map_map]
    apply map_congr_left
    intro u _
    simp only [Function.comp_apply, User.credit_hash, Ledger.total, map_cons, sum_cons,
      unscaled_add]
    rw [add_comm, User.credit_add]
  · exact takes.sound holds.sound
  · exact holds.opening

theorem Ledger.Exact.keep (holds : l.Exact start) {world : World}
    (same : world.users = l.world.users) : Exact start { l with world := world } := by
  obtain ⟨rows, sound, opening⟩ := holds
  rw [← same] at rows sound
  exact ⟨rows, sound, opening⟩

theorem Ledger.Exact.round {env : Env} (holds : l.Exact start) (round : Round × List Fate) :
    (l.round env round).Exact start := by
  obtain ⟨round, fates⟩ := round
  cases round with
  | batch request =>
    rcases batch_run env request fates l.world with unchanged | ⟨traffic, decoded, takes⟩
    · have stale : ¬ ((Source.dataPlane, request.syncID) ∉ l.world.db.receipts ∧
          (Source.dataPlane, request.syncID) ∈
            ((body env (Round.batch request).call).run (exec env) fates l.world).2.db.receipts) := by
        rw [unchanged]
        tauto
      simp only [Ledger.round, if_neg stale]
      exact holds.keep (congrArg Db.users unchanged)
    · have accepted := And.intro takes.fresh (takes.receipts.mem_iff.mpr mem_cons_self)
      simp only [Ledger.round, if_pos accepted, decoded]
      exact holds.take takes
  | reset =>
    have ran := reset_run env fates l.world
    simp only [Ledger.round]
    split at ran
    next effective =>
      rw [if_pos effective]
      have zero : ∀ u ∈ ((body env Round.reset.call).run (exec env) fates l.world).2.users,
          u.upload = 0 ∧ u.download = 0 ∧ u.used = 0 := by
        rw [ran]
        intro u mem
        obtain ⟨old, -, rfl⟩ := mem_map.mp mem
        exact ⟨rfl, rfl, rfl⟩
      constructor
      · simp [Ledger.total]
      · intro u mem
        obtain ⟨upload, download, used⟩ := zero u mem
        exact ⟨by omega, by omega, by omega, by rw [used]; decide⟩
      · exact .inr zero
    next rolledBack =>
      rw [if_neg rolledBack]
      exact holds.keep ran

def Ledger.rounds (env : Env) (l : Ledger) (rounds : List (Round × List Fate)) : Ledger :=
  rounds.foldl (Ledger.round env) l

theorem Ledger.Exact.rounds {env : Env} (holds : l.Exact start) (rounds : List (Round × List Fate)) :
    (l.rounds env rounds).Exact start := by
  induction rounds generalizing l with
  | nil => exact holds
  | cons round rounds ih => exact ih (holds.round round)

/-- After any batches and resets, whatever became of their statements, every row holds the row
after the last reset plus the exact sums of the batches accepted since, in range and with the
total of both directions. A batch with a value that is too large changes nothing. -/
theorem counters_are_exact (env : Env) (db : Db) (start : ∀ u ∈ db.users, Sound u)
    (rounds : List (Round × List Fate)) :
    let l := (Ledger.start db).rounds env rounds
    l.Exact db.users ∧
      ∀ request traffic fates, request.body.bind = some traffic → Overflows traffic l.world.users →
        (l.round env (.batch request, fates)).world.db = l.world.db := by
  intro l
  have opened : (Ledger.start db).Exact db.users := by
    constructor
    · simp [Ledger.start, World.start, Ledger.total]
    · exact start
    · exact .inl rfl
  have holds : l.Exact db.users := opened.rounds rounds
  refine ⟨holds, ?_⟩
  intro request traffic fates decoded large
  have ran := batch_run env request fates l.world
  have world : (l.round env (.batch request, fates)).world =
      ((body env (Round.batch request).call).run (exec env) fates l.world).2 := by
    simp only [Ledger.round]
    split <;> rfl
  rw [world]
  rcases ran with unchanged | ⟨accepted, decoded', takes⟩
  · exact unchanged
  · cases decoded.symm.trans decoded'
    exact absurd large (takes.no_overflow holds.sound)

namespace Sample

def batch (syncID : String) (up down : Nat) : DataPlaneRequest where
  syncID := syncID
  body := { traffic := some (AList.singleton "sha224:pw" ⟨up, down⟩), extent := 40 }

def counted : Db := only { user with used := 12, upload := 5, download := 7 }

/-- A batch, a reset, another batch and the same batch again. -/
def month : List (Round × List Fate) :=
  [(.batch (batch "one" 1 2), [{}, {}]), (.reset, [{}]), (.batch (batch "two" 3 4), [{}, {}]),
   (.batch (batch "two" 3 4), [{}, {}])]

end Sample

/-- The second batch counts once, and one that the sum of both directions leaves no room for is
refused. -/
theorem month_is_counted :
    let l := (Ledger.start Sample.counted).rounds Sample.env Sample.month
    l.world.users = [{ Sample.user with used := 7, upload := 3, download := 4 }] ∧
      l.Exact Sample.counted.users ∧
      (l.round Sample.env (.batch (Sample.batch "three" (2 ^ 63 - 5) 0), [{}, {}])).world.db =
        l.world.db := by
  intro l
  have rows : l.world.users = [{ Sample.user with used := 7, upload := 3, download := 4 }] := by
    decide +kernel
  have start : ∀ u ∈ Sample.counted.users, Sound u := by
    intro u mem
    rw [mem_singleton.mp mem]
    constructor <;> decide
  obtain ⟨holds, refused⟩ := counters_are_exact Sample.env Sample.counted start Sample.month
  refine ⟨rows, holds, refused _ (AList.singleton "sha224:pw" ⟨2 ^ 63 - 5, 0⟩) _ rfl ?_⟩
  refine ⟨"sha224:pw", ⟨2 ^ 63 - 5, 0⟩, by decide, by decide, .inr ?_⟩
  rw [show (Ledger.rounds _ _ _).world.users = _ from rows]
  exact ⟨_, mem_singleton_self _, rfl, by decide⟩

end TrojanGo.Accounts
