import TrojanGo.Master.AtMostOnce
import TrojanGo.Plane.Reporting

/-!
# Copying counters to the database

What the transaction of the embedded traffic worker adds to the rows, how the counters and the
rows hang together, and when readings of counters can still be subtracted from them.
-/
namespace TrojanGo.Plane

open Lib Master List

/-! ### The transaction -/

/-- The row of a user. -/
def rowOf (db : Db) (hash : String) : Option User := db.users.find? fun u => u.hash = hash

/-- The stored total of one direction. -/
def stored (u : User) : Dir → Int
  | .up => u.upload
  | .down => u.download

theorem newTrafficIncrement_amounts {up down : Nat} {rate : Binary64}
    {increment : TrafficIncrement} (accepted : newTrafficIncrement up down rate = .ok increment) :
    increment.upload = up ∧ increment.download = down := by
  unfold newTrafficIncrement at accepted
  simp only [bind, Except.bind, pure, Except.pure, throw, throwThe, MonadExceptOf.throw] at accepted
  grind

/-- The amounts of a list of entries for one user. -/
theorem shareOf_trafficIncrements {rate : Binary64} {entries : List (Σ _ : String, Traffic)}
    {increments : Increments} (converted : trafficIncrements rate entries = .ok increments)
    (keys : entries.NodupKeys) {u : User} (named : u.hash ≠ "") :
    (increments.shareOf u).upload = ((entries.dlookup u.hash).getD 0).up ∧
      (increments.shareOf u).download = ((entries.dlookup u.hash).getD 0).down := by
  induction entries generalizing increments with
  | nil =>
    cases converted
    exact ⟨rfl, rfl⟩
  | cons entry rest ih =>
    obtain ⟨hash, traffic⟩ := entry
    simp only [trafficIncrements, bind, Except.bind] at converted
    split at converted
    · cases converted
    split at converted <;> cases converted
    next increment accepted _ others remaining =>
      obtain ⟨absent, keys'⟩ := nodupKeys_cons.mp keys
      have tail := ih remaining keys'
      have amounts := newTrafficIncrement_amounts accepted
      simp only [Increments.shareOf, map_cons, sum_cons,
        TrafficIncrement.add_upload, TrafficIncrement.add_download] at tail ⊢
      rw [tail.1, tail.2]
      by_cases same : u.hash = hash
      · subst same
        have missing : rest.dlookup u.hash = none := dlookup_eq_none.mpr absent
        simp [share, named, missing, amounts]
      · have skipped : dlookup u.hash (⟨hash, traffic⟩ :: rest) = rest.dlookup u.hash :=
          dlookup_cons_ne rest ⟨hash, traffic⟩ same
        simp [share, same, skipped]

/-- A commit adds exactly the snapshot of a user to its row. -/
theorem embeddedTx_ok {snapshots : TrafficMap} {db db' : Db}
    (committed : embeddedTx snapshots db = .ok ((), db')) {hash : String} (named : hash ≠ "")
    {u : User} (row : rowOf db hash = some u) :
    ∃ u', rowOf db' hash = some u' ∧
      ∀ d, stored u' d = stored u d + ((snapshots.lookup hash).getD 0).get d := by
  unfold embeddedTx at committed
  simp only [bind, StateT.bind, Except.bind, liftM, monadLift, MonadLift.monadLift,
    StateT.lift] at committed
  split at committed
  · cases committed
  next done converted =>
    cases equal : trafficIncrements (.ofNat 1) snapshots.entries with
    | error reason =>
      rw [equal] at converted
      cases converted
    | ok increments =>
      rw [equal] at converted
      cases converted
      have rows := (persistTrafficIncrements_ok committed).1
      have test := find?_some row
      obtain rfl : u.hash = hash := of_decide_eq_true test
      have amounts := shareOf_trafficIncrements equal snapshots.nodupKeys named
      have lookup : snapshots.lookup u.hash = snapshots.entries.dlookup u.hash := rfl
      refine ⟨u.credit (increments.shareOf u), ?_, fun d => ?_⟩
      · unfold rowOf at row ⊢
        rw [rows, find?_map]
        exact congrArg (Option.map _) row
      · cases d <;> simp [stored, User.credit, amounts, lookup, Traffic.get]

/-! ### The account of the worker -/

section Account

variable {κ : Type}

/-- Something other than additions and the worker changes counters or rows, or a counter wraps
around. -/
def Op.disturbs (s : World κ) : Op κ → Bool
  | .clear _ _ _ _ | .cacheUsers _ => true
  | op => op.wraps s

/-- The rows hold the initial totals and what was copied from the counters; nothing else has
left the counters. -/
structure Copied (start : Db) (s : World κ) : Prop where
  balanced : s.Balanced
  counters : ∀ h d, s.taken h d = 0 ∧ s.gone h d = 0 ∧ s.lost h d = 0
  exact : s.saturated = false
  rows : ∀ h u₀, h ≠ "" → rowOf start h = some u₀ → ∃ u, rowOf s.db h = some u ∧
    ∀ d, stored u d = stored u₀ d + s.drained h d + s.owed h d + s.repeated h d

/-- What the worker sees the others do: counters only grow. -/
structure Grown (s s' : World κ) : Prop where
  heap : ∀ (i : Nat) (m : Meter κ), s.meters[i]? = some m → ∃ m' : Meter κ,
    s'.meters[i]? = some m' ∧ m'.auth = m.auth ∧ m'.hash = m.hash ∧ ∀ d, m.count d ≤ m'.count d
  owed : s'.owed = s.owed

theorem Grown.refl (s : World κ) : Grown s s :=
  ⟨fun _ m found => ⟨m, found, rfl, rfl, fun _ => Nat.le_refl _⟩, rfl⟩

variable {s s' : World κ} {op : Op κ} {fate : Fate} {result : Res op}

theorem Grown.trans {s'' : World κ} (first : Grown s s') (second : Grown s' s'') :
    Grown s s'' := by
  constructor
  · intro i m found
    obtain ⟨m', found', auth, hash, more⟩ := first.heap i m found
    obtain ⟨m'', found'', auth', hash', more'⟩ := second.heap i m' found'
    exact ⟨m'', found'', auth'.trans auth, hash'.trans hash,
      fun d => Nat.le_trans (more d) (more' d)⟩
  · exact second.owed.trans first.owed

/-- Replacing one object by one that counts at least as much. -/
theorem Grown.setMeter {i : Nat} {m m' : Meter κ} (found : s.meters[i]? = some m)
    (meters : s'.meters = s.meters.set i m') (owed : s'.owed = s.owed) (auth : m'.auth = m.auth)
    (hash : m'.hash = m.hash) (more : ∀ d, m.count d ≤ m'.count d) : Grown s s' := by
  refine ⟨fun j m₀ found₀ => ?_, owed⟩
  rw [meters, List.getElem?_set]
  grind

/-- Neither the worker's transaction nor its subtraction. -/
def Op.Calm : Op κ → Prop
  | .subtract _ _ _ _ | .commit _ => False
  | _ => True

theorem Op.Plain.calm {me : Actor κ} (plain : op.Plain me) : op.Calm := by
  cases op with
  | subtract | commit => exact plain.elim
  | _ => trivial

variable [DecidableEq κ]

/-- The rows, the debts and the bytes that left the counters are the same. -/
structure SameBooks (s s' : World κ) : Prop where
  db : s'.db = s.db := by rfl
  owed : s'.owed = s.owed := by rfl
  repeated : s'.repeated = s.repeated := by rfl
  saturated : s'.saturated = s.saturated := by rfl
  taken : s'.taken = s.taken := by rfl
  gone : s'.gone = s.gone := by rfl
  drained : s'.drained = s.drained := by rfl

/-- These change only in the worker's own operations and in a refresh of the cache. -/
theorem calm_exec (calm : op.Calm) (quiet : op.disturbs s = false)
    (done : exec fate s op = some (result, s')) : SameBooks s s' ∧ Grown s s' := by
  cases exec_effect done with
  | subtract | commit => exact calm.elim
  | take | drop | cache => cases quiet
  | store auth hash =>
    exact ⟨{}, fun i m found => ⟨m, by grind, rfl, rfl, fun _ => Nat.le_refl _⟩, rfl⟩
  | lock found | unlock found =>
    exact ⟨{}, .setMeter found rfl rfl rfl rfl fun d => by cases d <;> exact Nat.le_refl _⟩
  | @add _ _ m found _ d n =>
    -- the counter does not wrap around, so nothing is gone
    have small : m.count d + n < word := by simpa [Op.disturbs, Op.wraps, found] using quiet
    refine ⟨{ gone := ?_ }, .setMeter found rfl rfl (m.put_auth d _) (m.put_hash d _) fun d' => ?_⟩
    · funext h d'
      simp [Book.add_apply, Nat.mod_eq_of_lt small]
    · rw [Meter.put_count, Nat.mod_eq_of_lt small]
      grind
  | _ => exact ⟨{}, (Grown.refl s).heap, rfl⟩

/-- A calm operation keeps the account, and the worker tolerates it. -/
theorem calm_step {start : Db} (copied : Copied start s) (calm : op.Calm)
    (quiet : op.disturbs s = false) (done : exec fate s op = some (result, s')) :
    Copied start s' ∧ Grown s s' := by
  obtain ⟨same, grown⟩ := calm_exec calm quiet done
  refine ⟨⟨Balanced.exec copied.balanced done, ?_, same.saturated.trans copied.exact, ?_⟩, grown⟩
  · rw [same.taken, same.gone, lost_exec done]
    exact copied.counters
  · rw [same.db, same.drained, same.owed, same.repeated]
    exact copied.rows

end Account

/-! ### Readings -/

section Readings

variable {κ : Type}

def Collected.get (x : Collected) : Dir → Nat
  | .up => x.recv
  | .down => x.sent

/-- What the readings of a user add up to. -/
def due (s : World κ) (readings : List Collected) : Book := fun h d =>
  (readings.map fun x =>
    if (s.meters[x.user]?).any (fun m => decide (m.hash = h)) then x.get d else 0).sum

/-- Readings of distinct counters, none above its counter. -/
structure Readings (s : World κ) (readings : List Collected) : Prop where
  bounded : ∀ x ∈ readings, ∃ m : Meter κ, s.meters[x.user]? = some m ∧ ∀ d, x.get d ≤ m.count d
  distinct : (readings.map Collected.user).Nodup

variable {m : Meter κ} {s s' : World κ} {x : Collected} {users : List (Nat × String)}

section

variable (found : s.meters[x.user]? = some m) (rest : List Collected) (h : String)

include found rest h

theorem due_cons (d : Dir) :
    due s (x :: rest) h d = (if h = m.hash then x.get d else 0) + due s rest h d := by
  simp [due, found, eq_comm (a := h)]

theorem due_append (d : Dir) :
    due s (rest ++ [x]) h d = due s rest h d + if h = m.hash then x.get d else 0 := by
  simp [due, found, eq_comm (a := h)]

end

/-- Replacing an object by one of the same user keeps the sums. -/
theorem due_setMeter {i : Nat} {m' : Meter κ} (found : s.meters[i]? = some m)
    (hash : m'.hash = m.hash) (readings : List Collected) :
    due (s.setMeter i m') readings = due s readings := by
  funext h d
  unfold due
  congr 1
  apply List.map_congr_left
  intro x _
  simp only [World.setMeter, List.getElem?_set]
  grind

/-- Counters that grow keep the readings and their sums. -/
theorem Readings.grown {readings : List Collected} (known : Readings s readings)
    (grown : Grown s s') : Readings s' readings ∧ due s' readings = due s readings := by
  refine ⟨⟨fun x mem => ?_, known.distinct⟩, ?_⟩
  · obtain ⟨m, found, below⟩ := known.bounded x mem
    obtain ⟨m', found', _, _, more⟩ := grown.heap x.user m found
    exact ⟨m', found', fun d => Nat.le_trans (below d) (more d)⟩
  · funext h d
    unfold due
    congr 1
    apply map_congr_left
    intro x mem
    obtain ⟨m, found, _⟩ := known.bounded x mem
    obtain ⟨m', found', _, hash, _⟩ := grown.heap x.user m found
    simp [found, found', hash]

theorem Readings.tail {rest : List Collected} (known : Readings s (x :: rest)) : Readings s rest :=
  ⟨fun y mem => known.bounded y (mem_cons_of_mem _ mem),
    (nodup_cons.mp known.distinct).2⟩

/-- The state of the first phase: all readings so far are of the given authenticators, and
nothing is owed. -/
structure Snapshotted (auths : List Nat) (taken : Snapshots) (s : World κ) : Prop where
  readings : Readings s taken.perUser
  within : ∀ x ∈ taken.perUser, ∃ m : Meter κ, s.meters[x.user]? = some m ∧ m.auth ∈ auths
  totals : ∀ h d, ((taken.perHash.lookup h).getD 0).get d = due s taken.perUser h d
  owed : ∀ h d, s.owed h d = 0

theorem Snapshotted.grown {auths : List Nat} {taken : Snapshots} (known : Snapshotted auths taken s)
    (grown : Grown s s') : Snapshotted auths taken s' := by
  obtain ⟨readings, same⟩ := known.readings.grown grown
  refine ⟨readings, fun x mem => ?_, ?_, ?_⟩
  · obtain ⟨m, found, inside⟩ := known.within x mem
    obtain ⟨m', found', auth, _, _⟩ := grown.heap x.user m found
    exact ⟨m', found', by rwa [auth]⟩
  · rw [same]
    exact known.totals
  · rw [grown.owed]
    exact known.owed

/-- A listing of one authenticator: distinct objects of it, with their users. -/
structure Lists (auth : Nat) (users : List (Nat × String)) (s : World κ) : Prop where
  objects : ∀ user ∈ users, ∃ m : Meter κ,
    s.meters[user.1]? = some m ∧ m.auth = auth ∧ m.hash = user.2
  distinct : (users.map Prod.fst).Nodup

theorem Lists.grown {auth : Nat} (lists : Lists auth users s) (grown : Grown s s') :
    Lists auth users s' := by
  refine ⟨fun user mem => ?_, lists.distinct⟩
  obtain ⟨m, found, auth, hash⟩ := lists.objects user mem
  obtain ⟨m', found', auth', hash', _⟩ := grown.heap user.1 m found
  exact ⟨m', found', auth'.trans auth, hash'.trans hash⟩

theorem lists_of_visit {auth : Nat} {order : List Nat} (visited : s.visit auth order = some users) :
    Lists auth users s ∧ users.map Prod.fst = order := by
  induction order generalizing users with
  | nil =>
    cases visited
    exact ⟨⟨nofun, nodup_nil⟩, rfl⟩
  | cons i rest ih =>
    simp only [World.visit] at visited
    split at visited
    · cases visited
    split at visited
    next m found fits =>
      obtain ⟨others, visited', rfl⟩ := Option.map_eq_some_iff.mp visited
      obtain ⟨⟨objects, distinct⟩, order⟩ := ih visited'
      exact ⟨⟨by grind, by grind⟩, by simp [order]⟩
    · cases visited

/-- Adding a reading of one more counter. -/
theorem Snapshotted.add {auths : List Nat} {taken : Snapshots} {i : Nat} {totals : Traffic}
    (known : Snapshotted auths taken s) (found : s.meters[i]? = some m) (inside : m.auth ∈ auths)
    (object : x.user = i) (below : ∀ d, x.get d ≤ m.count d)
    (fresh : i ∉ taken.perUser.map Collected.user)
    (added : ∀ d, totals.get d = ((taken.perHash.lookup m.hash).getD 0).get d + x.get d) :
    Snapshotted auths ⟨taken.perHash.insert m.hash totals, taken.perUser ++ [x]⟩ s := by
  subst object
  have bounded := known.readings.bounded
  have within := known.within
  have distinct := known.readings.distinct
  refine ⟨⟨by grind, by grind⟩, by grind, ?_, known.owed⟩
  intro h d
  rw [due_append found, ← known.totals]
  by_cases user : h = m.hash
  · subst user
    simp [added]
  · simp [AList.lookup_insert_ne user, user]

end Readings

end TrojanGo.Plane
