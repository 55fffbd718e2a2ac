import TrojanGo.Plane.Readings

/-!
# The embedded traffic worker

Connections only add to the counters, so a counter never falls below its reading, and no two
readings are of the same counter.
-/
namespace TrojanGo.Plane

open Lib Master Prog List

/-! ### The phases of the worker -/

variable {auths : List Nat}

section Phases

variable {κ : Type}

/-- The terms on which the worker shares the counters with the connections. -/
def workerTerms (start : Db) : Contract (World κ) (Op κ) :=
  ⟨fun s op => op.disturbs s = false, Copied start, Grown, fun _ _ => True⟩

theorem workerTerms_lawful (start : Db) : (workerTerms start : Contract (World κ) _).Lawful :=
  ⟨Grown.refl, fun _ _ _ => Grown.trans⟩

/-- The worker owes nothing. -/
def Settles (s : World κ) : Prop := ∀ h d, s.owed h d = 0

variable {start : Db}

theorem settles_stable : (workerTerms start).Stable (Settles : World κ → Prop) := by
  intro s s' grown _ settled h d
  rw [grown.owed]
  exact settled h d

variable [DecidableEq κ]

variable {s : World κ}

variable {known : World κ → Prop} {rest : List Collected}

/-- The rule for the worker's calm operations. -/
theorem wp_calm {α : Type} {op : Op κ} {next : Res op → Routine κ α} {post : α → World κ → Prop}
    (stable : (workerTerms start).Stable known) (calm : op.Calm) (holds : known s)
    (rest : ∀ fate result s s', exec fate s op = some (result, s') → known s → known s' →
      wp exec (workerTerms start) (next result) post s') :
    wp exec (workerTerms start) (ask op >>= next) post s := by
  refine wp_op stable holds ?_
  intro s copied holds quiet fate result s' done
  obtain ⟨kept, grown⟩ := calm_step copied calm quiet done
  exact ⟨kept, trivial, rest fate result s s' done holds (stable s s' grown kept holds)⟩

/-- An object of the given authenticators, with lower bounds of its counters. -/
def Above (auths : List Nat) (i : Nat) (hash : String) (sent recv : Nat) (s : World κ) : Prop :=
  ∃ m : Meter κ, s.meters[i]? = some m ∧ m.auth ∈ auths ∧ m.hash = hash ∧
    sent ≤ m.count .down ∧ recv ≤ m.count .up

variable {hash : String}

omit [DecidableEq κ] in
theorem above_stable {i : Nat} {sent recv : Nat} :
    (workerTerms start).Stable (Above auths i hash sent recv : World κ → Prop) := by
  rintro s s' grown _ ⟨m, found, inside, user, down, up⟩
  obtain ⟨m', found', auth, same, more⟩ := grown.heap i m found
  exact ⟨m', found', auth ▸ inside, same.trans user, Nat.le_trans down (more .down),
    Nat.le_trans up (more .up)⟩

/-- Two loads without the lock: the counter may have grown since, but not shrunk. -/
theorem wp_getTraffic {i : Nat} (stable : (workerTerms start).Stable known) (holds : known s)
    (object : Above auths i hash 0 0 s) :
    wp exec (workerTerms start) (getTraffic i)
      (fun r s => known s ∧ Above auths i hash r.1 r.2 s) s := by
  refine wp_calm (stable.and above_stable) (by trivial) ⟨holds, object⟩ ?_
  rintro fate sent s s' done ⟨holds, m, found, inside, user, _, _⟩ _
  obtain ⟨m', found', equal⟩ := Option.map_eq_some_iff.mp done
  cases found.symm.trans found'
  cases equal
  have first : Above auths i hash (m.count .down) 0 s :=
    ⟨m, found, inside, user, Nat.le_refl _, Nat.zero_le _⟩
  refine wp_calm (stable.and above_stable) (by trivial) ⟨holds, first⟩ ?_
  rintro fate recv s s' done ⟨holds, m', found, inside, user, below, _⟩ _
  obtain ⟨m'', found', equal⟩ := Option.map_eq_some_iff.mp done
  cases found.symm.trans found'
  cases equal
  have both : Above auths i hash (m.count .down) (m'.count .up) s :=
    ⟨m', found, inside, user, below, Nat.le_refl _⟩
  exact wp_value (stable.and above_stable) ⟨holds, both⟩

variable {taken : Snapshots}

omit [DecidableEq κ] in
theorem snapshotted_stable :
    (workerTerms start).Stable (Snapshotted auths taken : World κ → Prop) :=
  fun _ _ grown _ known => known.grown grown

/-- What reading counters leaves: the readings, or nothing. -/
def ReadEnds (auths : List Nat) : Except String Snapshots → World κ → Prop
  | .error _, s => Settles s
  | .ok taken, s => Snapshotted auths taken s

theorem addTrafficTotals_ok {current delta total : Nat}
    (added : addTrafficTotals current delta = .ok total) : total = current + delta := by
  grind [addTrafficTotals]

/-- Reading one counter adds at most its own reading. -/
theorem wp_snapshotUser {i : Nat} {also : World κ → Prop} (stable : (workerTerms start).Stable also)
    (known : Snapshotted auths taken s) (object : Above auths i hash 0 0 s)
    (fresh : i ∉ taken.perUser.map Collected.user) (holds : also s) :
    wp exec (workerTerms start) (snapshotUser i hash taken)
      (fun r s => also s ∧ ReadEnds auths r s ∧ ∀ taken', r = .ok taken' →
        ∀ x ∈ taken'.perUser, x ∈ taken.perUser ∨ x.user = i) s := by
  refine wp_seq (workerTerms_lawful start)
    (wp_getTraffic (stable.and snapshotted_stable) ⟨holds, known⟩ object) ?_
  rintro ⟨sent, recv⟩ s _ ⟨⟨holds, known⟩, object⟩
  have failed : ∀ reason, wp exec (workerTerms start) (pure (.error reason))
      (fun r s => also s ∧ ReadEnds auths r s ∧ ∀ taken', r = .ok taken' →
        ∀ x ∈ taken'.perUser, x ∈ taken.perUser ∨ x.user = i) s := by
    intro reason
    refine wp_return (stable.and settles_stable) ⟨holds, known.owed⟩ ?_
    exact fun s _ ended => ⟨ended.1, ended.2, fun _ impossible => by cases impossible⟩
  dsimp only
  split
  · refine wp_return (stable.and snapshotted_stable) ⟨holds, known⟩ ?_
    exact fun s _ ended => ⟨ended.1, ended.2, by grind⟩
  split
  · exact failed _
  next up addedUp =>
    split
    · exact failed _
    next down addedDown =>
      refine wp_return ((stable.and snapshotted_stable).and above_stable)
        ⟨⟨holds, known⟩, object⟩ ?_
      rintro s _ ⟨⟨holds, known⟩, m, found, inside, rfl, below, above⟩
      refine ⟨holds, known.add found inside rfl (fun d => ?_) fresh fun d => ?_, by grind⟩
      · cases d with
        | up => exact above
        | down => exact below
      · cases d with
        | up => exact addTrafficTotals_ok addedUp
        | down => exact addTrafficTotals_ok addedDown

-- By induction on the listing, whose objects are distinct: none of them was read before.
theorem wp_snapshotUsers {auth : Nat} (inside : auth ∈ auths) (users : List (Nat × String))
    (known : Snapshotted auths taken s) (lists : Lists auth users s)
    (apart : ∀ x ∈ taken.perUser, x.user ∉ users.map Prod.fst) :
    wp exec (workerTerms start) (snapshotUsers users taken) (ReadEnds auths) s := by
  induction users generalizing taken s with
  | nil => exact wp_value snapshotted_stable known
  | cons user rest ih =>
    obtain ⟨i, hash⟩ := user
    obtain ⟨m, found, auth', hash'⟩ := lists.objects (i, hash) mem_cons_self
    have object : Above auths i hash 0 0 s :=
      ⟨m, found, auth' ▸ inside, hash', Nat.zero_le _, Nat.zero_le _⟩
    have fresh : i ∉ taken.perUser.map Collected.user := by grind
    have distinct := nodup_cons.mp lists.distinct
    have others : Lists auth rest s :=
      ⟨fun user mem => lists.objects user (mem_cons_of_mem _ mem), distinct.2⟩
    refine wp_seq (workerTerms_lawful start)
      (wp_snapshotUser (fun _ _ grown _ lists => lists.grown grown) known object fresh others) ?_
    rintro (reason | taken') s _ ⟨others, ended, grows⟩
    · exact wp_value settles_stable ended
    · exact ih ended others (by grind)

/-- Each authenticator is read once, so that no counter is read twice. -/
theorem wp_snapshotAuths (auths : List Nat) {seen : List Nat} (distinct : auths.Nodup)
    (apart : ∀ auth ∈ auths, auth ∉ seen) (known : Snapshotted seen taken s) :
    wp exec (workerTerms start) (snapshotAuths auths taken)
      (fun r s => ∃ seen, ReadEnds seen r s) s := by
  induction auths generalizing seen taken s with
  | nil => exact wp_return snapshotted_stable known fun _ _ known => ⟨seen, known⟩
  | cons auth rest ih =>
    obtain ⟨new, distinct'⟩ := nodup_cons.mp distinct
    refine wp_calm snapshotted_stable (by trivial) known ?_
    intro fate users s s' done _ known
    obtain ⟨visited, found, equal⟩ := Option.map_eq_some_iff.mp done
    cases equal
    have lists := (lists_of_visit found).1
    have more : Snapshotted (auth :: seen) taken s := by
      refine ⟨known.readings, fun x mem => ?_, known.totals, known.owed⟩
      obtain ⟨m, found, inside⟩ := known.within x mem
      exact ⟨m, found, mem_cons_of_mem _ inside⟩
    have fresh : ∀ x ∈ taken.perUser, x.user ∉ users.map Prod.fst := by
      grind [known.within, lists.objects]
    refine wp_seq (workerTerms_lawful start)
      (wp_snapshotUsers mem_cons_self users more lists fresh) ?_
    rintro (reason | taken) s _ ended
    · exact wp_return settles_stable ended fun _ _ settled => ⟨seen, settled⟩
    · exact ih distinct' (by grind) ended

/-! The transaction makes the readings a debt of the counters. -/

/-- Readings that are committed and not yet subtracted. -/
structure Owing (readings : List Collected) (s : World κ) : Prop where
  known : Readings s readings
  owed : ∀ h d, s.owed h d = due s readings h d

omit [DecidableEq κ] in
theorem owing_stable {readings : List Collected} :
    (workerTerms start).Stable (Owing readings : World κ → Prop) := by
  intro s s' grown _ owing
  obtain ⟨known, same⟩ := owing.known.grown grown
  refine ⟨known, ?_⟩
  rw [grown.owed, same]
  exact owing.owed

/-- The transaction turns readings into debts, whether it reports success or not. -/
theorem commit_step {s' : World κ} {fate : Fate} {result : Except TxError Unit}
    (copied : Copied start s) (known : Snapshotted auths taken s)
    (done : exec fate s (.commit taken.perHash) = some (result, s')) :
    Copied start s' ∧
      match result with
      | .ok () => Owing taken.perUser s'
      | .error _ => Settles s' := by
  have balanced := Balanced.exec copied.balanced done
  simp only [exec] at done
  split at done
  · cases done
    exact ⟨copied, known.owed⟩
  next db committed =>
    -- whether it is reported or not, the transaction adds the snapshots to the rows
    have rows (owed repeated : Book) (sum : ∀ h d, owed h d + repeated h d =
        s.owed h d + s.repeated h d + ((taken.perHash.lookup h).getD 0).get d) :
        ∀ h u₀, h ≠ "" → rowOf start h = some u₀ → ∃ u, rowOf db h = some u ∧
          ∀ d, stored u d = stored u₀ d + s.drained h d + owed h d + repeated h d := by
      intro h u₀ named row₀
      obtain ⟨u, row, total⟩ := copied.rows h u₀ named row₀
      obtain ⟨u', row', added⟩ := embeddedTx_ok committed named row
      refine ⟨u', row', fun d => ?_⟩
      have parts := sum h d
      rw [added, total]
      omega
    split at done
    · cases done
      refine ⟨⟨balanced, copied.counters, copied.exact, rows _ _ fun h d => ?_⟩,
        ⟨known.readings.bounded, known.readings.distinct⟩, ?_⟩
      · exact Nat.add_right_comm _ _ _
      · intro h d
        change s.owed h d + _ = due s taken.perUser h d
        rw [known.owed, known.totals, Nat.zero_add]
    split at done <;> cases done
    · refine ⟨⟨balanced, copied.counters, copied.exact, rows _ _ fun h d => ?_⟩, known.owed⟩
      exact (Nat.add_assoc _ _ _).symm
    · exact ⟨copied, known.owed⟩

/-- The reading with one direction settled. -/
def Collected.without (x : Collected) : Dir → Collected
  | .up => { x with recv := 0 }
  | .down => { x with sent := 0 }

omit [DecidableEq κ] in
@[simp] theorem Collected.without_user (x : Collected) (d : Dir) : (x.without d).user = x.user := by
  cases d <;> rfl

omit [DecidableEq κ] in
theorem Collected.without_get (x : Collected) (d d' : Dir) :
    (x.without d).get d' = if d' = d then 0 else x.get d' := by
  cases d <;> cases d' <;> rfl

/-- A subtraction of a reading from the counter it was read from never saturates. -/
theorem subtract_step {x : Collected} {s' : World κ} {fate : Fate} {d : Dir} {result : Unit}
    (copied : Copied start s) (owing : Owing (x :: rest) s)
    (done : exec fate s (.subtract .embedded x.user d (x.get d)) = some (result, s')) :
    Copied start s' ∧ Owing (x.without d :: rest) s' := by
  have balanced := Balanced.exec copied.balanced done
  cases exec_effect done
  case same quiet => exact absurd trivial quiet
  rename_i m _ found
  obtain ⟨m₀, found₀, below⟩ := owing.known.bounded x List.mem_cons_self
  cases found.symm.trans found₀
  have enough := below d
  have bound : x.user < s.meters.length := (List.getElem?_eq_some_iff.mp found).1
  have debt := owing.owed m.hash d
  rw [due_cons found, if_pos rfl] at debt
  obtain ⟨new, distinct⟩ := List.nodup_cons.mp owing.known.distinct
  have replaced : (s.setMeter x.user (m.put d (m.count d - x.get d))).meters[x.user]? =
      some (m.put d (m.count d - x.get d)) := by simp [World.setMeter, bound]
  refine ⟨⟨balanced, copied.counters, ?_, ?_⟩, ⟨?_, by simpa using owing.known.distinct⟩, ?_⟩
  · simp [copied.exact, Nat.not_lt.mpr enough]
  · -- what leaves the debt is drained
    intro h u₀ named row₀
    obtain ⟨u, row, total⟩ := copied.rows h u₀ named row₀
    refine ⟨u, row, fun d' => ?_⟩
    rw [total]
    simp only [Book.add_apply, Nat.min_eq_right enough, World.setMeter]
    grind
  · intro y mem
    rcases List.mem_cons.mp mem with rfl | later
    · refine ⟨_, by simpa using replaced, fun d' => ?_⟩
      have before := below d'
      rw [Collected.without_get, Meter.put_count]
      grind
    · obtain ⟨m', found', below'⟩ := owing.known.bounded y (List.mem_cons_of_mem _ later)
      have other : x.user ≠ y.user := fun same => new (same ▸ List.mem_map_of_mem later)
      exact ⟨m', by simpa [World.setMeter, List.getElem?_set_ne other] using found', below'⟩
  · intro h d'
    have before := owing.owed h d'
    have after := due_cons (x := x.without d) (by simpa using replaced) rest h d'
    rw [due_cons found] at before
    rw [Collected.without_get, Meter.put_hash, due_setMeter found (m.put_hash d _) rest]
      at after
    change (if h = m.hash ∧ d' = d then s.owed h d' - x.get d else s.owed h d') =
      due (s.setMeter x.user (m.put d (m.count d - x.get d))) (x.without d :: rest) h d'
    rw [after, before]
    grind

/-- Under the lock both directions of one reading are subtracted. -/
theorem wp_subtractTraffic {x : Collected} (owing : Owing (x :: rest) s) :
    wp exec (workerTerms start) (subtractTraffic .embedded x.user x.sent x.recv)
      (fun _ => Owing rest) s := by
  refine wp_calm owing_stable (by trivial) owing ?_
  intro fate locked s s' done _ owing
  refine wp_op owing_stable owing ?_
  intro s copied owing _ fate result s' done
  obtain ⟨copied, owing⟩ := subtract_step (d := .down) copied owing done
  refine ⟨copied, trivial, wp_op owing_stable owing ?_⟩
  intro s copied owing _ fate result s' done
  obtain ⟨copied, owing⟩ := subtract_step (x := x.without .down) (d := .up) copied owing done
  refine ⟨copied, trivial, ?_⟩
  -- both directions of this reading are settled
  have settled : Owing rest s' := by
    obtain ⟨m, found, _⟩ := owing.known.bounded _ mem_cons_self
    refine ⟨owing.known.tail, fun h d => ?_⟩
    have nothing : ((x.without .down).without .up).get d = 0 := by cases d <;> rfl
    rw [owing.owed, due_cons found, nothing, ite_self, Nat.zero_add]
  refine wp_calm owing_stable (by trivial) settled ?_
  intro fate unlocked s s' done _ owing
  exact wp_value owing_stable owing

theorem wp_subtractAll (readings : List Collected) (owing : Owing readings s) :
    wp exec (workerTerms start) (subtractAll readings) (fun _ => Settles) s := by
  induction readings generalizing s with
  | nil => exact wp_value settles_stable (fun h d => owing.owed h d)
  | cons x rest ih =>
    refine wp_seq (workerTerms_lawful start) (wp_subtractTraffic owing) ?_
    intro _ s _ owing
    exact ih owing

theorem wp_syncEmbeddedTrafficOnce (distinct : auths.Nodup) (settled : Settles s) :
    wp exec (workerTerms start) (syncEmbeddedTrafficOnce auths) (fun _ => Settles) s := by
  have nothing : Snapshotted [] {} s := by
    refine ⟨⟨?_, nodup_nil⟩, ?_, fun h d => ?_, settled⟩
    · intro x mem
      cases mem
    · intro x mem
      cases mem
    · exact Traffic.get_zero d
  refine wp_seq (workerTerms_lawful start)
    (wp_snapshotAuths auths distinct (fun _ _ => not_mem_nil) nothing) ?_
  rintro (reason | taken) s _ ⟨seen, ended⟩
  · exact wp_value settles_stable ended
  dsimp only
  split
  · exact wp_value settles_stable ended.owed
  refine wp_op snapshotted_stable ended ?_
  intro s copied known _ fate result s' done
  obtain ⟨kept, after⟩ := commit_step copied known done
  refine ⟨kept, trivial, ?_⟩
  cases result with
  | error reason => exact wp_value settles_stable after
  | ok committed =>
    refine wp_seq (workerTerms_lawful start) (wp_subtractAll _ after) ?_
    intro _ s _ settled
    exact wp_value settles_stable settled

end Phases

/-! ### Runs of the worker -/

/-- An admin server whose traffic worker reads the given authenticators; nothing else consumes
the counters. -/
abbrev adminServer (auths : List Nat) :
    Machine (Actor Empty) (World Empty) Fate Call Memory (Op Empty) Res :=
  machine (fun none => nomatch none) auths false

def workerProtocol (start : Db) (auths : List Nat) : Machine.Protocol (adminServer auths) where
  admits := fun s op => op.disturbs s = false
  inv := Copied start
  rely := fun
    | .embedded => Grown
    | _ => fun _ _ => True
  guar := fun
    | .embedded => fun _ _ => True
    | _ => Grown
  knows := fun
    | .embedded => fun _ => Settles
    | _ => fun _ _ => True

theorem workerProtocol_sound (start : Db) (distinct : auths.Nodup) :
    (workerProtocol start auths).Sound where
  lawful := by
    intro i
    cases i with
    | embedded => exact workerTerms_lawful start
    | _ => exact ⟨fun _ => trivial, fun _ _ _ _ _ => trivial⟩
  stable := by
    intro i memory s s' knows related copied
    cases i with
    | embedded => exact settles_stable s s' related copied knows
    | _ => trivial
  compatible := by
    intro i j s s' other guarantee
    cases j with
    | embedded =>
      cases i with
      | embedded => exact absurd rfl other
      | conn | client | admin => exact guarantee
    | _ => trivial
  body := by
    intro i call memory p s found knows
    have calms : ∀ (rely : World Empty → World Empty → Prop), p.Only Op.Calm →
        wp exec ⟨fun s op => op.disturbs s = false, Copied start, rely, Grown⟩ p
          (fun _ _ => True) s := by
      intro rely only
      refine wp_only only (fun _ _ _ _ _ => trivial) trivial ?_
      intro s op copied _ quiet calm fate result s' done
      obtain ⟨kept, grown⟩ := calm_step copied calm quiet done
      exact ⟨kept, grown, trivial⟩
    cases i with
    | client c => exact nomatch c
    | conn n => exact calms _ ((connBody_only found).mono fun _ => Op.Plain.calm)
    | admin n =>
      cases found
      exact calms _ ((adminBody_only n call).mono fun _ => Op.Plain.calm)
    | embedded =>
      cases found
      refine wp_seq (workerTerms_lawful start) (wp_syncEmbeddedTrafficOnce distinct knows) ?_
      intro _ s _ settled
      exact wp_value settles_stable settled
  boot := by
    intro s s' _ kept
    cases kept

theorem Copied.initial (db : Db) : Copied db (World.initial .absent db : World Empty) := by
  refine ⟨(Inv.initial .absent db).balanced, fun h d => ⟨?_, rfl, rfl⟩, rfl, ?_⟩
  · simp [World.initial, held, batched, inFlight, Disk.content, State.normalize]
  · intro h u named row
    refine ⟨u, row, fun d => ?_⟩
    simp [World.initial]

/-- In every run of connections and the worker, with any failures of its transactions: no
subtraction saturates, and for every user with a row the row and the counters together hold the
initial total and all bytes added, plus what is committed and not yet subtracted, which is
nothing between two rounds, plus what was committed although the transaction reported an error. -/
theorem embedded_sync_conserves_traffic (auths : List Nat) (distinct : auths.Nodup) (db : Db)
    (labels : (adminServer auths).Labels) (c : (adminServer auths).State)
    (meets : (adminServer auths).MeetsFrom (fun s op => op.disturbs s = false)
      (World.initial .absent db) labels)
    (ran : (adminServer auths).runFrom (World.initial .absent db) labels = some c) :
    c.shared.saturated = false ∧
    (∀ h u₀, h ≠ "" → rowOf db h = some u₀ → ∃ u, rowOf c.shared.db h = some u ∧
      ∀ d, stored u d + c.shared.live h d =
        stored u₀ d + c.shared.counted h d + c.shared.owed h d + c.shared.repeated h d) ∧
    ∀ memory, c.threads .embedded = .idle memory → ∀ h d, c.shared.owed h d = 0 := by
  have initial : (workerProtocol db auths).Good
      ((adminServer auths).boot (World.initial .absent db)) := by
    constructor
    · exact Copied.initial db
    · intro i
      cases i with
      | embedded => exact fun _ _ => rfl
      | _ => trivial
  have good := initial.run (workerProtocol_sound db distinct) meets ran
  have copied : Copied db c.shared := good.inv
  refine ⟨copied.exact, ?_, ?_⟩
  · intro h u₀ named row₀
    obtain ⟨u, row, total⟩ := copied.rows h u₀ named row₀
    refine ⟨u, row, fun d => ?_⟩
    have balance := copied.balanced h d
    obtain ⟨taken, gone, lost⟩ := copied.counters h d
    rw [total]
    omega
  · intro memory idle
    have settled := good.threads .embedded
    rw [idle] at settled
    exact settled

/-! A user of two authenticators moves 7 and 3 bytes up; 5 more bytes arrive between the
transaction and the subtractions. -/

def twoAuths : List (Label (Actor Empty) Call Fate) :=
  ([(0, 7), (1, 3)].flatMap fun (n, bytes) =>
    joins n "u" ++ moves n 0 bytes) ++
  [.enter .embedded ()] ++ List.replicate 3 (.step .embedded { order := [0] }) ++
  List.replicate 4 (.step .embedded { order := [1] }) ++
  moves 0 0 5 ++ List.replicate 8 (.step .embedded {}) ++ [.leave .embedded]

def oneUser (hash : String) : Db where
  users := [{ id := 1, hash := hash }]
  userIndex := List.nodup_singleton hash

theorem two_authenticators_conserved :
    ∃ c, (adminServer [0, 1]).runFrom (World.initial .absent (oneUser "u")) twoAuths = some c ∧
      c.shared.counted "u" .up = 15 ∧ c.shared.live "u" .up = 5 ∧
      c.shared.saturated = false ∧ ∃ u, rowOf c.shared.db "u" = some u ∧ stored u .up = 10 := by
  refine Machine.run_witness (fun c => c.shared.counted "u" .up = 15 ∧ c.shared.live "u" .up = 5 ∧
    c.shared.repeated "u" .up = 0 ∧ (c.threads .embedded).memory.isSome = true) (by decide +kernel) ?_
  rintro c ran ⟨counted, live, reported, idle⟩
  obtain ⟨exact, rows, settled⟩ := embedded_sync_conserves_traffic [0, 1] (by decide)
    (oneUser "u") twoAuths c (by decide +kernel) ran
  obtain ⟨u, row, total⟩ := rows "u" { id := 1, hash := "u" } (by decide) (by decide)
  refine ⟨counted, live, exact, u, row, ?_⟩
  cases thread : c.threads .embedded with
  | running rest =>
    rw [thread] at idle
    cases idle
  | idle memory =>
    have sum := total .up
    have owed := settled memory thread "u" .up
    simp only [stored] at sum ⊢
    omega

/-! What conservation cannot do without: a counter that wraps around forgets 2^64 bytes, the
transaction skips a user without a hash, whose bytes are subtracted nevertheless, and bytes that
were stored by a transaction that reports an error are stored again. -/

def wrapsAround : List (Label (Actor Empty) Call Fate) :=
  joins 0 "u" ++ [2 ^ 63 - 1, 2 ^ 63 - 1, 2].flatMap (moves 0 0)

def sevenBytes (hash : String) : List (Label (Actor Empty) Call Fate) :=
  joins 0 hash ++ moves 0 0 7

def round : List (Label (Actor Empty) Call Fate) :=
  [.enter .embedded ()] ++ List.replicate 8 (.step .embedded { order := [0] }) ++ [.leave .embedded]

/-- A round whose transaction is committed and reported as failed. -/
def unreported : List (Label (Actor Empty) Call Fate) :=
  [.enter .embedded ()] ++ List.replicate 3 (.step .embedded { order := [0] }) ++
    [.step .embedded { ok := false, after := true }, .leave .embedded]

theorem wrapped_and_unnamed_traffic_missing :
    (∃ c, (adminServer [0]).runFrom (World.initial .absent (oneUser "u")) wrapsAround = some c ∧
      (c.threads .embedded).memory.isSome = true ∧
      c.shared.counted "u" .up = 2 ^ 64 ∧ c.shared.live "u" .up = 0 ∧
      (rowOf c.shared.db "u").map (stored · .up) = some 0) ∧
    (∃ c, (adminServer [0]).runFrom (World.initial .absent (oneUser "")) (sevenBytes "" ++ round) =
      some c ∧ (c.threads .embedded).memory.isSome = true ∧
      c.shared.counted "" .up = 7 ∧ c.shared.live "" .up = 0 ∧
      (rowOf c.shared.db "").map (stored · .up) = some 0) ∧
    ∃ c, (adminServer [0]).runFrom (World.initial .absent (oneUser "u"))
      (sevenBytes "u" ++ unreported ++ round) = some c ∧
      (c.threads .embedded).memory.isSome = true ∧
      c.shared.counted "u" .up = 7 ∧ c.shared.live "u" .up = 0 ∧
      (rowOf c.shared.db "u").map (stored · .up) = some 14 := by
  refine ⟨?_, ?_, ?_⟩
  · exact Machine.run_checked (by decide +kernel)
  · exact Machine.run_checked (by decide +kernel)
  · exact Machine.run_checked (by decide +kernel)

end TrojanGo.Plane
