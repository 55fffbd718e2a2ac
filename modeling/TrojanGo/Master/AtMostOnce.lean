import TrojanGo.Master.Handlers

/-!
# Every batch is accounted for at most once

Along every run the user rows are the initial rows plus the increments of the accounted batches;
a key whose receipt was not purged has at most one.
-/
namespace TrojanGo.Master

open Lib List

/-- What a list of increments adds to one row. -/
def Increments.shareOf (increments : Increments) (u : User) : TrafficIncrement :=
  (increments.map fun entry => share entry.1 entry.2 u).sum

/-- What a list of accounted batches adds to one row. -/
def totalOf (accounted : List Accounted) (u : User) : TrafficIncrement :=
  (accounted.map fun batch => batch.increments.shareOf u).sum

@[simp] theorem share_credit (hash : String) (increment other : TrafficIncrement) (u : User) :
    share hash increment (u.credit other) = share hash increment u := rfl

@[simp] theorem shareOf_credit (increments : Increments) (other : TrafficIncrement) (u : User) :
    increments.shareOf (u.credit other) = increments.shareOf u := by
  simp [Increments.shareOf]

variable {db : Db}

variable {db' : Db} {increments : Increments} {entries : List (Σ _ : String, Traffic)}
  {key : Source × String} {fate : Fate}

theorem persistTrafficIncrements_ok
    (persisted : persistTrafficIncrements increments db = .ok ((), db')) :
    db'.users = db.users.map (fun u => u.credit (increments.shareOf u)) ∧
      db'.nodes = db.nodes ∧ db'.nodeReceipts = db.nodeReceipts ∧
      db'.dataPlaneReceipts = db.dataPlaneReceipts := by
  induction increments generalizing db with
  | nil =>
    cases persisted
    simp [Increments.shareOf]
  | cons entry rest ih =>
    obtain ⟨hash, increment⟩ := entry
    simp only [persistTrafficIncrements, bind, StateT.bind, Except.bind] at persisted
    split at persisted
    · cases persisted
    next done first =>
      obtain ⟨rows, nodes, nodeReceipts, dataPlaneReceipts⟩ := persistTrafficIncrement_ok first
      obtain ⟨rows', nodes', nodeReceipts', dataPlaneReceipts'⟩ := ih persisted
      refine ⟨?_, nodes'.trans nodes, nodeReceipts'.trans nodeReceipts,
        dataPlaneReceipts'.trans dataPlaneReceipts⟩
      rw [rows', rows, map_map]
      apply map_congr_left
      intro u _
      simp [Increments.shareOf, User.credit_add]

/-- How a transaction that creates receipts under `key` acts on the set of receipts. -/
structure CreatesReceipt (create : Tx Bool) (key : Source × String) : Prop where
  present : ∀ db, key ∈ db.receipts → create db = .ok (false, db)
  absent : ∀ db, key ∉ db.receipts → ∃ db', create db = .ok (true, db') ∧
    db'.users = db.users ∧ db'.nodes = db.nodes ∧ db'.receipts.Perm (key :: db.receipts)

theorem mem_receipts_node {nodeID : Nat} {syncID : String} :
    (Source.node nodeID, syncID) ∈ db.receipts ↔
      (nodeID, syncID) ∈ db.nodeReceipts.map NodeSyncReceipt.key := by
  simp [Db.receipts, NodeSyncReceipt.key]

theorem mem_receipts_dataPlane {syncID : String} :
    (Source.dataPlane, syncID) ∈ db.receipts ↔
      syncID ∈ db.dataPlaneReceipts.map DataPlaneSyncReceipt.syncID := by
  simp [Db.receipts]

theorem createsReceipt_node (now : Time) (nodeID : Nat) (syncID : String) :
    CreatesReceipt (firstOrCreateNodeSyncReceipt now nodeID syncID) (.node nodeID, syncID) where
  present := by
    intro db mem
    rw [mem_receipts_node] at mem
    simp only [firstOrCreateNodeSyncReceipt, mem, not_true, dite_false]
  absent := by
    intro db missing
    rw [mem_receipts_node] at missing
    simp only [firstOrCreateNodeSyncReceipt, missing, not_false_iff, dite_true]
    exact ⟨_, rfl, rfl, rfl, List.Perm.refl _⟩

theorem createsReceipt_dataPlane (now : Time) (syncID : String) :
    CreatesReceipt (firstOrCreateDataPlaneSyncReceipt now syncID) (.dataPlane, syncID) where
  present := by
    intro db mem
    rw [mem_receipts_dataPlane] at mem
    simp only [firstOrCreateDataPlaneSyncReceipt, mem, not_true, dite_false]
  absent := by
    intro db missing
    rw [mem_receipts_dataPlane] at missing
    simp only [firstOrCreateDataPlaneSyncReceipt, missing, not_false_iff, dite_true]
    exact ⟨_, rfl, rfl, rfl, perm_middle⟩

variable {create : Tx Bool} {rate : Binary64}

/-- The batch was new: its receipt was created and its increments were added. -/
structure Adds (key : Source × String) (rate : Binary64) (entries : List (Σ _ : String, Traffic))
    (increments : Increments) (db db' : Db) : Prop where
  fresh : key ∉ db.receipts
  converted : trafficIncrements rate entries = .ok increments
  stored : ∃ mid, mid.users = db.users ∧ persistTrafficIncrements increments mid = .ok ((), db')
  users : db'.users = db.users.map fun u => u.credit (increments.shareOf u)
  nodes : db'.nodes = db.nodes
  receipts : db'.receipts.Perm (key :: db.receipts)

theorem accountBatch_ok (creates : CreatesReceipt create key)
    (committed : accountBatch create rate entries db = .ok ((), db')) :
    (key ∈ db.receipts ∧ db' = db) ∨ ∃ increments, Adds key rate entries increments db db' := by
  by_cases found : key ∈ db.receipts
  · left
    have skipped := creates.present db found
    simp only [accountBatch, bind, StateT.bind, Except.bind, skipped] at committed
    cases committed
    exact ⟨found, rfl⟩
  · right
    obtain ⟨mid, created, users, nodes, receipts⟩ := creates.absent db found
    simp only [accountBatch, bind, StateT.bind, Except.bind, created, if_true, liftM,
      monadLift, MonadLift.monadLift, StateT.lift] at committed
    cases converted : trafficIncrements rate entries with rw [converted] at committed
    | error reason => cases committed
    | ok increments =>
      obtain ⟨rows, sameNodes, nodeReceipts, dataPlaneReceipts⟩ :=
        persistTrafficIncrements_ok committed
      refine ⟨increments, found, converted, ⟨mid, users, committed⟩, by rw [rows, users],
        sameNodes.trans nodes, ?_⟩
      simpa only [Db.receipts, nodeReceipts, dataPlaneReceipts] using receipts

/-! ### What one statement can do -/

variable {w w' : World}

/-- What a new batch makes of the state. -/
def World.credited (w : World) (db : Db) (batch : Batch) (rate : Binary64)
    (increments : Increments) : World :=
  { w with
    db := db
    received := batch :: w.received
    accounted := ⟨batch.source, batch.syncID, rate, increments⟩ :: w.accounted }

/-- A delivered batch is answered with success only if its receipt is there afterwards. -/
theorem account_cases {batch : Batch} (creates : CreatesReceipt create batch.key)
    {result : Except TxError Unit}
    (done : w.account fate batch rate (accountBatch create rate batch.entries) = (result, w')) :
    (w' = { w with received := batch :: w.received } ∧
        (result = .ok () → batch.key ∈ w.db.receipts)) ∨
      ∃ db increments, Adds batch.key rate batch.entries increments w.db db ∧
        w' = w.credited db batch rate increments := by
  simp only [World.account] at done
  split at done
  next reason failed =>
    cases done
    exact .inl ⟨rfl, nofun⟩
  next db committed =>
    rcases accountBatch_ok creates committed with ⟨found, rfl⟩ | ⟨increments, adds⟩
    · simp only [found, if_true, nil_append] at done
      split at done
      · cases done
        exact .inl ⟨rfl, fun _ => found⟩
      · split at done <;> cases done <;> exact .inl ⟨rfl, nofun⟩
    · simp only [adds.fresh, if_false, adds.converted, cons_append, nil_append] at done
      split at done
      · cases done
        exact .inr ⟨db, increments, adds, rfl⟩
      · split at done
        · cases done
          exact .inr ⟨db, increments, adds, rfl⟩
        · cases done
          exact .inl ⟨rfl, nofun⟩

@[simp] theorem saveNode_users (db : Db) (node : Node) : (db.saveNode node).users = db.users := by
  unfold Db.saveNode
  split <;> rfl

@[simp] theorem saveNode_receipts (db : Db) (node : Node) :
    (db.saveNode node).receipts = db.receipts := by
  unfold Db.saveNode
  split <;> rfl

variable {fingerprint : String → String}

/-- Everything a statement of the handlers can do. -/
inductive Effect (w : World) : Op → World → Prop where
  | same {op : Op} : Effect w op w
  | saves (node : Node) : Effect w (.saveNode node) { w with db := w.db.saveNode node }
  | receives {op : Op} (batch : Batch) : Effect w op { w with received := batch :: w.received }
  | adds {op : Op} {db : Db} {batch : Batch} {rate : Binary64} {increments : Increments}
      (adds : Adds batch.key rate batch.entries increments w.db db) :
      Effect w op (w.credited db batch rate increments)
  | purges {op : Op} {db : Db} (users : db.users = w.db.users) (nodes : db.nodes = w.db.nodes)
      (kept : db.receipts.Sublist w.db.receipts) : Effect w op { w with
        db := db
        purged := (w.db.receipts.filter fun key => key ∉ db.receipts) ++ w.purged }
  | answers (request : Request) (answer : Answer) :
      Effect w (.respond request answer) { w with answered := (request, answer) :: w.answered }

theorem purge_effect {op : Op} (users : db.users = w.db.users) (nodes : db.nodes = w.db.nodes)
    (kept : db.receipts.Sublist w.db.receipts) : Effect w op (w.purge fate db).2 := by
  unfold World.purge
  dsimp only
  split
  · exact .purges users nodes kept
  · exact .same

theorem exec_effect {op : Op} {result : Res op}
    (done : exec fingerprint fate w op = some (result, w')) : Effect w op w' := by
  cases op with
  | now | nodeBySecret | activeUsers =>
    cases done
    exact .same
  | respond request answer =>
    cases done
    exact .answers request answer
  | saveNode node => grind [exec, intro Effect]
  | nodeTraffic node syncID traffic =>
    rcases account_cases (createsReceipt_node fate.time node.id syncID) (Option.some.inj done) with
      ⟨rfl, -⟩ | ⟨db, increments, adds, rfl⟩
    · exact .receives _
    · exact .adds adds
  | dataPlaneTraffic syncID traffic =>
    rcases account_cases (createsReceipt_dataPlane fate.time syncID) (Option.some.inj done) with
      ⟨rfl, -⟩ | ⟨db, increments, adds, rfl⟩
    · exact .receives _
    · exact .adds adds
  | cleanupNodeReceipts now =>
    obtain rfl : _ = w' := congrArg Prod.snd (Option.some.inj done)
    exact purge_effect rfl rfl (List.Sublist.append (filter_sublist.map _) (List.Sublist.refl _))
  | cleanupDataPlaneReceipts now =>
    obtain rfl : _ = w' := congrArg Prod.snd (Option.some.inj done)
    exact purge_effect rfl rfl (List.Sublist.append (List.Sublist.refl _) (filter_sublist.map _))

/-! ### The ledger invariant -/

theorem receipts_nodup (db : Db) : db.receipts.Nodup := by
  have nodes : (db.nodeReceipts.map fun r => (Source.node r.nodeID, r.syncID)).Nodup := by
    have keyed := db.nodeReceiptIndex.map
      (f := fun key : Nat × String => (Source.node key.1, key.2)) (by
        intro a b same
        simp only [Prod.mk.injEq, Source.node.injEq] at same
        exact Prod.ext same.1 same.2)
    simpa [NodeSyncReceipt.key, Function.comp_def] using keyed
  have planes : (db.dataPlaneReceipts.map fun r => (Source.dataPlane, r.syncID)).Nodup := by
    have keyed := db.dataPlaneReceiptIndex.map
      (f := fun key : String => (Source.dataPlane, key)) (by
        intro a b same
        exact (Prod.mk.injEq _ _ _ _ ▸ same).2)
    simpa [Function.comp_def] using keyed
  refine nodup_append.mpr ⟨nodes, planes, ?_⟩
  intro a left b right same
  simp only [mem_map] at left right
  obtain ⟨r, _, rfl⟩ := left
  obtain ⟨q, _, rfl⟩ := right
  cases same

/-- How the counters, the receipts and the history fit together, relative to the database
the run started from. -/
structure Ledger (start : Db) (w : World) : Prop where
  rows : w.db.users = start.users.map fun u => u.credit (totalOf w.accounted u)
  origin : ∀ a ∈ w.accounted, ∃ b ∈ w.received, b.key = a.key ∧
    trafficIncrements a.rate b.entries = .ok a.increments
  counts : ∀ key, key ∉ w.purged →
    (w.accounted.map Accounted.key).count key + start.receipts.count key = w.db.receipts.count key
  receipted : ∀ key ∈ w.db.receipts, key ∈ w.accounted.map Accounted.key ∨ key ∈ start.receipts

theorem Ledger.start (db : Db) : Ledger db { db := db } where
  rows := by simp [totalOf]
  origin := by simp
  counts := by simp
  receipted := fun _ mem => .inr mem

variable {start : Db}

section

variable (ledger : Ledger start w)

include ledger

theorem Ledger.adds {batch : Batch}
    (adds : Adds batch.key rate batch.entries increments w.db db) :
    Ledger start (w.credited db batch rate increments) where
  rows := by
    rw [World.credited, adds.users, ledger.rows, map_map]
    apply map_congr_left
    intro u _
    simp only [Function.comp_apply, shareOf_credit, totalOf, map_cons, sum_cons]
    rw [add_comm, User.credit_add]
  origin := by
    intro a mem
    rcases mem_cons.mp mem with rfl | mem
    · exact ⟨batch, mem_cons_self, rfl, adds.converted⟩
    · obtain ⟨b, known, same⟩ := ledger.origin a mem
      exact ⟨b, mem_cons_of_mem batch known, same⟩
  counts := by
    intro key kept
    have before := ledger.counts key kept
    simp only [World.credited, map_cons, count_cons, adds.receipts.count_eq, Accounted.key,
      Batch.key, beq_iff_eq]
    omega
  receipted := by
    intro key mem
    rw [World.credited, map_cons, mem_cons, or_assoc]
    exact (mem_cons.mp (adds.receipts.mem_iff.mp mem)).imp_right (ledger.receipted key)

theorem Ledger.purges (users : db.users = w.db.users)
    (kept : db.receipts.Sublist w.db.receipts) : Ledger start { w with
      db := db
      purged := (w.db.receipts.filter fun key => key ∉ db.receipts) ++ w.purged } where
  rows := users.trans ledger.rows
  origin := ledger.origin
  counts := by
    intro key unpurged
    simp only [mem_append, mem_filter, decide_eq_true_eq, not_or, not_and, not_not] at unpurged
    obtain ⟨stays, before⟩ := unpurged
    rw [ledger.counts key before]
    -- both tables are free of duplicates, so equal membership is equal count
    by_cases mem : key ∈ w.db.receipts
    · rw [count_eq_one_of_mem (receipts_nodup w.db) mem,
        count_eq_one_of_mem (receipts_nodup db) (stays mem)]
    · have gone : key ∉ db.receipts := fun found => mem (kept.subset found)
      rw [count_eq_zero_of_not_mem mem, count_eq_zero_of_not_mem gone]
  receipted := fun key mem => ledger.receipted key (kept.subset mem)

theorem Ledger.exec {op : Op} {result : Res op}
    (done : exec fingerprint fate w op = some (result, w')) : Ledger start w' := by
  cases exec_effect done with
  | same => exact ledger
  | saves node =>
    refine ⟨?_, ledger.origin, ?_, ?_⟩
    · simpa using ledger.rows
    · simpa using ledger.counts
    · simpa using ledger.receipted
  | receives batch =>
    refine { ledger with origin := fun a mem => ?_ }
    obtain ⟨b, known, same⟩ := ledger.origin a mem
    exact ⟨b, mem_cons_of_mem _ known, same⟩
  | adds adds => exact ledger.adds adds
  | purges users _ kept => exact ledger.purges users kept
  | answers => exact { ledger with }

end

/-- The ledger invariant holds in every state of every run. -/
theorem Ledger.run {labels : (machine fingerprint).Labels} {c : (machine fingerprint).State}
    (ran : (machine fingerprint).runFrom { db := db } labels = some c) :
    Ledger db c.shared := by
  have meets : (machine fingerprint).MeetsFrom (fun _ _ => True) { db := db } labels :=
    Machine.runMeets_of_admits (fun _ _ => trivial) _ labels
  refine Machine.run_invariant (Ledger db) ?_ ?_ (Ledger.start db) meets ran
  · intro fate w op result w' ledger _ done
    exact ledger.exec done
  · intro w w' ledger kept
    cases kept
    exact ledger

/-- A sync ID is always sent by the same sender with the same content. -/
def SameBatches (received : List Batch) : Prop :=
  ∀ a ∈ received, ∀ b ∈ received, a.syncID = b.syncID →
    a.source = b.source ∧ a.traffic.entries.Perm b.traffic.entries

theorem Ledger.count_le_one (ledger : Ledger start w) (key : Source × String)
    (kept : key ∉ w.purged) :
    (w.accounted.map Accounted.key).count key + start.receipts.count key ≤ 1 := by
  rw [ledger.counts key kept]
  exact nodup_iff_count_le_one.mp (receipts_nodup w.db) key

/-- Entries of one sync ID that all have one sender are counted by their key. -/
private theorem length_filter_syncID {accounted : List Accounted} (key : Source × String)
    (same : ∀ a ∈ accounted, a.syncID = key.2 → a.key = key) :
    (accounted.filter fun a => a.syncID = key.2).length =
      (accounted.map Accounted.key).count key := by
  induction accounted with
  | nil => rfl
  | cons a rest ih =>
    have tail := ih fun b mem => same b (mem_cons_of_mem a mem)
    rw [map_cons, count_cons, ← tail]
    by_cases equal : a.syncID = key.2
    · have head := same a mem_cons_self equal
      simp [equal, head]
    · have other : a.key ≠ key := fun h => equal (congrArg Prod.snd h)
      simp [equal, other]

/-- For every schedule of deliveries to the two traffic handlers and of the receipt cleanup,
the user rows are the initial rows plus the increments of the accounted batches; every
accounted batch was received, with exactly its own increments; and a sync ID whose receipt
was not purged is accounted for at most once, and not at all if it already had a receipt. -/
theorem batches_accounted_at_most_once (fingerprint : String → String) (db : Db)
    (labels : (machine fingerprint).Labels) (c : (machine fingerprint).State)
    (ran : (machine fingerprint).runFrom { db := db } labels = some c)
    (same : SameBatches c.shared.received) :
    c.shared.db.users = db.users.map (fun u => u.credit (totalOf c.shared.accounted u)) ∧
      (∀ a ∈ c.shared.accounted, ∃ b ∈ c.shared.received, b.key = a.key ∧
        trafficIncrements a.rate b.entries = .ok a.increments) ∧
      ∀ syncID, (∀ key ∈ c.shared.purged, key.2 ≠ syncID) →
        (c.shared.accounted.filter fun a => a.syncID = syncID).length ≤ 1 ∧
          ∀ a ∈ c.shared.accounted, a.syncID = syncID → a.key ∉ db.receipts := by
  have ledger := Ledger.run ran
  refine ⟨ledger.rows, ledger.origin, ?_⟩
  intro syncID unpurged
  have kept : ∀ source, (source, syncID) ∉ c.shared.purged :=
    fun source mem => unpurged _ mem rfl
  constructor
  · -- all accounted batches of this sync ID were received from one sender
    cases found : c.shared.accounted.filter fun a => a.syncID = syncID with
    | nil => simp
    | cons first rest =>
      have mem : first ∈ c.shared.accounted.filter fun a => a.syncID = syncID := by simp [found]
      rw [mem_filter, decide_eq_true_eq] at mem
      obtain ⟨b, received, key, _⟩ := ledger.origin first mem.1
      have shared : ∀ a ∈ c.shared.accounted, a.syncID = syncID → a.key = (first.source, syncID) := by
        intro a accounted equal
        obtain ⟨b', received', key', _⟩ := ledger.origin a accounted
        simp only [Batch.key, Accounted.key, Prod.mk.injEq] at key key' ⊢
        have sources := (same b' received' b received (by
          rw [key'.2, key.2, equal, mem.2])).1
        exact ⟨by rw [← key'.1, sources, key.1], equal⟩
      have length := length_filter_syncID (first.source, syncID) shared
      have bound := ledger.count_le_one _ (kept first.source)
      simp only at length
      rw [← found, length]
      omega
  · intro a accounted equal present
    have unique := ledger.count_le_one a.key (by
      rw [Accounted.key, equal]
      exact kept a.source)
    have counted := count_pos_iff.mpr (mem_map_of_mem (f := Accounted.key) accounted)
    have receipt := count_pos_iff.mpr present
    omega

instance (received : List Batch) : Decidable (SameBatches received) :=
  inferInstanceAs (Decidable (∀ a ∈ received, ∀ b ∈ received, _ → _))

/-- A batch delivered twice, the second time while the first is still being answered. -/
theorem duplicate_delivery_accounted_once :
    let request : Request := .nodeSync ⟨"secret", "id", "", ⟨some (AList.singleton "u" ⟨5, 7⟩), 60⟩⟩
    let db : Db := { users := [{ id := 1, hash := "u" }], nodes := [{ id := 3, secretHash := "secret" }] }
    let labels : (machine id).Labels :=
      [.enter 0 (.request request), .enter 1 (.request request)] ++
        (List.replicate 4 [.step 0 {}, .step 1 {}]).flatten
    ∃ c, (machine id).runFrom { db := db } labels = some c ∧
      c.shared.received.length = 2 ∧
      c.shared.db.users = [{ id := 1, hash := "u", upload := 5, download := 7, used := 12 }] ∧
      (c.shared.accounted.filter fun a => a.syncID = "id").length ≤ 1 := by
  intro request db labels
  refine Machine.run_witness (fun c => SameBatches c.shared.received ∧ c.shared.purged = [] ∧
    c.shared.received.length = 2 ∧ c.shared.db.users =
      [{ id := 1, hash := "u", upload := 5, download := 7, used := 12 }]) (by decide +kernel) ?_
  rintro c ran ⟨same, purged, length, users⟩
  refine ⟨length, users, ?_⟩
  exact ((batches_accounted_at_most_once id db labels c ran same).2.2 "id" (by simp [purged])).1

end TrojanGo.Master
