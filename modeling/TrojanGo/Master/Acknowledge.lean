import TrojanGo.Master.AtMostOnce
import TrojanGo.NodeSync.Wire
import Mathlib.Algebra.Order.BigOperators.Group.List
import Mathlib.Algebra.Group.Action.Defs

/-!
# What an acknowledged batch means

`handleNodeSync` treats a body it cannot decode like one without traffic, and the reader in front
of it cuts bodies off at `maxAdminRequestBody`.
-/
namespace TrojanGo.Master

open Lib NodeSync List

/-- A frozen batch as the outbox validates it. -/
structure FrozenBatch where
  syncID : String
  traffic : TrafficMap
  identified : syncID ≠ ""
  nonempty : traffic.entries ≠ []
  named : "" ∉ traffic
  counted : ∀ entry ∈ traffic.entries, entry.2 ≠ 0

/-- The answer as it arrives at the worker. Errors decode to an empty user list. -/
def Answer.response : Answer → Response
  | .error status _ => ⟨status, some []⟩
  | .users hashes => ⟨200, some hashes⟩
  | .ok => ⟨200, some []⟩

/-- The answer makes `performSync` discard the batch it sent. -/
def Answer.acknowledges (answer : Answer) : Prop :=
  ∃ users, checkResponse answer.response = .ok users

/-- The request carries the batch: under its sync ID, in the text `performSync` writes, and
decoding to the same map. -/
def FrozenBatch.SentBy (batch : FrozenBatch) (request : NodeSyncRequest) : Prop :=
  request.syncID = batch.syncID ∧ request.body.extent = requestSize batch.traffic ∧
    ∃ decoded, request.body.traffic = some decoded ∧
      decoded.entries.Perm batch.traffic.entries

/-- The master has committed the batch's transaction: it holds the receipt, unless the
cleanup has removed it since, and every row includes the increments of all entries. -/
def FrozenBatch.CommittedIn (batch : FrozenBatch) (start : Db) (w : World) : Prop :=
  ∃ a ∈ w.accounted, (∃ id, a.key = (.node id, batch.syncID)) ∧
    (a.key ∈ w.db.receipts ∨ a.key ∈ w.purged) ∧
    (∀ entry ∈ batch.traffic.entries, ∃ increment,
      newTrafficIncrement entry.2.up entry.2.down a.rate = .ok increment ∧
      (entry.1, increment) ∈ a.increments) ∧
    w.db.users = start.users.map fun u => u.credit (totalOf w.accounted u)

/-! ### What answers tell -/

/-- The batch was received and is accounted for, in this run or before it. -/
def Settled (start : Db) (w : World) (batch : Batch) : Prop :=
  batch ∈ w.received ∧ (batch.key ∈ w.accounted.map Accounted.key ∨ batch.key ∈ start.receipts)

/-- If the request's body decodes to a batch, that batch is settled for some node. -/
def RequestSettled (start : Db) (request : NodeSyncRequest) (w : World) : Prop :=
  ∀ traffic, request.body.bind = some traffic → traffic.entries ≠ [] →
    ∃ id, Settled start w ⟨.node id, request.syncID, traffic⟩

/-- Nodes got acknowledging answers only for settled requests. -/
def Answered (start : Db) (w : World) : Prop :=
  ∀ request answer, (Request.nodeSync request, answer) ∈ w.answered → answer.acknowledges →
    RequestSettled start request w

/-- The history only grows. -/
structure Grows (w w' : World) : Prop where
  received : ∀ b ∈ w.received, b ∈ w'.received
  accounted : ∀ a ∈ w.accounted, a ∈ w'.accounted

theorem Grows.refl (w : World) : Grows w w := ⟨fun _ => id, fun _ => id⟩

variable {w w' : World}

theorem Grows.trans {w'' : World} (first : Grows w w') (second : Grows w' w'') :
    Grows w w'' :=
  ⟨fun b known => second.received b (first.received b known),
    fun a known => second.accounted a (first.accounted a known)⟩

variable {start : Db} {fingerprint : String → String} {entry : Σ _ : String, Traffic}

theorem Settled.grows {batch : Batch} (settled : Settled start w batch) (grows : Grows w w') :
    Settled start w' batch := by
  refine ⟨grows.received batch settled.1, settled.2.imp ?_ id⟩
  intro mem
  obtain ⟨a, accounted, key⟩ := mem_map.mp mem
  exact mem_map.mpr ⟨a, grows.accounted a accounted, key⟩

variable {request : NodeSyncRequest}

theorem RequestSettled.grows (settled : RequestSettled start request w) (grows : Grows w w') :
    RequestSettled start request w' := by
  intro traffic decoded nonempty
  obtain ⟨id, known⟩ := settled traffic decoded nonempty
  exact ⟨id, known.grows grows⟩

theorem exec_grows {fate : Fate} {op : Op} {result : Res op}
    (done : exec fingerprint fate w op = some (result, w')) :
    Grows w w' := by
  cases exec_effect done with
  | receives => exact ⟨fun _ => mem_cons_of_mem _, fun _ => id⟩
  | adds => exact ⟨fun _ => mem_cons_of_mem _, fun _ => mem_cons_of_mem _⟩
  | _ => exact ⟨fun _ => id, fun _ => id⟩

theorem exec_answered {fate : Fate} {op : Op} {result : Res op}
    (done : exec fingerprint fate w op = some (result, w')) :
    w'.answered = w.answered ∨ ∃ request answer, op = .respond request answer ∧
      w'.answered = (request, answer) :: w.answered := by
  cases exec_effect done with
  | answers request answer => exact .inr ⟨request, answer, rfl, rfl⟩
  | _ => exact .inl rfl

/-- The threads promise each other that the history only grows, and that a node gets an
acknowledging answer only once its batch is settled. -/
def protocol (fingerprint : String → String) (start : Db) :
    Machine.Protocol (machine fingerprint) where
  admits := fun _ _ => True
  inv := fun w => Ledger start w ∧ Answered start w
  rely := fun _ => Grows
  guar := fun _ => Grows
  knows := fun _ _ _ => True

section Handlers

variable {fingerprint : String → String} {start : Db}

/-- A handler whose remaining statements keep the protocol. -/
def Safe (fingerprint : String → String) (start : Db) (p : Handler Unit) (w : World) : Prop :=
  p.wp (exec fingerprint) ((protocol fingerprint start).contract 0) (fun _ _ => True) w

theorem safe_ask {op : Op} {next : Res op → Handler Unit}
    (allowed : ∀ w', Grows w w' → ∀ request answer, op = .respond (.nodeSync request) answer →
      answer.acknowledges → RequestSettled start request w')
    (rest : ∀ w' w'' fate result, Grows w w' → Ledger start w' →
      exec fingerprint fate w' op = some (result, w'') → Safe fingerprint start (next result) w'') :
    Safe fingerprint start (ask op >>= next) w := by
  refine Prog.wp_ask ?_
  intro w' grows inv _ fate result w'' done
  obtain ⟨ledger, answered⟩ := inv
  have grown := exec_grows done
  refine ⟨⟨ledger.exec done, ?_⟩, grown, rest w' w'' fate result grows ledger done⟩
  intro request answer mem acknowledges
  rcases exec_answered done with same | ⟨request', answer', rfl, added⟩
  · rw [same] at mem
    exact (answered request answer mem acknowledges).grows grown
  · rw [added, mem_cons, Prod.mk.injEq] at mem
    rcases mem with ⟨rfl, rfl⟩ | before
    · exact (allowed w' grows request answer rfl acknowledges).grows grown
    · exact (answered request answer before acknowledges).grows grown

/-- The last statement of a handler is its answer. -/
theorem safe_answer {request : Request} {answer : Answer}
    (allowed : ∀ w', Grows w w' → ∀ node, request = .nodeSync node → answer.acknowledges →
      RequestSettled start node w') :
    Safe fingerprint start (respond request answer) w := by
  have last : respond request answer = ask (.respond request answer) >>= fun _ => pure () := rfl
  rw [last]
  refine safe_ask ?_ fun _ _ _ _ _ _ _ _ _ _ => trivial
  intro w' grows node answer' same acknowledges
  simp only [Op.respond.injEq] at same
  exact allowed w' grows node same.1 (same.2 ▸ acknowledges)

/-- An error never acknowledges anything. -/
theorem safe_error {request : Request} {status : Nat} {text : String} (failed : status ≠ 200)
    (w : World) : Safe fingerprint start (respond request (.error status text)) w := by
  refine safe_answer ?_
  rintro w' _ node _ ⟨users, passed⟩
  simp [checkResponse, Answer.response, failed] at passed

/-- A statement that is no answer is safe if the handler goes on safely. -/
theorem safe_read {op : Op} {next : Res op → Handler Unit}
    (silent : ∀ request answer, op ≠ .respond request answer)
    (rest : ∀ w' result, Grows w w' → Safe fingerprint start (next result) w') :
    Safe fingerprint start (ask op >>= next) w := by
  refine safe_ask ?_ ?_
  · grind
  · intro w' w'' fate result grows _ done
    exact rest w'' result (grows.trans (exec_grows done))

theorem answerUsers_safe {now : Time} (settled : RequestSettled start request w) :
    Safe fingerprint start (answerUsers (.nodeSync request) now) w := by
  refine safe_read (by simp) ?_
  intro w' users grows
  cases users with
  | none => exact safe_error (by decide) w'
  | some users =>
    refine safe_answer ?_
    intro w'' later node same _
    cases same
    exact settled.grows (grows.trans later)

variable {traffic : TrafficMap}

/-- A transaction that reports success leaves its batch settled. -/
theorem nodeTraffic_settles {fate : Fate} {node : Node} {syncID : String} (ledger : Ledger start w)
    (done : exec fingerprint fate w (.nodeTraffic node syncID traffic) = some (.ok (), w')) :
    Settled start w' ⟨.node node.id, syncID, traffic⟩ := by
  rcases account_cases (createsReceipt_node fate.time node.id syncID) (Option.some.inj done) with
    ⟨rfl, found⟩ | ⟨db, increments, -, rfl⟩
  · exact ⟨mem_cons_self, ledger.receipted _ (found rfl)⟩
  · exact ⟨mem_cons_self, .inl mem_cons_self⟩

theorem accountNodeTraffic_safe {node : Node} {now : Time}
    (decoded : request.body.bind = some traffic) :
    Safe fingerprint start (accountNodeTraffic request node traffic now) w := by
  unfold accountNodeTraffic
  split
  · exact safe_error (by decide) w
  split
  · exact safe_error (by decide) w
  refine safe_ask (by simp) ?_
  intro w' w'' fate result _ ledger executed
  cases result with
  | error reason =>
    simp only
    split <;> exact safe_error (by decide) w''
  | ok done =>
    refine answerUsers_safe ?_
    intro traffic' decoded' _
    rw [decoded, Option.some.injEq] at decoded'
    exact ⟨node.id, decoded' ▸ nodeTraffic_settles ledger executed⟩

theorem handleNodeSync_safe (request : NodeSyncRequest) (w : World) :
    Safe fingerprint start (handleNodeSync request) w := by
  unfold handleNodeSync
  split
  · exact safe_error (by decide) w
  refine safe_read (by simp) ?_
  intro w₁ found _
  cases found with
  | none => exact safe_error (by decide) w₁
  | some found =>
    refine safe_read (by simp) ?_
    intro w₂ now _
    refine safe_read (by simp) ?_
    intro w₃ saved _
    cases saved with
    | false => exact safe_error (by decide) w₃
    | true =>
      simp only [if_true]
      split
      next traffic decoded =>
        split
        · exact accountNodeTraffic_safe decoded
        next empty =>
          refine answerUsers_safe ?_
          intro traffic' decoded' nonempty
          rw [decoded, Option.some.injEq] at decoded'
          exact absurd (decoded' ▸ nonempty) empty
      next undecoded =>
        refine answerUsers_safe ?_
        intro traffic' decoded' _
        rw [undecoded] at decoded'
        cases decoded'

theorem handleDataPlaneTraffic_safe (request : DataPlaneRequest) (w : World) :
    Safe fingerprint start (handleDataPlaneTraffic request) w := by
  unfold handleDataPlaneTraffic
  split
  · exact safe_error (by decide) w
  split
  · exact safe_error (by decide) w
  split
  · exact safe_error (by decide) w
  refine safe_read (by simp) ?_
  intro w' result _
  cases result with
  | error reason =>
    simp only
    split <;> exact safe_error (by decide) w'
  | ok done => exact safe_answer fun _ _ _ same _ => by cases same

theorem protocol_sound (fingerprint : String → String) (start : Db) :
    (protocol fingerprint start).Sound where
  lawful := fun _ => ⟨Grows.refl, fun _ _ _ => Grows.trans⟩
  stable := fun _ _ _ _ _ _ _ => trivial
  compatible := fun _ _ _ _ _ grows => grows
  body := by
    intro i call _ p w found _
    cases found
    cases call with
    | receiptCleanup =>
      refine safe_read (by simp) fun w₁ now _ => ?_
      refine safe_read (by simp) fun w₂ _ _ => ?_
      exact safe_read (by simp) fun w₃ _ _ _ _ _ => trivial
    | request request =>
      cases request with
      | nodeSync request => exact handleNodeSync_safe request w
      | dataPlaneTraffic request => exact handleDataPlaneTraffic_safe request w
  boot := by
    intro w w' inv kept
    cases kept
    exact ⟨inv, fun _ => trivial⟩

theorem Answered.run {db : Db} {labels : (machine fingerprint).Labels}
    {c : (machine fingerprint).State}
    (ran : (machine fingerprint).runFrom { db := db } labels = some c) :
    Answered db c.shared := by
  have initial : (protocol fingerprint db).Good ((machine fingerprint).boot { db := db }) :=
    ⟨⟨Ledger.start db, fun _ _ mem => by cases mem⟩, fun _ => trivial⟩
  exact (initial.run (protocol_sound fingerprint db)
    (Machine.runMeets_of_admits (fun _ _ => trivial) _ labels) ran).inv.2

end Handlers

/-! ### Small and large batches -/

theorem trafficIncrements_mem {rate : Binary64} {entries : List (Σ _ : String, Traffic)}
    {increments : Increments} (converted : trafficIncrements rate entries = .ok increments)
    (mem : entry ∈ entries) :
    ∃ increment, newTrafficIncrement entry.2.up entry.2.down rate = .ok increment ∧
      (entry.1, increment) ∈ increments := by
  induction entries generalizing increments with
  | nil => cases mem
  | cons first rest ih =>
    simp only [trafficIncrements, bind, Except.bind] at converted
    split at converted
    · cases converted
    next head accepted =>
      split at converted
      · cases converted
      next others remaining =>
        cases converted
        rcases mem_cons.mp mem with rfl | later
        · exact ⟨head, accepted, mem_cons_self⟩
        · grind

/-- A settled batch whose sync ID had no receipt before the run is committed. -/
theorem FrozenBatch.committed {batch : FrozenBatch} {id : Nat} {decoded : TrafficMap}
    (ledger : Ledger start w) (same : SameBatches w.received)
    (fresh : ∀ source, (source, batch.syncID) ∉ start.receipts)
    (permuted : decoded.entries.Perm batch.traffic.entries)
    (settled : Settled start w ⟨.node id, batch.syncID, decoded⟩) :
    batch.CommittedIn start w := by
  obtain ⟨received, accounted | before⟩ := settled
  · obtain ⟨a, mem, key⟩ := mem_map.mp accounted
    obtain ⟨origin, received', key', converted⟩ := ledger.origin a mem
    have sent : origin.source = .node id ∧ origin.syncID = batch.syncID := by
      rw [key] at key'
      exact Prod.mk.inj key'
    have content := (same origin received' _ received sent.2).2
    refine ⟨a, mem, ⟨id, key⟩, ?_, ?_, ledger.rows⟩
    · by_cases purged : a.key ∈ w.purged
      · exact .inr purged
      · left
        have count := ledger.counts a.key purged
        have positive := count_pos_iff.mpr (mem_map_of_mem (f := Accounted.key) mem)
        exact count_pos_iff.mp (by omega)
    · intro entry inside
      have inside' : entry ∈ origin.entries := by
        simp only [Batch.entries, sent.1]
        exact content.mem_iff.mpr (permuted.mem_iff.mpr inside)
      exact trafficIncrements_mem converted inside'
  · exact absurd before (fresh _)

/-- One request, alone on the master. -/
def aloneLabels (request : NodeSyncRequest) : List (Label Nat (fun _ => Call) Fate) :=
  .enter 0 (.request (.nodeSync request)) :: List.replicate 5 (.step 0 {})

/-- A master that knows one node. -/
def oneNode (users : List User) (index : (users.map User.hash).Nodup) : Db :=
  { users := users, nodes := [{ id := 1, secretHash := "secret" }], userIndex := index }

/-- A body over the limit is answered with the user list and accounted for nowhere. -/
theorem oversized_ignored (request : NodeSyncRequest) (secret : request.secret = "secret")
    (large : maxAdminRequestBody < request.body.extent) (users : List User)
    (index : (users.map User.hash).Nodup) :
    ∃ c, (machine id).runFrom { db := oneNode users index } (aloneLabels request) = some c ∧
      c.shared.db.users = users ∧ c.shared.db.receipts = [] ∧ c.shared.received = [] ∧
      c.shared.accounted = [] ∧ c.shared.answered =
        [(.nodeSync request, .users (validHashes 0 (users.filter fun u => u.status = 0)))] := by
  have undecoded : request.body.bind = none := by
    simp [Body.bind, Nat.not_le.mpr large]
  have node : (oneNode users index).nodeBySecret id request.secret =
      some { id := 1, secretHash := "secret" } := by
    rw [secret]
    rfl
  have named : request.secret ≠ "" := by
    rw [secret]
    decide
  have empty : (oneNode users index).receipts = [] := rfl
  have rows : (oneNode users index).users = users := rfl
  simp [aloneLabels, replicate, Machine.run, Machine.next, Machine.boot, machine, body,
    handleNodeSync, named, bind, Prog.bind, Prog.ask, exec, node, undecoded, answerUsers, empty, rows]

/-- Whatever else the master is asked to do, once its answer makes the worker discard the
batch the batch is committed. -/
def FrozenBatch.NeverLost (batch : FrozenBatch) : Prop :=
  ∀ (fingerprint : String → String) (db : Db) (labels : List (Label Nat (fun _ => Call) Fate))
    (c : Machine.Config World Op Res fun _ : Nat => Unit) (request : NodeSyncRequest)
    (answer : Answer),
    (∀ source, (source, batch.syncID) ∉ db.receipts) →
    (machine fingerprint).runFrom { db := db } labels = some c →
    SameBatches c.shared.received → batch.SentBy request →
    (.nodeSync request, answer) ∈ c.shared.answered → answer.acknowledges →
    batch.CommittedIn db c.shared

/-- Discarding a batch means that the master has committed it exactly for those batches
whose request body stays within the limit of the master's body reader. -/
theorem neverLost_iff_body_within_limit (batch : FrozenBatch) :
    batch.NeverLost ↔ requestSize batch.traffic ≤ maxAdminRequestBody := by
  constructor
  · intro neverLost
    by_contra large
    -- a lone request of this size is acknowledged, but leaves no trace in the database
    let request : NodeSyncRequest :=
      ⟨"secret", batch.syncID, "", ⟨some batch.traffic, requestSize batch.traffic⟩⟩
    obtain ⟨c, ran, _, _, received, accounted, answered⟩ :=
      oversized_ignored request rfl (Nat.not_le.mp large) [] nodup_nil
    have committed := neverLost id (oneNode [] nodup_nil) (aloneLabels request) c request
      (.users []) (fun _ => not_mem_nil) ran (by rw [received]; intro a mem; cases mem)
      ⟨rfl, rfl, batch.traffic, rfl, List.Perm.refl _⟩ (by rw [answered]; exact mem_cons_self)
      ⟨[], rfl⟩
    obtain ⟨a, mem, _⟩ := committed
    rw [accounted] at mem
    cases mem
  · intro small fingerprint db labels c request answer fresh ran same sent answered acknowledges
    obtain ⟨syncID, extent, decoded, body, permuted⟩ := sent
    have bound : request.body.bind = some decoded := by
      rw [Body.bind, extent, if_pos small, body]
    have nonempty : decoded.entries ≠ [] := by
      intro empty
      rw [empty] at permuted
      exact batch.nonempty permuted.nil_eq.symm
    obtain ⟨id, settled⟩ := Answered.run ran request answer answered acknowledges decoded bound nonempty
    rw [syncID] at settled
    exact FrozenBatch.committed (Ledger.run ran) same fresh permuted settled

/-! ### A batch that is lost -/

/-- Distinct user hashes: 56 hexadecimal digits, the last four of which count. -/
def userHash (i : Nat) : String :=
  String.ofList (List.replicate 52 '0' ++
    [hexDigit (i / 4096), hexDigit (i / 256), hexDigit (i / 16), hexDigit i])

private theorem hexDigit_inj {a b : Nat} (same : hexDigit a = hexDigit b) : a % 16 = b % 16 := by
  have table : ∀ x y : Fin 16, Nat.digitChar x = Nat.digitChar y → x = y := by decide
  have equal := table ⟨a % 16, Nat.mod_lt _ (by decide)⟩ ⟨b % 16, Nat.mod_lt _ (by decide)⟩ same
  exact congrArg Fin.val equal

theorem userHash_inj {i j : Nat} (hi : i < 65536) (hj : j < 65536)
    (same : userHash i = userHash j) : i = j := by
  have digits := append_cancel_left (String.ofList_injective same)
  simp only [cons.injEq, and_true] at digits
  obtain ⟨d₃, d₂, d₁, d₀⟩ := digits
  have e₃ := hexDigit_inj d₃
  have e₂ := hexDigit_inj d₂
  have e₁ := hexDigit_inj d₁
  have e₀ := hexDigit_inj d₀
  omega

theorem userHash_length (i : Nat) : (userHash i).length = 56 := by
  simp only [userHash, String.length_ofList, length_append, length_replicate,
    length_cons, length_nil]

/-- One byte in each direction for every user. -/
def userEntries (n : Nat) : List (Σ _ : String, Traffic) :=
  (List.range n).map fun i => ⟨userHash i, ⟨1, 1⟩⟩

theorem mem_userEntries {n : Nat} (mem : entry ∈ userEntries n) :
    ∃ i < n, entry = ⟨userHash i, ⟨1, 1⟩⟩ := by
  obtain ⟨i, inside, rfl⟩ := mem_map.mp mem
  exact ⟨i, mem_range.mp inside, rfl⟩

theorem userEntries_nodupKeys {n : Nat} (bounded : n ≤ 65536) : (userEntries n).NodupKeys := by
  rw [List.NodupKeys, keys, userEntries, map_map]
  refine List.Nodup.map_on ?_ nodup_range
  intro i hi j hj same
  rw [mem_range] at hi hj
  exact userHash_inj (by omega) (by omega) same

theorem userEntries_size (n : Nat) :
    n * 76 ≤ ((userEntries n).map fun entry => byteSize (entryText entry)).sum := by
  have each : ∀ size ∈ (userEntries n).map fun entry => byteSize (entryText entry), 76 ≤ size := by
    intro size mem
    obtain ⟨entry, inside, rfl⟩ := mem_map.mp mem
    obtain ⟨i, _, rfl⟩ := mem_userEntries inside
    have bound := byteSize_entryText (userHash i)
    rwa [userHash_length] at bound
  have sum := card_nsmul_le_sum _ 76 each
  rwa [length_map, userEntries, length_map, length_range, smul_eq_mul] at sum

/-- The batch of `n` users. -/
def usersBatch (n : Nat) (positive : 0 < n) (bounded : n ≤ 65536) : FrozenBatch where
  syncID := "000102030405060708090a0b0c0d0e0f"
  traffic := ⟨userEntries n, userEntries_nodupKeys bounded⟩
  identified := by decide
  nonempty := by
    simp only [userEntries, ne_eq, List.map_eq_nil_iff, List.range_eq_nil]
    omega
  named := by
    intro member
    obtain ⟨entry, inside, empty⟩ := List.mem_map.mp member
    obtain ⟨i, _, rfl⟩ := mem_userEntries inside
    have length := userHash_length i
    rw [show userHash i = "" from empty] at length
    cases length
  counted := by
    intro entry member
    obtain ⟨i, _, rfl⟩ := mem_userEntries member
    simp only [ne_eq]
    decide

theorem usersBatch_first (n : Nat) (positive : 0 < n) (bounded : n ≤ 65536) :
    ⟨userHash 0, ⟨1, 1⟩⟩ ∈ (usersBatch n positive bounded).traffic.entries :=
  mem_map.mpr ⟨0, mem_range.mpr positive, rfl⟩

theorem usersBatch_size (n : Nat) (positive : 0 < n) (bounded : n ≤ 65536) :
    n * 76 ≤ requestSize (usersBatch n positive bounded).traffic :=
  Nat.le_trans (userEntries_size n) (requestSize_ge (usersBatch n positive bounded).traffic)

/-- A node reports one byte in each direction for each of 14,000 users. The master answers
with its user list, which makes the node discard the batch, but has created no receipt, and
the counters of the one user it knows are still zero. -/
theorem batch_of_fourteen_thousand_users_lost :
    let batch := usersBatch 14000 (by decide) (by decide)
    let known : User := { id := 1, hash := userHash 0 }
    ∃ (request : NodeSyncRequest) (c : (machine id).State)
      (answer : Answer),
      batch.SentBy request ∧
      (machine id).runFrom { db := oneNode [known] (List.nodup_singleton _) } (aloneLabels request)
        = some c ∧
      (.nodeSync request, answer) ∈ c.shared.answered ∧ answer.acknowledges ∧
      ⟨known.hash, ⟨1, 1⟩⟩ ∈ batch.traffic.entries ∧
      c.shared.db.receipts = [] ∧ c.shared.db.users = [known] ∧
      ¬ batch.CommittedIn (oneNode [known] (List.nodup_singleton _)) c.shared := by
  intro batch known
  have large : maxAdminRequestBody < requestSize batch.traffic := by
    have size := usersBatch_size 14000 (by decide) (by decide)
    exact Nat.lt_of_lt_of_le (by decide) size
  let request : NodeSyncRequest :=
    ⟨"secret", batch.syncID, "", ⟨some batch.traffic, requestSize batch.traffic⟩⟩
  obtain ⟨c, ran, users, receipts, received, accounted, answered⟩ :=
    oversized_ignored request rfl large [known] (nodup_singleton _)
  refine ⟨request, c, .users [userHash 0], ⟨rfl, rfl, batch.traffic, rfl, List.Perm.refl _⟩, ran,
    ?_, ⟨[userHash 0], by decide +kernel⟩, ?_, receipts, users, ?_⟩
  · have listed : validHashes 0 ([known].filter fun u => u.status = 0) = [userHash 0] := by
      decide +kernel
    rw [answered, listed]
    exact mem_cons_self
  · exact usersBatch_first 14000 (by decide) (by decide)
  · rintro ⟨a, mem, _⟩
    rw [accounted] at mem
    cases mem

end TrojanGo.Master
