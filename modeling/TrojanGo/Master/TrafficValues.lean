import TrojanGo.Lib.Binary64
import TrojanGo.Traffic
import Mathlib.Data.List.Nodup

/-!
# Stored traffic counters

A database value carries its unique indexes as proofs, so no statement can leave two users with
one hash or two receipts with one key.
-/
namespace TrojanGo.Master

open Lib

/-- Nanoseconds since the zero time. -/
abbrev Time := Int

structure User where
  id : Nat
  hash : String
  quota : Int := -1
  used : Int := 0
  upload : Int := 0
  download : Int := 0
  expiryTime : Option Time := none
  status : Int := 0
  username : String := ""
  password : String := ""
  passwordCiphertext : String := ""
  passwordKeyID : String := ""
  ipLimit : Int := 0
  deriving DecidableEq, Repr

structure Node where
  id : Nat
  name : String := ""
  address : String := ""
  detectedIP : String := ""
  port : Int := 443
  secret : String := ""
  secretCiphertext : String := ""
  secretHash : String := ""
  status : Int := 0
  lastHeartbeat : Option Time := none
  trafficRate : Binary64 := .ofNat 1
  secretKeyID : String := ""
  secretRotatedAt : Option Time := none
  wsEnabled : Bool := false
  wsPath : String := "/trojan-go"
  sni : String := ""
  deriving DecidableEq, Repr

structure NodeSyncReceipt where
  createdAt : Time
  nodeID : Nat
  syncID : String
  deriving DecidableEq, Repr

structure DataPlaneSyncReceipt where
  createdAt : Time
  syncID : String
  deriving DecidableEq, Repr

/-- The composite unique index of the node receipts. -/
def NodeSyncReceipt.key (receipt : NodeSyncReceipt) : Nat × String :=
  (receipt.nodeID, receipt.syncID)

theorem no_users : (([] : List User).map User.hash).Nodup := List.nodup_nil

theorem no_nodeReceipts : (([] : List NodeSyncReceipt).map NodeSyncReceipt.key).Nodup :=
  List.nodup_nil

theorem no_dataPlaneReceipts :
    (([] : List DataPlaneSyncReceipt).map DataPlaneSyncReceipt.syncID).Nodup := List.nodup_nil

structure Db where
  users : List User := []
  nodes : List Node := []
  nodeReceipts : List NodeSyncReceipt := []
  dataPlaneReceipts : List DataPlaneSyncReceipt := []
  userIndex : (users.map User.hash).Nodup := by first | exact TrojanGo.Master.no_users | decide
  nodeReceiptIndex : (nodeReceipts.map NodeSyncReceipt.key).Nodup := by
    exact TrojanGo.Master.no_nodeReceipts
  dataPlaneReceiptIndex : (dataPlaneReceipts.map DataPlaneSyncReceipt.syncID).Nodup := by
    exact TrojanGo.Master.no_dataPlaneReceipts

/-! ### Increments -/

def maxTrafficCounter : Nat := 2 ^ 63 - 1

def maxTrafficCounterExclusive : Nat := 2 ^ 63

def maxTrafficRate : Nat := 1000

@[ext] structure TrafficIncrement where
  upload : Int
  download : Int
  used : Int
  deriving DecidableEq, Repr

/-- Why a transaction was rolled back. -/
inductive TxError where
  | trafficValue (reason : String)
  | database
  deriving DecidableEq, Repr

def isTrafficValueError : TxError → Bool
  | .trafficValue _ => true
  | .database => false

def validateTrafficRate (rate : Binary64) : Except TxError Unit :=
  if rate.leNat 0 ∨ rate.gtNat maxTrafficRate ∨ rate = .nan ∨ rate = .inf true ∨
      rate = .inf false then
    .error (.trafficValue s!"traffic rate must be finite and within (0, {maxTrafficRate}]")
  else .ok ()

def newTrafficIncrement (up down : Nat) (rate : Binary64) : Except TxError TrafficIncrement := do
  validateTrafficRate rate
  if up > maxTrafficCounter then
    throw (.trafficValue "upload traffic exceeds int64 capacity")
  if down > maxTrafficCounter then
    throw (.trafficValue "download traffic exceeds int64 capacity")
  if up > maxTrafficCounter - down then
    throw (.trafficValue "total traffic exceeds int64 capacity")
  let total := up + down
  if rate.eqNat 1 then
    return ⟨up, down, total⟩
  let scaled := (Binary64.ofNat total).mul rate
  if scaled = .nan ∨ scaled = .inf true ∨ scaled = .inf false ∨ scaled.isNegative ∨
      scaled.geNat maxTrafficCounterExclusive then
    throw (.trafficValue "scaled traffic exceeds int64 capacity")
  return ⟨up, down, scaled.truncate⟩

def addTrafficTotals (current delta : Nat) : Except TxError Nat :=
  if current > word - 1 - delta then
    .error (.trafficValue "traffic aggregation exceeds uint64 capacity")
  else .ok (current + delta)

namespace TrafficIncrement

instance : Zero TrafficIncrement := ⟨⟨0, 0, 0⟩⟩

instance : Add TrafficIncrement :=
  ⟨fun a b => ⟨a.upload + b.upload, a.download + b.download, a.used + b.used⟩⟩

@[simp] theorem zero_upload : (0 : TrafficIncrement).upload = 0 := rfl
@[simp] theorem zero_download : (0 : TrafficIncrement).download = 0 := rfl
@[simp] theorem zero_used : (0 : TrafficIncrement).used = 0 := rfl
@[simp] theorem add_upload (a b : TrafficIncrement) : (a + b).upload = a.upload + b.upload := rfl
@[simp] theorem add_download (a b : TrafficIncrement) :
    (a + b).download = a.download + b.download := rfl
@[simp] theorem add_used (a b : TrafficIncrement) : (a + b).used = a.used + b.used := rfl

instance : AddCommMonoid TrafficIncrement where
  add_assoc a b c := by ext <;> simp [Int.add_assoc]
  zero_add a := by ext <;> simp
  add_zero a := by ext <;> simp
  add_comm a b := by ext <;> simp [Int.add_comm]
  nsmul := nsmulRec

end TrafficIncrement

/-! ### Updates -/

/-- The guards of the update: every counter is valid and can take the increment. -/
def User.accepts (u : User) (increment : TrafficIncrement) : Bool :=
  (0 ≤ u.upload ∧ u.upload ≤ maxTrafficCounter - increment.upload) ∧
  (0 ≤ u.download ∧ u.download ≤ maxTrafficCounter - increment.download) ∧
  (0 ≤ u.used ∧ u.used ≤ maxTrafficCounter - increment.used)

def User.credit (u : User) (increment : TrafficIncrement) : User :=
  { u with
    upload := u.upload + increment.upload
    download := u.download + increment.download
    used := u.used + increment.used }

@[simp] theorem User.credit_hash (u : User) (increment : TrafficIncrement) :
    (u.credit increment).hash = u.hash := rfl

@[simp] theorem User.credit_zero (u : User) : u.credit 0 = u := by
  cases u
  simp [User.credit]

theorem User.credit_add (u : User) (a b : TrafficIncrement) :
    u.credit (a + b) = (u.credit a).credit b := by
  simp [User.credit, Int.add_assoc]

/-- Rewrite the rows of the user table without touching their hashes. -/
def Db.updateUsers (db : Db) (f : User → User) (keeps : ∀ u, (f u).hash = u.hash) : Db :=
  { db with
    users := db.users.map f
    userIndex := by
      have same : (db.users.map f).map User.hash = db.users.map User.hash := by
        simp [Function.comp_def, keeps]
      rw [same]
      exact db.userIndex }

/-- The row a guarded update leaves behind. -/
def creditRow (hash : String) (increment : TrafficIncrement) (u : User) : User :=
  if u.hash = hash ∧ u.accepts increment then u.credit increment else u

theorem creditRow_hash (hash : String) (increment : TrafficIncrement) (u : User) :
    (creditRow hash increment u).hash = u.hash := by
  unfold creditRow
  split <;> rfl

abbrev Tx := StateT Db (Except TxError)

def persistTrafficIncrement (hash : String) (increment : TrafficIncrement) : Tx Unit := fun db =>
  if hash = "" ∨ increment = 0 then .ok ((), db)
  else if db.users.any fun u => decide (u.hash = hash) && u.accepts increment then
    .ok ((), db.updateUsers (creditRow hash increment) (creditRow_hash hash increment))
  else if db.users.all fun u => decide (u.hash ≠ hash) then
    -- an unknown user may race with a refresh of the user list; its traffic is ignored
    .ok ((), db)
  else .error (.trafficValue "stored traffic counters cannot accept this increment")

/-- What a successful update adds to a row. -/
def share (hash : String) (increment : TrafficIncrement) (u : User) : TrafficIncrement :=
  if hash ≠ "" ∧ u.hash = hash then increment else 0

variable {increment : TrafficIncrement}

private theorem creditRow_eq_credit {db : Db} {hash : String} (named : hash ≠ "")
    (found : ∃ u ∈ db.users, u.hash = hash ∧ u.accepts increment = true) {u : User}
    (mem : u ∈ db.users) :
    creditRow hash increment u = u.credit (share hash increment u) := by
  by_cases same : u.hash = hash
  · obtain ⟨v, mem', hash', accepts⟩ := found
    -- the unique index leaves only one row with this hash
    have equal : u = v := List.inj_on_of_nodup_map db.userIndex mem mem' (by rw [same, hash'])
    subst equal
    simp [creditRow, share, same, accepts, named]
  · simp [creditRow, share, same]

theorem persistTrafficIncrement_ok {hash : String} {db db' : Db}
    (persisted : persistTrafficIncrement hash increment db = .ok ((), db')) :
    db'.users = db.users.map (fun u => u.credit (share hash increment u)) ∧
      db'.nodes = db.nodes ∧ db'.nodeReceipts = db.nodeReceipts ∧
      db'.dataPlaneReceipts = db.dataPlaneReceipts := by
  simp only [persistTrafficIncrement] at persisted
  split at persisted
  next nothing =>
    cases persisted
    refine ⟨?_, rfl, rfl, rfl⟩
    have zero : ∀ u, share hash increment u = 0 := by
      intro u
      rcases nothing with rfl | rfl <;> simp [share]
    simp [zero]
  next something =>
    obtain ⟨named, _⟩ := not_or.mp something
    split at persisted
    next found =>
      cases persisted
      refine ⟨?_, rfl, rfl, rfl⟩
      simp only [List.any_eq_true, Bool.and_eq_true, decide_eq_true_eq] at found
      exact List.map_congr_left fun u mem => creditRow_eq_credit named found mem
    · split at persisted
      next unknown =>
        cases persisted
        refine ⟨?_, rfl, rfl, rfl⟩
        simp only [List.all_eq_true, decide_eq_true_eq] at unknown
        have zero : ∀ u ∈ db.users, u.credit (share hash increment u) = u := by
          intro u mem
          simp [share, unknown u mem]
        exact (List.map_congr_left zero).trans (List.map_id' _) |>.symm
      · cases persisted

/-- Increments stay inside the range of the stored counters. -/
theorem newTrafficIncrement_bounds {up down : Nat} {rate : Binary64}
    (accepted : newTrafficIncrement up down rate = .ok increment) :
    (0 ≤ increment.upload ∧ increment.upload ≤ maxTrafficCounter) ∧
      (0 ≤ increment.download ∧ increment.download ≤ maxTrafficCounter) ∧
      (0 ≤ increment.used ∧ increment.used ≤ maxTrafficCounter) := by
  unfold newTrafficIncrement at accepted
  simp only [bind, Except.bind, pure, Except.pure, throw, throwThe, MonadExceptOf.throw] at accepted
  split at accepted
  · cases accepted
  split at accepted
  · cases accepted
  split at accepted
  · cases accepted
  split at accepted
  · cases accepted
  next largeUp largeDown largeTotal =>
    have total : up + down ≤ maxTrafficCounter := by omega
    split at accepted
    · cases accepted
      simp only
      omega
    · split at accepted
      · cases accepted
      next finite =>
        cases accepted
        simp only [not_or, Bool.not_eq_true] at finite
        obtain ⟨number, _, _, positive, below⟩ := finite
        have bounds := Binary64.truncate_bounds below positive number
        simp only [maxTrafficCounterExclusive, maxTrafficCounter] at *
        omega

end TrojanGo.Master
