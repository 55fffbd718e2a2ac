import TrojanGo.Plane.Programs

/-!
# The books balance

Every counted byte is in exactly one place, and every operation keeps this balance.
-/
namespace TrojanGo.Plane

open Lib

variable {κ : Type}

def World.Balanced (s : World κ) : Prop :=
  ∀ h d, s.counted h d =
    s.live h d + s.taken h d + s.drained h d + s.gone h d + s.lost h d

/-- No byte has left the counters without a checkpoint. -/
structure World.Clean (s : World κ) : Prop where
  gone : ∀ h d, s.gone h d = 0
  drained : ∀ h d, s.drained h d = 0

theorem Clean.restart (s : World κ) : s.restart.Clean := ⟨fun _ _ => rfl, fun _ _ => rfl⟩

/-! ### What the operations on user objects do -/

variable {s s' : World κ} {me : Actor κ} {i : Nat}

/-- Changing only the lock of an object moves no bytes. -/
theorem live_setHolder {m : Meter κ} (found : s.meters[i]? = some m) (holder : Option (Actor κ)) :
    (s.setMeter i { m with holder := holder }).live = s.live := by
  funext h d
  have user : ({ m with holder := holder } : Meter κ).hash = m.hash := rfl
  have same : ({ m with holder := holder } : Meter κ).count d = m.count d := by cases d <;> rfl
  have moved := World.live_set found user h d
  rw [same] at moved
  omega

/-- Writing one direction of a counter. -/
theorem live_put {m : Meter κ} (found : s.meters[i]? = some m) (d : Dir) (n : Nat) (h : String)
    (d' : Dir) :
    (s.setMeter i (m.put d n)).live h d' + (if h = m.hash ∧ d' = d then m.count d else 0) =
      s.live h d' + if h = m.hash ∧ d' = d then n else 0 := by
  have moved := World.live_set found (m.put_hash d n) h d'
  rw [Meter.put_count] at moved
  by_cases user : h = m.hash <;> by_cases direction : d' = d <;> simp_all

/-- A new object starts with empty counters. -/
theorem live_append (s : World κ) (auth : Nat) (hash : String) :
    ({ s with meters := s.meters ++ [{ auth := auth, hash := hash }] } : World κ).live = s.live := by
  funext h d
  have empty : ({ auth := auth, hash := hash } : Meter κ).count d = 0 := by cases d <;> rfl
  simp [World.live, empty]

/-- The operation works on user objects or user maps. -/
def Op.Counts : Op κ → Prop
  | .mapStore _ _ | .mapDelete _ _ | .lock _ _ | .unlock _ _ | .add _ _ _ _ | .clear _ _ _ _
  | .subtract _ _ _ _ => True
  | _ => False

/-- What an operation makes of the state. Those on user objects and user maps never leave it as
it is. -/
inductive Effect (s : World κ) : Op κ → World κ → Prop where
  | same {op : Op κ} (quiet : ¬ op.Counts) : Effect s op s
  | store (auth : Nat) (hash : String) : Effect s (.mapStore auth hash) { s with
      meters := s.meters ++ [{ auth := auth, hash := hash }]
      registry := fun a h => if a = auth ∧ h = hash then some s.meters.length else s.registry a h }
  | delete (auth : Nat) (hash : String) : Effect s (.mapDelete auth hash) { s with
      registry := fun a h => if a = auth ∧ h = hash then none else s.registry a h }
  | lock {i : Nat} {me m} (found : s.meters[i]? = some m)
      (free : m.holder = none) : Effect s (.lock me i) (s.setMeter i { m with holder := some me })
  | unlock {i : Nat} {me m} (found : s.meters[i]? = some m)
      (holds : m.holder = some me) : Effect s (.unlock me i) (s.setMeter i { m with holder := none })
  | add {i : Nat} {me m} (found : s.meters[i]? = some m)
      (holds : m.holder = some me) (d : Dir) (n : Nat) : Effect s (.add me i d n)
        { s.setMeter i (m.put d ((m.count d + n) % word)) with
          counted := s.counted.add m.hash d n
          gone := s.gone.add m.hash d (m.count d + n - (m.count d + n) % word) }
  | take {i : Nat} {me m} (found : s.meters[i]? = some m)
      (holds : m.holder = some me) (d : Dir) : Effect s (.clear me i d true)
        { s.setMeter i (m.put d 0) with taken := s.taken.add m.hash d (m.count d) }
  | drop {i : Nat} {me m} (found : s.meters[i]? = some m)
      (holds : m.holder = some me) (d : Dir) : Effect s (.clear me i d false)
        { s.setMeter i (m.put d 0) with gone := s.gone.add m.hash d (m.count d) }
  | subtract {i : Nat} {me m} (found : s.meters[i]? = some m)
      (holds : m.holder = some me) (d : Dir) (n : Nat) : Effect s (.subtract me i d n)
        { s.setMeter i (m.put d (m.count d - n)) with
          drained := s.drained.add m.hash d (min (m.count d) n)
          owed := fun h d' => if h = m.hash ∧ d' = d then s.owed h d' - n else s.owed h d'
          saturated := s.saturated || decide (m.count d < n) }
  | refuse : Effect s .refuse { s with refused := true }
  | replace (c : κ) (state : StoredState) : Effect s (.replace c state) (s.write c (.stored state))
  | remove (c : κ) : Effect s (.remove c) (s.write c .absent)
  | draw (id : String) : Effect s .newSyncID { s with ids := id :: s.ids }
  | post (c : κ) (id : String) (batch : Amounts) (accepts : NodeSync.Response → Bool)
      (acked : Batches) :
      Effect s (.post c id batch accepts) { s with sent := s.sent.insert id batch, acked := acked }
  | commit (snapshots : TrafficMap) (db : Master.Db) (owed repeated : Book) :
      Effect s (.commit snapshots) { s with db := db, owed := owed, repeated := repeated }
  | cache (hashes : List String) :
      Effect s (.cacheUsers hashes) { s with db := cacheUsers s.db hashes }

/-- Objects are stored under their own hash, in the map of their authenticator. -/
def World.Registered (s : World κ) : Prop :=
  ∀ auth hash i, s.registry auth hash = some i →
    ∃ m : Meter κ, s.meters[i]? = some m ∧ m.auth = auth ∧ m.hash = hash

namespace World.Registered

theorem of_same (registered : s.Registered) (meters : s'.meters = s.meters)
    (registry : s'.registry = s.registry) : s'.Registered := by
  intro auth hash i stored
  rw [registry] at stored
  rw [meters]
  exact registered auth hash i stored

theorem setMeter (registered : s.Registered) {i : Nat} {m m' : Meter κ}
    (found : s.meters[i]? = some m) (auth : m'.auth = m.auth) (hash : m'.hash = m.hash) :
    (s.setMeter i m').Registered := by
  intro a h j stored
  obtain ⟨m₀, found₀, auth₀, hash₀⟩ := registered a h j stored
  simp only [World.setMeter, List.getElem?_set]
  grind

end World.Registered

variable [DecidableEq κ] {fate : Fate} {op : Op κ}

theorem exec_effect {result : Res op} (done : exec fate s op = some (result, s')) :
    Effect s op s' := by
  cases op with
  | listUsers | load =>
    obtain ⟨found, _, equal⟩ := Option.map_eq_some_iff.mp done
    cases equal
    exact .same id
  | clear _ _ _ checkpointed =>
    cases checkpointed
    all_goals
      simp only [Plane.exec, World.meterOp] at done
      grind [intro Effect]
  | unlock | add | subtract | lock | mapLoad | attempt | syncReady | mapStore | mapDelete | refuse | replace | remove | newSyncID
  | post | commit | cacheUsers =>
    simp only [Plane.exec, World.meterOp] at done
    grind [Op.Counts, intro Effect]

theorem Balanced.exec {result : Res op} (balanced : s.Balanced)
    (done : exec fate s op = some (result, s')) : s'.Balanced := by
  intro h d
  have before := balanced h d
  cases exec_effect done with
  | store auth hash =>
    have same := congrFun (congrFun (live_append s auth hash) h) d
    simp only [World.live] at *
    omega
  | lock found | unlock found =>
    rw [live_setHolder found]
    exact before
  | @add _ i m found _ d₀ n =>
    have moved := live_put found d₀ ((m.count d₀ + n) % word) h d
    have wrapped := Nat.mod_le (m.count d₀ + n) word
    simp only [Book.add_apply, World.live, World.setMeter] at *
    by_cases here : h = m.hash ∧ d = d₀
    · simp only [if_pos here] at *
      omega
    · simp only [if_neg here] at *
      omega
  | take found _ d₀ | drop found _ d₀ =>
    have moved := live_put found d₀ 0 h d
    simp only [ite_self, Book.add_apply, World.live, World.setMeter] at *
    omega
  | @subtract _ i m found _ d₀ n =>
    have moved := live_put found d₀ (m.count d₀ - n) h d
    simp only [Book.add_apply, World.live, World.setMeter] at *
    by_cases here : h = m.hash ∧ d = d₀
    · simp only [if_pos here] at *
      omega
    · simp only [if_neg here] at *
      omega
  | _ => exact before

/-- No operation loses bytes; only restarts do. -/
theorem lost_exec {result : Res op} (done : exec fate s op = some (result, s')) :
    s'.lost = s.lost := by
  cases exec_effect done <;> rfl

/-! ### Operations that take bytes only under a checkpoint -/

/-- The operation makes a counter wrap around. -/
def Op.wraps (s : World κ) : Op κ → Bool
  | .add _ i d n => (s.meters[i]?).any fun m => decide (word ≤ m.count d + n)
  | _ => false

/-- The operation removes bytes from a counter without a checkpoint: it subtracts or clears
something that is not zero, or wraps around. -/
def Op.drops (s : World κ) : Op κ → Bool
  | .clear _ i d checkpointed =>
    !checkpointed && (s.meters[i]?).any fun m => decide (m.count d ≠ 0)
  | .subtract _ i d n => (s.meters[i]?).any fun m => decide (min (m.count d) n ≠ 0)
  | op => op.wraps s

theorem Clean.exec {result : Res op} (clean : s.Clean) (keeps : op.drops s = false)
    (done : exec fate s op = some (result, s')) :
    s'.Clean := by
  have nothing : ∀ (book : Book) (hash : String) (d : Dir) (n : Nat), (∀ h d, book h d = 0) →
      n = 0 → ∀ h d', book.add hash d n h d' = 0 := by
    intro book hash d n empty zero h d'
    simp [Book.add_apply, empty, zero]
  cases exec_effect done with
  | @add _ i m found _ d n =>
    have small : m.count d + n < word := by simpa [Op.drops, Op.wraps, found] using keeps
    refine ⟨nothing s.gone m.hash d _ clean.gone ?_, clean.drained⟩
    rw [Nat.mod_eq_of_lt small, Nat.sub_self]
  | @drop _ i m found _ d =>
    have zero : m.count d = 0 := by simpa [Op.drops, found] using keeps
    exact ⟨nothing s.gone m.hash d _ clean.gone zero, clean.drained⟩
  | @subtract _ i m found _ d n =>
    have zero : min (m.count d) n = 0 := by
      simp only [Op.drops, found, Option.any_some, decide_eq_false_iff_not, not_not] at keeps
      exact keeps
    exact ⟨clean.gone, nothing s.drained m.hash d _ clean.drained zero⟩
  | _ => exact ⟨clean.gone, clean.drained⟩

theorem World.Registered.exec {result : Res op} (registered : s.Registered)
    (done : exec fate s op = some (result, s')) : s'.Registered := by
  cases exec_effect done with
  | store auth hash =>
    have new : (s.meters ++ [{ auth := auth, hash := hash }])[s.meters.length]? =
        some { auth := auth, hash := hash } := by simp
    grind [World.Registered]
  | delete => grind [World.Registered]
  | lock found | unlock found => exact registered.setMeter found rfl rfl
  | @add _ i m found _ d | @take _ i m found _ d | @drop _ i m found _ d
  | @subtract _ i m found _ d =>
    exact (registered.setMeter found (m.put_auth d _) (m.put_hash d _)).of_same rfl rfl
  | _ => exact registered.of_same rfl rfl

end TrojanGo.Plane
