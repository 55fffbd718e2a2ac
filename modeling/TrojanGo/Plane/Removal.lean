import TrojanGo.Plane.OutboxRuns

/-!
# Removing users

Removing a user clears the counters of its object and takes it out of the user map. Re-adding the
user creates a new object.
-/
namespace TrojanGo.Plane

open Lib

variable {κ : Type}

/-- Every byte counted is in a counter or was handed to a checkpoint, and every counter that is
not zero belongs to an object of a user map. -/
def World.NothingStray (s : World κ) : Prop :=
  (∀ h d, s.counted h d = s.live h d + s.taken h d) ∧
    ∀ (i : Nat) (m : Meter κ) (d : Dir), s.meters[i]? = some m → m.count d ≠ 0 →
      s.registry m.auth m.hash = some i

/-- The operation counts bytes in an object outside the user maps, or takes an object whose
counters are not zero out of its map. -/
def Op.strays (s : World κ) : Op κ → Bool
  | .add _ i _ n =>
    (s.meters[i]?).any fun m => decide (n ≠ 0 ∧ s.registry m.auth m.hash ≠ some i)
  | .mapDelete auth hash | .mapStore auth hash =>
    ((s.registry auth hash).bind (s.meters[·]?)).any fun m => decide (m.sent ≠ 0 ∨ m.recv ≠ 0)
  | _ => false

/-- The user maps hold objects of their users, and all that count. -/
structure Listing (s : World κ) : Prop where
  registered : s.Registered
  listed : ∀ (i : Nat) (m : Meter κ) (d : Dir), s.meters[i]? = some m → m.count d ≠ 0 →
    s.registry m.auth m.hash = some i

namespace Listing

variable {s s' : World κ}

/-- Changing one object that stays zero where it was, or is in its map. -/
theorem setMeter {i : Nat} {m m' : Meter κ} (listing : Listing s) (registered : s'.Registered)
    (found : s.meters[i]? = some m) (meters : s'.meters = s.meters.set i m')
    (registry : s'.registry = s.registry) (auth : m'.auth = m.auth) (hash : m'.hash = m.hash)
    (counts : ∀ d, m'.count d ≠ 0 → m.count d ≠ 0 ∨ s.registry m.auth m.hash = some i) :
    Listing s' := by
  have listed := listing.listed
  refine ⟨registered, ?_⟩
  simp only [meters, registry, List.getElem?_set]
  grind

/-- An object that leaves its map has empty counters. -/
theorem leaves {auth : Nat} {hash : String} (listing : Listing s)
    (quiet : (((s.registry auth hash).bind (s.meters[·]?)).any
      fun m => decide (m.sent ≠ 0 ∨ m.recv ≠ 0)) = false)
    {i : Nat} {m : Meter κ} {d : Dir} (found : s.meters[i]? = some m) (nonzero : m.count d ≠ 0) :
    ¬ (m.auth = auth ∧ m.hash = hash) := by
  rintro ⟨rfl, rfl⟩
  have stored := listing.listed i m d found nonzero
  simp only [stored, Option.bind_some, found, Option.any_some, decide_eq_false_iff_not] at quiet
  cases d with
  | up => exact quiet (.inr nonzero)
  | down => exact quiet (.inl nonzero)

variable [DecidableEq κ]

/-- Operations that leave no bytes behind keep it. -/
theorem exec {fate : Fate} {op : Op κ} {result : Res op} (listing : Listing s)
    (quiet : op.strays s = false) (done : exec fate s op = some (result, s')) : Listing s' := by
  have registered := listing.registered.exec done
  have listed := listing.listed
  cases exec_effect done with
  | store auth hash =>
    have empty : ∀ d, (({ auth := auth, hash := hash } : Meter κ)).count d = 0 := by
      intro d
      cases d <;> rfl
    refine ⟨registered, fun i m d found nonzero => ?_⟩
    have leaves := listing.leaves (i := i) (m := m) (d := d) quiet
    grind
  | delete auth hash =>
    refine ⟨registered, fun i m d found nonzero => ?_⟩
    exact (if_neg (listing.leaves quiet found nonzero)).trans (listed i m d found nonzero)
  | lock found | unlock found =>
    exact listing.setMeter registered found rfl rfl rfl rfl fun d => by cases d <;> exact .inl
  | @add i _ m found _ d n =>
    refine listing.setMeter registered found rfl rfl (m.put_auth d _) (m.put_hash d _)
      fun d' nonzero => ?_
    simp only [Op.strays, found, Option.any_some, decide_eq_false_iff_not, not_and, not_not] at quiet
    rw [Meter.put_count] at nonzero
    by_cases adds : n = 0
    · left
      intro zero
      split at nonzero <;> simp_all
    · exact .inr (quiet adds)
  | @take i _ m found _ d | @drop i _ m found _ d | @subtract i _ m found _ d n =>
    refine listing.setMeter registered found rfl rfl (m.put_auth d _) (m.put_hash d _)
      fun d' nonzero => ?_
    rw [Meter.put_count] at nonzero
    grind
  | _ => exact ⟨registered, listed⟩

end Listing

/-- In every run whose operations drop no bytes and leave none in objects outside the user
maps, no byte strays. -/
theorem unremoved_traffic_is_listed [DecidableEq κ] (clients : κ → Client) (embedded : List Nat)
    (disk : Disk) (db : Master.Db) (labels : (machine clients embedded false).Labels)
    (c : (machine clients embedded false).State)
    (meets : (machine clients embedded false).MeetsFrom
      (fun s op => op.drops s = false ∧ op.strays s = false) (World.initial disk db) labels)
    (ran : (machine clients embedded false).runFrom (World.initial disk db) labels = some c) :
    c.shared.NothingStray := by
  have clean := clean_run (fun _ _ quiet => quiet.1) meets ran
  have lost := nothing_lost ran
  have kept : c.shared.Balanced ∧ Listing c.shared := by
    apply Machine.run_invariant (fun s : World κ => s.Balanced ∧ Listing s) _ _ _ meets ran
    · rintro fate s op result s' ⟨balanced, listing⟩ quiet done
      exact ⟨Balanced.exec balanced done, listing.exec quiet.2 done⟩
    · intro s s' _ kept
      cases kept
    · constructor
      · exact (Inv.initial disk db).balanced
      · constructor
        · intro auth hash i stored
          cases stored
        · intro i m d found
          cases found
  constructor
  · intro h d
    have balance := kept.1 h d
    rw [clean.drained, clean.gone, lost] at balance
    exact balance
  · exact kept.2.listed

/-! ### An account edit -/

abbrev editedMachine : Machine (Actor Unit) (World Unit) Fate Call Memory (Op Unit) Res :=
  machine (fun _ => .reporter 0) [] false

/-- The user is added, and a connection moves 7 bytes up. -/
def openConnection : List (Label (Actor Unit) Call Fate) :=
  joins 0 "u" ++ moves 0 0 7

/-- The counters are collected before the user is removed. -/
def collectedRemoval : List (Label (Actor Unit) Call Fate) :=
  openConnection ++ [.enter (.client ()) ()] ++
    List.replicate 15 (.step (.client ()) { order := [0] }) ++
    [.enter (.admin 0) (.delUser 0 "u")] ++ List.replicate 6 (.step (.admin 0) {})

theorem collected_removal_strays_nothing :
    ∃ c, editedMachine.runFrom (World.initial .absent {}) collectedRemoval = some c ∧
      c.shared.registry 0 "u" = none ∧ c.shared.taken "u" .up = 7 ∧ c.shared.NothingStray := by
  refine Machine.run_witness (fun c => c.shared.registry 0 "u" = none ∧ c.shared.taken "u" .up = 7)
    (by decide +kernel) ?_
  rintro c ran ⟨removed, taken⟩
  exact ⟨removed, taken,
    unremoved_traffic_is_listed _ [] .absent {} collectedRemoval c (by decide +kernel) ran⟩

/-- The account is edited while the connection stays open and moves 5 more bytes. -/
def editedAccount : List (Label (Actor Unit) Call Fate) :=
  openConnection ++ [.enter (.admin 0) (.updateUser "u" "u" true [0])] ++
    List.replicate 10 (.step (.admin 0) {}) ++ [.leave (.admin 0)] ++ moves 0 0 5

/-- Of the 12 bytes 7 are dropped, and 5 are in an object that is no longer listed. -/
theorem account_edit_strays_traffic :
    ∃ c, editedMachine.runFrom (World.initial .absent {}) editedAccount = some c ∧
      c.shared.counted "u" .up = 12 ∧ c.shared.taken "u" .up = 0 ∧
      c.shared.gone "u" .up = 7 ∧ c.shared.registry 0 "u" = some 1 ∧
      (c.shared.meters.map fun m => m.recv) = [5, 0] ∧ ¬ c.shared.NothingStray := by
  refine Machine.run_witness (fun c => c.shared.counted "u" .up = 12 ∧ c.shared.taken "u" .up = 0 ∧
    c.shared.gone "u" .up = 7 ∧ c.shared.registry 0 "u" = some 1 ∧
    (c.shared.meters.map fun m => m.recv) = [5, 0] ∧ c.shared.live "u" .up = 5)
    (by decide +kernel) ?_
  rintro c ran ⟨counted, taken, gone, registered, counters, live⟩
  refine ⟨counted, taken, gone, registered, counters, fun nothing => ?_⟩
  have balance := nothing.1 "u" .up
  omega

end TrojanGo.Plane
