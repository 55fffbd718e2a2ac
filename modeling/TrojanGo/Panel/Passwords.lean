import TrojanGo.Panel.History

/-!
# Password changes against logins

A login that matched a legacy plain text saves its hash after an overlapping change and so brings
the old password back. A login that was checked against the old password signs its token with the
key of the change. The results are about the runs without these orders.
-/
namespace TrojanGo.Panel

open Lib
open Master (Time)

variable {env : Env} {w w' : World}

variable {fate : Fate}

/-! ### The stored password -/

/-- A legacy password is upgraded only as long as no password change was committed. -/
def Op.UpgradesInTime (w : World) : Op → Prop
  | .upgradePassword _ _ => w.changes = []
  | _ => True

instance (w : World) (op : Op) : Decidable (op.UpgradesInTime w) := by
  unfold Op.UpgradesInTime
  split <;> infer_instance

/-- A hash accepts what has the key of its password. -/
def Bcrypt.Sound (bcrypt : Bcrypt) : Prop :=
  ∀ salt password attempt, bcrypt.verify (bcrypt.hash salt password) attempt =
    decide (bcryptKey attempt = bcryptKey password)

/-- The key shows the whole password: it has at most 72 bytes, and no zero among them. -/
def FitsKey (password : String) : Prop := (utf8 password).length ≤ 72 ∧ 0 ∉ utf8 password

section Key

variable {a b : String} {i : Nat}

theorem bcryptKey_getElem (inside : i < 72) (within : i ≤ (utf8 a).length) :
    (bcryptKey a)[i]? = (utf8 a ++ [0])[i]? := by
  simp [bcryptKey, inside, Nat.mod_eq_of_lt (Nat.lt_succ_of_le within)]
  grind

/-- The first zero ends the password. -/
theorem length_le_of_key (fits : FitsKey b) (same : bcryptKey a = bcryptKey b) :
    (utf8 b).length ≤ (utf8 a).length := by
  by_contra! less
  obtain ⟨short, plain⟩ := fits
  have here := congrArg (·[(utf8 a).length]?) same
  rw [bcryptKey_getElem (by omega) (by omega), bcryptKey_getElem (by omega) (by omega)] at here
  grind

theorem bcryptKey_inj (fits : FitsKey a) (fits' : FitsKey b) :
    bcryptKey a = bcryptKey b ↔ a = b := by
  refine ⟨fun same => ?_, fun same => same ▸ rfl⟩
  have length := Nat.le_antisymm (length_le_of_key fits same.symm) (length_le_of_key fits' same)
  have bytes : utf8 a = utf8 b := by
    refine List.ext_getElem length fun i inside inside' => ?_
    have here := congrArg (·[i]?) same
    rw [bcryptKey_getElem (inside.trans_le fits.1) inside.le,
      bcryptKey_getElem (inside'.trans_le fits'.1) inside'.le] at here
    grind
  exact String.toByteArray_inj.mp (ByteArray.ext (Array.toList_inj.mp bytes))

end Key

/-- The stored password accepts what has the key of the password that the last committed change has
set; among the passwords that the key shows this is exactly that password. -/
def World.AcceptsLast (env : Env) (w : World) : Prop :=
  ∀ password earlier, w.changes = password :: earlier →
    ∃ stored, w.password = some stored ∧ ∀ attempt,
      (env.bcrypt.accepts stored.text attempt = true ↔ bcryptKey attempt = bcryptKey password) ∧
      (FitsKey password → FitsKey attempt →
        (env.bcrypt.accepts stored.text attempt = true ↔ attempt = password))

theorem exec_acceptsLast (sound : env.bcrypt.Sound) {op : Op} {result : Res op} (holds : w.AcceptsLast env)
    (timely : op.UpgradesInTime w) (done : exec env fate w op = some (result, w')) :
    w'.AcceptsLast env := by
  intro password earlier last
  cases exec_effect done with
  | upgrade =>
    -- an upgrade in time comes before every change
    cases timely.symm.trans last
  | change update username salt =>
    cases last
    refine ⟨_, rfl, fun attempt => ?_⟩
    rw [Bcrypt.accepts, if_pos (env.bcrypt.tagged _ _), sound, decide_eq_true_eq]
    exact ⟨Iff.rfl, fun fits fits' => bcryptKey_inj fits' fits⟩
  | _ => exact holds password earlier last

/-- In every run in which no legacy password is upgraded after a committed change, the stored
password accepts exactly the one set by the last change, and every change that was answered
with success is among the committed ones. -/
theorem stored_password_accepts_last_change (env : Env) (sound : env.bcrypt.Sound)
    (username password : Option String) (clock : Time)
    {labels : (machine env).Labels} {c : (machine env).State}
    (timely : (machine env).MeetsFrom (fun w op => op.UpgradesInTime w)
      (World.start username password clock) labels)
    (ran : (machine env).runFrom (World.start username password clock) labels = some c) :
    c.shared.AcceptsLast env ∧
      ∀ token update n, (.update token (some update), .updated (some n)) ∈ c.shared.replies →
        c.shared.Changed n update.password := by
  have start : (World.start username password clock).AcceptsLast env := by
    rintro _ _ ⟨⟩
  obtain ⟨good, accepts⟩ := (history_start env username password clock).run_invariant
    (history_sound env) (fun _ _ _ => trivial) (World.AcceptsLast env)
    (fun _ _ _ _ _ _ holds timely done _ => exec_acceptsLast sound holds timely done)
    (fun _ _ _ holds rebooted => by cases rebooted; exact holds) start timely ran
  refine ⟨accepts, ?_⟩
  intro token update n answered
  obtain ⟨_, ⟨⟩, changed, -⟩ := good.inv.replies _ _ answered
  exact changed

/-- A login in so many steps, and after it a password change by its session. -/
def Sample.loginThenChange (count : Nat) : List (Label Nat (fun _ => Request) Fate) :=
  serve 0 (.login "192.0.2.1" (some ⟨"admin", "old"⟩)) count ++
    serve 0 (.update (some token) (some ⟨"", "new"⟩)) 12

/-- A login upgrades the plain text, then its session sets a new password. -/
theorem upgraded_password_changed :
    ∃ c, (machine Sample.server).runFrom (World.start (some "admin") (some "old") 0)
      (Sample.loginThenChange 17) = some c ∧
      c.shared.changes = ["new"] ∧ c.shared.AcceptsLast Sample.server := by
  refine Machine.run_checked_and (by decide +kernel) fun c ran => ?_
  have sound : Sample.server.bcrypt.Sound := by
    intro salt password attempt
    simp [Sample.server, Sample.bcrypt]
  exact (stored_password_accepts_last_change Sample.server sound (some "admin") (some "old") 0
    (by decide +kernel) ran).1

/-- A second login has matched the plain text `old` and hashed it when the first one's session
sets the password `new`; then the second login saves its hash. Everything has returned, the
last change set `new`, and the stored password accepts `old` and not `new`. -/
theorem upgrade_restores_old_password :
    ∃ c, (machine Sample.server).runFrom (World.start (some "admin") (some "old") 0)
        (.enter 1 (.login "192.0.2.2" (some ⟨"admin", "old"⟩)) :: Sample.steps 1 9 ++
          Sample.serve 0 (.login "192.0.2.1" (some ⟨"admin", "old"⟩)) 11 ++
          Sample.serve 0 (.update (some Sample.token) (some ⟨"", "new"⟩)) 12 ++
          Sample.steps 1 8 ++ [.leave 1]) = some c ∧
      (.update (some Sample.token) (some ⟨"", "new"⟩), .updated (some 1)) ∈ c.shared.replies ∧
      (c.threads 0).memory = some () ∧ (c.threads 1).memory = some () ∧
      c.shared.changes = ["new"] ∧
      ∃ stored ∈ c.shared.password, Sample.server.bcrypt.accepts stored.text "old" = true ∧
        Sample.server.bcrypt.accepts stored.text "new" = false :=
  Machine.run_checked (by decide +kernel)

/-! ### Tokens for older passwords -/

/-- A login signs with no newer key than the one of the credentials it has checked, and no
change puts an older key in force than the present one. -/
def Op.KeyInOrder (w : World) : Op → Prop
  | .sign _ _ _ change => w.key ≤ change
  | .setSigningKey key => w.key ≤ key
  | _ => True

instance (w : World) (op : Op) : Decidable (op.KeyInOrder w) := by
  unfold Op.KeyInOrder
  split <;> infer_instance

structure KeysInOrder (w : World) : Prop where
  stored : w.storedKey = w.changes.length
  /-- the key in force is at least as new as every key that was -/
  newest : ∀ key ∈ w.installed, key ≤ w.key
  bound : w.key ≤ w.storedKey
  issued : ∀ token ∈ w.issued, token.key ≤ token.change

theorem exec_keysInOrder {op : Op} {result : Res op} (holds : KeysInOrder w)
    (ordered : op.KeyInOrder w) (recorded : Recorded w')
    (done : exec env fate w op = some (result, w')) : KeysInOrder w' := by
  cases exec_effect done with
  | change =>
    have bound := holds.bound
    rw [holds.stored] at bound
    exact ⟨rfl, holds.newest, Nat.le_succ_of_le bound, holds.issued⟩
  | sign =>
    refine ⟨holds.stored, holds.newest, holds.bound, fun token mem => ?_⟩
    rcases List.mem_cons.mp mem with rfl | old
    · exact ordered
    · exact holds.issued token old
  | install key =>
    refine ⟨holds.stored, fun older mem => ?_, ?_, holds.issued⟩
    · rcases List.mem_cons.mp mem with rfl | old
      · exact Nat.le_refl _
      · exact Nat.le_trans (holds.newest older old) ordered
    · exact (recorded.drawn key List.mem_cons_self).trans holds.stored.ge
  | _ => exact ⟨holds.stored, holds.newest, holds.bound, holds.issued⟩

theorem KeysInOrder.restart (holds : KeysInOrder w) : KeysInOrder w.restart where
  stored := holds.stored
  newest key mem := Nat.le_trans (holds.newest key mem) holds.bound
  bound := Nat.le_refl _
  issued := holds.issued

/-- In every run whose keys are in order, once a password change was answered with success no
token that was issued for an older password verifies. -/
theorem old_tokens_rejected_after_change (env : Env) (username password : Option String)
    (clock : Time) {labels : (machine env).Labels} {c : (machine env).State}
    (ordered : (machine env).MeetsFrom (fun w op => op.KeyInOrder w)
      (World.start username password clock) labels)
    (ran : (machine env).runFrom (World.start username password clock) labels = some c) :
    ∀ presented body n token now, (.update presented body, .updated (some n)) ∈ c.shared.replies →
      token ∈ c.shared.issued → token.change < n → ¬ token.Verifies c.shared.key now := by
  have start : KeysInOrder (World.start username password clock) :=
    ⟨rfl, by rintro _ ⟨⟩, Nat.le_refl _, by rintro _ ⟨⟩⟩
  obtain ⟨good, order⟩ := (history_start env username password clock).run_invariant
    (history_sound env) (fun _ _ _ => trivial) KeysInOrder
    (fun _ _ _ _ _ _ holds ordered done recorded =>
      exec_keysInOrder holds ordered recorded done)
    (fun _ _ _ holds rebooted => by cases rebooted; exact holds.restart) start ordered ran
  intro presented body n token now answered issued older verifies
  obtain ⟨_, _, _, installed⟩ := good.inv.replies _ _ answered
  have chain : token.key < c.shared.key := calc
    token.key ≤ token.change := order.issued token issued
    _ < n := older
    _ ≤ c.shared.key := order.newest n installed
  exact Nat.ne_of_lt chain verifies.1

/-- The session that changes the password is ended by the change. -/
theorem own_token_rejected_after_change :
    ∃ c, (machine Sample.server).runFrom (World.start (some "admin") (some "$2a$old") 0)
      (Sample.loginThenChange 14) = some c ∧
      (.update (some Sample.token) (some ⟨"", "new"⟩), .updated (some 1)) ∈ c.shared.replies ∧
      Sample.token ∈ c.shared.issued ∧ ¬ Sample.token.Verifies c.shared.key 0 := by
  refine Machine.run_witness (fun c =>
    (.update (some Sample.token) (some ⟨"", "new"⟩), .updated (some 1)) ∈ c.shared.replies ∧
      Sample.token ∈ c.shared.issued) (by decide +kernel) ?_
  rintro c ran ⟨answered, issued⟩
  exact ⟨answered, issued, old_tokens_rejected_after_change Sample.server (some "admin")
    (some "$2a$old") 0 (by decide +kernel) ran _ _ _ _ 0 answered issued (by decide)⟩

/-- A second login was checked against the old password when the first one's session changes
it, and signs its token after the change was answered. The token is granted access. -/
theorem login_signs_with_new_key :
    ∃ c, (machine Sample.server).runFrom (World.start (some "admin") (some "$2a$old") 0)
        (Sample.serve 0 (.login "192.0.2.1" (some ⟨"admin", "old"⟩)) 14 ++
          .enter 1 (.login "192.0.2.2" (some ⟨"admin", "old"⟩)) :: Sample.steps 1 2 ++
          Sample.serve 0 (.update (some Sample.token) (some ⟨"", "new"⟩)) 12 ++
          Sample.steps 1 6 ++ [.leave 1] ++
          Sample.serve 1 (.session (some Sample.lateToken)) 7) = some c ∧
      Sample.lateToken ∈ c.shared.issued ∧ Sample.lateToken.change = 0 ∧
      c.shared.replies =
        [(.session (some Sample.lateToken), .granted),
          (.login "192.0.2.2" (some ⟨"admin", "old"⟩), .token Sample.lateToken),
          (.update (some Sample.token) (some ⟨"", "new"⟩), .updated (some 1)),
          (.login "192.0.2.1" (some ⟨"admin", "old"⟩), .token Sample.token)] :=
  Machine.run_checked (by decide +kernel)

end TrojanGo.Panel
