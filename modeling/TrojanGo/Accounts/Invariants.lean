import TrojanGo.Accounts.Rows

/-!
# Invariants of the user table

Hash and ciphertext are written by one statement, or inside one transaction, or the ciphertext is
empty. The columns with a range stay in it if new users and backups are in range, which the
handlers do not check.
-/
namespace TrojanGo.Accounts

open Lib Master Database

/-- What every write keeps and traffic does not touch, every run keeps. -/
theorem rows_invariant (env : Env) {admits : World → Op → Prop} {holds : User → Prop}
    (credit : ∀ rate entries increments, trafficIncrements rate entries = .ok increments →
      ∀ u, holds u → holds (u.credit (increments.shareOf u)))
    (writes : ∀ fate w write u, (∀ old ∈ w.users, holds old) → admits w (.write write) →
      Op.Checked env (.write write) → Descends env fate w.users write u → holds u)
    {db : Db} (start : ∀ u ∈ db.users, holds u)
    {labels : (machine env).Labels} {c : (machine env).State}
    (meets : (machine env).MeetsFrom admits (World.start db) labels)
    (ran : (machine env).runFrom (World.start db) labels = some c) :
    ∀ u ∈ c.shared.users, holds u := by
  have bodies : ∀ (i : Nat) (call : Call) (memory : Unit) p,
      (machine env).body i call memory = some p → p.Only (Op.Checked env) := by
    intro i call memory p found
    cases found
    exact body_checked env call
  refine Machine.run_invariant_only bodies (fun w : World => ∀ u ∈ w.users, holds u) ?_ ?_ start
    meets ran
  · intro fate w op result w' held admitted checked done u mem
    rcases exec_users done with same | ⟨rate, entries, increments, converted, rows⟩ |
      ⟨write, value, rfl, committed⟩
    · rw [same] at mem
      exact held u mem
    · grind
    · exact writes fate w write u held admitted checked (Write.descends committed mem)
  · intro w w' held rebooted
    cases rebooted
    exact held

/-! ### Credentials -/

/-- A stored ciphertext opens, for the row it is in, to the password of the row's hash. -/
def Sealed (crypto : Crypto) (u : User) : Prop :=
  u.passwordCiphertext ≠ "" → ∃ password,
    decryptCredential crypto.cipher (userPasswordPurpose u.id) u.passwordCiphertext = some password ∧
      crypto.sha224 password = u.hash

section Sealed

variable {crypto : Crypto} {u : User}

theorem sealed_of_empty (empty : u.passwordCiphertext = "") : Sealed crypto u :=
  fun stored => absurd empty stored

theorem sealed_withPassword (nonce password : String) :
    Sealed crypto (withPassword crypto nonce password u) :=
  fun _ => ⟨password, decryptCredential_encryptCredential _ _ _ _, rfl⟩

/-- An edit that keeps the columns of the credential. -/
theorem Sealed.congr {v : User} (holds : Sealed crypto u) (id : v.id = u.id)
    (hash : v.hash = u.hash) (ciphertext : v.passwordCiphertext = u.passwordCiphertext) :
    Sealed crypto v := by
  unfold Sealed
  rw [id, hash, ciphertext]
  exact holds

end Sealed

variable {env : Env} {u : User} {increment : TrafficIncrement}

/-- No write separates a ciphertext from the hash of its password. -/
theorem descends_sealed {fate : Fate} {users : List User} {write : Write}
    (before : ∀ old ∈ users, Sealed env.toCrypto old) (checked : Op.Checked env (.write write))
    (descends : Descends env fate users write u) : Sealed env.toCrypto u := by
  cases descends with
  | kept mem => exact before u mem
  | created | cached | purged => exact sealed_of_empty rfl
  | password mem => exact sealed_withPassword _ _
  | @updated id columns password old mem =>
    cases password with
    | none =>
      have hash : columns.hash = none := checked.hash
      exact (before old mem).congr rfl (by simp [updated, UserEdit.apply, hash]) rfl
    | some password => exact sealed_withPassword _ _
  | @edited id column old mem =>
    cases column <;> exact (before old mem).congr rfl rfl rfl
  | @restored entries entry mem id =>
    unfold restored
    split
    · exact sealed_of_empty rfl
    · exact sealed_withPassword _ _
  | cleared mem | credited converted mem => exact (before _ mem).congr rfl rfl rfl
  | encrypted todo mem =>
    exact applyAll_encryptedFor (fun _ _ _ _ => sealed_withPassword _ _) todo (before _ mem)

/-- In every run, with failures and crashes anywhere, every stored ciphertext opens under the
id of its row to the password that the row's hash was made of, and no two rows share a hash. -/
theorem stored_credentials_match (env : Env) (db : Db)
    (start : ∀ u ∈ db.users, Sealed env.toCrypto u)
    {labels : (machine env).Labels} {c : (machine env).State}
    (ran : (machine env).runFrom (World.start db) labels = some c) :
    (∀ u ∈ c.shared.users, Sealed env.toCrypto u) ∧ (c.shared.users.map User.hash).Nodup := by
  refine ⟨?_, c.shared.db.userIndex⟩
  have always : (machine env).MeetsFrom (fun _ _ => True) (World.start db) labels :=
    Machine.runMeets_of_admits (fun _ _ => trivial) _ _
  refine rows_invariant env ?_ ?_ start always ran
  · intro rate entries increments converted u holds
    exact holds.congr rfl rfl rfl
  · intro fate w write u before _ checked descends
    exact descends_sealed before checked descends

namespace Sample

def newUser : UserBody := { username := "ann", password := "old" }

/-- A user is created and then gets another password. -/
def renewal : List (Label Nat (fun _ => Call) Fate) :=
  serve (.add (some newUser)) 5 ++ serve (.update 1 (.ok { password := "new" })) 6

end Sample

theorem renewed_password_matches :
    ∃ c, (machine Sample.env).runFrom (World.start {}) Sample.renewal = some c ∧
      (c.shared.users.map fun u => (u.id, u.hash, u.passwordCiphertext)) =
        [(1, "sha224:new", "enc:v1:default:new")] ∧
      (∀ u ∈ c.shared.users, Sealed Sample.env.toCrypto u) ∧
        (c.shared.users.map User.hash).Nodup := by
  refine Machine.run_checked_and (by decide +kernel) fun c ran => ?_
  exact stored_credentials_match Sample.env {} (by simp) ran

/-- The password does not stand beside its ciphertext. -/
def Concealed (u : User) : Prop := u.passwordCiphertext = "" ∨ u.password = ""

/-- In every run, with failures and crashes anywhere, no password comes to stand in the clear
beside its ciphertext. -/
theorem passwords_concealed (env : Env) (db : Db) (start : ∀ u ∈ db.users, Concealed u)
    {labels : (machine env).Labels} {c : (machine env).State}
    (ran : (machine env).runFrom (World.start db) labels = some c) :
    ∀ u ∈ c.shared.users, Concealed u := by
  refine rows_invariant env (fun _ _ _ _ _ holds => holds) ?_ start
    (Machine.runMeets_of_admits (fun _ _ => trivial) _ _) ran
  intro fate w write u before _ _ descends
  cases descends with
  | created | cached => exact .inl rfl
  | password | purged => exact .inr rfl
  | kept mem | cleared mem | credited _ mem => exact (before _ mem :)
  | @edited _ column _ mem => cases column <;> exact (before _ mem :)
  | @updated _ _ password _ mem =>
    cases password with
    | none => exact (before _ mem :)
    | some => exact .inr rfl
  | restored =>
    unfold restored
    split <;> exact .inr rfl
  | encrypted todo mem => exact applyAll_encryptedFor (fun _ _ _ _ => .inr rfl) todo (before _ mem)

theorem renewed_password_concealed :
    ∃ c, (machine Sample.env).runFrom (World.start {}) Sample.renewal =
        some c ∧ c.shared.users.length = 1 ∧ ∀ u ∈ c.shared.users, Concealed u :=
  Machine.run_checked_and (by decide +kernel) fun _ => passwords_concealed _ {} (by simp)

/-! ### Ranges -/

structure InRange (u : User) : Prop where
  upload : 0 ≤ u.upload
  download : 0 ≤ u.download
  used : 0 ≤ u.used
  quota : -1 ≤ u.quota
  ipLimit : limitInRange u.ipLimit
  status : statusInRange u.status

/-- The counters that a request hands in are not negative. -/
def UserBody.Counts (body : UserBody) : Prop := 0 ≤ body.upload ∧ 0 ≤ body.download ∧ 0 ≤ body.used

/-- What the statements are sent with: counters that are not negative, and backups of rows in
range. -/
def Op.Ranged : Op → Prop
  | .write (.create body) => UserBody.Counts body
  | .write (.restore entries) => ∀ entry ∈ entries, UserBody.Counts entry ∧ -1 ≤ entry.quota ∧
      limitInRange entry.ipLimit ∧ statusInRange entry.status
  | _ => True

instance (status : Int) : Decidable (statusInRange status) := inferInstanceAs (Decidable (_ ∨ _))

instance (limit : Int) : Decidable (limitInRange limit) := inferInstanceAs (Decidable (_ ∧ _))

instance (body : UserBody) : Decidable (UserBody.Counts body) := inferInstanceAs (Decidable (_ ∧ _))

instance : (op : Op) → Decidable op.Ranged
  | .write (.create body) => inferInstanceAs (Decidable (UserBody.Counts body))
  | .write (.restore entries) => inferInstanceAs (Decidable (∀ entry ∈ entries, _))
  | .write (.setPassword _ _) | .write (.delete _) | .write (.update _ _ _) | .write (.edit _ _)
  | .write .resetTraffic | .write (.embeddedTraffic _) | .write (.cacheUsers _)
  | .write .encryptCredentials | .write .purgePlaceholders | .master _ | .now | .userByHash _ _
  | .userByID _ | .activeUsers | .attached | .addUser _ | .delUser _ | .attach _
  | .refresh _ _ _ | .wait _ | .reply _ _ => .isTrue trivial

theorem row_inRange {body : UserBody} {id : Nat} (counts : UserBody.Counts body)
    (quota : -1 ≤ body.quota) (limit : limitInRange body.ipLimit)
    (status : statusInRange body.status) : InRange (body.row id) where
  upload := counts.1
  download := counts.2.1
  used := counts.2.2
  quota := by
    show -1 ≤ if body.quota = 0 then -1 else body.quota
    split
    · exact Int.le_refl _
    · exact quota
  ipLimit := limit
  status := status

/-- An edit that keeps the columns with a range. -/
theorem InRange.congr {v : User} (holds : InRange u)
    (same : (v.upload, v.download, v.used, v.quota, v.ipLimit, v.status) =
      (u.upload, u.download, u.used, u.quota, u.ipLimit, u.status)) : InRange v := by
  simp only [Prod.mk.injEq] at same
  obtain ⟨upload, download, used, quota, limit, status⟩ := same
  exact ⟨upload ▸ holds.upload, download ▸ holds.download, used ▸ holds.used, quota ▸ holds.quota,
    limit ▸ holds.ipLimit, status ▸ holds.status⟩

theorem InRange.cleared (holds : InRange u) : InRange (clearCounters u) :=
  { holds with upload := Int.le_refl 0, download := Int.le_refl 0, used := Int.le_refl 0 }

def Nonnegative (increment : TrafficIncrement) : Prop :=
  0 ≤ increment.upload ∧ 0 ≤ increment.download ∧ 0 ≤ increment.used

theorem shareOf_nonneg {rate : Binary64} {entries : List (Σ _ : String, Traffic)}
    {increments : Increments} (converted : trafficIncrements rate entries = .ok increments)
    (u : User) : Nonnegative (increments.shareOf u) := by
  induction entries generalizing increments with
  | nil =>
    cases converted
    simp [Increments.shareOf, Nonnegative]
  | cons entry entries ih =>
    simp only [trafficIncrements, bind, Except.bind] at converted
    split at converted
    · cases converted
    next increment made =>
      split at converted
      · cases converted
      next others rest =>
        cases converted
        obtain ⟨upload, download, used⟩ := ih rest
        obtain ⟨⟨up, -⟩, ⟨down, -⟩, ⟨total, -⟩⟩ := newTrafficIncrement_bounds made
        have first : Nonnegative (share entry.1 increment u) := by
          unfold share
          split
          · exact ⟨up, down, total⟩
          · exact ⟨Int.le_refl 0, Int.le_refl 0, Int.le_refl 0⟩
        exact ⟨Int.add_nonneg first.1 upload, Int.add_nonneg first.2.1 download,
          Int.add_nonneg first.2.2 used⟩

theorem InRange.credit (holds : InRange u) (amounts : Nonnegative increment) :
    InRange (u.credit increment) where
  upload := Int.add_nonneg holds.upload amounts.1
  download := Int.add_nonneg holds.download amounts.2.1
  used := Int.add_nonneg holds.used amounts.2.2
  quota := holds.quota
  ipLimit := holds.ipLimit
  status := holds.status

/-- A column that is sent is checked, and one that is not sent is kept. -/
theorem sent_or_kept {α : Type} {holds : α → Prop} {column : Option α} {old : α}
    (sent : ∀ value ∈ column, holds value) (kept : holds old) : holds (column.getD old) := by
  cases column with
  | none => exact kept
  | some value => exact sent value rfl

theorem inRange_apply {columns : UserEdit} {password : Option String}
    (checked : UserEdit.Checked env columns password) (holds : InRange u) :
    InRange (columns.apply u) where
  upload := holds.upload
  download := holds.download
  used := holds.used
  quota := sent_or_kept checked.quota holds.quota
  ipLimit := sent_or_kept checked.ipLimit holds.ipLimit
  status := sent_or_kept checked.status holds.status

theorem descends_inRange {fate : Fate} {users : List User} {write : Write}
    (before : ∀ old ∈ users, InRange old) (ranged : Op.Ranged (.write write))
    (checked : Op.Checked env (.write write)) (descends : Descends env fate users write u) :
    InRange u := by
  cases descends with
  | kept mem => exact before u mem
  | created id =>
    obtain ⟨quota, status, limit⟩ := checked
    exact row_inRange ranged quota limit status
  | password mem | purged mem => exact (before _ mem).congr rfl
  | @updated id columns password old mem =>
    have edited := inRange_apply checked (before old mem)
    cases password with
    | none => exact edited
    | some password => exact edited.congr rfl
  | @edited id column old mem =>
    have holds := before old mem
    cases column with
    | quota quota => exact { holds with quota := checked }
    | expiryTime expiry => exact holds.congr rfl
    | clearTraffic => exact holds.cleared
  | @restored entries entry mem id =>
    obtain ⟨counts, quota, limit, status⟩ := ranged entry mem
    have row : InRange ({ entry with
        hash := UserBody.restoreHash env.toCrypto entry, password := "" }.row id) :=
      row_inRange counts quota limit status
    unfold restored
    split
    · exact row
    · exact row.congr rfl
  | cleared mem => exact (before _ mem).cleared
  | credited converted mem => exact (before _ mem).credit (shareOf_nonneg converted _)
  | cached id hash username =>
    have limit : limitInRange 0 := by unfold limitInRange; decide
    exact ⟨Int.le_refl 0, Int.le_refl 0, Int.le_refl 0, Int.le_refl (-1), limit, .inl rfl⟩
  | encrypted todo mem =>
    exact applyAll_encryptedFor (fun _ _ _ holds => holds.congr rfl) todo (before _ mem)

/-- An increment is refused only because of the row it is for. -/
theorem persistTrafficIncrement_refused {hash : String} {db : Db} {reason : TxError}
    (refused : persistTrafficIncrement hash increment db = .error reason) :
    ∃ u ∈ db.users, u.hash = hash ∧ u.accepts increment = false := by
  simp only [persistTrafficIncrement] at refused
  split at refused
  · cases refused
  split at refused
  · cases refused
  next none_ =>
    split at refused
    · cases refused
    next known => grind

/-- From an empty database on, in every run in which new users come with counters that are not
negative and backups with rows in range, every row stays in range; and an increment is refused
by a row only if a counter would pass the largest integer of 64 bits. -/
theorem stored_rows_in_range (env : Env)
    {labels : (machine env).Labels} {c : (machine env).State}
    (ranged : (machine env).MeetsFrom (fun _ op => op.Ranged) (World.start {}) labels)
    (ran : (machine env).runFrom (World.start {}) labels = some c) :
    (∀ u ∈ c.shared.users, InRange u) ∧
      ∀ hash increment reason, persistTrafficIncrement hash increment c.shared.db = .error reason →
        ∃ u ∈ c.shared.users, u.hash = hash ∧
          ((maxTrafficCounter : Int) < u.upload + increment.upload ∨
            (maxTrafficCounter : Int) < u.download + increment.download ∨
            (maxTrafficCounter : Int) < u.used + increment.used) := by
  have rows : ∀ u ∈ c.shared.users, InRange u := by
    refine rows_invariant env ?_ ?_ (by simp) ranged ran
    · intro rate entries increments converted u holds
      exact holds.credit (shareOf_nonneg converted u)
    · intro fate w write u before ranged checked descends
      exact descends_inRange before ranged checked descends
  refine ⟨rows, ?_⟩
  intro hash increment reason refused
  obtain ⟨u, mem, same, full⟩ := persistTrafficIncrement_refused refused
  refine ⟨u, mem, same, ?_⟩
  have holds := rows u mem
  simp only [User.accepts, holds.upload, holds.download, holds.used, true_and,
    decide_eq_false_iff_not] at full
  omega

theorem renewed_user_in_range :
    ∃ c, (machine Sample.env).runFrom (World.start {}) Sample.renewal = some c ∧
      c.shared.users.length = 1 ∧ (∀ u ∈ c.shared.users, InRange u) := by
  refine Machine.run_checked_and (by decide +kernel) fun c ran => ?_
  exact (stored_rows_in_range Sample.env (by decide +kernel) ran).1

/-- A user is created with a negative usage. The row keeps it, and the update refuses one
uploaded byte. -/
theorem negative_usage_refuses_traffic :
    ∃ c, (machine Sample.env).runFrom (World.start {})
      (Sample.serve (.add (some { Sample.newUser with used := -5 })) 5) = some c ∧
      (c.shared.users.map User.used) = [-5] ∧
      (newTrafficIncrement 1 0 (.ofNat 1)).toOption = some ⟨1, 0, 1⟩ ∧
      (persistTrafficIncrement "sha224:old" ⟨1, 0, 1⟩ c.shared.db).toOption.isNone = true := by
  exact Machine.run_checked (by decide +kernel)

end TrojanGo.Accounts
