import TrojanGo.Plane.Readings
import TrojanGo.Plane.Validity

/-!
# The node takes over the master's list

A round of the node sync manager that nobody disturbs. An answer that is rejected changes nothing:
the round only counts a failure.
-/
namespace TrojanGo.Plane

open Lib NodeSync Prog List

variable {κ : Type}

/-! ### User maps -/

/-- The object is in the user map. -/
def World.lists (s : World κ) (auth i : Nat) : Bool :=
  (s.meters[i]?).any fun m => decide (s.registry auth m.hash = some i)

/-- A range over a user map that nobody changes meanwhile visits exactly its objects. -/
def Undisturbed : Fate → World κ → Op κ → Prop
  | fate, s, .listUsers auth => ∀ i < s.meters.length, i ∈ fate.order ↔ s.lists auth i = true
  | _, _, _ => True

variable {op : Op κ}

namespace World.Registered

variable [DecidableEq κ]

/-- Every state of the process is registered. -/
theorem run {clients : κ → Client} {embedded : List Nat} {restarts : Bool} {disk : Disk}
    {db : Master.Db} {labels : (machine clients embedded restarts).Labels}
    {c : (machine clients embedded restarts).State}
    (ran : (machine clients embedded restarts).runFrom (World.initial disk db) labels = some c) :
    c.shared.Registered := by
  have meets : (machine clients embedded restarts).MeetsFrom (fun _ _ => True)
    (World.initial disk db) labels :=
    Machine.runMeets_of_admits (fun _ _ => trivial) _ _
  refine Machine.run_invariant World.Registered ?_ ?_ ?_ meets ran
  · intro fate s op result s' registered _ done
    exact registered.exec done
  · intro s s' _ kept
    rw [restart_of_reboot kept]
    exact nofun
  · exact nofun

end World.Registered

variable {s : World κ}

/-- A listing names exactly the users of the map. -/
theorem listed_exactly (registered : s.Registered) {auth : Nat} {order : List Nat}
    {users : List (Nat × String)}
    (exact_ : ∀ i < s.meters.length, i ∈ order ↔ s.lists auth i = true)
    (visited : s.visit auth order = some users) (hash : String) :
    hash ∈ users.map Prod.snd ↔ (s.registry auth hash).isSome = true := by
  obtain ⟨lists, visitedOrder⟩ := lists_of_visit visited
  constructor
  · intro named
    obtain ⟨user, mem, rfl⟩ := List.mem_map.mp named
    obtain ⟨m, found, _, same⟩ := lists.objects user mem
    have inOrder : user.1 ∈ order := visitedOrder ▸ List.mem_map_of_mem mem
    have stored := (exact_ user.1 (List.getElem?_eq_some_iff.mp found).1).mp inOrder
    grind [World.lists]
  · intro stored
    obtain ⟨i, stored⟩ := Option.isSome_iff_exists.mp stored
    obtain ⟨m, found, _, same⟩ := registered auth hash i stored
    have listed : s.lists auth i = true := by simp [World.lists, found, same, stored]
    have inOrder := (exact_ i (List.getElem?_eq_some_iff.mp found).1).mpr listed
    rw [← visitedOrder] at inOrder
    obtain ⟨user, mem, rfl⟩ := List.mem_map.mp inOrder
    obtain ⟨m', found', _, same'⟩ := lists.objects user mem
    cases found.symm.trans found'
    exact List.mem_map.mpr ⟨user, mem, same'.symm.trans same⟩

/-! ### The local user table -/

theorem mem_insertUser (db : Master.Db) (hash other : String) :
    other ∈ (insertUser db hash).users.map Master.User.hash ↔
      other ∈ db.users.map Master.User.hash ∨ other = hash := by
  grind [insertUser]

/-- The table holds exactly the users of the list. -/
theorem mem_cacheUsers (db : Master.Db) (hashes : List String) (hash : String) :
    hash ∈ (cacheUsers db hashes).users.map Master.User.hash ↔ hash ∈ hashes := by
  have inserted : ∀ (l : List String) (db : Master.Db),
      hash ∈ (l.foldl insertUser db).users.map Master.User.hash ↔
        hash ∈ db.users.map Master.User.hash ∨ hash ∈ l := by
    intro l
    induction l with
    | nil => simp
    | cons first rest ih =>
      intro db
      rw [foldl_cons, ih, mem_insertUser, mem_cons, or_assoc]
  have kept : hash ∈ (restrictUsers db hashes).users.map Master.User.hash → hash ∈ hashes := by
    intro named
    obtain ⟨u, mem, rfl⟩ := mem_map.mp named
    exact of_decide_eq_true (mem_filter.mp mem).2
  rw [cacheUsers, inserted]
  exact or_iff_right_of_imp kept

/-! ### What a round leaves alone -/

/-- The operations that change neither a user map nor the database, and send nothing. -/
def Op.Steady : Op κ → Prop
  | .mapStore _ _ | .mapDelete _ _ | .commit _ | .cacheUsers _ | .post _ _ _ _ => False
  | _ => True

/-- The operations that send nothing. -/
def Op.Silent : Op κ → Prop
  | .post _ _ _ _ => False
  | _ => True

theorem Op.Steady.silent (steady : op.Steady) : op.Silent := by
  cases op with
  | post => exact steady.elim
  | _ => trivial

theorem Op.Plain.silent {me : Actor κ} (plain : op.Plain me) : op.Silent := by
  cases op with
  | post => exact plain.elim
  | _ => trivial

theorem Op.Steady.exec [DecidableEq κ] {s' : World κ} {fate : Fate} {result : Res op}
    (steady : op.Steady) (done : exec fate s op = some (result, s')) :
    s'.registry = s.registry ∧ s'.db = s.db := by
  cases exec_effect done with
  | store | delete | commit | cache | post => exact steady.elim
  | _ => exact ⟨rfl, rfl⟩

/-- The user maps and the database are those of `start`. -/
structure Unmoved (start s : World κ) : Prop where
  registered : s.Registered
  registry : s.registry = start.registry
  db : s.db = start.db

section Rules

variable [DecidableEq κ] {α : Type} {s : World κ}

/-- The operations of a node with nobody else around. -/
noncomputable abbrev calm : Exec (World κ) Fate (Op κ) Res := restrict exec Undisturbed

/-- The program touches no user map and no row, and its value satisfies `post`. -/
abbrev Steadily (p : Routine κ α) (post : α → Prop) : Prop :=
  p.Yields Op.Steady (fun _ _ => True) post

/-- Such a program leaves the user maps and the database as they are. -/
theorem wp_steadily {start : World κ} {p : Routine κ α} {post : α → Prop}
    (steadily : Steadily p post) (unmoved : Unmoved start s) :
    wp calm Alone p (fun value s => post value ∧ Unmoved start s) s := by
  refine wp_yields steadily ?_ unmoved ?_
  · intro s s' same _ unmoved
    cases same
    exact unmoved
  · intro s op _ unmoved _ steady fate result s' done
    obtain ⟨_, done⟩ := restrict_eq_some done
    obtain ⟨registry, db⟩ := steady.exec done
    exact ⟨trivial, trivial, ⟨unmoved.registered.exec done, registry.trans unmoved.registry,
      db.trans unmoved.db⟩, trivial⟩

end Rules

/-! ### Bringing the user maps in line -/

/-- The map of one authenticator holds the present users; the others and the database are those
of `start`. -/
structure Edited (start : World κ) (auth : Nat) (present : String → Prop) (s : World κ) : Prop where
  registered : s.Registered
  db : s.db = start.db
  others : ∀ other ≠ auth, s.registry other = start.registry other
  here : ∀ hash, (s.registry auth hash).isSome = true ↔ present hash

/-- The authenticator knows exactly these users. -/
def InLine (users : List String) (s : World κ) (auth : Nat) : Prop :=
  ∀ hash, (s.registry auth hash).isSome = true ↔ hash ∈ users

section Applying

variable {start s : World κ} {auth : Nat} {present : String → Prop}

theorem Edited.congr {present' : String → Prop} (edited : Edited start auth present s)
    (same : ∀ hash, present hash ↔ present' hash) : Edited start auth present' s :=
  ⟨edited.registered, edited.db, edited.others, fun hash => (edited.here hash).trans (same hash)⟩

variable [DecidableEq κ]

section

variable (edited : Edited start auth present s)

include edited

theorem Edited.steady {α : Type} {p : Routine κ α} (only : p.Only Op.Steady) :
    wp calm Alone p (fun _ => Edited start auth present) s := by
  have unmoved : Unmoved s s := ⟨edited.registered, rfl, rfl⟩
  refine wp_mono ?_ (wp_steadily only.yields unmoved)
  rintro _ s' _ ⟨_, registered, registry, db⟩
  exact ⟨registered, db.trans edited.db, by rw [registry]; exact edited.others,
    by rw [registry]; exact edited.here⟩

/-- A deleted user is no longer in the map. -/
theorem wp_delUser (me : Actor κ) (hash : String) :
    wp calm Alone (delUser me auth hash)
      (fun _ => Edited start auth fun h => present h ∧ h ≠ hash) s := by
  refine wp_step fun fate found s' _ done => ⟨trivial, ?_⟩
  obtain ⟨_, done⟩ := restrict_eq_some done
  cases done
  have here := edited.here
  cases stored : s.registry auth hash with
  | none =>
    -- nothing to delete
    exact wp_done ⟨edited.registered, edited.db, edited.others, by grind⟩
  | some i =>
    have reset : (resetTraffic me i).Only Op.Steady :=
      resetTraffic_only me trivial (fun _ => trivial) (fun _ => trivial) trivial
    refine wp_then (edited.steady reset) fun _ s _ edited => ?_
    refine wp_step fun fate _ s' _ done => ⟨trivial, ?_⟩
    obtain ⟨_, done⟩ := restrict_eq_some done
    have registered := edited.registered.exec done
    have here := edited.here
    cases done
    exact wp_done ⟨registered, edited.db,
      fun other different => by simpa [different] using edited.others other different, by grind⟩

theorem wp_addUser (hash : String) :
    wp calm Alone (addUser auth hash)
      (fun _ => Edited start auth fun h => present h ∨ h = hash) s := by
  refine wp_step fun fate found s' _ done => ⟨trivial, ?_⟩
  obtain ⟨_, done⟩ := restrict_eq_some done
  cases done
  have here := edited.here
  cases stored : s.registry auth hash with
  | some i =>
    -- the user is known already
    exact wp_done ⟨edited.registered, edited.db, edited.others, by grind⟩
  | none =>
    refine wp_step fun fate _ s' _ done => ⟨trivial, ?_⟩
    obtain ⟨_, done⟩ := restrict_eq_some done
    have registered := edited.registered.exec done
    cases done
    exact wp_done ⟨registered, edited.db,
      fun other different => by simpa [different] using edited.others other different, by grind⟩

end

theorem wp_removeUsers (c : κ) (hashes : List String) (edited : Edited start auth present s) :
    wp calm Alone (Manager.removeUsers c auth hashes)
      (fun _ => Edited start auth fun h => present h ∧ h ∉ hashes) s := by
  induction hashes generalizing present s with
  | nil => exact wp_done (edited.congr (by simp))
  | cons hash rest ih =>
    refine wp_then (wp_delUser edited (.client c) hash) fun _ s _ edited => ?_
    refine wp_mono (fun _ _ _ edited => edited.congr fun h => ?_) (ih edited)
    simp [and_assoc]

theorem wp_addUsers (hashes : List String) (edited : Edited start auth present s) :
    wp calm Alone (Manager.addUsers auth hashes)
      (fun _ => Edited start auth fun h => present h ∨ h ∈ hashes) s := by
  induction hashes generalizing present s with
  | nil => exact wp_done (edited.congr (by simp))
  | cons hash rest ih =>
    refine wp_then (wp_addUser edited hash) fun _ s _ edited => ?_
    refine wp_mono (fun _ _ _ edited => edited.congr fun h => ?_) (ih edited)
    simp [or_assoc]

theorem wp_applyUsers (c : κ) (users : List String) (auths : List Nat) {db : Master.Db}
    (registered : s.Registered) (same : s.db = db) :
    wp calm Alone (Manager.applyUsers c users auths)
      (fun _ s => s.db = db ∧ ∀ auth ∈ auths, InLine users s auth) s := by
  -- the authenticators done so far stay in line, also if one is listed again
  suffices loop : ∀ (done : List Nat) (s : World κ), s.Registered → s.db = db →
      (∀ auth ∈ done, InLine users s auth) →
      wp calm Alone (Manager.applyUsers c users auths)
        (fun _ s => s.db = db ∧ ∀ auth, auth ∈ done ∨ auth ∈ auths → InLine users s auth) s by
    refine wp_mono ?_ (loop [] s registered same (by simp))
    rintro _ s' _ ⟨same, inLine⟩
    exact ⟨same, fun auth mem => inLine auth (.inr mem)⟩
  induction auths with
  | nil =>
    intro done s _ same inLine
    exact wp_done ⟨same, by simpa using inLine⟩
  | cons auth rest ih =>
    intro done s registered same inLine
    refine wp_step fun fate listed s' _ executed => ⟨trivial, ?_⟩
    obtain ⟨undisturbed, executed⟩ := restrict_eq_some executed
    obtain ⟨_, visited, equal⟩ := Option.map_eq_some_iff.mp executed
    cases equal
    have known := listed_exactly registered undisturbed visited
    -- whoever is listed and not in the answer is removed, and then the others are added
    have edited : Edited s auth (fun h => h ∈ listed.map Prod.snd) s :=
      ⟨registered, rfl, fun _ _ => rfl, fun h => (known h).symm⟩
    refine wp_then (wp_removeUsers c _ edited) fun _ s₁ _ edited => ?_
    refine wp_then (wp_addUsers _ edited) fun _ s₂ _ edited => ?_
    have here : InLine users s₂ auth := by
      intro h
      rw [edited.here]
      simp only [mem_filter, decide_eq_true_eq]
      tauto
    refine wp_mono ?_ (ih (auth :: done) s₂ edited.registered (edited.db.trans same) ?_)
    · rintro _ s' _ ⟨same, inLine⟩
      exact ⟨same, by grind⟩
    · have others := edited.others
      grind [InLine]

end Applying

/-! ### The round -/

/-- The batch in flight and its sync ID are the same. -/
def SameBatch (st st' : State) : Prop :=
  st'.pending = st.pending ∧ st'.pendingSyncID = st.pendingSyncID

section Round

variable {μ : Type} {c : κ}

theorem saveOutbox_steady (st : State) : (saveOutbox c st).Only Op.Steady :=
  saveOutbox_only trivial trivial (fun _ => trivial) fun _ => trivial

/-- A checkpoint changes the queue only. -/
theorem steadily_checkpoint (o : Owner μ) {st : State} {memory : μ}
    (same : SameBatch st (o.state memory)) (hash : String) (sent recv : Nat) :
    Steadily (checkpoint o c hash memory sent recv) fun r => SameBatch st (o.state r.1) := by
  have queue : ∀ q, SameBatch st (o.state (o.setQueued memory q)) := by
    intro q
    rw [o.state_setQueued]
    exact same
  unfold checkpoint
  simp only
  split
  · exact same
  · refine yields_bind (saveOutbox_steady _).yields fun result _ => ?_
    cases result with
    | ok => exact queue _
    | error reason =>
      change SameBatch st (o.state (o.setQueued _ _))
      rw [o.state_setQueued]
      exact queue _

theorem steadily_collectAuths (o : Owner μ) {memory : μ} (auths : List Nat) :
    Steadily (collectAuths o c auths memory) fun r =>
      SameBatch (o.state memory) (o.state r.1) := by
  have collects : Collects Op.Steady (fun _ _ => True) o c (fun _ => True)
      (fun m => SameBatch (o.state memory) (o.state m)) :=
    { list := fun _ => trivial
      lock := fun _ => trivial
      load := fun _ _ => trivial
      clear := fun _ _ => trivial
      unlock := fun _ => trivial
      users := fun _ _ _ _ _ => trivial
      checkpoint := fun hash m _ sent recv _ same _ _ _ =>
        steadily_checkpoint o same hash sent recv }
  exact collects.collectAuths auths ⟨rfl, rfl⟩

/-- A batch in flight is not replaced. -/
theorem steadily_freeze (o : Owner μ) {memory : μ} :
    Steadily (freeze o c memory) fun r =>
      (o.state memory).pending ≠ ∅ → SameBatch (o.state memory) (o.state r.1) := by
  unfold freeze
  split
  swap
  · exact fun _ => ⟨rfl, rfl⟩
  next ready =>
    have idle := o.idle_pending memory ready.1
    refine yields_ask trivial fun result _ => ?_
    cases result with
    | none => exact fun _ => ⟨rfl, rfl⟩
    | some id =>
      refine yields_bind (saveOutbox_steady _).yields fun result _ => ?_
      cases result <;> exact fun pending => absurd idle pending

theorem steadily_requestSyncID (m : Manager) :
    Steadily (m.requestSyncID : Routine κ (Option String)) fun result =>
      ∀ id, result = some id → m.pendingSyncID ≠ "" → m.pendingSyncID = id := by
  unfold Manager.requestSyncID
  split
  next unnamed => exact yields_ask trivial fun _ _ _ _ named => absurd unnamed named
  · intro id equal _
    exact Option.some.inj equal

theorem discard_steady (m : Manager) : (m.discard c).Only Op.Steady := by
  unfold Manager.discard
  split
  · exact .ret _
  · refine .bind (saveOutbox_steady _) fun result => ?_
    cases result <;> exact .ret _

/-- The part of a round that follows an accepted answer. -/
def Manager.applyResponse (c : κ) (auths : List Nat) (hasDb : Bool) (users : List String)
    (m : Manager) : Routine κ Manager := do
  match ← m.discard c with
  | (m, some reason) => return m.recordSyncFailure reason
  | (m, none) => do
    applyUsers c users auths
    if hasDb then
      if ← ask (.cacheUsers users) then return m.recordSyncSuccess
      else return m.recordSyncFailure "failed to update local user cache"
    else return m.recordSyncSuccess

/-- Success is recorded when the maps and the table are in line. -/
theorem wp_applyResponse [DecidableEq κ] (registered : s.Registered) (auths : List Nat)
    (hasDb : Bool) (users : List String) (m : Manager) :
    wp calm Alone (m.applyResponse c auths hasDb users)
      (fun m' s' => m'.failureCount = 0 → (∀ auth ∈ auths, InLine users s' auth) ∧
        (hasDb = true → ∀ hash, hash ∈ s'.db.users.map Master.User.hash ↔ hash ∈ users)) s := by
  have unmoved : Unmoved s s := ⟨registered, rfl, rfl⟩
  refine wp_then (wp_steadily (discard_steady m).yields unmoved) ?_
  rintro ⟨m, _ | reason⟩ s _ ⟨_, unmoved⟩
  swap
  · exact wp_done fun clean => absurd clean (Nat.succ_ne_zero _)
  refine wp_then (wp_applyUsers c users auths unmoved.registered rfl) ?_
  rintro _ s _ ⟨_, inLine⟩
  cases hasDb with
  | false => exact wp_done fun _ => ⟨inLine, fun db => by cases db⟩
  | true =>
    refine wp_step fun fate cached s' _ done => ⟨trivial, ?_⟩
    obtain ⟨_, done⟩ := restrict_eq_some done
    cases done
    cases ok : fate.ok with
    | false => exact wp_done fun clean => absurd clean (Nat.succ_ne_zero _)
    | true => exact wp_done fun _ => ⟨inLine, fun _ => mem_cacheUsers s.db users⟩

/-- After the answer nothing more is sent. -/
theorem applyResponse_silent (auths : List Nat) (hasDb : Bool) (users : List String)
    (m : Manager) : (m.applyResponse c auths hasDb users).Only Op.Silent := by
  refine .bind ((discard_steady m).mono fun _ => Op.Steady.silent) ?_
  rintro ⟨m, _ | reason⟩
  swap
  · exact .ret _
  refine .bind ((applyUsers_only c users auths).mono fun _ => Op.Plain.silent) fun _ => ?_
  cases hasDb with
  | false => exact .ret _
  | true =>
    refine .step trivial fun cached => ?_
    cases cached <;> exact .ret _

variable [DecidableEq κ]

theorem post_exec {s' : World κ} {fate : Fate} {id : String} {batch : Amounts}
    {accepts : Response → Bool} {result : Option Response}
    (done : exec fate s (.post c id batch accepts) = some (result, s')) :
    s'.registry = s.registry ∧ s'.db = s.db := by
  simp only [exec] at done
  split at done <;> cases done <;> exact ⟨rfl, rfl⟩

/-- A round with nobody else around, and the answer that it receives. If it records success, so
that no failure is counted, the authenticators and the local database hold exactly the users of
the answer. If the answer has another status than 200, does not decode, or lists a malformed or
repeated hash, nothing has changed since it arrived: no user map and no row since the round
began, and the batch in flight, under its sync ID, is the one that was sent, which is the one the
round began with if there was one. -/
theorem sync_reconciles (c : κ) (auths : List Nat) (hasDb : Bool) (m m' : Manager)
    (s arrived s' : World κ) (fates : List Fate) (id : String) (batch : Amounts)
    (accepts : Response → Bool) (response : Response) (registered : s.Registered)
    (answered : Performs exec Undisturbed (m.performSync c auths hasDb) fates s
      ⟨.post c id batch accepts, some response, arrived⟩ m' s') :
    (m'.failureCount = 0 → ∃ users, response.status = 200 ∧ response.users = some users ∧
      (∀ auth ∈ auths, InLine users s' auth) ∧
      (hasDb = true → ∀ hash, hash ∈ s'.db.users.map Master.User.hash ↔ hash ∈ users)) ∧
    (response.Rejected → s' = arrived ∧ s'.registry = s.registry ∧ s'.db = s.db ∧
      m'.pendingTraffic = batch ∧ (m'.pendingSyncID ≠ "" → m'.pendingSyncID = id) ∧
      (m.pendingTraffic ≠ ∅ → m'.pendingTraffic = m.pendingTraffic ∧
        m'.pendingSyncID = m.pendingSyncID)) := by
  unfold Manager.performSync at answered
  have unmoved : Unmoved s s := ⟨registered, rfl, rfl⟩
  -- up to the request nothing is sent, no map and no row changes
  have ready : (ask .syncReady : Routine κ Bool).Only Op.Steady := .ask trivial
  obtain ⟨ready, s₁, late, ⟨_, unmoved⟩, answered⟩ :=
    answered.bind ready (fun steady => steady) (wp_steadily ready.yields unmoved)
  split at answered
  swap
  · exact answered.not_ret.elim
  split at answered
  · exact answered.not_ret.elim
  split at answered
  · exact answered.not_ret.elim
  have collecting := @steadily_collectAuths κ Manager c Manager.owner m auths
  obtain ⟨⟨m₁, _ | reason⟩, s₂, late, ⟨collected, unmoved⟩, answered⟩ :=
    answered.bind collecting.only (fun steady => steady) (wp_steadily collecting unmoved)
  swap
  · exact answered.not_ret.elim
  have freezing := @steadily_freeze κ Manager c Manager.owner m₁
  obtain ⟨⟨m₂, _ | reason⟩, s₃, late, ⟨frozen, unmoved⟩, answered⟩ :=
    answered.bind freezing.only (fun steady => steady) (wp_steadily freezing unmoved)
  swap
  · exact answered.not_ret.elim
  have naming : Steadily (m₂.requestSyncID : Routine κ (Option String)) _ :=
    steadily_requestSyncID m₂
  obtain ⟨_ | syncID, s₄, late, ⟨named, unmoved⟩, answered⟩ :=
    answered.bind naming.only (fun steady => steady) (wp_steadily naming unmoved)
  · exact answered.not_ret.elim
  -- the request
  obtain ⟨fate, result, s₅, late, done, fares, ran, performed⟩ := answered.ask
  obtain ⟨registry, db⟩ := post_exec done
  cases result with
  | none =>
    -- no answer came to this request, and there is no other one
    rcases performed with same | later
    · cases same
    · cases later
  | some answer =>
    rcases checkResponse_cases answer with ⟨users, checked, status, listed, accepted⟩ |
      ⟨reason, checked, rejected⟩
    · simp only [checked] at fares ran performed
      -- the rest of the round sends no second request
      have same := performed.resolve_right fun later =>
        history_only (applyResponse_silent auths hasDb users m₂) later
      cases same
      refine ⟨fun clean => ⟨users, status, listed, ?_⟩, fun rejected => absurd rejected accepted⟩
      have registered : arrived.Registered := unmoved.registered.exec done
      exact run_returned (wp_applyResponse registered auths hasDb users m₂) fares ran clean
    · simp only [checked] at fares ran performed
      have same := performed.resolve_right fun later => by cases later
      cases same
      cases ran
      refine ⟨fun clean => absurd clean (Nat.succ_ne_zero _), fun _ => ⟨rfl, ?_, ?_, rfl, ?_, ?_⟩⟩
      · exact registry.trans unmoved.registry
      · exact db.trans unmoved.db
      · exact named id rfl
      · intro pending
        have still : (Manager.owner.state m₁).pending ≠ ∅ := collected.1 ▸ pending
        obtain ⟨sameTraffic, sameID⟩ := frozen still
        exact ⟨sameTraffic.trans collected.1, sameID.trans collected.2⟩

end Round

/-! A node with one user the master no longer lists, and an answer with another one. -/

def newHash : String := String.ofList (List.replicate 56 'a')

def staleNode : World Unit where
  meters := [{ auth := 0, hash := "stale" }]
  registry := fun auth hash => if auth = 0 ∧ hash = "stale" then some 0 else none
  db := { users := [{ id := 1, hash := "stale" }] }

theorem staleNode_registered : staleNode.Registered := by
  intro auth hash i stored
  simp only [staleNode] at stored ⊢
  split at stored
  next user =>
    cases stored
    exact ⟨{ auth := 0, hash := "stale" }, rfl, user.1.symm, user.2.symm⟩
  · cases stored

/-- The master's answer; the other operations succeed. -/
def newList : Fate :=
  { order := [0], id := "a", response := some { status := 200, users := some [newHash] } }

instance (fate : Fate) (s : World κ) : (op : Op κ) → Decidable (Undisturbed fate s op)
  | .listUsers auth =>
    inferInstanceAs (Decidable (∀ i < s.meters.length, i ∈ fate.order ↔ s.lists auth i = true))
  | .mapLoad _ _ | .mapStore _ _ | .mapDelete _ _ | .lock _ _ | .unlock _ _ | .load _ _
  | .add _ _ _ _ | .clear _ _ _ _ | .subtract _ _ _ _ | .attempt | .refuse | .replace _ _
  | .remove _ | .newSyncID | .post _ _ _ _ | .syncReady | .commit _ | .cacheUsers _ =>
    .isTrue trivial

/-- The round was answered with this list. -/
def answeredWith (users : List String) (event : Event (World Unit) (Op Unit) Res) : Bool :=
  match event with
  | ⟨.post _ _ _ _, some response, _⟩ => decide (response.users = some users)
  | _ => false

theorem stale_user_replaced :
    let round := Manager.performSync () [0] true {}
    let fates := List.replicate 30 newList
    ∃ m' s', round.run exec fates staleNode = (.returned m', s') ∧ m'.failureCount = 0 ∧
      InLine [newHash] s' 0 ∧
      ∀ hash, hash ∈ s'.db.users.map Master.User.hash ↔ hash ∈ [newHash] := by
  intro round fates
  have fares : round.Fares exec Undisturbed fates staleNode := by decide +kernel
  have ended : (match round.run exec fates staleNode with
    | (.returned m', _) => decide (m'.failureCount = 0)
    | _ => false) = true := by decide +kernel
  obtain ⟨event, performed, isAnswer⟩ := any_eq_true.mp
    (show (round.history exec fates staleNode).any (answeredWith [newHash]) = true by
      decide +kernel)
  split at ended
  swap
  · cases ended
  next m' s' ran =>
    have clean := of_decide_eq_true ended
    obtain ⟨op, result, arrived⟩ := event
    cases op with
    | post c id batch accepts =>
      cases result with
      | none => cases isAnswer
      | some response =>
        obtain ⟨users, _, listed, inLine, cached⟩ :=
          (sync_reconciles () [0] true {} m' staleNode arrived s' fates id batch accepts response
            staleNode_registered ⟨fares, ran, performed⟩).1 clean
        cases listed.symm.trans (of_decide_eq_true isAnswer)
        exact ⟨m', s', ran, clean, inLine 0 mem_cons_self, cached rfl⟩
    | _ => cases isAnswer

end TrojanGo.Plane
