import Mathlib.Data.List.Dedup
import Mathlib.Data.List.Perm.Subperm
import TrojanGo.Lib.Threads
import TrojanGo.Trojan.Handshake

/-!
# Slots for client addresses

The table of a user is a set of addresses, while connections come and go one by one. So the table
can lose an address that is still in use, and keep one that nobody uses any more. Both are
excluded as long as the connections of an address end one by one.
-/
namespace TrojanGo.Trojan

open Lib Tunnel Prog Function List

/-! ### The server -/

def connect : Command := 1

def associate : Command := 3

def mux : Command := 0x7f

inductive Call where
  | serve (conn : Conn)
  | close

/-- What is left of the goroutine of a connection: nothing yet, a connection that was handed
out, or nothing any more. -/
inductive Memory where
  | new
  | handedOut
  | gone

variable (env : Env)

/-- The goroutine of `acceptLoop` for one connection. -/
def serve (i : Nat) (conn : Conn) : Handler Memory := do
  ask (.accept i conn)
  match ← auth env i with
  | .error _ => do
    ask (.reject i)
    return .gone
  | .ok accepted => do
    ask (.establish i)
    let command := accepted.metadata.command
    if command = connect ∨ command = associate ∨ command = mux then return .handedOut
    else do
      ask (.close i)
      return .gone

/-- A connection that was handed out may be closed more than once. -/
def body (i : Nat) : Call → Memory → Option (Handler Memory)
  | .serve conn, .new => some (serve env i conn)
  | .close, .handedOut => some do
    ask (.close i)
    return .handedOut
  | _, _ => none

def exec : Exec World Unit Op Res := fun _ w op => some (step env w op)

def machine : Machine Nat World Unit (fun _ => Call) (fun _ => Memory) Op Res where
  exec := exec env
  body := body env
  reboot := fun _ => none
  memory := fun _ _ => .new

/-! ### Slots -/

/-- The slot a connection occupies: from the moment its address was accepted until it fails or
is closed. -/
def Phase.slot : Phase → Option (Bytes × String)
  | .admitted hash ip | .authenticated hash ip => some (hash, ip)
  | _ => none

def World.slot (w : World) (i : Nat) : Option (Bytes × String) :=
  (w.conns i).bind fun c => c.phase.slot

/-- The address of an open connection that was authenticated for a user. -/
def World.openIP (w : World) (hash : Bytes) (i : Nat) : Option String :=
  (w.conns i).bind fun c =>
    match c.phase with
    | .authenticated user ip => if user = hash then some ip else none
    | _ => none

/-- The distinct addresses of the open authenticated connections of a user. -/
def World.openIPs (w : World) (hash : Bytes) : List String :=
  (w.ids.filterMap (w.openIP hash)).dedup

section Slots

variable {w : World} {i j : Nat} {hash : Bytes} {ip : String}

theorem slot_of_openIP (found : w.openIP hash i = some ip) : w.slot i = some (hash, ip) := by
  unfold World.openIP at found
  unfold World.slot
  cases held : w.conns i with
  | none => simp [held] at found
  | some c =>
    simp only [held, Option.bind_some] at found ⊢
    split at found
    next user ip' phase =>
      split at found
      next same =>
        cases found
        rw [phase, Phase.slot, same]
      · cases found
    · cases found

theorem slot_onConn_ne (f : Inbound → Inbound) (other : j ≠ i) :
    (w.onConn i f).slot j = w.slot j := by
  simp [World.slot, World.onConn, update_of_ne other]

theorem slot_onUser (f : User → User) : (w.onUser hash f).slot = w.slot := rfl

/-- A change that keeps the slot of the phase keeps all slots. -/
theorem slot_onConn {f : Inbound → Inbound} (keeps : ∀ c, (f c).phase.slot = c.phase.slot) :
    (w.onConn i f).slot = w.slot := by
  funext j
  by_cases same : j = i
  · subst same
    cases held : w.conns j with
    | none => simp [World.slot, held]
    | some c => simp [World.slot, held, keeps]
  · exact slot_onConn_ne f same

theorem slot_enter (phase : Phase) :
    (w.enter i phase).slot = update w.slot i ((w.conns i).bind fun _ => phase.slot) := by
  funext j
  by_cases same : j = i
  · subst same
    cases held : w.conns j with
    | none | some => simp [World.slot, World.enter, held]
  · rw [World.enter, slot_onConn_ne _ same, update_of_ne same]

end Slots

/-- Everything an operation can do to users and slots. -/
inductive Effect (w w' : World) : Op → Prop where
  | none {op : Op} (users : w'.users = w.users) (slots : w'.slot = w.slot) (ids : w'.ids = w.ids) :
      Effect w w' op
  | accept (i : Nat) (conn : Conn) (users : w'.users = w.users)
      (slots : w'.slot = update w.slot i none) (ids : w'.ids = i :: w.ids) :
      Effect w w' (.accept i conn)
  | take (i : Nat) (hash : Bytes) (ip : String) (u : User) (found : w.users hash = some u)
      (free : (u.addIP ip).1 = true)
      (users : w'.users = update w.users hash (some (u.addIP ip).2))
      (slots : w'.slot = update w.slot i ((w.conns i).map fun _ => (hash, ip)))
      (ids : w'.ids = w.ids) : Effect w w' (.addIP i hash ip)
  | reject (i : Nat) (users : w'.users = w.users) (slots : w'.slot = update w.slot i none)
      (ids : w'.ids = w.ids) : Effect w w' (.reject i)
  | close (i : Nat) (hash : Bytes) (ip : String) (freed : w.freed i = some (hash, ip))
      (users : w'.users = update w.users hash ((w.users hash).map fun u => (u.delIP ip).2))
      (slots : w'.slot = update w.slot i none) (ids : w'.ids = w.ids) :
      Effect w w' (.close i)

theorem step_effect (w : World) (op : Op) : Effect w (step env w op).2 op := by
  cases op with
  | accept i conn =>
    refine .accept i conn rfl ?_ rfl
    funext j
    by_cases same : j = i
    · subst same
      simp [step, World.accept, World.slot, Inbound.start, Phase.slot]
    · simp [step, World.accept, World.slot, update_of_ne same]
  | io i op =>
    simp only [step]
    split
    · exact .none rfl rfl rfl
    · exact .none rfl (slot_onConn fun _ => rfl) rfl
  | authUser | remoteIP => exact .none rfl rfl rfl
  | addIP i hash ip =>
    simp only [step]
    split
    · exact .none rfl rfl rfl
    next u found =>
      split
      next free =>
        refine .take i hash ip u found free ?_ ?_ rfl
        · simp [World.enter, World.onUser, World.onConn, found]
        · rw [slot_enter, slot_onUser]
          simp only [Phase.slot, World.onUser, Option.map_eq_bind]
          rfl
      · exact .none rfl rfl rfl
  | reject i =>
    refine .reject i rfl ?_ rfl
    have kept : (w.onConn i fun c => { c with reader := c.reader.rewind.stopBuffering }).slot =
        w.slot := slot_onConn fun _ => rfl
    simp only [step]
    rw [slot_enter, kept]
    simp [Phase.slot]
  | establish i =>
    refine .none rfl (slot_onConn fun c => ?_) rfl
    cases c.phase <;> rfl
  | close i =>
    cases freed : w.freed i with
    | none =>
      simp only [step, freed]
      exact .none rfl rfl rfl
    | some key =>
      obtain ⟨hash, ip⟩ := key
      simp only [step, freed]
      refine .close i hash ip freed rfl ?_ rfl
      rw [slot_enter, slot_onUser]
      simp [Phase.slot]

/-- Every connection is among those that were accepted. -/
def World.Listed (w : World) : Prop := ∀ i, w.conns i ≠ none → i ∈ w.ids

variable {w : World}

theorem World.Listed.onConn (listed : w.Listed) (i : Nat) (f : Inbound → Inbound) :
    (w.onConn i f).Listed := by
  intro j there
  simp only [World.onConn, update_apply] at there
  grind [World.Listed, World.onConn, Option.map_eq_none_iff]

theorem World.Listed.step (listed : w.Listed) (env : Env) (op : Op) :
    (step env w op).2.Listed := by
  cases op with
  | accept i conn =>
    intro j there
    simp only [Trojan.step, World.accept, update_apply] at there ⊢
    grind [World.Listed]
  | authUser | remoteIP => exact listed
  | io i op =>
    simp only [Trojan.step]
    grind [World.Listed.onConn]
  | addIP i hash ip =>
    simp only [Trojan.step]
    split
    · exact listed
    · split
      · exact World.Listed.onConn (w := w.onUser hash _) listed i _
      · exact listed
  | reject i => exact (listed.onConn i _).onConn i _
  | establish i => exact listed.onConn i _
  | close i =>
    simp only [Trojan.step]
    split
    · exact World.Listed.onConn (w := w.onUser _ _) listed i _
    · exact listed

theorem World.Listed.slot (listed : w.Listed) {i : Nat} (held : w.slot i ≠ none) :
    i ∈ w.ids := by
  apply listed i
  intro absent
  simp [World.slot, absent] at held

/-! ### The limit -/

/-- Only the last connection of an address is closed. -/
def ClosesLast (w : World) : Op → Prop
  | .close i => ∀ key ∈ w.freed i, ∀ j ∈ w.ids, j ≠ i → w.slot j ≠ some key
  | _ => True

instance (w : World) : (op : Op) → Decidable (ClosesLast w op)
  | .close i => inferInstanceAs (Decidable (∀ key ∈ w.freed i, ∀ j ∈ w.ids, j ≠ i → _))
  | .accept _ _ | .io _ _ | .authUser _ | .remoteIP _ | .addIP _ _ _ | .reject _ | .establish _ =>
    .isTrue trivial

/-- The table of the user holds every occupied slot, and not more than the limit. -/
structure Covered (hash : Bytes) (n : Nat) (w : World) : Prop where
  listed : w.Listed
  table : ∃ u, w.users hash = some u ∧ u.maxIPNum = n ∧ u.ipTable.length ≤ n ∧
    ∀ i ip, w.slot i = some (hash, ip) → ip ∈ u.ipTable

variable {ip : String} {u : User}

@[simp] theorem addIP_maxIPNum (u : User) (ip : String) :
    (u.addIP ip).2.maxIPNum = u.maxIPNum := by
  grind [User.addIP]

@[simp] theorem delIP_maxIPNum (u : User) (ip : String) :
    (u.delIP ip).2.maxIPNum = u.maxIPNum := by
  grind [User.delIP]

/-- The table of a limited user after its address was accepted. -/
theorem mem_addIP {other : String} (limited : 0 < u.maxIPNum) (free : (u.addIP ip).1 = true) :
    other ∈ (u.addIP ip).2.ipTable ↔ other = ip ∨ other ∈ u.ipTable := by
  unfold User.addIP at *
  grind

theorem mem_delIP {other : String} (limited : 0 < u.maxIPNum) :
    other ∈ (u.delIP ip).2.ipTable ↔ other ≠ ip ∧ other ∈ u.ipTable := by
  have := u.distinct.mem_erase_iff (a := other) (b := ip)
  unfold User.delIP
  grind

variable {op : Op}

theorem Covered.step {env : Env} {hash : Bytes} {n : Nat} (positive : 0 < n)
    (covered : Covered hash n w) (last : ClosesLast w op) :
    Covered hash n (step env w op).2 := by
  obtain ⟨listed, u, found, limit, within, slots⟩ := covered
  refine ⟨listed.step env op, ?_⟩
  cases step_effect env w op with
  | none users kept | accept i conn users kept | reject i users kept =>
    simp only [users, kept, update_apply]
    exact ⟨u, by grind⟩
  | take i user ip u' found' free users kept ids =>
    simp only [users, kept, update_apply]
    by_cases same : hash = user
    · subst same
      cases found.symm.trans found'
      exact ⟨(u.addIP ip).2, by simp, by rw [addIP_maxIPNum, limit],
        by grind [User.addIP, length_cons], by grind [mem_addIP, Option.map_eq_some_iff]⟩
    · exact ⟨u, by grind [Option.map_eq_some_iff]⟩
  | close i user ip freed users kept ids =>
    simp only [users, kept, update_apply]
    by_cases same : hash = user
    · subst same
      refine ⟨(u.delIP ip).2, by simp [found], by rw [delIP_maxIPNum, limit],
        by grind [User.delIP], fun j ip' held => ?_⟩
      obtain ⟨other, held⟩ : j ≠ i ∧ w.slot j = some (hash, ip') := by grind
      refine (mem_delIP (by omega)).mpr ⟨?_, slots j ip' held⟩
      -- the closed connection was the last one from its address
      rintro rfl
      exact last _ freed j (listed.slot (by simp [held])) other held
    · exact ⟨u, by grind [Option.map_eq_some_iff]⟩

/-- While only the last connection of an address is closed, the open authenticated connections of
a user with a limit come from no more addresses than it allows. -/
theorem ip_limit_respected (env : Env) (users : Bytes → Option User) (hash : Bytes) (n : Nat)
    (positive : 0 < n) (registered : users hash = some { maxIPNum := n })
    (labels : (machine env).Labels) (c : (machine env).State)
    (meets : (machine env).MeetsFrom ClosesLast { users := users } labels)
    (ran : (machine env).runFrom { users := users } labels = some c) :
    (c.shared.openIPs hash).length ≤ n := by
  have start : Covered hash n { users := users } := by
    refine ⟨fun i there => absurd rfl there, _, registered, rfl, by simp, ?_⟩
    intro i ip held
    cases held
  obtain ⟨-, u, -, -, within, slots⟩ := Machine.run_invariant (Covered hash n)
    (fun _ w op _ w' covered admitted done => by
      obtain rfl : (step env w op).2 = w' := congrArg Prod.snd (Option.some.inj done)
      exact covered.step positive admitted)
    (fun _ _ _ never => by cases never) start meets ran
  have inside : c.shared.openIPs hash ⊆ u.ipTable := by
    intro ip mem
    obtain ⟨i, -, found⟩ := mem_filterMap.mp (mem_dedup.mp mem)
    exact slots i ip (slot_of_openIP found)
  exact ((subperm_of_subset (nodup_dedup _) inside).length_le).trans within

namespace Sample

/-- A client at an address, and what it sends. -/
def client (address : UInt8) (bytes : Bytes) (filled : bytes ≠ []) : Conn where
  wire := .direct ⟨[bytes], by simpa using filled.symm⟩
  localAddr := ⟨[127, 0, 0, 1], 443⟩
  remoteAddr := ⟨[192, 0, 2, address], 50000⟩

def opening (i : Nat) (address : UInt8) : List (Label Nat (fun _ => Call) Unit) :=
  .enter i (.serve (client address header (by decide))) :: List.replicate 12 (.step i ()) ++
    [.leave i]

def closing (i : Nat) : List (Label Nat (fun _ => Call) Unit) :=
  [.enter i .close, .step i (), .leave i]

end Sample

theorem limit_respected_one_by_one :
    ∃ c, (machine Sample.env).runFrom Sample.world
      (Sample.opening 0 1 ++ Sample.closing 0 ++ Sample.opening 1 2) = some c ∧
      c.shared.openIPs Sample.hash = [toString [192, 0, 2, 2]] ∧
      (c.shared.openIPs Sample.hash).length ≤ 1 := by
  refine Machine.run_checked_and (by decide +kernel) fun c ran => ?_
  exact ip_limit_respected Sample.env Sample.world.users Sample.hash 1 (by decide)
    (by simp [Sample.world]) _ c (by decide +kernel) ran

/-- Two connections from one address, one of which is closed, leave room for another address. -/
theorem limit_exceeded_after_close :
    ∃ c, (machine Sample.env).runFrom Sample.world
      (Sample.opening 0 1 ++ Sample.opening 1 1 ++ Sample.closing 0 ++ Sample.opening 2 2) =
        some c ∧
      (c.shared.users Sample.hash).map User.maxIPNum = some 1 ∧
      (c.shared.openIPs Sample.hash).length = 2 :=
  Machine.run_checked (by decide +kernel)

/-! ### No slot without a connection -/

/-- A connection that fails after its address was accepted leaves another one from there. -/
def FailsBeside (w : World) : Op → Prop
  | .reject i => ∀ key ∈ w.slot i, ∃ j ∈ w.ids, j ≠ i ∧ w.slot j = some key
  | _ => True

instance (w : World) : (op : Op) → Decidable (FailsBeside w op)
  | .reject i =>
    inferInstanceAs (Decidable (∀ key ∈ w.slot i, ∃ j ∈ w.ids, j ≠ i ∧ w.slot j = some key))
  | .accept _ _ | .io _ _ | .authUser _ | .remoteIP _ | .addIP _ _ _ | .close _ | .establish _ =>
    .isTrue trivial

/-- Every address in a table belongs to an open connection of its user. -/
structure Owned (w : World) : Prop where
  listed : w.Listed
  unlimited : ∀ hash u, w.users hash = some u → u.maxIPNum ≤ 0 → u.ipTable = []
  holder : ∀ hash u ip, w.users hash = some u → ip ∈ u.ipTable → ∃ i, w.slot i = some (hash, ip)

/-- What has to be known of a connection when it is accepted and when it takes a slot. -/
def Op.Due (w : World) : Op → Prop
  | .accept i _ => w.conns i = none
  | .addIP i _ _ => (w.conns i).map Inbound.phase = some .handshake
  | _ => True

theorem slot_of_freed {i : Nat} {key : Bytes × String} (freed : w.freed i = some key) :
    w.slot i = none ∨ w.slot i = some key := by
  unfold World.freed at freed
  unfold World.slot
  cases held : w.conns i <;> grind [Phase.slot]

theorem owned_step {env : Env} (owned : Owned w) (beside : FailsBeside w op) (due : op.Due w) :
    Owned (step env w op).2 := by
  obtain ⟨listed, unlimited, holder⟩ := owned
  have listed' := listed.step env op
  cases step_effect env w op with
  | none users slots => exact ⟨listed', by rwa [users], by rwa [users, slots]⟩
  | accept i conn users slots ids =>
    have vacant : w.slot i = none := by simp [World.slot, show w.conns i = none from due]
    rw [show update w.slot i none = w.slot from
      vacant ▸ update_eq_self i w.slot] at slots
    exact ⟨listed', by rwa [users], by rwa [users, slots]⟩
  | reject i users slots ids =>
    refine ⟨listed', by rwa [users], ?_⟩
    simp only [users, slots, update_apply]
    intro hash u ip found mem
    obtain ⟨j, held⟩ := holder hash u ip found mem
    by_cases same : j = i
    · subst same
      -- another connection from this address is still there
      obtain ⟨k, -, other, held'⟩ := beside _ held
      exact ⟨k, by rw [if_neg other, held']⟩
    · exact ⟨j, by rw [if_neg same, held]⟩
  | take i user ip u found free users slots ids =>
    -- a connection takes its slot once, so no other address loses its holder
    obtain ⟨c, here, young⟩ := Option.map_eq_some_iff.mp due
    have vacant : w.slot i = none := by simp [World.slot, here, young, Phase.slot]
    have empty : u.maxIPNum ≤ 0 → (u.addIP ip).2.ipTable = [] := by
      grind [User.addIP]
    refine ⟨listed', ?_, ?_⟩
    · simp only [users, update_apply]
      grind [addIP_maxIPNum]
    · simp only [users, slots, update_apply]
      intro hash u' ip' found' mem
      by_cases new : hash = user ∧ ip' = ip
      · exact ⟨i, by grind⟩
      · have there : ∃ u', w.users hash = some u' ∧ ip' ∈ u'.ipTable := by
          grind [mem_addIP, Option.map_eq_some_iff]
        obtain ⟨u', found', there⟩ := there
        obtain ⟨j, held⟩ := holder hash u' ip' found' there
        exact ⟨j, by grind⟩
  | close i user ip freed users slots ids =>
    have empty : ∀ u, w.users user = some u → u.maxIPNum ≤ 0 → (u.delIP ip).2.ipTable = [] := by
      grind [User.delIP]
    refine ⟨listed', ?_, ?_⟩
    · simp only [users, update_apply]
      grind [delIP_maxIPNum, Option.map_eq_some_iff]
    · simp only [users, slots, update_apply]
      intro hash u' ip' found' mem
      obtain ⟨u, found, there, different⟩ : ∃ u, w.users hash = some u ∧ ip' ∈ u.ipTable ∧
          (hash, ip') ≠ (user, ip) := by
        grind [mem_delIP, Option.map_eq_some_iff]
      -- a slot other than the one that is freed belongs to another connection
      obtain ⟨j, held⟩ := holder hash u ip' found there
      exact ⟨j, by grind [slot_of_freed]⟩

/-- The operations of the goroutine of one connection. -/
def Op.Of (i : Nat) : Op → Prop
  | .accept j _ | .io j _ | .remoteIP j | .addIP j _ _ | .reject j | .establish j | .close j =>
    j = i
  | .authUser _ => True

theorem step_others {i j : Nat} (own : op.Of i) (other : j ≠ i) :
    (step env w op).2.conns j = w.conns j := by
  have changed : ∀ (w : World) (f : Inbound → Inbound), (w.onConn i f).conns j = w.conns j :=
    fun w f => update_of_ne other _ _
  cases op with
  | accept k conn =>
    cases own
    exact update_of_ne other _ _
  | io k op =>
    cases own
    simp only [step]
    split
    · rfl
    · exact changed w _
  | authUser hash => rfl
  | remoteIP k => rfl
  | addIP k hash ip =>
    cases own
    simp only [step]
    split
    · rfl
    · split
      · exact changed _ _
      · rfl
  | reject k =>
    cases own
    exact (changed _ _).trans (changed w _)
  | establish k =>
    cases own
    exact changed w _
  | close k =>
    cases own
    simp only [step]
    split
    · exact changed _ _
    · rfl

/-- Connections are apart; a goroutine that has not begun has none. -/
def protocol : (machine env).Protocol where
  admits := FailsBeside
  inv := Owned
  rely i w w' := w'.conns i = w.conns i
  guar i w w' := ∀ j, j ≠ i → w'.conns j = w.conns j
  knows i memory w :=
    match memory with
    | .new => w.conns i = none
    | _ => True

section Programs

variable {env : Env} {i : Nat} {w : World} {α : Type}

abbrev contract (env : Env) (i : Nat) : Contract World Op := (protocol env).contract i

theorem contract_lawful : (contract env i).Lawful where
  refl _ := rfl
  trans _ _ _ first second := second.trans first

/-- What is known of a connection only through itself stays known. -/
theorem stable_conn (known : Option Inbound → Prop) :
    (contract env i).Stable fun w => known (w.conns i) := by
  intro w w' same _ holds
  rw [show w'.conns i = w.conns i from same]
  exact holds

/-- An operation that may come at any time. -/
def Op.Late (i : Nat) : Op → Prop
  | .io j _ | .reject j | .establish j | .close j => j = i
  | _ => False

theorem Op.Late.of (late : op.Late i) : op.Of i := by
  cases op with
  | authUser hash => trivial
  | accept | remoteIP | addIP => exact late.elim
  | _ => exact late

theorem Op.Late.due (late : op.Late i) : op.Due w := by
  cases op with
  | accept | addIP => exact late.elim
  | _ => trivial

/-- One own operation that is due. -/
theorem exec_keeps {w' : World} {fate : Unit} {result : Res op}
    (done : exec env fate w op = some (result, w')) (own : op.Of i) (due : op.Due w)
    (owned : Owned w) (beside : FailsBeside w op) :
    (contract env i).inv w' ∧ (contract env i).guar w w' := by
  obtain rfl : (step env w op).2 = w' := congrArg Prod.snd (Option.some.inj done)
  exact ⟨owned_step owned beside due, fun j other => step_others env own other⟩

theorem wp_late {p : Handler α} (only : p.Only (Op.Late i)) (w : World) :
    p.wp (exec env) (contract env i) (fun _ _ => True) w := by
  have stable : (contract env i).Stable fun _ => True := fun _ _ _ _ _ => trivial
  refine wp_only only stable trivial ?_
  intro w op owned _ beside late fate result w' done
  obtain ⟨owned', others⟩ := exec_keeps done late.of late.due owned beside
  exact ⟨owned', others, trivial⟩

/-- The connection is there and has no slot. -/
def Young (i : Nat) (w : World) : Prop := (w.conns i).map Inbound.phase = some .handshake

theorem stable_young : (contract env i).Stable (Young i) :=
  stable_conn fun c => c.map Inbound.phase = some .handshake

theorem parse_only {β : Type} (p : Parser UInt8 β) : (parse i p).Only (Op.Late i) := by
  have all : ∀ op, Op.Late i (.io i op) := fun _ => rfl
  exact only_embed all p

variable {next : Res op → Handler α} {post : α → World → Prop}

/-- An operation before the slot is taken. -/
theorem wp_young (own : op.Of i) (due : ∀ w, op.Due w)
    (keeps : ∀ w, Young i w → Young i (step env w op).2) (young : Young i w)
    (rest : ∀ result w, Young i w → (next result).wp (exec env) (contract env i) post w) :
    (ask op >>= next).wp (exec env) (contract env i) post w := by
  refine wp_op stable_young young ?_
  intro w owned young beside fate result w' done
  obtain ⟨owned', others⟩ := exec_keeps done own (due w) owned beside
  obtain rfl : (step env w op).2 = w' := congrArg Prod.snd (Option.some.inj done)
  exact ⟨owned', others, rest result _ (keeps w young)⟩

theorem wp_late_op (late : op.Late i) (w : World)
    (rest : ∀ result w, (next result).wp (exec env) (contract env i) post w) :
    (ask op >>= next).wp (exec env) (contract env i) post w :=
  wp_seq contract_lawful (wp_late (.ask late) w) fun result w _ _ => rest result w

theorem takeSlot_wp (hash : Bytes) (young : Young i w) :
    (takeSlot env i hash).wp (exec env) (contract env i) (fun _ _ => True) w := by
  refine wp_young trivial (fun _ => trivial) (fun _ young => young) young fun known w young => ?_
  cases known with
  | false => exact fun _ _ _ => trivial
  | true =>
    refine wp_young rfl (fun _ => trivial) (fun _ young => young) young fun ip w young => ?_
    refine wp_op stable_young young ?_
    intro w owned young beside fate free w' done
    have own : Op.Of i (.addIP i hash ip) := rfl
    obtain ⟨owned', others⟩ := exec_keeps done own young owned beside
    refine ⟨owned', others, ?_⟩
    cases free with
    | false => exact fun _ _ _ => trivial
    | true =>
      refine wp_late (.bind (parse_only _) fun result => ?_) w'
      cases result <;> trivial

theorem auth_wp (young : Young i w) :
    (auth env i).wp (exec env) (contract env i) (fun _ _ => True) w := by
  refine wp_young rfl (fun _ => trivial) ?_ young fun got w young => ?_
  · intro w young
    obtain ⟨c, here, phase⟩ := Option.map_eq_some_iff.mp young
    simp [Young, step, here, phase]
  · -- a first read that fails or is too short ends it before any slot is taken
    show wp _ _ (if _ then _ else _) _ _
    split
    · exact fun _ _ _ => trivial
    · exact takeSlot_wp _ young

theorem serve_wp (conn : Conn) (fresh : w.conns i = none) :
    (serve env i conn).wp (exec env) (contract env i) ((protocol env).knows i) w := by
  have anything : ∀ memory : Memory, memory ≠ .new → ∀ w, (protocol env).knows i memory w := by
    intro memory old w
    cases memory with
    | new => exact absurd rfl old
    | _ => trivial
  refine wp_op (stable_conn fun c => c = none) fresh ?_
  intro w owned fresh beside fate accepted w' done
  have own : Op.Of i (.accept i conn) := rfl
  obtain ⟨owned', others⟩ := exec_keeps done own fresh owned beside
  have young : Young i w' := by
    cases done
    simp [Young, World.accept, Inbound.start]
  refine ⟨owned', others, wp_seq contract_lawful (auth_wp young) fun result w _ _ => ?_⟩
  cases result with
  | error reason =>
    refine wp_late_op (by exact rfl) w fun _ w => ?_
    exact fun w _ _ => anything .gone (by simp) w
  | ok accepted =>
    refine wp_late_op (by exact rfl) w fun _ w => ?_
    show wp _ _ (if _ then _ else _) _ _
    split
    · exact fun w _ _ => anything .handedOut (by simp) w
    · refine wp_late_op (by exact rfl) w fun _ w => ?_
      exact fun w _ _ => anything .gone (by simp) w

end Programs

theorem protocol_sound (env : Env) : (protocol env).Sound where
  lawful _ := contract_lawful
  stable i memory w w' known same _ := by
    cases memory with
    | new => exact (show w'.conns i = w.conns i from same).trans known
    | _ => trivial
  compatible i j w w' other others := others j (Ne.symm other)
  body i call memory p w found known := by
    cases call with
    | serve conn =>
      cases memory with
      | new =>
        cases found
        exact serve_wp conn known
      | _ => cases found
    | close =>
      cases memory with
      | handedOut =>
        cases found
        refine wp_late_op (by exact rfl) w fun _ w => ?_
        exact fun _ _ _ => trivial
      | _ => cases found
  boot _ _ _ never := by cases never

theorem openIP_of_slot {w : World} {i : Nat} {hash : Bytes} {ip : String}
    (held : w.slot i = some (hash, ip))
    (settled : (w.conns i).map Inbound.phase ≠ some (.admitted hash ip)) :
    w.openIP hash i = some ip := by
  obtain ⟨c, here, slot⟩ := Option.bind_eq_some_iff.mp held
  cases phase : c.phase <;> simp_all [World.openIP, Phase.slot]

/-- While connections that fail after their address was accepted fail only beside another one
from there, every address in the table of a user is that of an open authenticated connection of
this user, once no connection from there waits for its request. -/
theorem slots_are_owned (env : Env) (users : Bytes → Option User)
    (empty : ∀ hash u, users hash = some u → u.ipTable = [])
    (labels : (machine env).Labels) (c : (machine env).State)
    (meets : (machine env).MeetsFrom FailsBeside { users := users } labels)
    (ran : (machine env).runFrom { users := users } labels = some c)
    (hash : Bytes) (u : User) (ip : String) (found : c.shared.users hash = some u)
    (member : ip ∈ u.ipTable)
    (settled : ∀ i ∈ c.shared.ids,
      (c.shared.conns i).map Inbound.phase ≠ some (.admitted hash ip)) :
    ∃ i ∈ c.shared.ids, c.shared.openIP hash i = some ip := by
  have start : Owned { users := users } := by
    refine ⟨fun i there => absurd rfl there, fun hash u found _ => empty hash u found, ?_⟩
    intro hash u ip found member
    rw [empty hash u found] at member
    cases member
  have good : (protocol env).Good ((machine env).boot { users := users }) := ⟨start, fun _ => rfl⟩
  have owned := (good.run (protocol_sound env) meets ran).inv
  obtain ⟨i, held⟩ := owned.holder hash u ip found member
  have mem : i ∈ c.shared.ids := owned.listed.slot (by simp [held])
  exact ⟨i, mem, openIP_of_slot held (settled i mem)⟩

namespace Sample

def firstIP : String := toString [(192 : UInt8), 0, 2, 1]

/-- A client that sends the hash and nothing else. -/
def failing (i : Nat) (address : UInt8) : List (Label Nat (fun _ => Call) Unit) :=
  .enter i (.serve (client address hash (by decide))) :: List.replicate 7 (.step i ()) ++ [.leave i]

end Sample

theorem slots_owned_beside_another :
    ∃ c, (machine Sample.env).runFrom Sample.world (Sample.opening 0 1 ++ Sample.failing 1 1) =
      some c ∧
      (c.shared.users Sample.hash).map User.ipTable = some [Sample.firstIP] ∧
      ∃ i ∈ c.shared.ids, c.shared.openIP Sample.hash i = some Sample.firstIP := by
  have empty : ∀ hash u, Sample.world.users hash = some u → u.ipTable = [] := by
    intro hash u found
    simp only [Sample.world] at found
    split at found <;> cases found
    rfl
  refine Machine.run_witness (fun c =>
    (c.shared.users Sample.hash).map User.ipTable = some [Sample.firstIP] ∧ ∀ i ∈ c.shared.ids,
      (c.shared.conns i).map Inbound.phase ≠ some (.admitted Sample.hash Sample.firstIP))
    (by decide +kernel) fun c ran holds => ?_
  obtain ⟨u, found, table⟩ := Option.map_eq_some_iff.mp holds.1
  exact ⟨holds.1, slots_are_owned Sample.env Sample.world.users empty _ c (by decide +kernel) ran
    Sample.hash u Sample.firstIP found (by simp [table]) holds.2⟩

/-- A connection that breaks off behind the hash keeps the only slot of its user. -/
theorem slot_kept_by_failed_connection :
    ∃ c, (machine Sample.env).runFrom Sample.world (Sample.failing 0 1) = some c ∧
      (c.shared.users Sample.hash).map User.ipTable = some [toString [192, 0, 2, 1]] ∧
      (c.shared.conns 0).map Inbound.phase = some .rejected ∧
      ∀ i ∈ c.shared.ids, c.shared.slot i = none :=
  Machine.run_checked (by decide +kernel)

end TrojanGo.Trojan
