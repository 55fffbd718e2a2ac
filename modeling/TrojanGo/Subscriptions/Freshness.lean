import TrojanGo.Subscriptions.Cache

/-!
# Freshness of subscriptions

A mutating request empties the cache before it writes, so what it leaves behind is decided by the
documents that are inserted afterwards. A document that was begun before the write may be one of
them.
-/
namespace TrojanGo.Subscriptions

open Lib Master Database Prog

/-- The document of an answer was read after every mutating request that had succeeded when
the request for it arrived. -/
def Answer.Fresh (answer : Answer) : Prop :=
  ∀ entry ∈ answer.reply.entry, answer.since ≤ entry.asOf

instance (answer : Answer) : Decidable answer.Fresh :=
  inferInstanceAs (Decidable (∀ entry ∈ answer.reply.entry, answer.since ≤ entry.asOf))

/-- A document goes into the cache only while no mutating request is between its invalidation
and its reply, and only if it was read after the last one that succeeded. -/
def CachesFresh (w : World) : Op → Prop
  | .cacheSubscription _ _ asOf => w.pending.entries = [] ∧ w.returned ≤ asOf
  | _ => True

instance (w : World) (op : Op) : Decidable (CachesFresh w op) := by
  cases op <;> simp only [CachesFresh] <;> infer_instance

/-! ### The invariant -/

structure Fresh (w : World) : Prop where
  kept : ∀ row ∈ w.cache.entries, w.returned ≤ row.2.asOf
  /-- a mutating request under way has emptied the cache, and nothing came in since -/
  emptied : w.pending.entries ≠ [] → w.cache.entries = []
  past : w.returned ≤ w.version
  written : ∀ row ∈ w.pending.entries, row.2 ≤ w.version
  answered : ∀ answer ∈ w.answers, answer.Fresh

/-- A lookup gives an entry of the cache, and leaves only entries of the cache. -/
theorem getSubscriptionCache_spec (now : Time) (cache : Table String Entry) (key : String) :
    (∀ entry, (getSubscriptionCache now cache key).1 = some entry →
        (key, entry) ∈ cache.entries) ∧
      ∀ row ∈ (getSubscriptionCache now cache key).2.entries, row ∈ cache.entries := by
  unfold getSubscriptionCache
  cases found : cache.lookup key with
  | none => simp
  | some entry =>
    have mem := Table.lookup_eq_some.mp found
    dsimp only
    split
    · simpa using mem
    · simpa using fun a b => Table.mem_erase

variable {w : World} {fate : Fate}

theorem Fresh.commit (fresh : Fresh w) (thread : Nat) (store : Store) :
    Fresh (w.commit thread store) := by
  have older : ∀ row ∈ w.pending.entries, row.2 ≤ w.version + 1 :=
    fun row mem => Nat.le_succ_of_le (fresh.written row mem)
  refine ⟨fresh.kept, ?_, Nat.le_succ_of_le fresh.past, ?_, fresh.answered⟩
  · intro busy
    apply fresh.emptied
    simp only [World.commit] at busy
    split at busy
    next noted =>
      -- the request was under way before it wrote
      intro none
      simp [Table.lookup, none] at noted
    · exact busy
  · intro row mem
    simp only [World.commit] at mem ⊢
    split at mem
    · rcases Table.mem_insert mem with rfl | old
      · exact Nat.le_refl _
      · exact older row old
    · exact older row mem

theorem Fresh.respond (fresh : Fresh w) (thread : Nat) (reply : Reply) :
    Fresh (w.respond thread reply) := by
  have emptied : (w.pending.erase thread).entries ≠ [] → w.cache.entries = [] := by
    intro busy
    apply fresh.emptied
    intro none
    simp [Table.erase, Table.filter, none] at busy
  have written : ∀ row ∈ (w.pending.erase thread).entries, row.2 ≤ w.version :=
    fun row mem => fresh.written row (Table.mem_erase mem)
  refine ⟨?_, emptied, ?_, written, fresh.answered⟩
  · intro row mem
    simp only [World.respond] at mem ⊢
    split
    · cases noted : w.pending.lookup thread with
      | none => simpa using fresh.kept row mem
      | some version =>
        have busy : w.pending.entries ≠ [] :=
          List.ne_nil_of_mem (Table.lookup_eq_some.mp noted)
        rw [fresh.emptied busy] at mem
        cases mem
    · exact fresh.kept row mem
  · simp only [World.respond]
    split
    · cases noted : w.pending.lookup thread with
      | none => simpa using fresh.past
      | some version =>
        have bounded := fresh.written _ (Table.lookup_eq_some.mp noted)
        simpa using ⟨fresh.past, bounded⟩
    · exact fresh.past

theorem Fresh.statement (fresh : Fresh w) (fate : Fate) (thread : Nat) (statement : Statement) :
    Fresh (execStatement fate w thread statement).2 := by
  cases statement with
  | select => exact fresh
  | write change =>
    simp only [execStatement]
    cases change w.store with
    | none => exact fresh
    | some store =>
      dsimp only
      split
      · exact fresh.commit thread store
      · dsimp only
        split
        · exact fresh.commit thread store
        · exact fresh

/-- What the answers say is up to the programs; every other operation keeps the invariant. -/
def Op.Sound : Op → Prop
  | .answer since reply => Answer.Fresh ⟨since, reply⟩
  | _ => True

theorem Fresh.perform {env : Env} {op : Op} (fresh : Fresh w) (sound : op.Sound)
    (admitted : CachesFresh w op) : Fresh (perform env fate w op).2 := by
  cases op with
  | getSubscriptionCache key =>
    have subset := (getSubscriptionCache_spec w.clock w.cache key).2
    refine ⟨fun row mem => fresh.kept row (subset row mem), ?_, fresh.past, fresh.written,
      fresh.answered⟩
    intro busy
    refine List.eq_nil_iff_forall_not_mem.mpr fun row mem => ?_
    have inside := subset row mem
    rw [fresh.emptied busy] at inside
    cases inside
  | cacheSubscription key body asOf =>
    refine ⟨?_, fun busy => absurd admitted.1 busy, fresh.past, fresh.written, fresh.answered⟩
    intro row mem
    rcases Table.mem_insert mem with rfl | old
    · exact admitted.2
    · exact fresh.kept row old
  | answer since reply =>
    refine ⟨fresh.kept, fresh.emptied, fresh.past, fresh.written, ?_⟩
    intro answer mem
    rcases List.mem_cons.mp mem with rfl | old
    · exact sound
    · exact fresh.answered answer old
  | invalidateSubscriptionCache thread =>
    have none : ∀ row ∈ ({} : Table String Entry).entries, w.returned ≤ row.2.asOf :=
      fun row never => by cases never
    refine ⟨none, fun _ => rfl, fresh.past, ?_, fresh.answered⟩
    intro row mem
    rcases Table.mem_insert mem with rfl | old
    · exact Nat.zero_le _
    · exact fresh.written row old
  | statement thread statement => exact fresh.statement fate thread statement
  | respond thread reply => exact fresh.respond thread reply
  | _ => exact fresh

theorem Fresh.exec {env : Env} {w' : World} {op : Op} {result : Res op} (fresh : Fresh w)
    (sound : op.Sound) (admitted : CachesFresh w op) (done : exec env fate w op = some (result, w')) :
    Fresh w' := by
  obtain rfl := congrArg Prod.snd (Option.some.inj done)
  have later : Fresh { w with clock := w.clock + fate.elapsed } :=
    ⟨fresh.kept, fresh.emptied, fresh.past, fresh.written, fresh.answered⟩
  have admitted' : CachesFresh { w with clock := w.clock + fate.elapsed } op := by
    cases op <;> exact admitted
  exact later.perform sound admitted'

/-- Success is never taken back. -/
theorem exec_returned {env : Env} {w' : World} {op : Op} {result : Res op}
    (done : exec env fate w op = some (result, w')) : w.returned ≤ w'.returned := by
  obtain rfl := congrArg Prod.snd (Option.some.inj done)
  cases op with
  | statement thread statement =>
    cases statement with
    | select => exact Nat.le_refl _
    | write change =>
      simp only [perform, execStatement]
      cases change w.store with
      | none => exact Nat.le_refl _
      | some store =>
        dsimp only
        split <;> (try dsimp only; split) <;> exact Nat.le_refl _
  | respond thread reply =>
    simp only [perform, World.respond]
    split
    · exact Nat.le_max_left _ _
    · exact Nat.le_refl _
  | _ => exact Nat.le_refl _

/-! ### The programs -/

/-- The requests need nothing of each other but that success is never taken back. -/
def protocol (env : Env) : (machine env).Protocol where
  admits := CachesFresh
  inv := Fresh
  rely _ w w' := w.returned ≤ w'.returned
  guar _ w w' := w.returned ≤ w'.returned
  knows _ _ _ := True

section Programs

variable {env : Env} {i since : Nat} {w : World} {α : Type}

abbrev contract (env : Env) (i : Nat) : Contract World Op := (protocol env).contract i

theorem contract_lawful : (contract env i).Lawful where
  refl _ := Nat.le_refl _
  trans _ _ _ first second := Nat.le_trans first second

theorem stable_since : (contract env i).Stable fun w => since ≤ w.returned :=
  fun _ _ grown _ held => Nat.le_trans held grown

/-- The operations that do not answer a request. -/
def Op.Quiet : Op → Prop
  | .answer _ _ => False
  | _ => True

theorem Op.Quiet.sound {op : Op} (quiet : op.Quiet) : op.Sound := by
  cases op with
  | answer => exact quiet.elim
  | _ => trivial

theorem wp_quiet {p : Serve α} (only : p.Only Op.Quiet) (held : since ≤ w.returned) :
    p.wp (exec env) (contract env i) (fun _ w => since ≤ w.returned) w := by
  refine wp_only only stable_since held ?_
  intro w op fresh held admitted quiet fate result w' done
  have grown := exec_returned done
  exact ⟨fresh.exec quiet.sound admitted done, grown, Nat.le_trans held grown⟩

variable {post : α → World → Prop}

/-- The rule for one operation of a request that has arrived after some success. -/
theorem wp_quiet_op {op : Op} {next : Res op → Serve α} (quiet : op.Quiet)
    (held : since ≤ w.returned) (rest : ∀ fate w result w', Fresh w → since ≤ w.returned →
      exec env fate w op = some (result, w') → since ≤ w'.returned →
        (next result).wp (exec env) (contract env i) post w') :
    (ask op >>= next).wp (exec env) (contract env i) post w := by
  refine wp_op stable_since held ?_
  intro w fresh held admitted fate result w' done
  have grown := exec_returned done
  exact ⟨fresh.exec quiet.sound admitted done, grown,
    rest fate w result w' fresh held done (Nat.le_trans held grown)⟩

theorem wp_done {value : α} (holds : ∀ w, post value w) :
    (pure value : Serve α).wp (exec env) (contract env i) post w :=
  fun w _ _ => holds w

variable (user : User)

theorem render_quiet (password : String) (nodes : List Node) (main : MainNode)
    (rules providers : String) :
    (renderClashConfigMultiNode env user password nodes main rules providers).Only Op.Quiet := by
  refine ⟨trivial, fun hysteria => ?_⟩
  exact ⟨trivial, fun configs => trivial⟩

theorem generate_quiet (password : String) (nodes : List Node) (main : MainNode) :
    (generateClashConfigMultiNode env user password nodes main).Only Op.Quiet := by
  refine .step trivial fun rules => ?_
  refine .step trivial fun providers => ?_
  refine .bind (render_quiet user password nodes main _ _) fun config => ?_
  split
  · exact .ret config
  · split
    · exact .ret config
    · exact render_quiet user password nodes main _ _

/-- A cached document is as new as the last success, a generated one as new as its reads. -/
theorem subscriptionEntry_wp (password : String) {asOf : Nat} (main : MainNode)
    (held : since ≤ w.returned) (read : since ≤ asOf) :
    (subscriptionEntry env user password asOf main).wp (exec env) (contract env i)
      (fun found _ => ∀ entry ∈ found, since ≤ entry.asOf) w := by
  refine wp_quiet_op trivial held ?_
  intro fate w found w' fresh held done held'
  cases found with
  | some entry =>
    refine wp_done fun _ other same => ?_
    cases same
    have hit : (getSubscriptionCache (w.clock + fate.elapsed) w.cache (cacheKey user main)).1 =
        some entry := congrArg Prod.fst (Option.some.inj done)
    have mem := (getSubscriptionCache_spec _ _ _).1 entry hit
    exact Nat.le_trans held (fresh.kept _ mem)
  | none =>
    refine wp_quiet_op trivial held' ?_
    intro fate w nodes w' _ _ _ held
    cases nodes with
    | none => exact wp_done fun _ entry never => by cases never
    | some nodes =>
      refine wp_seq contract_lawful (wp_quiet (generate_quiet user password nodes main) held) ?_
      intro config w _ held
      refine wp_quiet_op trivial held ?_
      intro fate w entry w' _ _ done _
      refine wp_done fun _ other same => ?_
      cases same
      cases done
      exact read

theorem subscription_wp (request : SubRequest) (held : since ≤ w.returned) :
    (subscription env request).wp (exec env) (contract env i)
      (fun reply _ => Answer.Fresh ⟨since, reply⟩) w := by
  -- a reply without a document is fresh
  have plain : ∀ {w : World} {reply : SubReply}, reply.entry = none →
      (pure reply : Serve SubReply).wp (exec env) (contract env i)
        (fun reply _ => Answer.Fresh ⟨since, reply⟩) w := by
    intro w reply none
    refine wp_done fun _ entry mem => ?_
    rw [none] at mem
    cases mem
  unfold subscription
  split
  · exact plain rfl
  split
  · exact plain rfl
  refine wp_quiet_op trivial held ?_
  intro fate w row w' fresh held done held'
  cases row with
  | none => exact plain rfl
  | some row =>
    obtain ⟨user, asOf⟩ := row
    have read : since ≤ asOf := by
      -- the row was read at the current version
      have found := congrArg Prod.fst (Option.some.inj done)
      simp only [perform] at found
      split at found
      · obtain ⟨u, -, same⟩ := Option.map_eq_some_iff.mp found
        cases same
        exact Nat.le_trans held fresh.past
      · cases found
    refine wp_seq contract_lawful (wp_quiet (by grind [expired, Only, Op.Quiet]) held') ?_
    intro expired w _ held
    split
    · exact plain rfl
    split
    · exact plain rfl
    · exact plain rfl
    next password filled known =>
      refine wp_quiet_op trivial held ?_
      intro fate w found w' _ _ _ held
      dsimp only
      split
      · exact plain rfl
      refine wp_seq contract_lawful (subscriptionEntry_wp user password _ held read) ?_
      intro found w _ fresh
      cases found with
      | none => exact plain rfl
      | some entry =>
        have new : since ≤ entry.asOf := fresh entry rfl
        dsimp only
        split
        all_goals
          refine wp_done fun _ other same => ?_
          cases same
          exact new

theorem handleSub_wp (request : SubRequest) (w : World) :
    (handleSub env request).wp (exec env) (contract env i) (fun _ _ => True) w := by
  have arrived : 0 ≤ w.returned := Nat.zero_le _
  refine wp_quiet_op trivial arrived ?_
  intro fate w since w' _ _ done _
  have held : since ≤ w'.returned := by
    cases done
    exact Nat.le_refl _
  refine wp_seq contract_lawful (subscription_wp request held) ?_
  intro reply w _ answer w _ fresh admitted fate result w' done
  have sound : Op.Sound (.answer since reply) := answer
  exact ⟨fresh.exec sound admitted done, exec_returned done, fun _ _ _ => trivial⟩

theorem invalidate_quiet {thread : Nat} {method : Method} {next : Serve Unit}
    (only : next.Only Op.Quiet) :
    (invalidateSubscriptionAfterMutation thread method next).Only Op.Quiet := by
  unfold invalidateSubscriptionAfterMutation
  split
  · exact ⟨trivial, fun _ => only⟩
  · exact only

theorem adminRequest_quiet (thread : Nat) (method : Method) (handler : Handler) :
    (adminRequest thread method handler).Only Op.Quiet := by
  refine invalidate_quiet (.step trivial fun refusal => ?_)
  cases refusal with
  | some refusal => exact .ask trivial
  | none =>
    have all : ∀ statement, Op.Quiet (.statement thread statement) := fun _ => trivial
    exact .bind (only_embed all handler) fun reply => .ask trivial

end Programs

theorem protocol_sound (env : Env) : (protocol env).Sound where
  lawful _ := contract_lawful
  stable _ _ _ _ _ _ _ := trivial
  compatible _ _ _ _ _ grown := grown
  body i call _ p w found _ := by
    cases found
    cases call with
    | sub request => exact handleSub_wp request w
    | admin method handler =>
      have arrived : 0 ≤ w.returned := Nat.zero_le _
      exact wp_mono (fun _ _ _ _ => trivial)
        (wp_quiet (adminRequest_quiet i method handler) arrived)
  boot w w' fresh restarted := by
    cases restarted
    have none : ∀ row ∈ ({} : Table String Entry).entries, w.returned ≤ row.2.asOf :=
      fun row never => by cases never
    have idle : ∀ row ∈ ({} : Table Nat Nat).entries, row.2 ≤ w.version :=
      fun row never => by cases never
    exact ⟨⟨none, fun _ => rfl, fresh.past, idle, fresh.answered⟩, fun _ => trivial⟩

/-- If documents are cached only while no mutating request is under way, and only when they
were read after the last success, then no request is answered with a document that is older
than a mutating request which had succeeded before it arrived. -/
theorem subscriptions_are_fresh (env : Env) (store : Store) (clock : Time)
    (labels : (machine env).Labels) (c : (machine env).State)
    (meets : (machine env).MeetsFrom CachesFresh { store := store, clock := clock } labels)
    (ran : (machine env).runFrom { store := store, clock := clock } labels = some c)
    (answer : Answer) (member : answer ∈ c.shared.answers) (entry : Entry)
    (served : answer.reply.entry = some entry) : answer.since ≤ entry.asOf := by
  have start : Fresh { store := store, clock := clock } :=
    ⟨fun row never => (by cases never), fun _ => rfl, Nat.le_refl _,
      fun row never => (by cases never), fun answer never => (by cases never)⟩
  have good : (protocol env).Good ((machine env).boot { store := store, clock := clock }) :=
    ⟨start, fun _ => trivial⟩
  have fresh := (good.run (protocol_sound env) meets ran).inv
  exact fresh.answered answer member entry served

namespace Sample

/-- Documents list the names of the nodes. -/
def env : Env where
  crypto := Database.Sample.crypto
  serverDomain := "example.org"
  render inputs := String.join (inputs.nodes.map Node.name)
  validYAML _ := true
  digest body := body

def store : Store :=
  { db := { users := [{ id := 1, hash := "token", username := "alice", password := "secret" }]
            nodes := [{ id := 1, name := "tokyo" }] } }

def boot : Machine.Config World Op Res fun _ : Nat => Unit := (machine env).boot { store := store }

abbrev Schedule := List (Label Nat (fun _ => Call) Fate)

def steps (thread count : Nat) : Schedule := List.replicate count (.step thread {})

/-- A request for the document; it takes eleven steps, or five with a hit in the cache. -/
def subscribe (thread count : Nat) : Schedule :=
  .enter thread (.sub { token := "token" }) :: steps thread count

/-- The only node is deleted. -/
def deleteNode (thread : Nat) : Schedule :=
  .enter thread (.admin .delete (handleDeleteNode 1)) :: steps thread 5 ++ [.leave thread]

end Sample

theorem subscriptions_fresh_after_delete :
    ∃ c, (machine Sample.env).run Sample.boot
        (Sample.subscribe 0 11 ++ Sample.deleteNode 1 ++ Sample.subscribe 2 11) = some c ∧
      c.shared.answers.map (fun answer => (answer.since, answer.reply.entry.map Entry.body)) =
        [(1, some ""), (0, some "tokyo")] ∧
      ∀ answer ∈ c.shared.answers, ∀ entry, answer.reply.entry = some entry →
        answer.since ≤ entry.asOf := by
  refine Machine.run_checked_and (by decide +kernel) fun c ran => ?_
  exact subscriptions_are_fresh Sample.env Sample.store 0 _ c (by decide +kernel) ran

/-- A request reads the nodes, one of them is deleted, and the document of the request goes
into the cache and out again to a request that arrives after the deletion was confirmed. -/
theorem deleted_node_is_served :
    ∃ c, (machine Sample.env).run Sample.boot
        (Sample.subscribe 0 5 ++ Sample.deleteNode 1 ++ Sample.steps 0 6 ++ Sample.subscribe 2 5) =
          some c ∧
      ∃ answer ∈ c.shared.answers, ∃ entry ∈ answer.reply.entry,
        entry.body = "tokyo" ∧ entry.asOf < answer.since := by
  refine Machine.run_witness (fun c => c.shared.answers.head?.any fun answer =>
    answer.reply.entry.any fun entry => entry.body = "tokyo" ∧ entry.asOf < answer.since)
    (by decide +kernel) fun c ran served => ?_
  obtain ⟨answer, first, stale⟩ := Option.any_eq_true _ _ |>.mp served
  obtain ⟨entry, given, old⟩ := Option.any_eq_true _ _ |>.mp stale
  exact ⟨answer, List.mem_of_head? first, entry, given, by simpa using old⟩

end TrojanGo.Subscriptions
