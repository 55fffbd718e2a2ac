import TrojanGo.Master.AtMostOnce
import TrojanGo.Nodes.Handlers

/-!
# Administrator changes of nodes persist

As long as every row a worker saves was read after the last administrator change of that node,
the node table is the initial one after the committed changes, in their order.
-/
namespace TrojanGo.Nodes

open Lib Master List

/-- A node row without what its worker reports. -/
def managed (node : Node) : Node :=
  { node with lastHeartbeat := none, status := 0, detectedIP := "" }

theorem managed_id {a b : Node} (same : managed a = managed b) : a.id = b.id := by
  have ids : (managed a).id = (managed b).id := congrArg Node.id same
  exact ids

/-- The table after the given changes, the last one first. -/
def replay (fingerprint : String → String) (changes : List Change) (nodes : List Node) :
    List Node :=
  changes.foldr (Change.apply fingerprint) nodes

/-- A worker saves only rows that a worker has read since the last change of that node. -/
def Op.Fresh (w : World) : Op → Prop
  | .master (.saveNode node) => managed node ∈ w.read.map managed
  | _ => True

instance (w : World) (op : Op) : Decidable (op.Fresh w) := by
  unfold Op.Fresh
  split <;> infer_instance

/-- What an answer of success stands for. -/
def Confirms (env : Env) (changes : List Change) : Request → Reply → Prop
  | .update id _ body, .message _ => id = mainNodeID ∨ ∃ update edit, body = .ok update ∧
      nodeUpdates env.parseIP update = .ok edit ∧ .edited id edit ∈ changes
  | .rotate id, .rotated _ secret _ => ∃ bytes ciphertext now, secret = hexEncode bytes ∧
      .rotated id bytes ciphertext now ∈ changes
  | .delete id, .message _ => .deleted id ∈ changes
  | _, _ => True

/-- The change gives the node with this id a new secret. -/
def Change.Rotates (id : Nat) : Change → Prop
  | .rotated id' _ _ _ => id' = id
  | _ => False

/-- No column is set by both. -/
def NodeEdit.Apart (a b : NodeEdit) : Prop :=
  (a.name = none ∨ b.name = none) ∧ (a.address = none ∨ b.address = none) ∧
    (a.port = none ∨ b.port = none) ∧ (a.trafficRate = none ∨ b.trafficRate = none) ∧
    (a.wsEnabled = none ∨ b.wsEnabled = none) ∧ (a.wsPath = none ∨ b.wsPath = none)

/-- The change sets a column of the node that the edit has set. -/
def Change.Overrides (id : Nat) (edit : NodeEdit) : Change → Prop
  | .edited id' edit' => id' = id ∧ ¬ edit.Apart edit'
  | _ => False

/-- The administrator's changes are in force. -/
structure Persists (env : Env) (db : Db) (w : World) : Prop where
  /-- apart from what the workers report, the table is what the changes have made of it -/
  table : w.nodes.map managed = (replay env.fingerprint w.changes db.nodes).map managed
  confirmed : ∀ request answer, (request, answer) ∈ w.replies →
    Confirms env w.changes request answer
  /-- a rotated node accepts only the secret of its last rotation -/
  authenticates : ∀ secret node later bytes ciphertext now earlier,
    w.master.db.nodeBySecret env.fingerprint secret = some node →
    w.changes = later ++ .rotated node.id bytes ciphertext now :: earlier →
    (∀ change ∈ later, ¬ change.Rotates node.id) →
    env.fingerprint secret = env.fingerprint (hexEncode bytes)
  /-- edited columns keep their values until they are edited again -/
  edits : ∀ id edit later earlier, w.changes = later ++ .edited id edit :: earlier →
    (∀ change ∈ later, ¬ change.Overrides id edit) →
    ∀ node ∈ w.nodes, node.id = id → edit.apply node = node
  deleted : ∀ id, .deleted id ∈ w.changes → ∀ node ∈ w.nodes, node.id ≠ id

/-! ### Changes and rows -/

variable {change : Change} {nodes : List Node} {later earlier : List Change}

section Rows

variable {fingerprint : String → String}

/-- What a change makes of a row that it leaves in the table. -/
def Change.row (fingerprint : String → String) (change : Change) (node : Node) : Node :=
  match change with
  | .rotated id bytes ciphertext now =>
    if node.id = id then withSecret fingerprint (hexEncode bytes) ciphertext now node else node
  | .edited id edit => if node.id = id then edit.apply node else node
  | .deleted _ => node

theorem Change.row_id (change : Change) (node : Node) : (change.row fingerprint node).id = node.id := by
  cases change with grind [row, withSecret, NodeEdit.apply]

variable {node : Node}

theorem Change.mem_apply (mem : node ∈ change.apply fingerprint nodes) :
    ∃ old ∈ nodes, node = change.row fingerprint old ∧
      ∀ id, change = .deleted id → old.id ≠ id := by
  cases change with
  | rotated id | edited id =>
    obtain ⟨old, inside, rfl⟩ := mem_map.mp mem
    exact ⟨old, inside, rfl, fun id same => by cases same⟩
  | deleted id =>
    obtain ⟨inside, other⟩ := mem_filter.mp mem
    refine ⟨node, inside, rfl, ?_⟩
    rintro _ ⟨⟩
    exact of_decide_eq_true other

theorem Change.mem_apply_of_ne (mem : node ∈ nodes) (other : node.id ≠ change.id) :
    node ∈ change.apply fingerprint nodes := by
  cases change with
  | rotated | edited => exact mem_map.mpr ⟨node, mem, if_neg other⟩
  | deleted id => exact mem_filter.mpr ⟨mem, decide_eq_true other⟩

/-- No change reads what the workers report. -/
theorem Change.map_managed_apply (change : Change) (nodes : List Node) :
    (change.apply fingerprint nodes).map managed =
      change.apply fingerprint (nodes.map managed) := by
  cases change with
  | rotated | edited =>
    simp only [apply, onNode, map_map]
    apply map_congr_left
    intro node _
    simp only [Function.comp_apply, apply_ite managed]
    rfl
  | deleted id =>
    simp only [apply, filter_map]
    rfl

theorem onNode_ids {f : Node → Node} (keeps : ∀ node, (f node).id = node.id) (id : Nat)
    (nodes : List Node) : (onNode id f nodes).map Node.id = nodes.map Node.id := by
  simp only [onNode, map_map]
  exact map_congr_left (by grind)

theorem Change.apply_keyed (change : Change) (keyed : (nodes.map Node.id).Nodup) :
    ((change.apply fingerprint nodes).map Node.id).Nodup := by
  cases change with
  | rotated id bytes ciphertext now =>
    have same := onNode_ids (f := withSecret fingerprint (hexEncode bytes) ciphertext now)
      (fun _ => rfl) id nodes
    rwa [apply, same]
  | edited id edit =>
    have same := onNode_ids (f := edit.apply) (fun _ => rfl) id nodes
    rwa [apply, same]
  | deleted id => exact keyed.sublist (filter_sublist.map _)

/-- What a change establishes and the later ones keep holds of every row. -/
theorem replay_all {p : Node → Prop}
    (established : ∀ old, (∀ id, change = .deleted id → old.id ≠ id) →
      p (change.row fingerprint old))
    (kept : ∀ change ∈ later, ∀ old, p old → p (change.row fingerprint old)) :
    ∀ node ∈ replay fingerprint (later ++ change :: earlier) nodes, p node := by
  -- the last change stands first, so the induction goes back to the one that established it
  induction later with
  | nil =>
    intro node mem
    obtain ⟨old, _, rfl, remains⟩ := Change.mem_apply mem
    exact established old remains
  | cons next later ih =>
    intro node mem
    obtain ⟨old, inside, rfl, _⟩ := Change.mem_apply mem
    have held := ih (fun change inside => kept change (mem_cons_of_mem _ inside)) old inside
    exact kept next mem_cons_self old held

theorem edit_managed (edit : NodeEdit) (node : Node) :
    edit.apply (managed node) = managed node ↔ edit.apply node = node := by
  cases node
  simp [NodeEdit.apply, managed]

theorem NodeEdit.apply_idem (edit : NodeEdit) (node : Node) :
    edit.apply (edit.apply node) = edit.apply node := by
  have twice {α : Type} (new : Option α) (old : α) : new.getD (new.getD old) = new.getD old := by
    cases new <;> rfl
  simp only [NodeEdit.apply, twice]

/-- An edit stays in force under an edit of other columns. -/
theorem NodeEdit.Apart.kept {a b : NodeEdit} (apart : a.Apart b) (held : a.apply node = node) :
    a.apply (b.apply node) = b.apply node := by
  have column {α : Type} {new other : Option α} {old : α} (apart : new = none ∨ other = none)
      (held : new.getD old = old) : new.getD (other.getD old) = other.getD old := by
    rcases apart with rfl | rfl
    · rfl
    · exact held
  obtain ⟨name, address, port, trafficRate, wsEnabled, wsPath⟩ := apart
  cases node
  simp only [NodeEdit.apply, Node.mk.injEq, true_and, and_true] at held ⊢
  exact ⟨column name held.1, column address held.2.1, column port held.2.2.1,
    column trafficRate held.2.2.2.1, column wsEnabled held.2.2.2.2.1, column wsPath held.2.2.2.2.2⟩

end Rows

/-! ### What the master's statements do to the nodes -/

variable {db db' : Db}

variable {fate : Master.Fate} {now : Time} {id : Nat} {fingerprint : String → String}
  {op : Master.Op} {result : Master.Res op}

/-- Of the master's statements only a worker's save touches the node table. -/
theorem exec_nodes {w w' : Master.World}
    (executed : Master.exec fingerprint fate w op = some (result, w')) :
    w'.db.nodes = w.db.nodes ∨ ∃ node, op = .saveNode node ∧ w'.db = w.db.saveNode node := by
  cases exec_effect executed with
  | saves node => exact .inr ⟨node, rfl, rfl⟩
  | adds adds => exact .inl adds.nodes
  | purges _ nodes => exact .inl nodes
  | _ => exact .inl rfl

/-- The row a secret finds is in the table and has that secret. -/
theorem nodeBySecret_found {secret : String} {node : Node}
    (found : db.nodeBySecret fingerprint secret = some node) :
    node ∈ db.nodes ∧ (node.secretHash = fingerprint secret ∨ node.secretCiphertext = "") := by
  unfold Db.nodeBySecret at found
  split at found
  next hit => grind
  next =>
    have legacy := find?_some found
    grind [mem_of_find?_eq_some]

theorem rowsRead_mem {w w' : Master.World}
    (done : Master.exec fingerprint fate w op = some (result, w')) :
    ∀ row ∈ rowsRead op result, row ∈ w.db.nodes := by
  cases op with
  | nodeBySecret secret =>
    simp only [Master.exec, Option.some.injEq, Prod.mk.injEq] at done
    grind [rowsRead, nodeBySecret_found]
  | _ =>
    intro row mem
    cases mem

/-! ### The invariant -/

structure Kept (env : Env) (db : Db) (w : World) : Prop where
  keyed : (w.nodes.map Node.id).Nodup
  table : w.nodes.map managed = (replay env.fingerprint w.changes db.nodes).map managed
  /-- what workers have read since the last change is still what the table says -/
  current : ∀ row ∈ w.read, managed row ∈ w.nodes.map managed
  encrypted : ∀ id bytes ciphertext now, .rotated id bytes ciphertext now ∈ w.changes →
    ciphertext ≠ ""
  confirmed : ∀ request answer, (request, answer) ∈ w.replies →
    Confirms env w.changes request answer

variable {env : Env} {db : Db} {w w' : World}

variable {request : Request}

theorem Confirms.mono {changes changes' : List Change} {answer : Reply}
    (grown : changes <:+ changes') (holds : Confirms env changes request answer) :
    Confirms env changes' request answer := by
  have kept := grown.subset
  cases request with
  | heartbeat request => cases answer <;> trivial
  | update | rotate | delete => cases answer with grind [Confirms]

/-- Saving a row that differs from the stored one only in what a worker reports. -/
theorem saveNode_managed {node : Node} (saved : db' = db.saveNode node) (same : nodes = db.nodes)
    (keyed : (nodes.map Node.id).Nodup) (stored : managed node ∈ nodes.map managed) :
    db'.nodes.map managed = db.nodes.map managed := by
  subst saved same
  obtain ⟨row, mem, equal⟩ := mem_map.mp stored
  have id := managed_id equal
  have present : (db.nodes.any fun other => decide (other.id = node.id)) = true :=
    any_eq_true.mpr ⟨row, mem, decide_eq_true id⟩
  rw [Db.saveNode, if_pos present, map_map]
  apply map_congr_left
  intro other inside
  -- the primary key leaves only one row with this id
  have unique : other.id = row.id → other = row := inj_on_of_nodup_map keyed inside mem
  grind

/-- The invariant depends on the table only up to what the workers report. -/
theorem Kept.reported (kept : Kept env db w)
    (same : w'.nodes.map managed = w.nodes.map managed) (changes : w'.changes = w.changes)
    (replies : w'.replies = w.replies)
    (read : ∀ row ∈ w'.read, row ∈ w.read ∨ row ∈ w.nodes) : Kept env db w' where
  keyed := by
    have ids := congrArg (map Node.id) same
    simp only [map_map, Function.comp_def, managed] at ids
    exact ids ▸ kept.keyed
  table := by rw [same, changes, kept.table]
  current := by
    intro row mem
    rw [same]
    exact (read row mem).elim (kept.current row) mem_map_of_mem
  encrypted := by rw [changes]; exact kept.encrypted
  confirmed := by rw [changes, replies]; exact kept.confirmed

theorem Kept.master {fate : Fate} {m : Master.World} (kept : Kept env db w)
    (fresh : Op.Fresh w (.master op))
    (done : Master.exec env.fingerprint fate.toFate w.master op = some (result, m)) :
    Kept env db { w with master := m, read := rowsRead op result ++ w.read } := by
  have known := rowsRead_mem done
  refine kept.reported ?_ rfl rfl (by grind)
  rcases exec_nodes done with same | ⟨node, rfl, saved⟩
  · exact congrArg (map managed) same
  · obtain ⟨row, mem, equal⟩ := mem_map.mp fresh
    exact saveNode_managed saved rfl kept.keyed (equal ▸ kept.current row mem)

theorem Kept.commit {fate : Fate} (kept : Kept env db w)
    (encrypted : ∀ id bytes ciphertext now, change = .rotated id bytes ciphertext now →
      ciphertext ≠ "") :
    Kept env db (w.commit env.fingerprint fate change).2 := by
  unfold World.commit
  dsimp only
  split
  · have held := kept.encrypted
    refine ⟨change.apply_keyed kept.keyed, ?_, fun row mem => ?_, by grind, ?_⟩
    · have applied := congrArg (change.apply env.fingerprint) kept.table
      rwa [← Change.map_managed_apply, ← Change.map_managed_apply] at applied
    · -- rows of the changed node count as read no more, and the change leaves the others alone
      obtain ⟨old, other⟩ := mem_filter.mp mem
      have stays : managed row ∈ change.apply env.fingerprint (w.nodes.map managed) :=
        Change.mem_apply_of_ne (kept.current row old) (of_decide_eq_true other)
      rwa [← Change.map_managed_apply] at stays
    · intro request answer mem
      exact (kept.confirmed request answer mem).mono (suffix_cons _ _)
  · exact kept

theorem commit_grows (w : World) (fingerprint : String → String) (fate : Fate) (change : Change) :
    w.changes <:+ (w.commit fingerprint fate change).2.changes := by
  grind [World.commit]

theorem commit_done {fate : Fate} (committed : w.commit fingerprint fate change = (true, w')) :
    change ∈ w'.changes := by
  simp only [World.commit, Prod.mk.injEq] at committed
  obtain ⟨ok, rfl⟩ := committed
  simp [ok]

theorem hexEncode_ne_empty (bytes : SecretBytes) : hexEncode bytes ≠ "" := by
  intro empty
  have length := congrArg String.length empty
  simp [hexEncode] at length

/-- An answer is given only for what it confirms. -/
def Op.Honest (env : Env) (w : World) : Op → Prop
  | .reply request answer => Confirms env w.changes request answer
  | _ => True

theorem exec_kept {fate : Fate} {op : Op} {result : Res op} (kept : Kept env db w)
    (fresh : op.Fresh w) (honest : op.Honest env w)
    (done : exec env fate w op = some (result, w')) :
    Kept env db w' ∧ w.changes <:+ w'.changes := by
  cases op with
  | master op =>
    obtain ⟨⟨value, m⟩, ran, equal⟩ := Option.map_eq_some_iff.mp done
    cases equal
    exact ⟨kept.master fresh ran, suffix_refl _⟩
  | setSiteTitle name =>
    cases done
    split
    · exact ⟨kept.reported rfl rfl rfl fun _ => .inl, suffix_refl _⟩
    · exact ⟨kept, suffix_refl _⟩
  | findNode id | randomBytes =>
    cases done
    exact ⟨kept, suffix_refl _⟩
  | updateNode id edit | deleteNode id =>
    cases done
    exact ⟨kept.commit nofun, commit_grows _ _ _ _⟩
  | setNodeSecret id bytes =>
    cases done
    refine ⟨kept.commit ?_, commit_grows _ _ _ _⟩
    rintro _ _ _ _ ⟨⟩
    exact encryptCredential_ne_empty _ _ _ _ (hexEncode_ne_empty bytes)
  | reply request answer =>
    cases done
    refine ⟨{ kept with confirmed := fun request' answer' mem => ?_ }, suffix_refl _⟩
    rcases mem_cons.mp mem with same | old
    · cases same
      exact honest
    · exact kept.confirmed request' answer' old

/-! ### The handlers -/

/-- Changes only accumulate; a thread knows nothing beyond that. -/
def protocol (env : Env) (db : Db) : (machine env).Protocol where
  admits w op := op.Fresh w
  inv := Kept env db
  rely _ w w' := w.changes <:+ w'.changes
  guar _ w w' := w.changes <:+ w'.changes
  knows _ _ _ := True

abbrev contract (env : Env) (db : Db) : Prog.Contract World Op := (protocol env db).contract 0

theorem contract_lawful (env : Env) (db : Db) : (contract env db).Lawful where
  refl _ := suffix_refl _
  trans _ _ _ first second := first.trans second

/-- The handler keeps to the protocol. -/
abbrev Keeps (env : Env) (db : Db) (handler : Handler Unit) (w : World) : Prop :=
  handler.wp (exec env) (contract env db) (fun _ _ => True) w

theorem stable_mem (change : Change) :
    (contract env db).Stable fun w => change ∈ w.changes :=
  fun _ _ grown _ mem => List.IsSuffix.subset grown mem

theorem stable_true : (contract env db).Stable fun _ => True := fun _ _ _ _ _ => trivial

theorem wp_reply {answer : Reply} {known : World → Prop} (stable : (contract env db).Stable known)
    (holds : known w) (honest : ∀ w, known w → Confirms env w.changes request answer) :
    Keeps env db (reply request answer) w := by
  intro w' related inv admitted fate result w'' done
  have confirmed : (Op.reply request answer).Honest env w' :=
    honest w' (stable w w' related inv holds)
  obtain ⟨kept, grown⟩ := exec_kept inv (by exact admitted) confirmed done
  exact ⟨kept, grown, fun _ _ _ => trivial⟩

theorem wp_refuse {status : Nat} {text : String} :
    Keeps env db (reply request (.error status text)) w := by
  refine wp_reply stable_true trivial fun w _ => ?_
  cases request <;> trivial

/-- A statement of a handler, with what its result says about the state after it. -/
theorem wp_statement {op : Op} {next : Res op → Handler Unit}
    (onward : ∀ w fate result w', exec env fate w op = some (result, w') →
      Keeps env db (next result) w')
    (silent : ∀ w, op.Honest env w := by exact fun _ => trivial) :
    Keeps env db (ask op >>= next) w := by
  refine Prog.wp_ask fun w' related inv admitted fate result w'' done => ?_
  obtain ⟨kept, grown⟩ := exec_kept inv admitted (silent w') done
  exact ⟨kept, grown, onward w' fate result w'' done⟩

theorem wp_handleNodeHeartbeat (request : HeartbeatRequest) :
    Keeps env db (handleNodeHeartbeat request) w := by
  unfold handleNodeHeartbeat
  split
  · exact wp_refuse
  refine wp_statement fun w fate found w' _ => ?_
  cases found with
  | none => exact wp_refuse
  | some found =>
    refine wp_statement fun w fate now w' _ => ?_
    refine wp_statement fun w fate saved w' _ => ?_
    cases saved with
    | false => exact wp_refuse
    | true => exact wp_reply stable_true trivial fun _ _ => trivial

theorem findNode_id {fate : Fate} {node : Node}
    (done : exec env fate w (.findNode id) = some (some node, w')) : node.id = id := by
  grind [exec, Option.some.injEq, Prod.mk.injEq]

theorem wp_handleUpdateNode (id : Nat) (name : Except String String)
    (body : Except String NodeUpdate) :
    Keeps env db (handleUpdateNode env id name body) w := by
  unfold handleUpdateNode
  split
  next main =>
    -- the local node has no row; its name is the title of the site
    have confirms (text : String) (w : World) :
        Confirms env w.changes (.update id name body) (.message text) := .inl main
    cases name with
    | error reason => exact wp_refuse
    | ok name =>
      dsimp only
      unfold renameMainNode
      split
      · exact wp_reply stable_true trivial fun w _ => confirms _ w
      · refine wp_statement fun w fate done w' _ => ?_
        cases done with
        | error reason => exact wp_refuse
        | ok done => exact wp_reply stable_true trivial fun w _ => confirms _ w
  next other =>
    cases body with
    | error reason => exact wp_refuse
    | ok update =>
      refine wp_statement fun w fate found w' sought => ?_
      cases found with
      | none => exact wp_refuse
      | some node =>
        obtain rfl := findNode_id sought
        cases valid : nodeUpdates env.parseIP update with
        | error reason => simpa only [valid] using wp_refuse
        | ok edit =>
          refine wp_statement fun w fate done w' updated => ?_
          cases done with
          | false => exact wp_refuse
          | true =>
            exact wp_reply (stable_mem _) (commit_done (Option.some.inj updated)) fun w held =>
              .inr ⟨update, edit, rfl, valid, held⟩

theorem wp_handleRotateNodeSecret (id : Nat) :
    Keeps env db (handleRotateNodeSecret id) w := by
  unfold handleRotateNodeSecret
  dsimp only
  split
  · exact wp_refuse
  refine wp_statement fun w fate found w' sought => ?_
  cases found with
  | none => exact wp_refuse
  | some node =>
    obtain rfl := findNode_id sought
    refine wp_statement fun w fate drawn w' _ => ?_
    cases drawn with
    | none => exact wp_refuse
    | some bytes =>
      refine wp_statement fun w fate done w' rotated => ?_
      cases done with
      | false => exact wp_refuse
      | true =>
        exact wp_reply (stable_mem _) (commit_done (Option.some.inj rotated)) fun w held =>
          ⟨bytes, _, _, rfl, held⟩

theorem wp_handleDeleteNode (id : Nat) :
    Keeps env db (handleDeleteNode id) w := by
  unfold handleDeleteNode
  refine wp_statement fun w fate found w' sought => ?_
  cases found with
  | none => exact wp_refuse
  | some node =>
    obtain rfl := findNode_id sought
    refine wp_statement fun w fate done w' removed => ?_
    cases done with
    | false => exact wp_refuse
    | true => exact wp_reply (stable_mem _) (commit_done (Option.some.inj removed)) fun w held => held

theorem wp_lift (handler : Master.Handler Unit) :
    Keeps env db (lift handler) w := by
  have only : (lift handler).Only fun op => ∃ inner, op = .master inner :=
    Prog.only_embed (fun inner => ⟨inner, rfl⟩) handler
  refine Prog.wp_only only stable_true trivial ?_
  rintro w _ inv - admitted ⟨inner, rfl⟩ fate result w' done
  obtain ⟨kept, grown⟩ := exec_kept inv admitted (by trivial) done
  exact ⟨kept, grown, trivial⟩

theorem protocol_sound (env : Env) (db : Db) : (protocol env db).Sound where
  lawful _ := contract_lawful env db
  stable _ _ _ _ _ _ _ := trivial
  compatible _ _ _ _ _ grown := grown
  body := by
    rintro i call memory p w found -
    cases found
    cases call with
    | master call => exact wp_lift (Master.body call)
    | request request =>
      cases request with
      | heartbeat request => exact wp_handleNodeHeartbeat request
      | update id name body => exact wp_handleUpdateNode id name body
      | rotate id => exact wp_handleRotateNodeSecret id
      | delete id => exact wp_handleDeleteNode id
  boot := by
    rintro w _ kept ⟨⟩
    exact ⟨kept, fun _ => trivial⟩

/-! ### Persistence -/

theorem Kept.start (keyed : (db.nodes.map Node.id).Nodup) : Kept env db (World.start db) where
  keyed := keyed
  table := rfl
  current := by rintro _ ⟨⟩
  encrypted := by rintro _ _ _ _ ⟨⟩
  confirmed := by rintro _ _ ⟨⟩

section

variable (kept : Kept env db w)

include kept

/-- Every row agrees with one of the replayed table in the managed columns. -/
theorem Kept.replayed {node : Node} (mem : node ∈ w.nodes) :
    ∃ row ∈ replay env.fingerprint w.changes db.nodes, managed row = managed node := by
  have listed : managed node ∈ w.nodes.map managed := mem_map_of_mem mem
  rw [kept.table] at listed
  exact mem_map.mp listed

theorem Kept.authenticates {secret ciphertext : String} {node : Node} {bytes : SecretBytes}
    (found : w.master.db.nodeBySecret env.fingerprint secret = some node)
    (rotated : w.changes = later ++ .rotated node.id bytes ciphertext now :: earlier)
    (last : ∀ change ∈ later, ¬ change.Rotates node.id) :
    env.fingerprint secret = env.fingerprint (hexEncode bytes) := by
  obtain ⟨mem, accepted⟩ := nodeBySecret_found found
  obtain ⟨row, replayed, same⟩ := kept.replayed mem
  have columns : row.id = node.id → row.secretHash = env.fingerprint (hexEncode bytes) ∧
      row.secretCiphertext = ciphertext := by
    rw [rotated] at replayed
    refine replay_all (p := fun row => row.id = node.id →
      row.secretHash = env.fingerprint (hexEncode bytes) ∧ row.secretCiphertext = ciphertext)
      (by grind [Change.row_id, Change.row, withSecret]) ?_ row replayed
    intro change inside old held id
    have other := last _ inside
    -- an edit sets no column of the secret
    cases change with grind [Change.row, Change.row_id, Change.Rotates, NodeEdit.apply]
  obtain ⟨hash, text⟩ := columns (managed_id same)
  have sameHash : (managed row).secretHash = (managed node).secretHash :=
    congrArg Node.secretHash same
  have sameText : (managed row).secretCiphertext = (managed node).secretCiphertext :=
    congrArg Node.secretCiphertext same
  rcases accepted with current | legacy
  · exact current.symm.trans (sameHash.symm.trans hash)
  · -- a row with a ciphertext is never found by its legacy column
    have stored : ciphertext ≠ "" := by
      apply kept.encrypted node.id bytes ciphertext now
      rw [rotated]
      exact mem_append_right _ mem_cons_self
    exact absurd (text.symm.trans (sameText.trans legacy)) stored

theorem Kept.edits {edit : NodeEdit} (edited : w.changes = later ++ .edited id edit :: earlier)
    (last : ∀ change ∈ later, ¬ change.Overrides id edit) {node : Node} (mem : node ∈ w.nodes)
    (named : node.id = id) : edit.apply node = node := by
  obtain ⟨row, replayed, same⟩ := kept.replayed mem
  have held : row.id = id → edit.apply row = row := by
    rw [edited] at replayed
    refine replay_all (p := fun row => row.id = id → edit.apply row = row)
      (by grind [Change.row_id, Change.row, NodeEdit.apply_idem]) ?_ row replayed
    intro change inside old held hit
    rw [Change.row_id] at hit
    have before := held hit
    cases change with
    | rotated id' bytes ciphertext now =>
      simp only [Change.row]
      split
      · -- a rotation sets no column that an edit can set
        cases old
        simpa [NodeEdit.apply, withSecret] using before
      · exact before
    | edited id' edit' =>
      have apart : id' = id → edit.Apart edit' := by grind [Change.Overrides]
      grind [Change.row, NodeEdit.Apart.kept]
    | deleted id' => exact before
  have rowed : edit.apply row = row := held ((managed_id same).trans named)
  rw [← edit_managed, same] at rowed
  exact (edit_managed edit node).mp rowed

theorem Kept.deleted (gone : .deleted id ∈ w.changes) {node : Node} (mem : node ∈ w.nodes) :
    node.id ≠ id := by
  obtain ⟨row, replayed, same⟩ := kept.replayed mem
  obtain ⟨later, earlier, split⟩ := append_of_mem gone
  have absent : row.id ≠ id := by
    rw [split] at replayed
    exact replay_all (p := fun row => row.id ≠ id) (fun _ remains => remains id rfl)
      (by grind [Change.row_id]) row replayed
  exact fun named => absent ((managed_id same).trans named)

end

/-- In every run in which workers save only what was read since the last change of that
node, every administrator change persists and workers change only what they report. -/
theorem administrator_changes_persist (env : Env) (db : Db)
    (keyed : (db.nodes.map Node.id).Nodup) {labels : (machine env).Labels} {c : (machine env).State}
    (fresh : (machine env).MeetsFrom (fun w op => op.Fresh w) (World.start db) labels)
    (ran : (machine env).runFrom (World.start db) labels = some c) :
    Persists env db c.shared := by
  have good : (protocol env db).Good ((machine env).boot (World.start db)) :=
    ⟨Kept.start keyed, fun _ => trivial⟩
  have kept : Kept env db c.shared := (good.run (protocol_sound env db) fresh ran).inv
  exact ⟨kept.table, kept.confirmed,
    fun _ _ _ _ _ _ _ found rotated last => kept.authenticates found rotated last,
    fun _ _ _ _ edited last _ mem named => kept.edits edited last mem named,
    fun _ gone _ mem => kept.deleted gone mem⟩

/-! ### A worker's save against an administrator's change -/

namespace Sample

def keys : Env where
  fingerprint secret := "fp:" ++ secret
  cipher := .plain
  parseIP _ := false

/-- One node whose worker knows the secret `old`. -/
def node : Node where
  id := 1
  name := "hk"
  address := "hk.example"
  secret := "retired:1"
  secretCiphertext := "enc:v1:default:old"
  secretHash := "fp:old"

def table : Db := { nodes := [node] }

def worker : Call := .request (.heartbeat ⟨"old", "192.0.2.1"⟩)

def steps (thread count : Nat) : List (Label Nat (fun _ => Call) Fate) :=
  List.replicate count (.step thread {})

/-- The worker's heartbeat, and after it the administrator's request. -/
def inTurn (request : Request) (count : Nat) : List (Label Nat (fun _ => Call) Fate) :=
  .enter 0 worker :: steps 0 4 ++ .enter 1 (.request request) :: steps 1 count

/-- The administrator's request runs between the worker's read of its row and its save. -/
def straddled (request : Request) (count : Nat) : List (Label Nat (fun _ => Call) Fate) :=
  .enter 0 worker :: steps 0 1 ++ .enter 1 (.request request) :: steps 1 count ++ steps 0 3

def rename : Request := .update 1 (.ok "sg") (.ok { name := "sg" })

end Sample

/-- A worker reports and then its secret is rotated: the old secret is refused from then on. -/
theorem rotation_after_heartbeat_persists :
    ∃ c, (machine Sample.keys).runFrom (World.start Sample.table) (Sample.inTurn (.rotate 1) 4) =
      some c ∧
      Persists Sample.keys Sample.table c.shared ∧
      c.shared.master.db.nodeBySecret Sample.keys.fingerprint "old" = none := by
  refine Machine.run_witness (fun c =>
    c.shared.master.db.nodeBySecret Sample.keys.fingerprint "old" = none) (by decide +kernel) ?_
  intro c ran refused
  exact ⟨administrator_changes_persist Sample.keys Sample.table (by decide) (by decide +kernel) ran,
    refused⟩

/-- A heartbeat that read its row before an administrator's request and saves it after the
request was answered: the secret that was rotated out authenticates again, the old name is
back, and so is the deleted node. -/
theorem stale_heartbeat_undoes_changes :
    (∃ c shown secret message, (machine Sample.keys).runFrom (World.start Sample.table)
      (Sample.straddled (.rotate 1) 4) = some c ∧
      (.rotate 1, .rotated shown secret message) ∈ c.shared.replies ∧ secret ≠ "old" ∧
      ∃ node, c.shared.master.db.nodeBySecret Sample.keys.fingerprint "old" = some node ∧
        node.id = 1) ∧
    (∃ c, (machine Sample.keys).runFrom (World.start Sample.table)
      (Sample.straddled Sample.rename 3) = some c ∧
      (Sample.rename, .message "更新成功") ∈ c.shared.replies ∧
      ∃ node ∈ c.shared.nodes, node.id = 1 ∧ node.name = "hk") ∧
    ∃ c, (machine Sample.keys).runFrom (World.start Sample.table) (Sample.straddled (.delete 1) 3) =
      some c ∧
      (.delete 1, .message "已删除") ∈ c.shared.replies ∧ ∃ node ∈ c.shared.nodes, node.id = 1 := by
  refine ⟨?_, ?_, ?_⟩
  · obtain ⟨c, ran, answered, accepted⟩ : ∃ c, (machine Sample.keys).runFrom
          (World.start Sample.table) (Sample.straddled (.rotate 1) 4) = some c ∧
        (Request.rotate 1, Reply.rotated (toPublicNode Sample.node) (hexEncode fun _ => 0)
          "通信密钥已轮换；请立即更新对应 Worker 配置并重启服务") ∈ c.shared.replies ∧
        (c.shared.master.db.nodeBySecret Sample.keys.fingerprint "old").map Node.id = some 1 :=
      Machine.run_checked (by decide +kernel)
    exact ⟨c, _, _, _, ran, answered, by decide +kernel, Option.map_eq_some_iff.mp accepted⟩
  · exact Machine.run_checked (by decide +kernel)
  · exact Machine.run_checked (by decide +kernel)

end TrojanGo.Nodes
