import TrojanGo.Statistic.Updaters

/-!
# Traffic between counters and rows

An updater resets a counter first and writes what it has read to the row afterwards. The books are
closed between two cycles. Within a cycle the amount that was taken from a counter and is not yet
written is in flight.
-/
namespace TrojanGo.Statistic

open Lib Master Prog List
open Accounts (Clock)

variable {ρ : Type}

/-! ### The books -/

/-- The counter of the user in memory. -/
def World.live (s : World ρ) (hash : String) (d : Dir) : Nat :=
  match s.users hash with
  | none => 0
  | some i =>
    match s.meters[i]? with
    | none => 0
    | some m => amount m.sent m.recv d

structure World.Proper (schema : Schema ρ) (s : World ρ) : Prop where
  owner : ∀ h i, s.users h = some i → ∃ m, s.meters[i]? = some m ∧ m.hash = h
  /-- an object that is not listed has nothing left -/
  idle : ∀ i m, s.meters[i]? = some m → s.users m.hash ≠ some i → m.sent = 0 ∧ m.recv = 0
  known : ∀ row ∈ s.rows, schema.id row ∈ s.ids
  primaryKey : (s.rows.map schema.id).Nodup

/-- Traffic that was taken from the counter of a user and is not written yet. -/
def inFlight (hash : String) (sent recv : Nat) : String → Dir → Nat :=
  fun h d => if h = hash then amount sent recv d else 0

def landed : String → Dir → Nat := fun _ _ => 0

/-- Since `s₀`, for every row that is still there: stored, live and in-flight traffic has grown
by what was counted. -/
structure Balanced (schema : Schema ρ) (s₀ : World ρ) (flight : String → Dir → Nat)
    (s : World ρ) : Prop where
  used : ∀ row ∈ s₀.rows, schema.id row ∈ s.ids
  books : ∀ row₀ ∈ s₀.rows, ∀ row ∈ s.rows, schema.id row = schema.id row₀ →
    schema.hash row = schema.hash row₀ ∧ ∀ d,
      schema.traffic row d + s.live (schema.hash row) d + flight (schema.hash row) d +
          s₀.counted (schema.hash row) d =
        schema.traffic row₀ d + s₀.live (schema.hash row) d + s.counted (schema.hash row) d

variable {schema : Schema ρ} {s₀ s s' : World ρ} {flight flight' : String → Dir → Nat}

theorem balanced_start (proper : s.Proper schema) : Balanced schema s landed s := by
  refine ⟨proper.known, ?_⟩
  intro row₀ member₀ row mem same
  -- two rows with one id are one row
  obtain rfl := inj_on_of_nodup_map proper.primaryKey mem member₀ same
  exact ⟨rfl, fun d => by simp [landed]⟩

/-- Every row comes from a row of before, and its books move together. -/
theorem Balanced.step (balanced : Balanced schema s₀ flight s)
    (grows : ∀ id ∈ s.ids, id ∈ s'.ids)
    (from_ : ∀ row ∈ s'.rows, schema.id row ∈ s.ids → ∃ old ∈ s.rows,
      schema.id row = schema.id old ∧ schema.hash row = schema.hash old ∧ ∀ d,
        schema.traffic row d + s'.live (schema.hash row) d + flight' (schema.hash row) d +
            s.counted (schema.hash row) d =
          schema.traffic old d + s.live (schema.hash row) d + flight (schema.hash row) d +
            s'.counted (schema.hash row) d) :
    Balanced schema s₀ flight' s' := by
  refine ⟨fun row mem => grows _ (balanced.used row mem), ?_⟩
  intro row₀ member₀ row mem same
  -- an id is never given to a second row, so this row comes from one of the step before
  obtain ⟨old, inside, id, hash, moved⟩ :=
    from_ row mem (same ▸ balanced.used row₀ member₀)
  obtain ⟨hash₀, books⟩ := balanced.books row₀ member₀ old inside (id ▸ same)
  refine ⟨hash.trans hash₀, fun d => ?_⟩
  have before := books d
  have after := moved d
  rw [← hash] at before
  omega

/-- The rows are those of before. -/
theorem Balanced.same_rows (balanced : Balanced schema s₀ flight s) (rows : s'.rows = s.rows)
    (ids : s'.ids = s.ids)
    (moved : ∀ h d, s'.live h d + flight' h d + s.counted h d =
      s.live h d + flight h d + s'.counted h d) :
    Balanced schema s₀ flight' s' := by
  refine balanced.step (fun id inside => by rwa [ids]) fun row mem _ => ?_
  rw [rows] at mem
  refine ⟨row, mem, rfl, rfl, fun d => ?_⟩
  have := moved (schema.hash row) d
  omega

variable {i : Nat} {m : Meter}

variable {m' : Meter} {recv sent : Nat} {op : Op} {result : Res ρ op}

/-- Replacing a user object changes the counter of the user it is listed for. -/
theorem live_set (found : s.meters[i]? = some m) (h : String) (d : Dir) :
    ({ s with meters := s.meters.set i m' } : World ρ).live h d =
      if s.users h = some i then amount m'.sent m'.recv d else s.live h d := by
  unfold World.live
  cases listed : s.users h with
  | none => simp
  | some j => grind

theorem live_listed (found : s.meters[i]? = some m) {h : String} (listed : s.users h = some i)
    (d : Dir) : s.live h d = amount m.sent m.recv d := by
  simp [World.live, listed, found]

/-- User objects stay, and stay those of their users. -/
def World.Grows (s s' : World ρ) : Prop :=
  ∀ (i : Nat) (m : Meter), s.meters[i]? = some m →
    ∃ m', s'.meters[i]? = some m' ∧ m'.hash = m.hash

theorem World.Grows.refl (s : World ρ) : s.Grows s := fun _ m found => ⟨m, found, rfl⟩

theorem World.Grows.trans {s'' : World ρ} (first : s.Grows s') (second : s'.Grows s'') :
    s.Grows s'' := by
  grind [World.Grows]

theorem grows_set (found : s.meters[i]? = some m) (meters : s'.meters = s.meters.set i m')
    (same : m'.hash = m.hash) : s.Grows s' := by
  intro j m'' found'
  rw [meters, List.getElem?_set]
  grind

theorem World.Proper.set (proper : s.Proper schema) (found : s.meters[i]? = some m)
    (same : m'.hash = m.hash) (idle : s.users m.hash ≠ some i → m'.sent = 0 ∧ m'.recv = 0) :
    ({ s with meters := s.meters.set i m' } : World ρ).Proper schema := by
  refine ⟨?_, ?_, proper.known, proper.primaryKey⟩
  · intro h j listed
    obtain ⟨m'', found', rfl⟩ := proper.owner h j listed
    exact grows_set found rfl same j m'' found'
  · have before := proper.idle
    simp only [List.getElem?_set]
    grind

/-! ### What keeps the books -/

/-- Connections count on listed objects and within the width of a counter; an administrator
leaves hash and traffic columns alone. -/
def Event.Fine (schema : Schema ρ) (s : World ρ) : Event ρ → Prop
  | .traffic i sent recv =>
    match s.meters[i]? with
    | none => True
    | some m => s.users m.hash = some i ∧ m.sent + sent < word ∧ m.recv + recv < word
  | .insert _ | .delete _ => True
  | .edit row => ∀ old ∈ s.rows, schema.id old = schema.id row →
    schema.hash row = schema.hash old ∧ schema.traffic row .up = schema.traffic old .up ∧
      schema.traffic row .down = schema.traffic old .down

def EventsFine (schema : Schema ρ) : List (Event ρ) → World ρ → Prop
  | [], _ => True
  | event :: events, s => event.Fine schema s ∧ EventsFine schema events (event.apply schema s)

/-- An update that carries traffic is missed or exceeds a column, or a user is removed whose counter
is not empty. -/
def Op.Drops (schema : Schema ρ) (fate : Fate ρ) (s : World ρ) : Op → Prop
  | .update hash sent recv =>
    (fate.ok = false ∧ fate.after = false ∧ (sent ≠ 0 ∨ recv ≠ 0)) ∨
      ((fate.ok = true ∨ fate.after = true) ∧
        ∃ row ∈ s.rows, schema.hash row = hash ∧ schema.fits sent recv row = false)
  | .close i =>
    match s.meters[i]? with
    | none => False
    | some m => m.sent ≠ 0 ∨ m.recv ≠ 0
  | .mapDelete hash => s.live hash .up ≠ 0 ∨ s.live hash .down ≠ 0
  | _ => False

/-- The condition under which nothing is lost. -/
def KeepsTraffic (schema : Schema ρ) (fate : Fate ρ) (s : World ρ) (op : Op) : Prop :=
  EventsFine schema fate.before s ∧ ¬ op.Drops schema fate (s.settle schema fate.before)

instance (schema : Schema ρ) (s : World ρ) :
    (event : Event ρ) → Decidable (event.Fine schema s)
  | .traffic i sent recv =>
    match found : s.meters[i]? with
    | none => isTrue (by simp [Event.Fine, found])
    | some m =>
      decidable_of_iff (s.users m.hash = some i ∧ m.sent + sent < word ∧ m.recv + recv < word)
        (by simp [Event.Fine, found])
  | .insert _ | .delete _ => isTrue trivial
  | .edit row => inferInstanceAs (Decidable (∀ old ∈ s.rows, schema.id old = schema.id row → _))

instance decideEventsFine (schema : Schema ρ) :
    (events : List (Event ρ)) → (s : World ρ) → Decidable (EventsFine schema events s)
  | [], _ => isTrue trivial
  | event :: events, s =>
    have := decideEventsFine schema events (event.apply schema s)
    inferInstanceAs (Decidable (_ ∧ _))

instance (schema : Schema ρ) (fate : Fate ρ) (s : World ρ) :
    (op : Op) → Decidable (op.Drops schema fate s)
  | .update hash sent recv =>
    inferInstanceAs (Decidable ((_ ∧ _ ∧ (sent ≠ 0 ∨ recv ≠ 0)) ∨ ((_ ∨ _) ∧
      ∃ row ∈ s.rows, schema.hash row = hash ∧ schema.fits sent recv row = false)))
  | .close i =>
    match found : s.meters[i]? with
    | none => isFalse (by simp [Op.Drops, found])
    | some m => decidable_of_iff (m.sent ≠ 0 ∨ m.recv ≠ 0) (by simp [Op.Drops, found])
  | .mapDelete hash => inferInstanceAs (Decidable (s.live hash .up ≠ 0 ∨ s.live hash .down ≠ 0))
  | .listUsers | .take _ | .rowsAffected _ | .select | .addUser _ | .mapLoad _ => isFalse id

instance (schema : Schema ρ) (fate : Fate ρ) (s : World ρ) (op : Op) :
    Decidable (KeepsTraffic schema fate s op) :=
  inferInstanceAs (Decidable (_ ∧ ¬ _))

abbrev Books (schema : Schema ρ) (s₀ : World ρ) (flight : String → Dir → Nat) (s : World ρ) : Prop :=
  s.Proper schema ∧ Balanced schema s₀ flight s

/-- The books are closed. -/
def Closed (schema : Schema ρ) (s₀ s : World ρ) : Prop :=
  s.Proper schema ∧ Balanced schema s₀ landed s

/-- The books but for some traffic in flight. -/
def Open (schema : Schema ρ) (s₀ : World ρ) (hash : String) (sent recv : Nat) (s : World ρ) :
    Prop :=
  s.Proper schema ∧ Balanced schema s₀ (inFlight hash sent recv) s

theorem count_keeps (fine : (Event.traffic i sent recv).Fine schema s)
    (books : Books schema s₀ flight s) : Books schema s₀ flight (s.count i sent recv) := by
  obtain ⟨proper, balanced⟩ := books
  unfold World.count
  simp only [Event.Fine] at fine
  cases found : s.meters[i]? with
  | none => exact ⟨proper, balanced⟩
  | some m =>
    simp only [found] at fine ⊢
    obtain ⟨listed, small, small'⟩ := fine
    -- no counter wraps around, so it grows by what is counted
    rw [Nat.mod_eq_of_lt small, Nat.mod_eq_of_lt small']
    let m' : Meter := { m with sent := m.sent + sent, recv := m.recv + recv }
    have proper' := proper.set found (show m'.hash = m.hash from rfl)
      fun unlisted => (unlisted listed).elim
    refine ⟨⟨proper'.owner, proper'.idle, proper'.known, proper'.primaryKey⟩, ?_⟩
    refine balanced.same_rows rfl rfl fun h d => ?_
    have moved := @live_set _ s i m m' found h d
    show World.live { s with meters := _ } h d + _ + _ = _ + _ + (s.counted h d + _)
    rw [moved]
    by_cases this : h = m.hash
    · rw [if_pos (this ▸ listed), if_pos this, live_listed found (this ▸ listed)]
      cases d <;> simp only [amount, m'] <;> omega
    -- the counter of another user is another object
    have other : s.users h ≠ some i := by
      intro owned
      obtain ⟨m', found', rfl⟩ := proper.owner h i owned
      rw [found] at found'
      cases found'
      exact this rfl
    rw [if_neg other, if_neg this]
    omega

theorem insert_keeps {row : ρ} (fresh : schema.id row ∉ s.ids)
    (books : Books schema s₀ flight s) :
    Books schema s₀ flight { s with rows := s.rows ++ [row], ids := schema.id row :: s.ids } := by
  obtain ⟨proper, balanced⟩ := books
  have known := proper.known
  have distinct := proper.primaryKey
  refine ⟨⟨proper.owner, proper.idle, by grind, by grind⟩, ?_⟩
  refine balanced.step (by grind) fun row' mem inside => ?_
  rcases mem_append.mp mem with old | new
  · exact ⟨row', old, rfl, rfl, fun _ => rfl⟩
  · -- the new row is none of those since the start
    obtain rfl := mem_singleton.mp new
    exact (fresh inside).elim

/-- Rows are changed in place, and only in columns that are not in the books. -/
theorem edit_keeps {change : ρ → ρ} (books : Books schema s₀ flight s)
    (place : ∀ old ∈ s.rows, schema.id (change old) = schema.id old ∧
      schema.hash (change old) = schema.hash old ∧
      ∀ d, schema.traffic (change old) d + flight' (schema.hash old) d =
        schema.traffic old d + flight (schema.hash old) d) :
    Books schema s₀ flight' { s with rows := s.rows.map change } := by
  obtain ⟨proper, balanced⟩ := books
  have ids : (s.rows.map change).map schema.id = s.rows.map schema.id := by
    rw [map_map]
    exact map_congr_left fun old inside => (place old inside).1
  refine ⟨⟨proper.owner, proper.idle, by grind [proper.known], ids ▸ proper.primaryKey⟩, ?_⟩
  refine balanced.step (fun _ inside => inside) fun row' mem _ => ?_
  obtain ⟨old, inside, rfl⟩ := mem_map.mp mem
  obtain ⟨id, hash, traffic⟩ := place old inside
  refine ⟨old, inside, id, hash, fun d => ?_⟩
  have moved := traffic d
  have same : World.live { s with rows := s.rows.map change } = s.live := rfl
  dsimp only
  rw [hash, same]
  omega

theorem event_keeps {event : Event ρ} (fine : event.Fine schema s)
    (books : Books schema s₀ flight s) : Books schema s₀ flight (event.apply schema s) := by
  cases event with
  | traffic i sent recv => exact count_keeps fine books
  | insert row => grind [Event.apply, insert_keeps]
  | delete id =>
    obtain ⟨proper, balanced⟩ := books
    refine ⟨⟨proper.owner, proper.idle, fun row mem => proper.known row (mem_of_mem_filter mem),
      proper.primaryKey.sublist (filter_sublist.map _)⟩, ?_⟩
    exact balanced.step (fun _ inside => inside) fun row mem _ =>
      ⟨row, mem_of_mem_filter mem, rfl, rfl, fun _ => rfl⟩
  | edit row =>
    apply edit_keeps books
    intro old mem
    split
    next this =>
      obtain ⟨hash, up, down⟩ := fine old mem this
      exact ⟨this.symm, hash, fun d => by cases d <;> simp only [up, down]⟩
    · exact ⟨rfl, rfl, fun _ => rfl⟩

theorem events_keep {events : List (Event ρ)} (fine : EventsFine schema events s)
    (books : Books schema s₀ flight s) : Books schema s₀ flight (s.settle schema events) := by
  induction events generalizing s with
  | nil => exact books
  | cons event events ih => exact ih fine.2 (event_keeps fine.1 books)

/-! ### Operations -/

variable {fate : Fate ρ}

theorem reset_keeps (found : s.meters[i]? = some m) (closed : Closed schema s₀ s) :
    Open schema s₀ m.hash m.sent m.recv (s.reset i) := by
  obtain ⟨proper, balanced⟩ := closed
  simp only [World.reset, found]
  refine ⟨proper.set found rfl fun _ => ⟨rfl, rfl⟩, ?_⟩
  refine balanced.same_rows rfl rfl fun h d => ?_
  rw [live_set found]
  have owner := proper.owner h i
  by_cases listed : s.users h = some i
  · rw [if_pos listed, live_listed found listed]
    cases d <;> grind [inFlight, landed, amount]
  · -- an object that is not listed has nothing in flight
    have idle := proper.idle i m found
    cases d <;> grind [inFlight, landed, amount]

variable {hash : String}

theorem Open.nothing (opened : Open schema s₀ hash 0 0 s) : Closed schema s₀ s := by
  refine ⟨opened.1, opened.2.same_rows rfl rfl fun h d => ?_⟩
  cases d <;> simp [inFlight, landed, amount]

/-- A user object that has nothing left. -/
theorem reset_empty (empty : ¬ (Op.close i).Drops schema fate s) (closed : Closed schema s₀ s) :
    Closed schema s₀ (s.reset i) := by
  simp only [Op.Drops] at empty
  cases found : s.meters[i]? with
  | none => simpa only [World.reset, found] using closed
  | some m =>
    simp only [found, not_or, ne_eq, not_not] at empty
    have opened := reset_keeps found closed
    rw [empty.1, empty.2] at opened
    exact opened.nothing

theorem credit_keeps (opened : Open schema s₀ hash sent recv s)
    (room : ∀ row ∈ s.rows, schema.hash row = hash → schema.fits sent recv row = true) :
    Closed schema s₀ (s.credit schema hash sent recv) := by
  apply edit_keeps opened
  intro old mem
  split
  next this =>
    refine ⟨schema.id_credit _ _ _, schema.hash_credit _ _ _, fun d => ?_⟩
    rw [schema.traffic_credit _ _ _ _ (room old mem this)]
    simp [inFlight, landed, this]
  next other => exact ⟨rfl, rfl, fun d => by simp [inFlight, landed, other]⟩

theorem add_keeps (absent : s.users hash = none) (closed : Closed schema s₀ s) :
    Closed schema s₀ { s with
      meters := s.meters ++ [{ hash := hash }]
      users := fun h => if h = hash then some s.meters.length else s.users h } := by
  obtain ⟨proper, balanced⟩ := closed
  have new : (s.meters ++ [({ hash := hash } : Meter)])[s.meters.length]? =
      some { hash := hash } := by simp
  have owner := proper.owner
  have idle := proper.idle
  refine ⟨⟨by grind, by grind, proper.known, proper.primaryKey⟩, ?_⟩
  refine balanced.same_rows rfl rfl fun h d => ?_
  have same : World.live { s with
      meters := s.meters ++ [{ hash := hash }]
      users := fun h => if h = hash then some s.meters.length else s.users h } h d =
      s.live h d := by
    unfold World.live
    cases d <;> grind [amount]
  rw [same]

theorem delete_keeps (empty : ¬ (Op.mapDelete hash).Drops schema fate s) (closed : Closed schema s₀ s) :
    Closed schema s₀ { s with users := fun h => if h = hash then none else s.users h } := by
  obtain ⟨proper, balanced⟩ := closed
  simp only [Op.Drops, not_or, ne_eq, not_not] at empty
  constructor
  · refine ⟨?_, ?_, proper.known, proper.primaryKey⟩
    · intro h i listed
      dsimp only at listed
      split at listed
      · cases listed
      · exact proper.owner h i listed
    · intro i m found unlisted
      dsimp only at found unlisted
      split at unlisted
      next same =>
        -- the object that is taken off the map was empty
        by_cases listed : s.users m.hash = some i
        · have up : s.live m.hash .up = m.recv := live_listed found listed .up
          have down : s.live m.hash .down = m.sent := live_listed found listed .down
          rw [same, empty.1] at up
          rw [same, empty.2] at down
          exact ⟨down.symm, up.symm⟩
        · exact proper.idle i m found listed
      · exact proper.idle i m found unlisted
  · refine balanced.same_rows rfl rfl fun h d => ?_
    by_cases same : h = hash
    · subst same
      have gone : s.live h d = 0 := by
        cases d
        · exact empty.1
        · exact empty.2
      have none : World.live { s with users := fun h' => if h' = h then none else s.users h' } h d =
          0 := by
        simp [World.live]
      rw [gone, none]
    · simp [World.live, same]

/-! ### Cycles -/

/-- Everything but the step from a counter to its row keeps the books closed. -/
def Op.Settled : Op → Prop
  | .take _ | .update _ _ _ => False
  | _ => True

/-- Operations that only look. -/
def Op.Looks : Op → Prop
  | .listUsers | .rowsAffected _ | .select | .mapLoad _ => True
  | _ => False

theorem perform_looks (looks : op.Looks) (performed : perform schema fate s op = some (result, s')) :
    s' = s := by
  cases op with grind [perform, Op.Looks, Option.map_eq_some_iff]

theorem perform_keeps (settled : op.Settled) (keeps : ¬ op.Drops schema fate s)
    (closed : Closed schema s₀ s) (performed : perform schema fate s op = some (result, s')) :
    Closed schema s₀ s' := by
  cases op with
  | take | update => exact settled.elim
  | listUsers | rowsAffected | select | mapLoad => exact perform_looks (by trivial) performed ▸ closed
  | addUser | close | mapDelete => grind [perform, add_keeps, reset_empty, delete_keeps]

noncomputable abbrev keeping (schema : Schema ρ) : Exec (World ρ) (Fate ρ) Op (Res ρ) :=
  restrict (exec schema) (KeepsTraffic schema)

theorem wp_settled {α : Type} {p : Updater ρ α} (only : p.Only Op.Settled)
    (closed : Closed schema s₀ s) :
    wp (keeping schema) quiet p (fun _ => Closed schema s₀) s := by
  apply wp_only only
  · intro s s' same _ closed
    cases same
    exact closed
  · exact closed
  · intro s op _ closed _ settled fate result s' done
    obtain ⟨⟨fine, keeps⟩, performed⟩ := restrict_eq_some done
    exact ⟨trivial, trivial, perform_keeps settled keeps (events_keep fine closed) performed⟩

theorem delUser_settled (hash : String) : (delUser hash : Updater ρ Unit).Only Op.Settled := by
  grind [delUser, Op.Settled]

theorem grows_event (event : Event ρ) : s.Grows (event.apply schema s) := by
  cases event with
  | traffic i sent recv =>
    simp only [Event.apply, World.count]
    cases found : s.meters[i]? with
    | none => exact World.Grows.refl s
    | some m => exact grows_set found rfl rfl
  | insert row =>
    simp only [Event.apply]
    split <;> exact World.Grows.refl s
  | delete | edit => exact World.Grows.refl s

theorem grows_settle (events : List (Event ρ)) : s.Grows (s.settle schema events) := by
  induction events generalizing s with
  | nil => exact World.Grows.refl s
  | cons event events ih => exact (grows_event event).trans ih

theorem grows_perform (performed : perform schema fate s op = some (result, s')) : s.Grows s' := by
  cases op with
  | listUsers | rowsAffected | select | mapLoad =>
    exact perform_looks (by trivial) performed ▸ World.Grows.refl s
  | take | update | addUser | close | mapDelete =>
    grind [perform, World.Grows, World.reset, grows_set, World.credit, Option.map_eq_some_iff]

theorem grows_exec (done : exec schema fate s op = some (result, s')) : s.Grows s' :=
  (grows_settle fate.before).trans (grows_perform done)

/-- The object is that of the user. -/
def World.Named (s : World ρ) (i : Nat) (hash : String) : Prop :=
  ∃ m, s.meters[i]? = some m ∧ m.hash = hash

theorem World.Named.grows (named : s.Named i hash) (grown : s.Grows s') : s'.Named i hash := by
  obtain ⟨m, found, rfl⟩ := named
  exact grown i m found

variable {post : Unit → World ρ → Prop}

/-- What is taken from a counter is in flight. -/
theorem wp_take {next : Nat × Nat → Updater ρ Unit} (named : s.Named i hash)
    (closed : Closed schema s₀ s)
    (rest : ∀ sent recv s', Open schema s₀ hash sent recv s' → s.Grows s' →
      wp (keeping schema) quiet (next (sent, recv)) post s') :
    wp (keeping schema) quiet (ask (.take i) >>= next) post s := by
  apply wp_step
  intro fate result s' _ done
  obtain ⟨⟨fine, -⟩, performed⟩ := restrict_eq_some done
  have grown := grows_exec performed
  have books := events_keep fine closed
  obtain ⟨m, found, rfl⟩ := named.grows (@grows_settle _ schema s fate.before)
  simp only [exec, perform, found, Option.map_some, Option.some.injEq, Prod.mk.injEq] at performed
  obtain ⟨rfl, rfl⟩ := performed
  exact ⟨trivial, rest _ _ _ (reset_keeps found books) grown⟩

/-- What is in flight is written to the rows, or it is nothing. -/
theorem wp_update {next : Option Nat → Updater ρ Unit} (opened : Open schema s₀ hash sent recv s)
    (rest : ∀ affected s', Closed schema s₀ s' → s.Grows s' →
      wp (keeping schema) quiet (next affected) post s') :
    wp (keeping schema) quiet (ask (.update hash sent recv) >>= next) post s := by
  apply wp_step
  intro fate result s' _ done
  obtain ⟨⟨fine, keeps⟩, performed⟩ := restrict_eq_some done
  have grown := grows_exec performed
  have books := events_keep fine opened
  refine ⟨trivial, rest _ _ ?_ grown⟩
  simp only [exec, perform] at performed
  -- an update that reports an error may have been made; if not, it carried nothing
  by_cases made : fate.ok = true ∨ fate.after = true
  · have room : ∀ row ∈ (s.settle schema fate.before).rows, schema.hash row = hash →
        schema.fits sent recv row = true := by grind [Op.Drops]
    have credited := credit_keeps books room
    grind
  · obtain ⟨rfl, rfl⟩ : sent = 0 ∧ recv = 0 := by grind [Op.Drops]
    have nothing := Open.nothing books
    grind

/-- The updater has written nothing down wrong so far and knows the users it goes on with. -/
def Listed (schema : Schema ρ) (s₀ : World ρ) (users : List (Nat × String)) (s : World ρ) : Prop :=
  Closed schema s₀ s ∧ ∀ user ∈ users, s.Named user.1 user.2

variable {users : List (Nat × String)}

theorem wp_settled_listed {α : Type} {p : Updater ρ α} (only : p.Only Op.Settled)
    (listed : Listed schema s₀ users s) :
    wp (keeping schema) quiet p (fun _ => Listed schema s₀ users) s := by
  have grown : wp (keeping schema) quiet p
      (fun _ s' => Closed schema s₀ s' ∧ s.Grows s') s := by
    refine wp_since (fun _ _ _ => World.Grows.trans) ?_ ?_ (wp_settled only listed.1)
    · intro s s' same
      cases same
      exact World.Grows.refl s
    · intro fate s op result s' done
      exact grows_exec (restrict_eq_some done).2
  refine wp_mono ?_ grown
  rintro _ s' _ ⟨closed, since⟩
  exact ⟨closed, fun user mem => (listed.2 user mem).grows since⟩

theorem list_named {order : List Nat} (list : s.list order = some users) :
    ∀ user ∈ users, s.Named user.1 user.2 := by
  simp only [World.list] at list
  split at list
  · cases list
    intro user mem
    obtain ⟨i, -, mapped⟩ := mem_filterMap.mp mem
    obtain ⟨m, found, rfl⟩ := Option.map_eq_some_iff.mp mapped
    exact ⟨m, found, rfl⟩
  · cases list

theorem wp_listUsers {next : List (Nat × String) → Updater ρ Unit} (closed : Closed schema s₀ s)
    (rest : ∀ users s', Listed schema s₀ users s' →
      wp (keeping schema) quiet (next users) post s') :
    wp (keeping schema) quiet (ask .listUsers >>= next) post s := by
  apply wp_step
  intro fate result s' _ done
  obtain ⟨⟨fine, -⟩, performed⟩ := restrict_eq_some done
  have books := events_keep fine closed
  simp only [exec, perform, Option.map_eq_some_iff] at performed
  obtain ⟨users, list, same⟩ := performed
  cases same
  exact ⟨trivial, rest _ _ ⟨books, list_named list⟩⟩

theorem wp_writeTraffic_mysql {s₀ s : World MySQL.Row} (listed : Listed MySQL.schema s₀ users s) :
    wp (keeping MySQL.schema) quiet (MySQL.writeTraffic users)
      (fun _ => Closed MySQL.schema s₀) s := by
  induction users generalizing s with
  | nil => exact wp_done listed.1
  | cons user users ih =>
    obtain ⟨i, hash⟩ := user
    obtain ⟨closed, named⟩ := listed
    obtain ⟨here, named⟩ := forall_mem_cons.mp named
    refine wp_take here closed fun sent recv s₁ opened grown₁ => ?_
    refine wp_update opened fun affected s₂ closed₂ grown₂ => ?_
    have listed₂ : Listed MySQL.schema s₀ users s₂ :=
      ⟨closed₂, fun user mem => (named user mem).grows (grown₁.trans grown₂)⟩
    cases affected with
    | none => exact ih listed₂
    | some n =>
      refine wp_then (wp_settled_listed (.ask trivial) listed₂) ?_
      intro answer s₃ _ listed₃
      dsimp only
      split
      · refine wp_then (wp_settled_listed (delUser_settled hash) listed₃) ?_
        exact fun _ s₄ _ listed₄ => ih listed₄
      · exact ih listed₃

theorem wp_writeTraffic_sqlite {s₀ s : World User} (listed : Listed SQLite.schema s₀ users s) :
    wp (keeping SQLite.schema) quiet (SQLite.writeTraffic users)
      (fun _ => Closed SQLite.schema s₀) s := by
  induction users generalizing s with
  | nil => exact wp_done listed.1
  | cons user users ih =>
    obtain ⟨i, hash⟩ := user
    obtain ⟨closed, named⟩ := listed
    obtain ⟨here, named⟩ := forall_mem_cons.mp named
    refine wp_take here closed fun sent recv s₁ opened grown₁ => ?_
    dsimp only
    split
    next nothing =>
      obtain ⟨rfl, rfl⟩ := nothing
      exact ih ⟨opened.nothing, fun user mem => (named user mem).grows grown₁⟩
    · refine wp_update opened fun affected s₂ closed₂ grown₂ => ?_
      exact ih ⟨closed₂, fun user mem => (named user mem).grows (grown₁.trans grown₂)⟩

theorem refresh_settled (rows : List MySQL.Row) : (MySQL.refresh rows).Only Op.Settled := by
  induction rows with grind [MySQL.refresh, delUser_settled, Op.Settled]

theorem addUsers_settled (current : List String) (rows : List User) :
    (SQLite.addUsers current rows).Only Op.Settled := by
  induction rows with grind [SQLite.addUsers, Op.Settled]

theorem removeUsers_settled (hashes : List String) :
    (SQLite.removeUsers hashes).Only Op.Settled := by
  induction hashes with grind [SQLite.removeUsers, delUser_settled]

theorem wp_cycle_mysql {s₀ s : World MySQL.Row} (closed : Closed MySQL.schema s₀ s) :
    wp (keeping MySQL.schema) quiet MySQL.cycle (fun _ => Closed MySQL.schema s₀) s := by
  refine wp_listUsers closed fun users s₁ listed => ?_
  refine wp_then (wp_writeTraffic_mysql listed) fun _ s₂ _ closed₂ => ?_
  refine wp_settled (.step trivial fun found => ?_) closed₂
  cases found with
  | none => trivial
  | some rows => exact refresh_settled rows

theorem wp_cycle_sqlite {clock : Clock} {s₀ s : World User} (closed : Closed SQLite.schema s₀ s) :
    wp (keeping SQLite.schema) quiet (SQLite.cycle clock)
      (fun _ => Closed SQLite.schema s₀) s := by
  refine wp_listUsers closed fun users s₁ listed => ?_
  refine wp_then (wp_writeTraffic_sqlite listed) fun _ s₂ _ closed₂ => ?_
  refine wp_settled (.step trivial fun found => ?_) closed₂
  cases found with
  | none => trivial
  | some rows =>
    refine .step trivial fun listed => ?_
    exact .bind (addUsers_settled _ _) fun _ => removeUsers_settled _

/-! ### Histories -/

/-- In every history of updater cycles, new traffic and changes of the table in which no update
that carries traffic is missed, no user is removed while its counter holds traffic, and traffic is
counted on listed users only: for every row that is kept, what is stored and what is counted in
memory has grown by exactly the traffic that was added. -/
theorem traffic_conserved (b : Backend) (history : List (Clock × List (Fate b.Row)))
    {s s' : World b.Row} (proper : s.Proper b.schema)
    (keeps : InTurnFares (exec b.schema) (KeepsTraffic b.schema) (b.cycles history) s)
    (ran : inTurn (exec b.schema) (b.cycles history) s = some s') :
    ∀ row ∈ s.rows, ∀ row' ∈ s'.rows, b.schema.id row' = b.schema.id row →
      b.schema.hash row' = b.schema.hash row ∧ ∀ d,
        b.schema.traffic row' d + s'.live (b.schema.hash row) d + s.counted (b.schema.hash row) d =
          b.schema.traffic row d + s.live (b.schema.hash row) d +
            s'.counted (b.schema.hash row) d := by
  have closed : Closed b.schema s s' := by
    refine inTurn_sound ?_ ⟨proper, balanced_start proper⟩ keeps ran
    intro job mem s'' closed
    obtain ⟨⟨clock, fates⟩, -, rfl⟩ := mem_map.mp mem
    cases b with
    | mysql => exact wp_cycle_mysql closed
    | sqlite => exact wp_cycle_sqlite closed
  intro row mem row' mem' same
  obtain ⟨hash, books⟩ := closed.2.books row mem row' mem' same
  refine ⟨hash, fun d => ?_⟩
  have balance := books d
  rw [hash] at balance
  simpa [landed] using balance

namespace Sample

/-- A table with one row and an authenticator that has not read it yet. -/
def mysql : World MySQL.Row :=
  { rows := [{ id := 1, password := "alice", quota := -1 }], ids := [1] }

def sqlite : World User := { rows := [{ id := 1, hash := "alice" }], ids := [1] }

/-- The first cycle of the MySQL updater adds the user. In the second one the user has sent 5
bytes and received 7 before the counter is taken, and receives 2 more afterwards. -/
def mysqlHistory (written : Bool) : List (Clock × List (Fate MySQL.Row)) :=
  [({ now := 0 }, [{}, {}, {}]),
    ({ now := 0 }, { order := [0] } :: { before := [.traffic 0 5 7] } ::
      { ok := written, before := [.traffic 0 0 2] } :: List.replicate 3 {})]

def sqliteHistory (written : Bool) : List (Clock × List (Fate User)) :=
  [({ now := 0 }, [{}, {}, {}, {}]),
    ({ now := 0 }, [{ order := [0] }, { before := [.traffic 0 5 7] },
      { ok := written, before := [.traffic 0 0 2] }, {}, { order := [0] }])]

/-- The upload of the user: stored, live, and counted at all. -/
def uploads {b : Backend} (s : World b.Row) : List Int × Nat × Nat :=
  (s.rows.map fun row => b.schema.traffic row .up, s.live "alice" .up, s.counted "alice" .up)

end Sample

/-- With the update made, 7 bytes are stored and 2 are live. -/
theorem alice_conserved :
    ∃ s', inTurn (exec MySQL.schema) (Backend.mysql.cycles (Sample.mysqlHistory true))
        Sample.mysql = some s' ∧
      ∀ row ∈ Sample.mysql.rows, ∀ row' ∈ s'.rows, row'.id = row.id →
        row'.password = row.password ∧ ∀ d,
          MySQL.schema.traffic row' d + s'.live row.password d +
              Sample.mysql.counted row.password d =
            MySQL.schema.traffic row d + Sample.mysql.live row.password d +
              s'.counted row.password d := by
  have returns : (inTurn (exec MySQL.schema)
      (Backend.mysql.cycles (Sample.mysqlHistory true)) Sample.mysql).isSome := by
    decide +kernel
  obtain ⟨s', ran⟩ := Option.isSome_iff_exists.mp returns
  have proper : Sample.mysql.Proper MySQL.schema := by
    constructor <;> simp [Sample.mysql, MySQL.schema]
  have keeps : InTurnFares (exec MySQL.schema) (KeepsTraffic MySQL.schema)
      (Backend.mysql.cycles (Sample.mysqlHistory true)) Sample.mysql := by
    decide +kernel
  exact ⟨s', ran, traffic_conserved .mysql (Sample.mysqlHistory true) proper keeps ran⟩

/-- With the update failed, the 7 bytes are neither stored nor live. With it made, 2 of them are
lost if the row of SQLite had room for 4. -/
theorem failed_update_loses_traffic :
    (inTurn (exec MySQL.schema) (Backend.mysql.cycles (Sample.mysqlHistory false))
        Sample.mysql).map (@Sample.uploads .mysql) = some ([0], 2, 9) ∧
      (inTurn (exec SQLite.schema) (Backend.sqlite.cycles (Sample.sqliteHistory false))
        Sample.sqlite).map (@Sample.uploads .sqlite) = some ([0], 2, 9) ∧
      (inTurn (exec SQLite.schema) (Backend.sqlite.cycles (Sample.sqliteHistory true))
        { rows := [{ id := 1, hash := "alice", upload := 2 ^ 63 - 5 }], ids := [1] }).map
          (@Sample.uploads .sqlite) = some ([2 ^ 63], 2, 9) := by
  decide +kernel

end TrojanGo.Statistic
