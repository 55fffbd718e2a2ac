import TrojanGo.Statistic.Updaters

/-!
# Whom the MySQL authenticator admits

After a cycle without errors the row of a hash decides whether the authenticator admits it; if
several rows have the hash, the last one. A hash without a row is left as it was.
-/
namespace TrojanGo.Statistic.MySQL

open Lib Prog List

/-- The rule: usage below the quota, or no quota. -/
def Row.WithinQuota (row : Row) : Prop := row.download + row.upload < row.quota ∨ row.quota < 0

/-- The row that is read last. -/
def lastRow (rows : List Row) (hash : String) : Option Row :=
  (rows.filter fun row => row.password = hash).getLast?

/-- No errors of the database, and nobody changes the table; connections may count traffic. -/
def Clean (fate : Fate Row) (s : World Row) (op : Op) : Prop :=
  (∀ event ∈ fate.before, event.isTraffic = true) ∧ fate.ok = true ∧ fate.limit = none ∧
    (op = .select → ∀ row ∈ s.rows, row.scans = true)

instance (fate : Fate Row) (s : World Row) (op : Op) : Decidable (Clean fate s op) :=
  inferInstanceAs (Decidable (_ ∧ _ ∧ _ ∧ _))

/-- The same rows of the same users, in the same order. -/
def SameUsers (s s' : World Row) : Prop :=
  s'.rows.map Row.password = s.rows.map Row.password

variable {s s' : World Row} {fate : Fate Row}

theorem settle_traffic {events : List (Event Row)}
    (only : ∀ event ∈ events, event.isTraffic = true) (s : World Row) :
    (s.settle schema events).rows = s.rows ∧ (s.settle schema events).users = s.users := by
  induction events generalizing s with
  | nil => exact ⟨rfl, rfl⟩
  | cons event events ih =>
    obtain ⟨traffic, later⟩ := forall_mem_cons.mp only
    obtain ⟨rows, users⟩ := ih later (event.apply schema s)
    cases event with
    | insert | delete | edit => cases traffic
    | traffic i sent recv =>
      have same : (s.count i sent recv).rows = s.rows ∧
          (s.count i sent recv).users = s.users := by
        unfold World.count
        split <;> exact ⟨rfl, rfl⟩
      exact ⟨rows.trans same.1, users.trans same.2⟩

noncomputable abbrev clean : Exec (World Row) (Fate Row) Op (Res Row) :=
  restrict (exec schema) Clean

/-- The state in which an operation of a cycle without errors is made. -/
theorem clean_performs {op : Op} {result : Res Row op}
    (done : clean fate s op = some (result, s')) :
    ∃ s₁ : World Row, s₁.rows = s.rows ∧ s₁.users = s.users ∧
      perform schema fate s₁ op = some (result, s') := by
  obtain ⟨⟨only, -, -, -⟩, performed⟩ := restrict_eq_some done
  obtain ⟨rows, users⟩ := settle_traffic only s
  exact ⟨_, rows, users, performed⟩

/-! ### Writing traffic -/

/-- The map of users is as it was, and the table has the same users. -/
def Unmoved (s s' : World Row) : Prop := s'.users = s.users ∧ SameUsers s s'

theorem Unmoved.refl (s : World Row) : Unmoved s s := ⟨rfl, rfl⟩

theorem Unmoved.trans {s s' s'' : World Row} (first : Unmoved s s') (second : Unmoved s' s'') :
    Unmoved s s'' :=
  ⟨second.1.trans first.1, second.2.trans first.2⟩

theorem unmoved_credit (hash : String) (sent recv : Nat) :
    Unmoved s (s.credit schema hash sent recv) := by
  refine ⟨rfl, ?_⟩
  simp only [SameUsers, World.credit, map_map]
  apply map_congr_left
  intro row _
  simp only [Function.comp_apply]
  split <;> rfl

/-- What an operation of the first loop does. -/
theorem clean_writes {op : Op} {result : Res Row op}
    (done : clean fate s op = some (result, s'))
    (writes : op = .listUsers ∨ (∃ i, op = .take i) ∨
      (∃ hash sent recv, op = .update hash sent recv) ∨ ∃ n, op = .rowsAffected n) :
    Unmoved s s' := by
  obtain ⟨s₁, rows, users, performed⟩ := clean_performs done
  have before : Unmoved s s₁ := ⟨users, by rw [SameUsers, rows]⟩
  refine before.trans ?_
  rcases writes with rfl | ⟨i, rfl⟩ | ⟨hash, sent, recv, rfl⟩ | ⟨n, rfl⟩
  · simp only [perform, Option.map_eq_some_iff] at performed
    obtain ⟨listed, -, same⟩ := performed
    cases same
    exact Unmoved.refl _
  · simp only [perform, Option.map_eq_some_iff] at performed
    obtain ⟨m, -, same⟩ := performed
    cases same
    unfold World.reset
    split <;> exact ⟨rfl, rfl⟩
  · have ok := (restrict_eq_some done).1.2.1
    simp only [perform, ok, if_true] at performed
    cases performed
    exact unmoved_credit hash sent recv
  · cases performed
    exact Unmoved.refl _

theorem wp_writeTraffic (users : List (Nat × String)) :
    wp clean quiet (writeTraffic users) (fun _ s' => Unmoved s s') s := by
  -- the induction needs the state of the start apart from the one it has come to
  suffices general : ∀ {s₀ s : World Row}, Unmoved s₀ s →
      wp clean quiet (writeTraffic users) (fun _ s' => Unmoved s₀ s') s from
    general (Unmoved.refl s)
  intro s₀ s moved
  induction users generalizing s with
  | nil => exact wp_done moved
  | cons user users ih =>
    obtain ⟨i, hash⟩ := user
    apply wp_step
    intro fate taken s₁ _ done
    have moved₁ := moved.trans (clean_writes done (.inr (.inl ⟨i, rfl⟩)))
    refine ⟨trivial, ?_⟩
    apply wp_step
    intro fate affected s₂ _ done
    have moved₂ := moved₁.trans (clean_writes done (.inr (.inr (.inl ⟨_, _, _, rfl⟩))))
    refine ⟨trivial, ?_⟩
    cases affected with
    | none => exact ih moved₂
    | some n =>
      apply wp_step
      intro fate answer s₃ _ done
      have moved₃ := moved₂.trans (clean_writes done (.inr (.inr (.inr ⟨n, rfl⟩))))
      refine ⟨trivial, ?_⟩
      -- the driver can tell the number of rows, so nobody looks at it
      obtain ⟨⟨-, ok, -, -⟩, performed⟩ := restrict_eq_some done
      simp only [exec, perform, ok, if_true] at performed
      cases performed
      exact ih moved₃

/-! ### Reading the rows -/

/-- What becomes of a hash that was admitted or not. -/
def decided (rows : List Row) (before : Bool) (hash : String) : Bool :=
  match lastRow rows hash with
  | some row => row.admitted
  | none => before

theorem lastRow_cons (row : Row) (rows : List Row) (hash : String) :
    lastRow (row :: rows) hash =
      (lastRow rows hash).or (if row.password = hash then some row else none) := by
  unfold lastRow
  by_cases same : row.password = hash
  · grind
  · rw [filter_cons_of_neg (by simpa using same), if_neg same]
    simp

theorem decided_cons (row : Row) (rows : List Row) (before : Bool) (hash : String) :
    decided (row :: rows) before hash =
      decided rows (if row.password = hash then row.admitted else before) hash := by
  unfold decided
  rw [lastRow_cons]
  cases lastRow rows hash with
  | some last => rfl
  | none => by_cases same : row.password = hash <;> simp [same]

theorem decided_none {rows : List Row} {hash : String} (absent : hash ∉ rows.map Row.password)
    (before : Bool) : decided rows before hash = before := by
  have none : lastRow rows hash = none := by grind [lastRow]
  simp [decided, none]

/-- The table is not touched, and the map changes for one hash. -/
def Sets (hash : String) (admitted : Bool) (s s' : World Row) : Prop :=
  s'.rows = s.rows ∧ ∀ h, (s'.users h).isSome = if hash = h then admitted else (s.users h).isSome

theorem wp_addUser (hash : String) :
    wp clean quiet (ask (.addUser hash)) (fun _ s' => Sets hash true s s') s := by
  apply wp_last
  intro fate result s' _ done
  obtain ⟨s₁, rows, users, performed⟩ := clean_performs done
  refine ⟨trivial, ?_⟩
  cases found : s₁.users hash with
  | some i =>
    simp only [perform, found] at performed
    cases performed
    refine ⟨rows, fun h => ?_⟩
    by_cases same : hash = h
    · simp [← same, found]
    · simp [same, users]
  | none =>
    simp only [perform, found] at performed
    cases performed
    refine ⟨rows, fun h => ?_⟩
    by_cases same : hash = h
    · simp [same]
    · simp [same, Ne.symm same, users]

theorem wp_delUser (hash : String) :
    wp clean quiet (delUser hash) (fun _ s' => Sets hash false s s') s := by
  apply wp_step
  intro fate found s₁ _ done
  obtain ⟨s₀, rows, users, performed⟩ := clean_performs done
  refine ⟨trivial, ?_⟩
  cases performed
  cases absent : s₁.users hash with
  | none =>
    refine wp_done ⟨rows, fun h => ?_⟩
    by_cases same : hash = h
    · simp [← same, absent]
    · simp [same, users]
  | some i =>
    apply wp_step
    intro fate _ s₂ _ done
    obtain ⟨s₀, rows₂, users₂, performed⟩ := clean_performs done
    refine ⟨trivial, ?_⟩
    have reset : (s₀.reset i).rows = s₀.rows ∧ (s₀.reset i).users = s₀.users := by
      unfold World.reset
      split <;> exact ⟨rfl, rfl⟩
    cases performed
    apply wp_last
    intro fate _ s₃ _ done
    obtain ⟨s₂, rows₃, users₃, performed⟩ := clean_performs done
    refine ⟨trivial, ?_⟩
    cases performed
    refine ⟨rows₃.trans (reset.1.trans (rows₂.trans rows)), fun h => ?_⟩
    by_cases same : hash = h
    · simp [same]
    · simp [same, Ne.symm same, users₃, reset.2, users₂, users]

theorem wp_refresh (rows : List Row) (scan : ∀ row ∈ rows, row.scans = true) :
    wp clean quiet (refresh rows) (fun _ s' => s'.rows = s.rows ∧
      ∀ h, (s'.users h).isSome = decided rows (s.users h).isSome h) s := by
  induction rows generalizing s with
  | nil => exact wp_done ⟨rfl, fun h => rfl⟩
  | cons row rows ih =>
    obtain ⟨scans, later⟩ := forall_mem_cons.mp scan
    -- a later row of the same hash overrules this one
    have rest : ∀ s₁, Sets row.password row.admitted s s₁ →
        wp clean quiet (refresh rows) (fun _ s' => s'.rows = s.rows ∧
          ∀ h, (s'.users h).isSome = decided (row :: rows) (s.users h).isSome h) s₁ := by
      rintro s₁ ⟨same, set⟩
      refine wp_mono (fun _ s' _ ⟨same', after⟩ => ?_) (ih later)
      refine ⟨same'.trans same, fun h => ?_⟩
      rw [after, set, decided_cons]
    simp only [refresh, scans, if_true]
    cases admitted : row.admitted with
    | true =>
      rw [if_pos rfl]
      exact wp_then (wp_addUser row.password) fun _ s₁ _ sets => rest s₁ (admitted ▸ sets)
    | false =>
      rw [if_neg Bool.false_ne_true]
      exact wp_then (wp_delUser row.password) fun _ s₁ _ sets => rest s₁ (admitted ▸ sets)

/-! ### Cycles -/

/-- What one cycle does to the map of users. -/
def Refreshed (s s' : World Row) : Prop :=
  SameUsers s s' ∧ ∀ h, (s'.users h).isSome = decided s'.rows (s.users h).isSome h

theorem wp_cycle : wp clean quiet cycle (fun _ s' => Refreshed s s') s := by
  apply wp_step
  intro fate users s₁ _ done
  have listed := clean_writes done (.inl rfl)
  refine ⟨trivial, wp_then (wp_writeTraffic users) fun _ s₂ _ written => ?_⟩
  have moved := listed.trans written
  apply wp_step
  intro fate found s₃ _ done
  obtain ⟨s₀, rows₃, users₃, performed⟩ := clean_performs done
  obtain ⟨⟨-, ok, full, scan⟩, -⟩ := restrict_eq_some done
  simp only [perform, ok, full, if_true] at performed
  cases performed
  refine ⟨trivial, ?_⟩
  refine wp_mono (fun _ s' _ ⟨same, after⟩ => ?_)
    (wp_refresh s₃.rows (rows₃ ▸ scan rfl))
  refine ⟨?_, fun h => ?_⟩
  · rw [SameUsers, same, rows₃]
    exact moved.2
  · rw [after, same, users₃, moved.1]

theorem Refreshed.trans {s s' s'' : World Row} (first : Refreshed s s')
    (second : Refreshed s' s'') : Refreshed s s'' := by
  refine ⟨second.1.trans first.1, fun h => ?_⟩
  rw [second.2 h, first.2 h]
  by_cases listed : h ∈ s''.rows.map Row.password
  · -- the second cycle has decided, whatever the first one did
    obtain ⟨row, found⟩ : ∃ row, lastRow s''.rows h = some row := by
      obtain ⟨row, mem, same⟩ := mem_map.mp listed
      refine Option.isSome_iff_exists.mp (getLast?_isSome.mpr ?_)
      exact ne_nil_of_mem (mem_filter.mpr ⟨mem, by simpa using same⟩)
    simp [decided, found]
  · rw [decided_none listed, decided_none listed, decided_none (second.1 ▸ listed)]

/-- The authenticator admits exactly the users whom the table allows. -/
def InLine (s : World Row) : Prop :=
  ∀ hash, (s.users hash).isSome ↔ ∃ row ∈ s.rows, row.password = hash ∧ row.WithinQuota

/-- Every user in memory has a row. -/
def NoneDeleted (s : World Row) : Prop :=
  ∀ hash, (s.users hash).isSome → ∃ row ∈ s.rows, row.password = hash

/-- The row that is read last speaks for all rows of its hash, and its sum of signed 64-bit
integers for its traffic. -/
def LastDecides (rows : List Row) : Prop :=
  ∀ hash row, lastRow rows hash = some row →
    (row.admitted = true ↔ ∃ row' ∈ rows, row'.password = hash ∧ row'.WithinQuota)

theorem lastRow_eq_none {rows : List Row} {hash : String} :
    lastRow rows hash = none ↔ ∀ row ∈ rows, row.password ≠ hash := by
  simp [lastRow]

theorem Refreshed.inLine_iff (refreshed : Refreshed s s') :
    InLine s' ↔ NoneDeleted s ∧ LastDecides s'.rows := by
  obtain ⟨same, after⟩ := refreshed
  have listed : ∀ hash, (∃ row ∈ s.rows, row.password = hash) ↔
      ∃ row ∈ s'.rows, row.password = hash := by
    intro hash
    rw [← mem_map, ← mem_map, same]
  constructor
  · intro inLine
    refine ⟨fun hash admitted => ?_, fun hash row found => ?_⟩
    · rw [listed]
      by_contra absent
      push Not at absent
      -- without a row the hash is left as it was
      have kept : (s'.users hash).isSome := by
        rw [after, decided, lastRow_eq_none.mpr absent]
        exact admitted
      obtain ⟨row, mem, named, -⟩ := (inLine hash).mp kept
      exact absent row mem named
    · rw [← inLine hash, after, decided, found]
  · rintro ⟨kept, decides⟩ hash
    rw [after, decided]
    cases found : lastRow s'.rows hash with
    | some row => exact decides hash row found
    | none =>
      have absent := lastRow_eq_none.mp found
      constructor
      · intro admitted
        obtain ⟨row, mem, named⟩ := (listed hash).mp (kept hash admitted)
        exact absurd named (absent row mem)
      · rintro ⟨row, mem, named, -⟩
        exact absurd named (absent row mem)

/-- After two cycles without errors the authenticator is in line with the table if and only if
no user in memory had lost their row before them, and one row decides for each hash. -/
theorem two_cycles_in_line_iff (s s' : World Row) (first second : List (Fate Row))
    (fares : InTurnFares (exec schema) Clean [(cycle, first), (cycle, second)] s)
    (ran : inTurn (exec schema) [(cycle, first), (cycle, second)] s = some s') :
    InLine s' ↔ NoneDeleted s ∧ LastDecides s'.rows := by
  obtain ⟨_, s₁, ran₁, later⟩ := inTurn_cons ran
  obtain ⟨_, s₂, ran₂, done⟩ := inTurn_cons later
  cases done
  obtain ⟨fares₁, fares₂, -⟩ := fares
  rw [ran₁] at fares₂
  have refreshed₁ := run_returned (wp_cycle (s := s)) fares₁ ran₁
  have refreshed₂ := run_returned (wp_cycle (s := s₁)) fares₂ ran₂
  exact (refreshed₁.trans refreshed₂).inLine_iff

section History

private def alice : Row := { id := 1, password := "alice", quota := -1 }

/-- A cycle that finds alice in memory. -/
private def still : List (Fate Row) := [{ order := [0] }, {}, {}, {}, {}, {}]

private def admitted : World Row :=
  { meters := [{ hash := "alice" }], users := fun h => if h = "alice" then some 0 else none
    rows := [alice], ids := [1] }

/-- With her row in the table, alice is admitted after two cycles. -/
theorem alice_in_line :
    ∃ s', inTurn (exec schema) [(cycle, still), (cycle, still)] admitted = some s' ∧
      (InLine s' ↔ NoneDeleted admitted ∧ LastDecides s'.rows) := by
  obtain ⟨s', ran⟩ := Option.isSome_iff_exists.mp (show (inTurn (exec schema)
    [(cycle, still), (cycle, still)] admitted).isSome from by decide +kernel)
  exact ⟨s', ran, two_cycles_in_line_iff admitted s' _ _ (by decide +kernel) ran⟩

/-- The row is inserted, and deleted once alice is admitted. -/
private def insertedAndDeleted : List (Updater Row Unit × List (Fate Row)) :=
  [(cycle, [{}, { before := [.insert alice] }, {}]),
    (cycle, [{ order := [0] }, {}, {}, {}, { before := [.delete 1] }])]

/-- After two more cycles without errors alice is still admitted. -/
theorem deleted_row_stays_admitted :
    ∃ s s', inTurn (exec schema) insertedAndDeleted {} = some s ∧
      InTurnFares (exec schema) Clean [(cycle, still), (cycle, still)] s ∧
      inTurn (exec schema) [(cycle, still), (cycle, still)] s = some s' ∧
      (s'.users "alice").isSome ∧ s'.rows = [] ∧ ¬ InLine s' := by
  have runs : (inTurn (exec schema) insertedAndDeleted {}).any (fun s =>
      decide (InTurnFares (exec schema) Clean [(cycle, still), (cycle, still)] s) &&
        (inTurn (exec schema) [(cycle, still), (cycle, still)] s).any fun s' =>
          (s'.users "alice").isSome && decide (s'.rows = [])) := by
    decide +kernel
  obtain ⟨s, ran, checked⟩ := (Option.any_eq_true _ _).mp runs
  obtain ⟨fares, checked⟩ := Bool.and_eq_true_iff.mp checked
  obtain ⟨s', ran', checked⟩ := (Option.any_eq_true _ _).mp checked
  obtain ⟨kept, gone⟩ := Bool.and_eq_true_iff.mp checked
  have gone := of_decide_eq_true gone
  refine ⟨s, s', ran, of_decide_eq_true fares, ran', kept, gone, fun inLine => ?_⟩
  obtain ⟨row, mem, -⟩ := (inLine "alice").mp kept
  rw [gone] at mem
  cases mem

end History

end TrojanGo.Statistic.MySQL
