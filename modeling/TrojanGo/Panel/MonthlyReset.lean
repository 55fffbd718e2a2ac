import TrojanGo.Database.Users
import TrojanGo.Lib.Calendar
import TrojanGo.Lib.Sequential
import TrojanGo.Panel.Validation
import TrojanGo.Panel.World

/-!
# The monthly reset of traffic

The clock is read twice, once for the day and once for the month. A wake-up that the end of the
process cuts short has changed nothing, or everything; so a history is a list of wake-ups that ran
to their end.
-/
namespace TrojanGo.Panel.MonthlyReset

open Lib Lib.Calendar
open Master (Time User)
open Database (clearCounters)

def hour : Time := 60 * minute

/-- Local days; a change of the clocks can take an hour from one of them. -/
abbrev Zone := Calendar.Zone (23 * hour)

/-! ### The store -/

/-- A reset of all counters. -/
structure Clearing where
  time : Time
  users : List User
  cleared : ∀ u ∈ users, u.used = 0 ∧ u.upload = 0 ∧ u.download = 0

structure Store where
  users : List User := []
  configs : Table String String := {}
  /- the history: the last reading of the clock, and all resets -/
  clock : Time := 0
  resets : List Clearing := []

/-- The transaction. -/
def Store.clear (s : Store) (users : List User) (month : String) : Store :=
  { s with
    users := users.map clearCounters
    configs := s.configs.insert "last_reset_month" month
    resets := ⟨s.clock, users.map clearCounters, by simp [clearCounters]⟩ :: s.resets }

/-! ### Operations -/

inductive Op where
  | config (key : String)
  | now
  | reset (month : String)

@[reducible] def Res : Op → Type
  | .config _ => Except Unit (Option String)
  | .now => Time
  | .reset _ => Bool

/-- Whether the database is available, what the clock shows, and the users as the rest of the
panel has left them. -/
structure Fate where
  ok : Bool := true
  time : Time := 0
  users : Option (List User) := none

def exec (fate : Fate) (s : Store) : (op : Op) → Option (Res op × Store)
  | .config key => some (if fate.ok then .ok (s.configs.lookup key) else .error (), s)
  | .now => some (fate.time, { s with clock := fate.time })
  | .reset month =>
    if fate.ok then some (true, s.clear (fate.users.getD s.users) month) else some (false, s)

/-! ### The worker -/

abbrev Worker := Prog Op Res

abbrev ask (op : Op) : Worker (Res op) := Prog.ask op

def runScheduledTrafficReset (zone : Zone) : Worker Unit := do
  match ← ask (.config "traffic_reset_day") with
  | .error _ | .ok none => return ()
  | .ok (some value) =>
    -- a number that is out of the range of `Atoi` is no day of a month either
    match atoi Char.toNat (trimSpace value).toList with
    | none => return ()
    | some resetDay =>
      if resetDay ≤ 0 then return ()
      else do
        let now ← ask .now
        if (zone.date now).day ≠ resetDay then return ()
        else do
          match ← ask (.config "last_reset_month") with
          | .error _ => return ()
          | .ok last => do
            let now ← ask .now
            let currentMonth := format (zone.date now).month
            if last.getD "" = currentMonth then return ()
            else do
              -- a failure is only logged
              let _ ← ask (.reset currentMonth)
              return ()

/-! ### Histories -/

/-- A wake-up of the worker: what the clock shows both times, and the users at its transaction. -/
structure Tick where
  first : Time
  second : Time
  ordered : first ≤ second
  users : List User := []

/-- How the operations of a wake-up fare where the database is available. -/
def Tick.fates (tick : Tick) : List Fate :=
  [{}, { time := tick.first }, {}, { time := tick.second }, { users := some tick.users }]

def ticks (zone : Zone) (history : List Tick) : List (Worker Unit × List Fate) :=
  history.map fun tick => (runScheduledTrafficReset zone, tick.fates)

/-- How often traffic was reset in a month. -/
def resetsIn (zone : Zone) (month : Nat) (s : Store) : Nat :=
  s.resets.countP fun clearing => (zone.date clearing.time).month = month

/-! ### What a wake-up does -/

variable {zone : Zone} {s : Store} {resetDay : Nat}

/-- The day of the month is configured. -/
def Store.Configured (s : Store) (resetDay : Nat) : Prop :=
  ∃ value, s.configs.lookup "traffic_reset_day" = some value ∧
    atoi Char.toNat (trimSpace value).toList = some (resetDay : Int)

/-- The month that is written down as done. -/
def Store.marker (s : Store) : Option String := s.configs.lookup "last_reset_month"

/-- The clock shows the configured day. -/
def Tick.due (zone : Zone) (resetDay : Nat) (tick : Tick) : Prop :=
  (zone.date tick.first).day = resetDay

instance (tick : Tick) : Decidable (tick.due zone resetDay) :=
  inferInstanceAs (Decidable (_ = _))

/-- The month that the second reading shows. -/
def Tick.month (zone : Zone) (tick : Tick) : Nat := (zone.date tick.second).month

def Tick.apply (zone : Zone) (resetDay : Nat) (tick : Tick) (s : Store) : Store :=
  if tick.due zone resetDay then
    if s.marker.getD "" = format (tick.month zone) then { s with clock := tick.second }
    else { s with clock := tick.second }.clear tick.users (format (tick.month zone))
  else { s with clock := tick.first }

/-- The store after a history. -/
def after (zone : Zone) (resetDay : Nat) : List Tick → Store → Store
  | [], s => s
  | tick :: history, s => after zone resetDay history (tick.apply zone resetDay s)

theorem tick_run (tick : Tick) (configured : s.Configured resetDay) (positive : 0 < resetDay) :
    (runScheduledTrafficReset zone).run exec tick.fates s =
      (.returned (), tick.apply zone resetDay s) := by
  obtain ⟨value, found, parsed⟩ := configured
  have later : ¬ (resetDay : Int) ≤ 0 := by omega
  have read : exec {} s (.config "traffic_reset_day") = some (.ok (some value), s) := by
    simp [exec, found]
  have clock : ∀ (s : Store) time, exec { time := time } s .now =
      some (time, { s with clock := time }) := fun _ _ => rfl
  have marked : exec {} { s with clock := tick.first } (.config "last_reset_month") =
      some (.ok s.marker, { s with clock := tick.first }) := rfl
  simp only [runScheduledTrafficReset, Tick.fates, Prog.run_ask read, parsed, if_neg later,
    Prog.run_ask (clock s tick.first)]
  by_cases due : tick.due zone resetDay
  · rw [if_neg (by simpa [Tick.due] using due), Prog.run_ask marked, Tick.apply, if_pos due]
    dsimp only
    rw [Prog.run_ask (clock _ tick.second), Tick.month]
    by_cases done : s.marker.getD "" = format (zone.date tick.second).month
    · rw [if_pos done, if_pos done]
      rfl
    · rw [if_neg done, if_neg done]
      rfl
  · rw [if_pos (by simpa [Tick.due] using due), Tick.apply, if_neg due]
    rfl

theorem Tick.apply_configured (tick : Tick) (configured : s.Configured resetDay) :
    (tick.apply zone resetDay s).Configured resetDay := by
  obtain ⟨value, found, parsed⟩ := configured
  refine ⟨value, ?_, parsed⟩
  unfold Tick.apply
  split
  · split
    · exact found
    · rw [Store.clear, Table.lookup_insert, if_neg (by decide)]
      exact found
  · exact found

variable {history : List Tick}

theorem ticks_run (configured : s.Configured resetDay) (positive : 0 < resetDay) :
    Prog.inTurn exec (ticks zone history) s = some (after zone resetDay history s) := by
  induction history generalizing s with
  | nil => rfl
  | cons tick history ih =>
    simp only [ticks, List.map_cons, Prog.inTurn, tick_run tick configured positive]
    exact ih (tick.apply_configured configured)

/-! ### At most once in a month -/

theorem format_ne_empty (month : Nat) : format month ≠ "" := by
  intro empty
  have lengths := congrArg (fun text => text.toList.length) empty
  have three := (monthText_injective (month % 12) (by omega) 0 (by omega)).1
  simp only [format, String.toList_append, List.length_append, three] at lengths
  simp at lengths

/-- A wake-up on the day resets traffic unless its month is written down. -/
theorem marker_getD (s : Store) (month : Nat) :
    s.marker.getD "" = format month ↔ s.marker = some (format month) := by
  cases s.marker with
  | none => simpa using (format_ne_empty month).symm
  | some text => simp

/-- What a wake-up does to the marker and to the count of one month. -/
theorem tick_effect (zone : Zone) (resetDay : Nat) (tick : Tick) (s : Store) (month : Nat) :
    let s' := tick.apply zone resetDay s
    (tick.due zone resetDay ∧ s.marker ≠ some (format (tick.month zone)) ∧
      s'.marker = some (format (tick.month zone)) ∧
      resetsIn zone month s' = resetsIn zone month s + if tick.month zone = month then 1 else 0) ∨
    ((tick.due zone resetDay → s.marker = some (format (tick.month zone))) ∧
      s'.marker = s.marker ∧ resetsIn zone month s' = resetsIn zone month s) := by
  intro s'
  by_cases due : tick.due zone resetDay
  · by_cases done : s.marker = some (format (tick.month zone))
    · right
      have same : s' = { s with clock := tick.second } := by
        simp only [s', Tick.apply, if_pos due, if_pos ((marker_getD s _).mpr done)]
      rw [same]
      exact ⟨fun _ => done, rfl, rfl⟩
    · left
      have cleared : s' = { s with clock := tick.second }.clear tick.users
          (format (tick.month zone)) := by
        simp only [s', Tick.apply, if_pos due, if_neg fun now => done ((marker_getD s _).mp now)]
      rw [cleared]
      refine ⟨due, done, ?_, ?_⟩
      · simp [Store.marker, Store.clear]
      · simp only [resetsIn, Store.clear, List.countP_cons, Tick.month]
        by_cases shown : (zone.date tick.second).month = month <;> simp [shown]
  · right
    have same : s' = { s with clock := tick.first } := by
      simp only [s', Tick.apply, if_neg due]
    rw [same]
    exact ⟨fun now => absurd now due, rfl, rfl⟩

/-- The months that the second readings show do not go back. -/
def Forward (zone : Zone) (history : List Tick) : Prop :=
  history.Pairwise fun tick later => tick.month zone ≤ later.month zone

variable {month : Nat}

/-- Once a month is past or done, it is not reset again. -/
theorem resets_done {last : Nat} (marked : s.marker = some (format last)) (past : month ≤ last)
    (later : ∀ tick ∈ history, last ≤ tick.month zone) (forward : Forward zone history) :
    resetsIn zone month (after zone resetDay history s) = resetsIn zone month s := by
  induction history generalizing s last with
  | nil => rfl
  | cons tick history ih =>
    obtain ⟨now, rest⟩ := List.pairwise_cons.mp forward
    obtain ⟨fits, others⟩ := List.forall_mem_cons.mp later
    rcases tick_effect zone resetDay tick s month with ⟨-, fresh, marked', count⟩ |
      ⟨-, marked', count⟩
    · -- another month than the last one, so a later one
      have different : tick.month zone ≠ last := by
        intro same
        exact fresh (by rw [marked, same])
      rw [after, ih marked' (by omega) now rest, count, if_neg (by omega), Nat.add_zero]
    · rw [after, ih (marked'.trans marked) past others rest, count]

theorem resets_once (fresh : s.marker ≠ some (format month)) (forward : Forward zone history) :
    resetsIn zone month (after zone resetDay history s) = resetsIn zone month s +
      if ∃ tick ∈ history, tick.due zone resetDay ∧ tick.month zone = month then 1 else 0 := by
  induction history generalizing s with
  | nil => simp [after]
  | cons tick history ih =>
    obtain ⟨now, rest⟩ := List.pairwise_cons.mp forward
    rcases tick_effect zone resetDay tick s month with ⟨due, -, marked, count⟩ |
      ⟨idle, marked, count⟩
    · by_cases shown : tick.month zone = month
      · have hit : ∃ other ∈ tick :: history, other.due zone resetDay ∧
            other.month zone = month := ⟨tick, List.mem_cons_self, due, shown⟩
        rw [after, resets_done marked (by omega) now rest, count, if_pos shown,
          if_pos hit]
      · -- another month was written down, and the one in question is still to come
        have still : (tick.apply zone resetDay s).marker ≠ some (format month) := by
          rw [marked]
          exact fun same => shown (format_injective (Option.some.inj same))
        rw [after, ih still rest, count, if_neg shown]
        simp [shown]
    · have missed : ¬ (tick.due zone resetDay ∧ tick.month zone = month) := by
        rintro ⟨due, rfl⟩
        exact fresh (idle due)
      rw [after, ih (by rwa [marked]) rest, count]
      simp [missed]

/-! ### At least once in a month that has the day -/

/-- The worker wakes up again and again, never more than `gap` after the wake-up before. -/
structure Spaced (zone : Zone) (gap : Int) (history : List Tick) : Prop where
  begins : ∀ tick ∈ history, zone.midnight 0 ≤ tick.first
  next : history.IsChain fun tick later => tick.second ≤ later.first ∧
    later.first ≤ tick.first + gap

/-- The worker is there before the month begins and after it has ended. -/
def Covers (zone : Zone) (month : Nat) (history : List Tick) : Prop :=
  (∃ tick ∈ history.head?, tick.first ≤ zone.midnight (firstDay month)) ∧
    ∃ tick ∈ history.getLast?, zone.midnight (firstDay (month + 1)) ≤ tick.first

variable {gap : Int}

theorem Spaced.tail {tick : Tick} (spaced : Spaced zone gap (tick :: history)) :
    Spaced zone gap history :=
  ⟨fun later mem => spaced.begins later (List.mem_cons_of_mem tick mem), spaced.next.tail⟩

theorem shortest_pos : 0 ≤ 23 * hour := by decide

instance : Trans (fun tick later : Tick => tick.second ≤ later.first)
    (fun tick later : Tick => tick.second ≤ later.first)
    (fun tick later : Tick => tick.second ≤ later.first) where
  trans := fun {_ tick _} before after => before.trans (tick.ordered.trans after)

theorem Spaced.forward (spaced : Spaced zone gap history) :
    Forward zone history := by
  have chain : history.IsChain fun tick later => tick.second ≤ later.first :=
    spaced.next.imp fun _ _ next => next.1
  refine chain.pairwise.imp_of_mem ?_
  intro tick later mem _ le
  have start := (spaced.begins tick mem).trans tick.ordered
  exact month_monotone (Zone.day_monotone shortest_pos start (le.trans later.ordered))

theorem Spaced.soon {x y : Int} (spaced : Spaced zone gap history) (positive : 0 ≤ gap)
    (room : x + 2 * gap < y) (before : ∃ tick ∈ history.head?, tick.first ≤ x)
    (beyond : ∃ tick ∈ history.getLast?, y ≤ tick.first) :
    ∃ tick ∈ history, x ≤ tick.first ∧ tick.second ≤ x + 2 * gap := by
  induction history with
  | nil => simp at before
  | cons a history ih =>
    simp only [List.head?_cons, Option.mem_def, Option.some.injEq, exists_eq_left'] at before
    cases history with
    | nil =>
      -- one wake-up cannot be both before `x` and from `y` on
      simp only [List.getLast?_singleton, Option.mem_def, Option.some.injEq, exists_eq_left']
        at beyond
      linarith
    | cons b history =>
      obtain ⟨⟨ended, near⟩, -⟩ := List.isChain_cons_cons.mp spaced.next
      rw [List.getLast?_cons_cons] at beyond
      -- go on to the last wake-up that is not after `x`
      by_cases again : b.first ≤ x
      · obtain ⟨tick, mem, found⟩ := ih spaced.tail (by simpa using again) beyond
        exact ⟨tick, List.mem_cons_of_mem a mem, found⟩
      by_cases now : x ≤ a.first
      · exact ⟨a, List.mem_cons_self, now, by linarith⟩
      -- `b` is the first one, and another one follows it
      cases history with
      | nil => grind
      | cons c history =>
        obtain ⟨⟨ended', near'⟩, -⟩ := List.isChain_cons_cons.mp spaced.tail.next
        exact ⟨b, by simp, by linarith, by linarith⟩

/-- On a day that the worker covers, both readings of some wake-up show that day. -/
theorem Spaced.on_day (spaced : Spaced zone gap history) (positive : 0 ≤ gap)
    (short : 2 * gap < 23 * hour) (covers : Covers zone month history) {d : Nat}
    (after : firstDay month ≤ d) (before : d < firstDay (month + 1)) :
    ∃ tick ∈ history, zone.day tick.first = d ∧ zone.day tick.second = d := by
  obtain ⟨⟨first, isFirst, early⟩, ⟨last, isLast, late⟩⟩ := covers
  have start := zone.midnight_monotone shortest_pos after
  have stop := zone.midnight_monotone shortest_pos (show d + 1 ≤ firstDay (month + 1) from before)
  have long := zone.long d
  obtain ⟨tick, mem, lower, upper⟩ := spaced.soon positive
    (show zone.midnight d + 2 * gap < zone.midnight (d + 1) by linarith)
    ⟨first, isFirst, early.trans start⟩ ⟨last, isLast, stop.trans late⟩
  have within := tick.ordered
  exact ⟨tick, mem, Zone.day_eq shortest_pos lower (by linarith),
    Zone.day_eq shortest_pos (by linarith) (by linarith)⟩

theorem Spaced.due_in (spaced : Spaced zone gap history) (positive : 0 ≤ gap)
    (short : 2 * gap < 23 * hour) (covers : Covers zone month history) (first : 0 < resetDay)
    (has : resetDay ≤ days month) :
    ∃ tick ∈ history, tick.due zone resetDay ∧ tick.month zone = month := by
  obtain ⟨inMonth, day⟩ := ofDay_surjective first has
  obtain ⟨tick, mem, early, late⟩ := spaced.on_day positive short covers
    (Nat.le_add_right (firstDay month) (resetDay - 1)) (by rw [firstDay]; omega)
  refine ⟨tick, mem, ?_, ?_⟩
  · rw [Tick.due, Zone.date, early, day]
  · rw [Tick.month, Zone.date, late, inMonth]

/-- In a month that the worker covers, with wake-ups not too far apart, traffic is reset exactly
once if and only if the month has the configured day, or the two readings of a wake-up have shown
that day of the month before and then this month. -/
theorem reset_once_iff (zone : Zone) (resetDay : Nat) (first : 0 < resetDay) (gap : Int)
    (positive : 0 ≤ gap) (short : 2 * gap < 23 * hour) (s : Store)
    (configured : s.Configured resetDay) (month : Nat) (fresh : s.marker ≠ some (format month))
    (none : resetsIn zone month s = 0) (history : List Tick) (spaced : Spaced zone gap history)
    (covers : Covers zone month history) :
    ∃ s', Prog.inTurn exec (ticks zone history) s = some s' ∧
      (resetsIn zone month s' = 1 ↔ resetDay ≤ days month ∨
        ∃ tick ∈ history, tick.due zone resetDay ∧ (zone.date tick.first).month ≠ month ∧
          tick.month zone = month) := by
  refine ⟨after zone resetDay history s, ticks_run configured first, ?_⟩
  have once : resetsIn zone month (after zone resetDay history s) = 1 ↔
      ∃ tick ∈ history, tick.due zone resetDay ∧ tick.month zone = month := by
    rw [resets_once fresh spaced.forward, none]
    by_cases hit : ∃ tick ∈ history, tick.due zone resetDay ∧ tick.month zone = month
    · rw [if_pos hit]
      exact iff_of_true rfl hit
    · rw [if_neg hit]
      exact iff_of_false (by omega) hit
  rw [once]
  constructor
  · rintro ⟨tick, mem, due, shown⟩
    by_cases same : (zone.date tick.first).month = month
    · left
      rw [← due, ← same]
      exact (zone.date tick.first).within
    · exact .inr ⟨tick, mem, due, same, shown⟩
  · rintro (has | ⟨tick, mem, due, -, shown⟩)
    · exact spaced.due_in positive short covers first has
    · exact ⟨tick, mem, due, shown⟩

section Wakeups

/-- Greenwich. -/
private def utc : Zone where
  day t := (t / (24 * hour)).toNat
  midnight d := d * (24 * hour)
  spans t start := by
    simp only [hour, minute, second] at *
    omega
  long d := by
    simp only [hour, minute, second]
    push_cast
    omega

/-- Wake-ups every hour from a day on, for so many hours. -/
private def hourly (d n : Nat) : List Tick :=
  (List.range n).map fun i =>
    { first := (d * 24 + i) * hour
      second := (d * 24 + i) * hour + second
      ordered := by simp [second] }

private def configured (day : String) : Store :=
  { configs := (({} : Table String String).insert "traffic_reset_day" day) }

instance (gap : Int) (history : List Tick) : Decidable (Spaced zone gap history) :=
  decidable_of_iff ((∀ tick ∈ history, zone.midnight 0 ≤ tick.first) ∧
      history.IsChain fun tick later => tick.second ≤ later.first ∧
        later.first ≤ tick.first + gap)
    ⟨fun ⟨begins, next⟩ => ⟨begins, next⟩, fun spaced => ⟨spaced.begins, spaced.next⟩⟩

instance (month : Nat) (history : List Tick) : Decidable (Covers zone month history) :=
  inferInstanceAs (Decidable (_ ∧ _))

/-- Hourly wake-ups through January 1970 reset traffic once, on the third. -/
theorem january_reset :
    ∃ s', Prog.inTurn exec (ticks utc (hourly 0 745)) (configured " 3") = some s' ∧
      (resetsIn utc 0 s' = 1 ↔ 3 ≤ days 0 ∨ ∃ tick ∈ hourly 0 745, tick.due utc 3 ∧
        (utc.date tick.first).month ≠ 0 ∧ tick.month utc = 0) :=
  reset_once_iff utc 3 (by decide) hour (by decide) (by decide) (configured " 3")
    ⟨" 3", by decide +kernel, by decide +kernel⟩ 0 (by decide +kernel) (by decide +kernel)
    (hourly 0 745) (by decide +kernel) (by decide +kernel)

/-- With the 31st configured, hourly wake-ups from the last day of January to the first of March
do not reset traffic in February. -/
theorem february_skipped :
    (configured "31").Configured 31 ∧ (configured "31").marker = none ∧
    Spaced utc hour (hourly 30 697) ∧ Covers utc 1 (hourly 30 697) ∧
    ∃ s', Prog.inTurn exec (ticks utc (hourly 30 697)) (configured "31") = some s' ∧
      resetsIn utc 1 s' = 0 := by
  have day : (configured "31").Configured 31 := ⟨"31", by decide +kernel, by decide +kernel⟩
  have spaced : Spaced utc hour (hourly 30 697) := by decide +kernel
  refine ⟨day, by decide +kernel, spaced, by decide +kernel, _, ticks_run day (by decide), ?_⟩
  rw [resets_once (by decide +kernel) spaced.forward, if_neg (by decide +kernel)]
  rfl

end Wakeups

end TrojanGo.Panel.MonthlyReset
