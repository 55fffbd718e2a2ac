import Mathlib.Data.List.Perm.Subperm
import TrojanGo.Gateway.Connections

/-!
# The connection limit of the gateway

The invariant gives every open connection a place in the semaphore, except the one that `Serve`
has just accepted. What keeps it is that a worker has closed its connection or handed it over when
it gives its place back.
-/
namespace TrojanGo.Gateway

open Lib Prog Function List

/-- Connections are accepted while a place is free, and a worker that gives its place back does
not leave an open connection behind with the router. -/
def PlacesLast (w : World) : Op → Prop
  | .accept => w.semaphore.length < w.maxConn
  | .release i => w.phase i ≠ .queued ∧ w.phase i ≠ .served
  | _ => True

instance (w : World) (op : Op) : Decidable (PlacesLast w op) := by
  unfold PlacesLast
  split <;> infer_instance

/-! ### The invariant -/

structure Limited (maxConn : Nat) (w : World) : Prop where
  maxConn : w.maxConn = maxConn
  accepted : w.accepted.Nodup
  places : w.semaphore.Nodup
  known : ∀ i ∈ w.semaphore, i ∈ w.accepted
  seen : ∀ i ∈ w.accepted, w.phase i ≠ .fresh
  spawned : ∀ i, w.spawned i → i ∈ w.accepted
  covered : ∀ i ∈ w.accepted, w.phase i ≠ .closed → w.hand = some i ∨ i ∈ w.semaphore
  /-- a worker that has not begun yet has its place -/
  waiting : ∀ i, w.spawned i → w.begun i = false → i ∈ w.semaphore
  limit : w.semaphore.length ≤ w.maxConn
  room : ∀ i, w.hand = some i → w.semaphore.length < w.maxConn

/-- Every open connection has a place or is the one in the hand of `Serve`. -/
theorem Limited.openConns_le {maxConn : Nat} {w : World} (limited : Limited maxConn w) :
    w.openConns.length ≤ maxConn := by
  -- the open connections inject into the places and the hand, which together are few enough
  have inside : w.openConns ⊆ w.hand.toList ++ w.semaphore := by
    intro i mem
    obtain ⟨accepted, still⟩ := mem_filter.mp mem
    rcases limited.covered i accepted (by simpa using still) with held | placed
    · simp [held]
    · exact mem_append_right _ placed
  have distinct : w.openConns.Nodup := limited.accepted.filter _
  have short : (w.hand.toList ++ w.semaphore).length ≤ w.maxConn := by
    cases held : w.hand with
    | none => simpa using limited.limit
    | some i =>
      have := limited.room i held
      simp only [Option.toList_some, cons_append, nil_append, length_cons]
      omega
  calc w.openConns.length ≤ (w.hand.toList ++ w.semaphore).length :=
        (subperm_of_subset distinct inside).length_le
    _ ≤ w.maxConn := short
    _ = maxConn := limited.maxConn

/-- The worker is done with the connection. -/
def World.Left (w : World) (i : Nat) : Prop := w.phase i ≠ .fresh ∧ w.phase i ≠ .gateway

/-- What a thread may see the others do. -/
structure Rely (r : Role) (w w' : World) : Prop where
  left : ∀ i, w.Left i → w'.Left i
  spawned : ∀ i, w.spawned i → w'.spawned i
  begun : ∀ i, w.begun i → w'.begun i
  /-- only a worker gives its place back -/
  own : ∀ i, r = .worker i → i ∈ w.semaphore → i ∈ w'.semaphore
  serve : r = .serve → w'.hand = w.hand ∧ w'.accepted = w.accepted ∧ w'.spawned = w.spawned ∧
    w'.semaphore ⊆ w.semaphore ∧
    ∀ i, w.spawned i = false → i ∈ w.semaphore → i ∈ w'.semaphore

theorem Rely.refl (r : Role) (w : World) : Rely r w w :=
  ⟨fun _ => id, fun _ => id, fun _ => id, fun _ _ => id,
    fun _ => ⟨rfl, rfl, rfl, List.Subset.refl _, fun _ _ => id⟩⟩

variable {w' : World}

theorem Rely.trans {r : Role} {w w'' : World} (first : Rely r w w') (second : Rely r w' w'') :
    Rely r w w'' where
  left i known := second.left i (first.left i known)
  spawned i known := second.spawned i (first.spawned i known)
  begun i known := second.begun i (first.begun i known)
  own i mine placed := second.own i mine (first.own i mine placed)
  serve mine := by
    obtain ⟨hand, accepted, spawned, fewer, kept⟩ := first.serve mine
    obtain ⟨hand', accepted', spawned', fewer', kept'⟩ := second.serve mine
    refine ⟨hand'.trans hand, accepted'.trans accepted, spawned'.trans spawned,
      List.Subset.trans fewer' fewer, fun i unspawned placed => ?_⟩
    exact kept' i (by rw [spawned]; exact unspawned) (kept i unspawned placed)

/-! ### Operations -/

/-- What can become of a connection: it stays where it is, is closed or is handed on. -/
def Phase.Later (before after : Phase) : Prop :=
  after = before ∨ after = .closed ∨ before ≠ .closed ∧ after ≠ .fresh ∧ after ≠ .gateway

/-- An operation that neither accepts a connection nor touches the semaphore: connections only
go on towards their end. -/
structure Calm (w w' : World) : Prop where
  maxConn : w'.maxConn = w.maxConn := by rfl
  accepted : w'.accepted = w.accepted := by rfl
  hand : w'.hand = w.hand := by rfl
  semaphore : w'.semaphore = w.semaphore := by rfl
  spawned : w'.spawned = w.spawned := by rfl
  begun : w'.begun = w.begun := by rfl
  later : ∀ i, (w.phase i).Later (w'.phase i) := by exact fun _ => .inl rfl

namespace Calm

variable {maxConn : Nat} {w w' : World}

theorem limited (calm : Calm w w') (limited : Limited maxConn w) : Limited maxConn w' := by
  cases w'
  obtain ⟨rfl, rfl, rfl, rfl, rfl, rfl, later⟩ := calm
  exact { limited with
    seen := fun i accepted => by grind [later i, limited.seen i accepted, Phase.Later]
    covered := fun i accepted => by grind [later i, limited.covered i accepted, Phase.Later] }

theorem rely (calm : Calm w w') (r : Role) : Rely r w w' := by
  cases w'
  obtain ⟨rfl, rfl, rfl, rfl, rfl, rfl, later⟩ := calm
  exact ⟨fun i => by grind [later i, World.Left, Phase.Later], fun _ => id, fun _ => id, fun _ _ => id, (Rely.refl r w).serve⟩

end Calm

/-- The operations outside of the accounting of places. -/
def Op.Harmless : Op → Prop
  | .accept | .acquire _ | .release _ | .spawn _ | .begin _ => False
  | _ => True

section Exec

variable {w w' : World} {fate : Fate} {i : Nat}

/-- Handing a connection over does not close it and does not give it back to the worker. -/
theorem calm_handOver {owner next : Phase} (later : next ≠ .fresh ∧ next ≠ .gateway)
    (open_ : owner ≠ .closed) (connChan : List Nat) :
    Calm w { w.handOver i owner next with connChan := connChan } := by
  unfold World.handOver
  split
  · exact { later := by grind [Phase.Later] }
  · exact {}

theorem exec_calm {op : Op} (harmless : op.Harmless) {result : Res op}
    (done : exec fate w op = some (result, w')) : Calm w w' := by
  cases op with
  | accept | acquire | release | spawn | begin => exact harmless.elim
  | close | shutdown =>
    cases done
    exact { later := by simp only [World.closeConn]; grind [Phase.Later] }
  | send | receive =>
    simp only [exec] at done
    split at done <;> split at done <;> cases done
    · exact calm_handOver (by decide) (by decide) _
    · exact {}
  | _ =>
    simp only [exec] at done
    repeat' split at done
    all_goals cases done
    all_goals exact {}

end Exec

def protocol (router : ServiceRouter) (maxConn : Nat) : (machine router).Protocol where
  admits := PlacesLast
  inv := Limited maxConn
  rely := Rely
  guar r w w' := ∀ r', r' ≠ r → Rely r' w w'
  knows r _ w := r = .serve → w.hand = none

/-! ### The programs -/

section Programs

variable {router : ServiceRouter} {maxConn : Nat} {r : Role} {w : World} {i : Nat}

abbrev contract (router : ServiceRouter) (maxConn : Nat) (r : Role) : Contract World Op :=
  (protocol router maxConn).contract r

theorem contract_lawful : (contract router maxConn r).Lawful where
  refl := Rely.refl r
  trans _ _ _ := Rely.trans

variable {α : Type}

/-- A harmless operation keeps what a thread knows if its environment does. -/
theorem wp_calm {op : Op} {next : Res op → Routine α} {post : α → World → Prop}
    {known : World → Prop} (harmless : op.Harmless)
    (stable : (contract router maxConn r).Stable known)
    (keeps : ∀ w w', Calm w w' → known w → known w') (holds : known w)
    (rest : ∀ result w', known w' → (next result).wp exec (contract router maxConn r) post w') :
    (ask op >>= next).wp exec (contract router maxConn r) post w := by
  refine wp_op stable holds ?_
  intro w limited known _ fate result w' done
  have calm := exec_calm harmless done
  exact ⟨calm.limited limited, fun r' _ => calm.rely r', rest result w' (keeps w w' calm known)⟩

/-- A program of harmless operations. -/
theorem wp_harmless {p : Routine α} (only : p.Only Op.Harmless) (w : World) :
    p.wp exec (contract router maxConn r) (fun _ _ => True) w := by
  have nothing : (contract router maxConn r).Stable fun _ => True := fun _ _ _ _ _ => trivial
  refine wp_only only nothing trivial ?_
  intro w op limited _ _ harmless fate result w' done
  have calm := exec_calm harmless done
  exact ⟨calm.limited limited, fun r' _ => calm.rely r', trivial⟩

/-! The accept loop. -/

/-- What `Serve` knows about the connection in its hand. -/
structure InHand (i : Nat) (w : World) : Prop where
  hand : w.hand = some i
  accepted : i ∈ w.accepted
  unspawned : w.spawned i = false
  unplaced : i ∉ w.semaphore

theorem stable_inHand : (contract router maxConn .serve).Stable (InHand i) := by
  intro w w' others _ known
  obtain ⟨hand, accepted, spawned, fewer, -⟩ := others.serve rfl
  refine ⟨hand.trans known.hand, accepted ▸ known.accepted, ?_, fun placed => ?_⟩
  · rw [spawned]
    exact known.unspawned
  · exact known.unplaced (fewer placed)

/-- What `Serve` knows about a connection that has got a place. -/
structure Placed (i : Nat) (w : World) : Prop where
  hand : w.hand = none
  accepted : i ∈ w.accepted
  unspawned : w.spawned i = false
  placed : i ∈ w.semaphore

theorem stable_placed : (contract router maxConn .serve).Stable (Placed i) := by
  intro w w' others _ known
  obtain ⟨hand, accepted, spawned, -, kept⟩ := others.serve rfl
  refine ⟨hand.trans known.hand, accepted ▸ known.accepted, ?_,
    kept i known.unspawned known.placed⟩
  rw [spawned]
  exact known.unspawned

theorem Placed.calm (w w' : World) (calm : Calm w w') (known : Placed i w) : Placed i w' where
  hand := calm.hand.trans known.hand
  accepted := calm.accepted ▸ known.accepted
  unspawned := by
    rw [calm.spawned]
    exact known.unspawned
  placed := calm.semaphore ▸ known.placed

/-- A connection is accepted while a place is free. -/
theorem arrive_limited (limited : Limited maxConn w) (free : w.hand = none)
    (room : w.semaphore.length < w.maxConn) (fresh : w.phase i = .fresh) :
    Limited maxConn (w.arrive i) := by
  have unseen : i ∉ w.accepted := fun old => limited.seen _ old fresh
  have after : ∀ j, (w.arrive i).phase j = if j = i then .gateway else w.phase j :=
    fun j => update_apply ..
  exact { limited with
    accepted := nodup_cons.mpr ⟨unseen, limited.accepted⟩
    known := fun j placed => mem_cons_of_mem _ (limited.known j placed)
    seen := fun j accepted => by
      rw [after]
      split
      · simp
      next other => exact limited.seen j ((mem_cons.mp accepted).resolve_left other)
    spawned := fun j spawned => mem_cons_of_mem _ (limited.spawned j spawned)
    covered := fun j accepted still => by
      -- the new connection is in the hand, which was empty before
      by_cases same : j = i
      · exact .inl (by rw [same]; rfl)
      · rw [after, if_neg same] at still
        have old := (mem_cons.mp accepted).resolve_left same
        rcases limited.covered j old still with held | placed
        · rw [free] at held
          cases held
        · exact .inr placed
    room := fun _ _ => room }

theorem arrive_rely (fresh : w.phase i = .fresh) (other : r ≠ .serve) : Rely r w (w.arrive i) where
  left j known := by
    have differ : j ≠ i := by
      rintro rfl
      exact known.1 fresh
    unfold World.Left at *
    rwa [show (w.arrive i).phase j = w.phase j from update_of_ne differ ..]
  spawned _ := id
  begun _ := id
  own _ _ := id
  serve mine := (other mine).elim

theorem arrive_inHand (limited : Limited maxConn w) (fresh : w.phase i = .fresh) :
    InHand i (w.arrive i) := by
  have unseen : i ∉ w.accepted := fun old => limited.seen _ old fresh
  refine ⟨rfl, mem_cons_self, ?_, fun placed => unseen (limited.known i placed)⟩
  exact Bool.eq_false_iff.mpr fun spawned => unseen (limited.spawned i spawned)

variable {fate : Fate}

/-- The connection in the hand of `Serve` gets a place, of which one is free. -/
theorem acquire_limited {result : Bool} (limited : Limited maxConn w) (known : InHand i w)
    (done : exec fate w (.acquire i) = some (result, w')) :
    result = true ∧ Limited maxConn w' ∧ (∀ r, r ≠ .serve → Rely r w w') ∧ Placed i w' := by
  have room := limited.room i known.hand
  simp only [exec, if_pos room] at done
  cases done
  refine ⟨rfl, ?_, ?_, ⟨rfl, known.accepted, known.unspawned, mem_cons_self⟩⟩
  · exact { limited with
      places := nodup_cons.mpr ⟨known.unplaced, limited.places⟩
      known := forall_mem_cons.mpr ⟨known.accepted, limited.known⟩
      covered := fun j accepted still => by
        rcases limited.covered j accepted still with held | placed
        · -- the connection in the hand is the one that gets the place
          rw [known.hand] at held
          cases held
          exact .inr mem_cons_self
        · exact .inr (mem_cons_of_mem _ placed)
      waiting := fun j spawned waits => mem_cons_of_mem _ (limited.waiting j spawned waits)
      limit := room
      room := nofun }
  · intro r other
    exact ⟨fun _ => id, fun _ => id, fun _ => id,
      fun _ _ placed => mem_cons_of_mem _ placed, fun mine => (other mine).elim⟩

theorem spawn_limited (limited : Limited maxConn w) (known : Placed i w)
    (done : exec fate w (.spawn i) = some ((), w')) :
    Limited maxConn w' ∧ (∀ r, r ≠ .serve → Rely r w w') ∧ w'.hand = none := by
  cases done
  have after : ∀ j, update w.spawned i true j = true → j = i ∨ w.spawned j = true := by grind
  refine ⟨?_, ?_, known.hand⟩
  · exact { limited with
      spawned := fun j spawned => by
        rcases after j spawned with rfl | old
        · exact known.accepted
        · exact limited.spawned j old
      waiting := fun j spawned waits => by
        rcases after j spawned with rfl | old
        · exact known.placed
        · exact limited.waiting j old waits }
  · intro r other
    refine ⟨fun _ => id, fun j spawned => ?_, fun _ => id, fun _ _ => id,
      fun mine => (other mine).elim⟩
    by_cases same : j = i
    · simp [same]
    · simpa [update_of_ne same] using spawned

theorem stable_hand : (contract router maxConn .serve).Stable fun w => w.hand = none :=
  fun _ _ others _ free => (others.serve rfl).1.trans free

theorem serve_wp (free : w.hand = none) :
    serve.wp exec (contract router maxConn .serve)
      (fun _ w => Role.serve = .serve → w.hand = none) w := by
  refine wp_op stable_hand free ?_
  intro w limited free room fate result w' done
  simp only [exec] at done
  split at done
  swap
  · -- the listener is closed or fails
    cases done
    exact ⟨limited, fun r' _ => Rely.refl r' w,
      wp_return stable_hand free fun _ _ free _ => free⟩
  split at done
  swap
  · cases done
  next fresh =>
  -- a connection arrives; it gets a place, and then a worker
  cases done
  refine ⟨arrive_limited limited free room fresh.1, fun r' other => arrive_rely fresh.1 other, ?_⟩
  refine wp_op stable_inHand (arrive_inHand limited fresh.1) ?_
  intro w limited known _ fate result w' done
  obtain ⟨rfl, limited', others, placed⟩ := acquire_limited limited known done
  refine ⟨limited', others, ?_⟩
  refine wp_calm trivial stable_placed Placed.calm placed fun _ w placed => ?_
  refine wp_calm trivial stable_placed Placed.calm placed fun _ w placed => ?_
  refine wp_op stable_placed placed ?_
  intro w limited placed _ fate _ w' done
  obtain ⟨limited', others, free⟩ := spawn_limited limited placed done
  exact ⟨limited', others, wp_return stable_hand free fun _ _ free _ => free⟩

/-! The workers. -/

/-- What a worker knows until it gives its place back. -/
structure Working (i : Nat) (w : World) : Prop where
  spawned : w.spawned i = true
  begun : w.begun i = true
  placed : i ∈ w.semaphore

theorem stable_working : (contract router maxConn (.worker i)).Stable (Working i) :=
  fun _ _ others _ known => ⟨others.spawned i known.spawned, others.begun i known.begun,
    others.own i rfl known.placed⟩

theorem Working.calm (w w' : World) (calm : Calm w w') (known : Working i w) : Working i w' where
  spawned := calm.spawned ▸ known.spawned
  begun := calm.begun ▸ known.begun
  placed := calm.semaphore ▸ known.placed

/-- The end of a worker's dealings with its connection. -/
def Done (i : Nat) : Unit → World → Prop := fun _ w => Working i w ∧ w.Left i

theorem stable_done :
    (contract router maxConn (.worker i)).Stable fun w => Working i w ∧ w.Left i :=
  stable_working.and fun _ _ others _ left => others.left i left

theorem close_wp (working : Working i w) :
    (ask (.close i)).wp exec (contract router maxConn (.worker i)) (Done i) w := by
  refine wp_op stable_working working ?_
  intro w limited working _ fate _ w' executed
  have harmless : (Op.close i).Harmless := trivial
  have calm := exec_calm harmless executed
  have closed : w'.Left i := by
    cases executed
    simp [World.Left, World.closeConn]
  refine ⟨calm.limited limited, fun r' _ => calm.rely r', ?_⟩
  exact wp_return stable_done ⟨working.calm w w' calm, closed⟩ fun _ _ done => done

/-- A step of a worker that only depends on the outside. -/
theorem working_wp {op : Op} {next : Res op → Routine α} {post : α → World → Prop}
    (harmless : op.Harmless) (working : Working i w) (rest : ∀ result w', Working i w' →
      (next result).wp exec (contract router maxConn (.worker i)) post w') :
    (ask op >>= next).wp exec (contract router maxConn (.worker i)) post w :=
  wp_calm harmless stable_working Working.calm working rest

/-- A connection that has been sent to the router is no longer the worker's. -/
theorem send_left (seen : w.phase i ≠ .fresh) (done : exec fate w (.send i) = some (true, w')) :
    w'.Left i := by
  simp only [exec] at done
  split at done
  · split at done
    · cases done
      by_cases own : w.phase i = .gateway
      · simp [World.Left, World.handOver, own]
      · simp [World.Left, World.handOver, own, seen]
    · cases done
  · split at done <;> cases done

theorem serveConn_wp (working : Working i w) :
    (serveConn i).wp exec (contract router maxConn (.worker i)) (Done i) w := by
  refine wp_op stable_working working ?_
  intro w limited working _ fate result w' executed
  have harmless : (Op.send i).Harmless := trivial
  have calm := exec_calm harmless executed
  refine ⟨calm.limited limited, fun r' _ => calm.rely r', ?_⟩
  have working' := working.calm w w' calm
  cases result with
  | false => exact close_wp working'
  | true =>
    -- the router has taken the connection over, so the worker does not close it
    have seen := limited.seen i (limited.spawned i working.spawned)
    exact wp_return stable_done ⟨working', send_left seen executed⟩ fun _ _ done => done

theorem forwardTrojan_wp (working : Working i w) :
    (forwardTrojan i).wp exec (contract router maxConn (.worker i)) (Done i) w := by
  refine working_wp trivial working fun dialed w working => ?_
  cases dialed with
  | false => exact close_wp working
  | true =>
    refine working_wp trivial working fun written w working => ?_
    cases written with
    | false => exact close_wp working
    | true => exact working_wp trivial working fun _ w working => close_wp working

theorem handleConn_wp (working : Working i w) :
    (handleConn router i).wp exec (contract router maxConn (.worker i)) (Done i) w := by
  refine working_wp trivial working fun secured w working => ?_
  cases secured with
  | false => exact close_wp working
  | true =>
    refine working_wp trivial working fun request w working => ?_
    cases request with
    | none => exact forwardTrojan_wp working
    | some path =>
      dsimp only
      split
      · exact serveConn_wp working
      · exact working_wp trivial working fun _ w working => close_wp working

theorem begin_limited (limited : Limited maxConn w)
    (done : exec fate w (.begin i) = some ((), w')) :
    Limited maxConn w' ∧ (∀ r, Rely r w w') ∧ Working i w' := by
  simp only [exec] at done
  split at done
  swap
  · cases done
  next ready =>
  cases done
  have spawned : w.spawned i = true := ready.1
  have waits : w.begun i = false := by simpa using ready.2
  refine ⟨?_, fun r => ?_, spawned, by simp, limited.waiting i spawned waits⟩
  · exact { limited with
      waiting := fun j spawned waits => by
        by_cases same : j = i
        · simp [same] at waits
        · exact limited.waiting j spawned (by simpa [update_of_ne same] using waits) }
  · refine ⟨fun _ => id, fun _ => id, fun j begun => ?_, fun _ _ => id,
      fun _ => ⟨rfl, rfl, rfl, List.Subset.refl _, fun _ _ => id⟩⟩
    by_cases same : j = i
    · simp [same]
    · simpa [update_of_ne same] using begun

/-- The connection of a worker that gives its place back has been closed. -/
theorem release_limited (limited : Limited maxConn w) (working : Working i w) (left : w.Left i)
    (admitted : PlacesLast w (.release i)) (done : exec fate w (.release i) = some ((), w')) :
    Limited maxConn w' ∧ ∀ r, r ≠ .worker i → Rely r w w' := by
  -- the connection is neither the worker's nor the router's any more
  have closed : w.phase i = .closed := by
    obtain ⟨queued, served⟩ := admitted
    obtain ⟨fresh, gateway⟩ := left
    cases phase : w.phase i <;> simp_all
  simp only [exec] at done
  split at done
  · cases done
  cases done
  have kept : ∀ j, j ≠ i → j ∈ w.semaphore → j ∈ w.semaphore.erase i :=
    fun j other placed => (mem_erase_of_ne other).mpr placed
  have shorter : (w.semaphore.erase i).length ≤ w.semaphore.length := length_erase_le
  constructor
  · exact { limited with
      places := limited.places.erase i
      known := fun j placed => limited.known j (mem_of_mem_erase placed)
      covered := fun j accepted still => by
        have other : j ≠ i := by
          rintro rfl
          exact still closed
        exact (limited.covered j accepted still).imp id (kept j other)
      waiting := fun j spawned waits => by
        have other : j ≠ i := by
          rintro rfl
          rw [working.begun] at waits
          cases waits
        exact kept j other (limited.waiting j spawned waits)
      limit := Nat.le_trans shorter limited.limit
      room := fun j held => Nat.lt_of_le_of_lt shorter (limited.room j held) }
  · intro r other
    refine ⟨fun _ => id, fun _ => id, fun _ => id, fun j mine placed => ?_, fun _ => ?_⟩
    · refine kept j ?_ placed
      rintro rfl
      exact other mine
    · refine ⟨rfl, rfl, rfl, fun j => mem_of_mem_erase, fun j unspawned placed => ?_⟩
      refine kept j ?_ placed
      rintro rfl
      rw [working.spawned] at unspawned
      cases unspawned

theorem worker_wp (w : World) :
    (worker router i).wp exec (contract router maxConn (.worker i)) (fun _ _ => True) w := by
  refine wp_ask ?_
  intro w _ limited _ fate _ w' executed
  obtain ⟨limited', others, working⟩ := begin_limited limited executed
  refine ⟨limited', fun r' _ => others r', ?_⟩
  refine wp_seq contract_lawful (handleConn_wp working) fun _ w _ done => ?_
  refine wp_op stable_done done ?_
  intro w limited done admitted fate _ w' executed
  obtain ⟨limited', others⟩ := release_limited limited done.1 done.2 admitted executed
  have rest : (do
      ask (.removeConnection i)
      ask .workerDone
      return .ended : Routine Mem).Only Op.Harmless :=
    ⟨trivial, fun _ => ⟨trivial, fun _ => trivial⟩⟩
  exact ⟨limited', others, wp_harmless rest w'⟩

/-! The other threads. -/

theorem closeAll_harmless (conns : List Nat) : (closeAll conns).Only Op.Harmless := by
  induction conns with grind [closeAll, Op.Harmless]

theorem closeRouter_harmless : closeRouter.Only Op.Harmless := by
  grind [closeRouter, closeAll_harmless, Op.Harmless]

theorem closeGateway_harmless : closeGateway.Only Op.Harmless := by
  grind [closeGateway, closeRouter_harmless, closeAll_harmless, Op.Harmless]

end Programs

theorem protocol_sound (router : ServiceRouter) (maxConn : Nat) :
    (protocol router maxConn).Sound where
  lawful _ := contract_lawful
  stable r _ w w' known others _ := by
    rintro rfl
    exact (others.serve rfl).1.trans (known rfl)
  compatible r r' _ _ other guarantee := guarantee r' (Ne.symm other)
  body r call mem p w found known := by
    -- only `Serve` has to know anything when it returns
    have forget : ∀ {r : Role} {p : Routine Mem}, r ≠ .serve →
        p.wp exec (contract router maxConn r) (fun _ _ => True) w →
        p.wp exec (contract router maxConn r) ((protocol router maxConn).knows r) w :=
      fun other ran => wp_mono (fun _ _ _ _ mine => (other mine).elim) ran
    cases r with
    | serve =>
      cases mem <;> cases found
      exact serve_wp (known rfl)
    | worker i =>
      cases mem <;> cases found
      exact forget (by simp) (worker_wp w)
    | httpServer =>
      cases mem <;> cases found
      exact forget (by simp) (wp_harmless (by grind [acceptHTTP, Op.Harmless]) w)
    | http i =>
      cases mem <;> cases found
      exact forget (by simp) (wp_harmless (by grind [http, Op.Harmless]) w)
    | closer k =>
      cases mem <;> cases found
      · exact forget (by simp) (wp_harmless closeGateway_harmless w)
      · exact forget (by simp) (wp_harmless (by grind [drainRouter, Op.Harmless]) w)
  boot _ _ _ never := by cases never

/-- At most `maxConn` accepted connections are open if connections are accepted only while a
place is free, and if no worker gives its place back while the router has its connection
open. -/
theorem open_connections_limited (router : ServiceRouter) (maxConn : Nat)
    (labels : (machine router).Labels) (c : (machine router).State)
    (meets : (machine router).MeetsFrom PlacesLast { maxConn := maxConn } labels)
    (ran : (machine router).runFrom { maxConn := maxConn } labels = some c) :
    c.shared.openConns.length ≤ maxConn := by
  have start : Limited maxConn { maxConn := maxConn } := by
    constructor <;> simp
  have good : (protocol router maxConn).Good ((machine router).boot { maxConn := maxConn }) :=
    ⟨start, fun _ _ => rfl⟩
  exact (good.run (protocol_sound router maxConn) meets ran).inv.openConns_le

namespace Sample

def router : ServiceRouter where
  adminPrefix := ['/', 'a', 'd', 'm', 'i', 'n', '/']
  subPath := ['/', 's', 'u', 'b']

def boot : Machine.Config World Op Res fun _ : Role => Mem :=
  (machine router).boot { maxConn := 1 }

abbrev Schedule := List (Label Role (fun _ => Unit) Fate)

/-- `Serve` accepts a connection and starts a worker for it. -/
def served (i : Nat) : Schedule :=
  [.enter .serve (), .step .serve { conn := i }] ++ List.replicate 4 (.step .serve {}) ++
    [.leave .serve]

/-- A worker relays the stream of its client to the data plane until it ends. -/
def relayed (i : Nat) : Schedule :=
  [.enter (.worker i) ()] ++ List.replicate 10 (.step (.worker i) {}) ++ [.leave (.worker i)]

/-- A worker hands a request for the subscription over to the router. -/
def handedOver (i : Nat) : Schedule :=
  [.enter (.worker i) (), .step (.worker i) {}, .step (.worker i) {},
    .step (.worker i) { path := some ['/', 's', 'u', 'b'] }] ++
    List.replicate 4 (.step (.worker i) {}) ++ [.leave (.worker i)]

end Sample

theorem relayed_connections_limited :
    ∃ c, (machine Sample.router).run Sample.boot
        (Sample.served 0 ++ Sample.relayed 0 ++ Sample.served 1) = some c ∧
      c.shared.openConns = [1] ∧ c.shared.openConns.length ≤ 1 := by
  refine Machine.run_checked_and (by decide +kernel) fun c ran => ?_
  exact open_connections_limited Sample.router 1 _ c (by decide +kernel) ran

/-- With a limit of one, a second connection gets a worker while the first one is still open with
the router; and `Accept` alone exceeds the limit until the connection is closed again. -/
theorem open_connections_exceed_limit :
    (∃ c, (machine Sample.router).run Sample.boot
        (Sample.served 0 ++ Sample.handedOver 0 ++ Sample.served 1) = some c ∧
      c.shared.maxConn = 1 ∧ c.shared.openConns = [1, 0] ∧ c.shared.activeConns = [1] ∧
      c.shared.connChan = [0]) ∧
    ∃ c, (machine Sample.router).run Sample.boot
        (Sample.served 0 ++ [.enter .serve (), .step .serve { conn := 1 }]) = some c ∧
      c.shared.maxConn = 1 ∧ c.shared.openConns = [1, 0] := by
  constructor
  · exact Machine.run_checked (by decide +kernel)
  · exact Machine.run_checked (by decide +kernel)

end TrojanGo.Gateway
