import TrojanGo.Relay.Buffers

/-!
# Queued slices keep their bytes

Nobody but the relay loop writes to its buffer, so a queued slice keeps its bytes as long as the
loop itself does not read into the buffer or give it back.
-/
namespace TrojanGo.Relay

open Lib Prog List
open Tunnel (Address)

/-! ### Lists of slices -/

section Slices

variable {i j : Nat} {s : Slice} {slices rest : List Slice}

theorem ofSession_append (first second : List Slice) :
    ofSession i (first ++ second) = ofSession i first ++ ofSession i second :=
  filter_append ..

theorem ofSession_without (i : Nat) (slices : List Slice) : ofSession i (without i slices) = [] := by
  simp [ofSession, without, filter_filter]

theorem ofSession_without_of_ne (other : j ≠ i) (slices : List Slice) :
    ofSession j (without i slices) = ofSession j slices := by
  unfold ofSession without
  rw [filter_filter]
  refine filter_congr fun s _ => ?_
  by_cases own : s.session = j
  · simp [own, other]
  · simp [own]

/-- The first slice of a session leaves the order of all sessions as it is. -/
theorem dequeue_spec (found : dequeue i slices = some (s, rest)) :
    s.session = i ∧ ofSession i slices = s :: ofSession i rest ∧
      (∀ j, j ≠ i → ofSession j slices = ofSession j rest) ∧
      ∀ other ∈ s :: rest, other ∈ slices := by
  induction slices generalizing rest with
  | nil => cases found
  | cons first later ih =>
    simp only [dequeue] at found
    split at found
    next own => grind [ofSession]
    next foreign =>
      obtain ⟨⟨s', rest'⟩, inner, same⟩ := Option.map_eq_some_iff.mp found
      cases same
      obtain ⟨own, order, others, members⟩ := ih inner
      refine ⟨own, ?_, fun j other => ?_, ?_⟩
      · simpa [ofSession, foreign] using order
      · simp only [ofSession, filter_cons] at others ⊢
        rw [others j other]
      · grind

end Slices

/-! ### The invariant -/

/-- What a session has sent and will send if nothing changes in the buffers. -/
def World.outgoing (w : World) (i : Nat) : List Packet :=
  w.sent i ++ (ofSession i w.hand ++ ofSession i w.queue).map fun s => (w.kinds i).packet (w.view s)

/-- The packets for what a session has read. -/
def World.due (w : World) (i : Nat) : List Packet := (w.received i).map (w.kinds i).packet

structure Ordered (kinds : Nat → Kind) (w : World) : Prop where
  kinds : w.kinds = kinds
  outgoing : ∀ i, (w.outgoing i).Sublist (w.due i)
  owned : ∀ s ∈ w.hand ++ w.queue, w.owner s.buf = some (.relay s.session)

/-- As whom a thread uses buffers. -/
def Role.owner : Role → Option Owner
  | .relay i => some (.relay i)
  | .copier k => some (.copier k)
  | .sender _ | .control _ => none

/-- What a thread may see the others do. -/
structure Rely (r : Role) (w w' : World) : Prop where
  buffers : ∀ b o, r.owner = some o → w.owner b = some o →
    w'.owner b = some o ∧ w'.heap b = w.heap b
  received : ∀ i, r = .relay i → w'.received i = w.received i
  outgoing : ∀ i, r = .relay i → (w'.outgoing i).Sublist (w.outgoing i)
  hand : ∀ i, r = .sender i → ofSession i w'.hand = ofSession i w.hand

theorem Rely.refl (r : Role) (w : World) : Rely r w w :=
  ⟨fun _ _ _ own => ⟨own, rfl⟩, fun _ _ => rfl, fun _ _ => List.Sublist.refl _, fun _ _ => rfl⟩

theorem Rely.trans {r : Role} {w w' w'' : World} (first : Rely r w w') (second : Rely r w' w'') :
    Rely r w w'' where
  buffers b o mine own := by
    obtain ⟨own', same⟩ := first.buffers b o mine own
    obtain ⟨own'', same'⟩ := second.buffers b o mine own'
    exact ⟨own'', same'.trans same⟩
  received i own := (second.received i own).trans (first.received i own)
  outgoing i own := (second.outgoing i own).trans (first.outgoing i own)
  hand i own := (second.hand i own).trans (first.hand i own)

/-! ### Operations -/

section Ops

variable {kinds : Nat → Kind} {w w' : World} {r : Role}

theorem outgoing_congr {j : Nat} (sameKinds : w'.kinds = w.kinds) (sent : w'.sent j = w.sent j)
    (hand : ofSession j w'.hand = ofSession j w.hand)
    (queue : ofSession j w'.queue = ofSession j w.queue)
    (heap : ∀ s ∈ w.hand ++ w.queue, w'.heap s.buf = w.heap s.buf) :
    w'.outgoing j = w.outgoing j := by
  unfold World.outgoing
  rw [sameKinds, sent, hand, queue]
  congr 1
  refine map_congr_left fun s mem => ?_
  have inside : s ∈ w.hand ++ w.queue := (filter_sublist.append filter_sublist).subset mem
  rw [World.view, World.view, heap s inside]

/-- An operation on one buffer that no slice refers to. -/
structure OnBuffer (b : Nat) (w w' : World) : Prop where
  kinds : w'.kinds = w.kinds
  queue : w'.queue = w.queue
  hand : w'.hand = w.hand
  sent : w'.sent = w.sent
  others : ∀ b', b' ≠ b → w'.owner b' = w.owner b' ∧ w'.heap b' = w.heap b'
  unused : ∀ s ∈ w.hand ++ w.queue, s.buf ≠ b

namespace OnBuffer

variable {b : Nat} (on : OnBuffer b w w')
include on

theorem outgoing (j : Nat) : w'.outgoing j = w.outgoing j :=
  outgoing_congr on.kinds (by rw [on.sent]) (by rw [on.hand]) (by rw [on.queue])
    fun s mem => (on.others _ (on.unused s mem)).2

theorem ordered (ordered : Ordered kinds w) (received : ∀ j, w.received j <+: w'.received j) :
    Ordered kinds w' where
  kinds := on.kinds.trans ordered.kinds
  outgoing j := by
    rw [on.outgoing]
    refine (ordered.outgoing j).trans ?_
    unfold World.due
    rw [on.kinds]
    exact (received j).sublist.map _
  owned s mem := by
    rw [on.queue, on.hand] at mem
    rw [(on.others _ (on.unused s mem)).1]
    exact ordered.owned s mem

/-- The buffer was free or the thread's own. -/
theorem rely {r' : Role} (other : r' ≠ r) (mine : w.owner b = none ∨ w.owner b = r.owner)
    (received : ∀ j, r ≠ .relay j → w'.received j = w.received j) : Rely r' w w' where
  buffers b' o own held := by
    have differ : b' ≠ b := by
      rintro rfl
      rcases mine with free | mine
      · rw [free] at held
        cases held
      · -- two threads never use buffers under the same name
        rw [held] at mine
        cases r <;> cases r' <;> simp_all [Role.owner]
    obtain ⟨owner, heap⟩ := on.others b' differ
    exact ⟨owner.trans held, heap⟩
  received i own := received i fun same => other (own.trans same.symm)
  outgoing i _ := by
    rw [on.outgoing]
  hand i _ := by
    rw [on.hand]

/-- An operation that reads nothing from a peer. -/
theorem quiet (ordered : Ordered kinds w) (mine : w.owner b = none ∨ w.owner b = r.owner)
    (received : w'.received = w.received) :
    Ordered kinds w' ∧ ∀ r', r' ≠ r → Rely r' w w' := by
  refine ⟨on.ordered ordered fun j => ?_, fun r' other => on.rely other mine fun j _ => ?_⟩
  · rw [received]
  · rw [received]

end OnBuffer

/-- An operation on the slices of one session. -/
structure OnSlices (i : Nat) (w w' : World) : Prop where
  kinds : w'.kinds = w.kinds
  owner : w'.owner = w.owner
  heap : w'.heap = w.heap
  received : w'.received = w.received
  sent : ∀ j, j ≠ i → w'.sent j = w.sent j
  hand : ∀ j, j ≠ i → ofSession j w'.hand = ofSession j w.hand
  queue : ∀ j, j ≠ i → ofSession j w'.queue = ofSession j w.queue
  owned : ∀ s ∈ w'.hand ++ w'.queue, s ∈ w.hand ++ w.queue ∨
    w.owner s.buf = some (.relay s.session)

namespace OnSlices

variable {i : Nat} (on : OnSlices i w w')
include on

theorem outgoing {j : Nat} (other : j ≠ i) : w'.outgoing j = w.outgoing j :=
  outgoing_congr on.kinds (on.sent j other) (on.hand j other) (on.queue j other)
    fun s _ => by rw [on.heap]

theorem ordered (ordered : Ordered kinds w) (own : (w'.outgoing i).Sublist (w.due i)) :
    Ordered kinds w' where
  kinds := on.kinds.trans ordered.kinds
  outgoing j := by
    have due : w'.due j = w.due j := by rw [World.due, World.due, on.kinds, on.received]
    rw [due]
    by_cases same : j = i
    · subst same
      exact own
    · rw [on.outgoing same]
      exact ordered.outgoing j
  owned s mem := by
    rw [on.owner]
    rcases on.owned s mem with old | new
    · exact ordered.owned s old
    · exact new

theorem rely {r' : Role} (shrinks : r' = .relay i → (w'.outgoing i).Sublist (w.outgoing i))
    (held : r' = .sender i → ofSession i w'.hand = ofSession i w.hand) : Rely r' w w' where
  buffers b o _ own := by
    rw [on.owner, on.heap]
    exact ⟨own, rfl⟩
  received j _ := by
    rw [on.received]
  outgoing j own := by
    by_cases same : j = i
    · subst same
      exact shrinks own
    · rw [on.outgoing same]
  hand j own := by
    by_cases same : j = i
    · subst same
      exact held own
    · exact on.hand j same

theorem shrinks (ordered : Ordered kinds w) (fewer : (w'.outgoing i).Sublist (w.outgoing i)) :
    Ordered kinds w' ∧ ∀ r', r' ≠ .sender i → Rely r' w w' :=
  ⟨on.ordered ordered (fewer.trans (ordered.outgoing i)),
    fun _ other => on.rely (fun _ => fewer) fun own => absurd own other⟩

end OnSlices

end Ops

def protocol (kinds : Nat → Kind) : (machine kinds).Protocol where
  admits := SendsFirst
  inv := Ordered kinds
  rely := Rely
  guar r w w' := ∀ r', r' ≠ r → Rely r' w w'
  knows r mem w :=
    match r, mem with
    | .relay i, .looping buf => w.owner buf = some (.relay i)
    | .sender i, .new => ofSession i w.hand = []
    | .copier k, .looping buf => w.owner buf = some (.copier k)
    | _, _ => True

/-! ### The programs -/

section Programs

variable {kinds : Nat → Kind} {w : World} {r : Role} {i buf : Nat}

abbrev contract (kinds : Nat → Kind) (r : Role) : Contract World Op :=
  (protocol kinds).contract r

theorem contract_lawful : (contract kinds r).Lawful where
  refl := Rely.refl r
  trans _ _ _ := Rely.trans

variable {o : Owner} {post : Mem → World → Prop}

theorem stable_owner (own : r.owner = some o) :
    (contract kinds r).Stable fun w => w.owner buf = some o :=
  fun _ _ others _ held => (others.buffers buf o own held).1

/-- Slices are in buffers of relay loops. -/
theorem Ordered.unused (ordered : Ordered kinds w) {b : Nat}
    (other : ∀ j, w.owner b ≠ some (.relay j)) : ∀ s ∈ w.hand ++ w.queue, s.buf ≠ b := by
  rintro s mem rfl
  exact other s.session (ordered.owned s mem)

theorem getBuffer_wp (own : r.owner = some o)
    (ends : ∀ b w, w.owner b = some o → post (.looping b) w) (w : World) :
    (do return .looping (← ask (.getBuffer o)) : Routine Mem).wp exec (contract kinds r) post
      w := by
  refine wp_ask ?_
  intro w _ ordered _ fate b w' done
  simp only [exec] at done
  split at done
  next free =>
    have none : ∀ j, w.owner fate.buffer ≠ some (.relay j) := by simp [free]
    have on : OnBuffer fate.buffer w w' := by
      cases done
      exact ⟨rfl, rfl, rfl, rfl, fun b' differ => ⟨Function.update_of_ne differ .., rfl⟩,
        ordered.unused none⟩
    cases done
    obtain ⟨ordered', others⟩ := on.quiet (r := r) ordered (.inl free) rfl
    refine ⟨ordered', others, ?_⟩
    exact wp_return (stable_owner own) (by simp) fun w _ held => ends _ w held
  · cases done

theorem copyEnds_wp (own : r.owner = some o) (ends : ∀ w, post .ended w)
    (held : w.owner buf = some o) :
    (copyEnds buf).wp exec (contract kinds r) post w := by
  refine wp_op (stable_owner own) held ?_
  intro w ordered held unused fate _ w' done
  -- the buffer is cleared and goes back to the pool
  have on : OnBuffer buf w w' := by
    cases done
    exact ⟨rfl, rfl, rfl, rfl, fun b' differ =>
      ⟨Function.update_of_ne differ .., Function.update_of_ne differ ..⟩, unused⟩
  cases done
  obtain ⟨ordered', others⟩ := on.quiet (r := r) ordered (.inr (held.trans own.symm)) rfl
  exact ⟨ordered', others, fun w _ _ => ends w⟩

theorem onBuffer_load {data : Bytes} (unused : ∀ s ∈ w.hand ++ w.queue, s.buf ≠ buf) :
    OnBuffer buf w (w.load buf data) := by
  refine ⟨rfl, rfl, rfl, rfl, fun b' differ => ⟨rfl, ?_⟩, unused⟩
  exact Function.update_of_ne differ ..

theorem fill_wp {k : Nat} (held : w.owner buf = some (.copier k)) :
    (do
      ask (.fill buf)
      return .looping buf : Routine Mem).wp exec (contract kinds (.copier k))
      ((protocol kinds).knows (.copier k)) w := by
  refine wp_op (stable_owner rfl) held ?_
  intro w ordered held _ fate _ w' done
  cases done
  have foreign : ∀ j, w.owner buf ≠ some (.relay j) := by simp [held]
  have on : OnBuffer buf w (w.load buf fate.data) := onBuffer_load (ordered.unused foreign)
  obtain ⟨ordered', others⟩ := on.quiet (r := .copier k) ordered (.inr held) rfl
  refine ⟨ordered', others, ?_⟩
  exact wp_return (stable_owner rfl) held fun _ _ held => held

/-- The relay loop has read a datagram and not queued it yet. -/
structure HasRead (kinds : Nat → Kind) (i buf : Nat) (d : Datagram) (w : World) : Prop where
  owner : w.owner buf = some (.relay i)
  content : filled (w.heap buf) d.payload.length = d.payload
  last : ∃ earlier, w.received i = earlier ++ [d] ∧
    (w.outgoing i).Sublist (earlier.map (kinds i).packet)

theorem stable_hasRead {d : Datagram} :
    (contract kinds (.relay i)).Stable (HasRead kinds i buf d) := by
  rintro w w' others - ⟨owner, content, earlier, received, outgoing⟩
  obtain ⟨owner', same⟩ := others.buffers buf _ rfl owner
  refine ⟨owner', by rw [same, content], earlier, ?_, ?_⟩
  · rw [others.received i rfl, received]
  · exact (others.outgoing i rfl).trans outgoing

theorem read_ordered (d : Datagram) (ordered : Ordered kinds w)
    (held : w.owner buf = some (.relay i)) (unused : ∀ s ∈ w.hand ++ w.queue, s.buf ≠ buf) :
    let d' : Datagram := { d with payload := d.payload.take bufferSize }
    let w' : World := { w.load buf d'.payload with
      received := Function.update w.received i (w.received i ++ [d']) }
    Ordered kinds w' ∧ (∀ r', r' ≠ .relay i → Rely r' w w') ∧ HasRead kinds i buf d' w' := by
  intro d' w'
  have on : OnBuffer buf w w' := { onBuffer_load unused with }
  have received : ∀ j, j ≠ i → w'.received j = w.received j :=
    fun j other => Function.update_of_ne other ..
  refine ⟨on.ordered ordered fun j => ?_, fun r' other => on.rely other (.inr held) ?_, ?_⟩
  · grind
  · grind
  · refine ⟨held, ?_, w.received i, by simp [w'], ?_⟩
    · have short : d'.payload.take bufferSize = d'.payload := by simp [d', take_take]
      simp only [w', World.load, Function.update_self, short]
      exact filled_overwrite _ _
    · rw [on.outgoing, ← ordered.kinds]
      exact ordered.outgoing i

/-- The new slice shows what was read last, so that the order is kept. -/
theorem enqueue_ordered {d : Datagram} (read : HasRead kinds i buf d w)
    (ordered : Ordered kinds w) :
    let w' : World := { w with queue := w.queue ++ [⟨i, buf, d.payload.length, d.address⟩] }
    Ordered kinds w' ∧ ∀ r', r' ≠ .relay i → Rely r' w w' := by
  intro w'
  obtain ⟨owner, content, earlier, received, outgoing⟩ := read
  have on : OnSlices i w w' := by
    refine ⟨rfl, rfl, rfl, rfl, fun _ _ => rfl, fun _ _ => rfl, fun j other => ?_, ?_⟩
    · simp [w', ofSession, Ne.symm other]
    · grind
  have grown : w'.outgoing i = w.outgoing i ++ [(kinds i).packet d] := by
    have shown : w'.view ⟨i, buf, d.payload.length, d.address⟩ = d := by
      simp only [World.view, w', content]
    simp only [World.outgoing, w', ofSession_append, map_append, ← append_assoc]
    congr 1
    simp only [ofSession, filter_cons, decide_true, if_true, filter_nil, map_cons,
      map_nil]
    rw [← ordered.kinds]
    exact congrArg (fun d => [(w.kinds i).packet d]) shown
  refine ⟨on.ordered ordered ?_, fun r' other => on.rely ?_ fun _ => rfl⟩
  · -- the last datagram read goes behind those that were outgoing before
    rw [grown, World.due, received, map_append, ordered.kinds]
    exact outgoing.append (List.Sublist.refl _)
  · exact fun own => absurd own other

/-- A round of the relay loop. -/
theorem copyPacket_wp (held : w.owner buf = some (.relay i)) :
    (copyPacket i buf).wp exec (contract kinds (.relay i)) ((protocol kinds).knows (.relay i))
      w := by
  refine wp_op (stable_owner rfl) held ?_
  intro w ordered held unused fate result w' done
  simp only [exec] at done
  split at done
  · -- a failed read may leave bytes in the buffer
    cases done
    have on : OnBuffer buf w (w.load buf fate.data) := onBuffer_load unused
    obtain ⟨ordered', others⟩ := on.quiet (r := .relay i) ordered (.inr held) rfl
    exact ⟨ordered', others, copyEnds_wp rfl (fun _ => trivial) held⟩
  next d _ =>
    cases done
    obtain ⟨ordered', others, read⟩ := read_ordered d ordered held unused
    refine ⟨ordered', others, ?_⟩
    dsimp only
    split
    · exact copyEnds_wp rfl (fun _ => trivial) read.owner
    refine wp_op stable_hasRead read ?_
    intro w ordered read _ fate queued w' done
    simp only [exec] at done
    split at done
    · split at done
      · cases done
        obtain ⟨ordered', others⟩ := enqueue_ordered read ordered
        refine ⟨ordered', others, ?_⟩
        exact wp_return (stable_owner rfl) read.owner fun _ _ held => held
      · cases done
    · -- the session has ended while the loop waited for room in the queue
      split at done
      · cases done
        refine ⟨ordered, fun r' _ => Rely.refl r' w, ?_⟩
        exact copyEnds_wp rfl (fun _ => trivial) read.owner
      · cases done

/-- The sender has nothing in its hand, or one slice. -/
theorem stable_hand (slices : List Slice) :
    (contract kinds (.sender i)).Stable fun w => ofSession i w.hand = slices :=
  fun _ _ others _ held => (others.hand i rfl).trans held

theorem retire_wp {closes : Bool} (w : World) :
    (do
      ask (.retire i closes)
      return .ended : Routine Mem).wp exec (contract kinds (.sender i))
      ((protocol kinds).knows (.sender i)) w := by
  refine wp_ask ?_
  intro w _ ordered _ fate _ w' done
  have on : OnSlices i w w' := by
    cases done
    exact ⟨rfl, rfl, rfl, rfl, fun _ _ => rfl, fun j other => ofSession_without_of_ne other _,
      fun j other => ofSession_without_of_ne other _, fun s mem =>
        .inl ((filter_sublist.append filter_sublist).subset mem)⟩
  have fewer : (w'.outgoing i).Sublist (w.outgoing i) := by
    cases done
    simp only [World.outgoing, ofSession_without, append_nil, map_nil]
    exact sublist_append_left _ _
  obtain ⟨ordered', others⟩ := on.shrinks ordered fewer
  exact ⟨ordered', others, fun _ _ _ => trivial⟩

/-- What the sender takes is the next that goes out. -/
theorem select_ordered {s : Slice} {rest : List Slice} (ordered : Ordered kinds w)
    (free : ofSession i w.hand = []) (found : dequeue i w.queue = some (s, rest)) :
    let w' : World := { w with queue := rest, hand := w.hand ++ [s] }
    Ordered kinds w' ∧ (∀ r', r' ≠ .sender i → Rely r' w w') ∧ ofSession i w'.hand = [s] ∧
      s.session = i := by
  intro w'
  obtain ⟨own, order, others, members⟩ := dequeue_spec found
  have taken : ofSession i w'.hand = [s] := by
    show ofSession i (w.hand ++ [s]) = [s]
    rw [ofSession_append, free]
    simp [ofSession, own]
  have on : OnSlices i w w' := by
    refine ⟨rfl, rfl, rfl, rfl, fun _ _ => rfl, fun j other => ?_, fun j other => ?_, ?_⟩
    · simp [w', ofSession, own, Ne.symm other]
    · exact (others j other).symm
    · grind
  have same : w'.outgoing i = w.outgoing i := by
    simp only [World.outgoing, taken, free, order, nil_append]
    rfl
  obtain ⟨ordered', others'⟩ := on.shrinks ordered (same ▸ List.Sublist.refl _)
  exact ⟨ordered', others', taken, own⟩

/-- What the sender sends was the first that is outgoing and not sent. -/
theorem writeTo_ordered {s : Slice} (ordered : Ordered kinds w) (taken : ofSession i w.hand = [s])
    (own : s.session = i) {result : Bool} {w' : World} {fate : Fate}
    (done : exec fate w (.writeTo s) = some (result, w')) :
    Ordered kinds w' ∧ (∀ r', r' ≠ .sender i → Rely r' w w') ∧ ofSession i w'.hand = [] := by
  subst own
  have owned : ∀ o ∈ without s.session w.hand ++ w.queue,
      o ∈ w.hand ++ w.queue ∨ w.owner o.buf = some (.relay o.session) :=
    fun o mem => .inl ((filter_sublist.append_right _).subset mem)
  have order : w.outgoing s.session = w.sent s.session ++ (w.kinds s.session).packet (w.view s) ::
      (ofSession s.session w.queue).map fun o => (w.kinds s.session).packet (w.view o) := by
    simp [World.outgoing, taken]
  have none := ofSession_without s.session w.hand
  -- the slice is shown to the socket as its buffer is now; a failed write drops it
  simp only [exec] at done
  split at done
  · have on : OnSlices s.session w w' := by
      cases done
      exact ⟨rfl, rfl, rfl, rfl, fun j other => Function.update_of_ne other ..,
        fun j other => ofSession_without_of_ne other _, fun _ _ => rfl, owned⟩
    have same : w'.outgoing s.session = w.outgoing s.session := by
      cases done
      rw [order]
      simp only [World.outgoing, none, Function.update_self, nil_append, append_assoc,
        singleton_append]
      rfl
    obtain ⟨ordered', others⟩ := on.shrinks ordered (same ▸ List.Sublist.refl _)
    cases done
    exact ⟨ordered', others, none⟩
  · have on : OnSlices s.session w w' := by
      cases done
      exact ⟨rfl, rfl, rfl, rfl, fun _ _ => rfl, fun j other => ofSession_without_of_ne other _,
        fun _ _ => rfl, owned⟩
    have fewer : (w'.outgoing s.session).Sublist (w.outgoing s.session) := by
      cases done
      rw [order]
      simp only [World.outgoing, none, nil_append]
      exact (List.Sublist.refl _).append (sublist_cons_self _ _)
    obtain ⟨ordered', others⟩ := on.shrinks ordered fewer
    cases done
    exact ⟨ordered', others, none⟩

/-- A round of a session's sender: it sends at most one slice, and may end the session. -/
theorem send_wp {kind : Kind} (free : ofSession i w.hand = []) :
    (send kind i).wp exec (contract kinds (.sender i)) ((protocol kinds).knows (.sender i)) w := by
  refine wp_op (stable_hand []) free ?_
  intro w ordered free _ fate wake w' done
  simp only [exec] at done
  -- woken by the timer, by a slice or by the end of the session
  split at done
  · cases done
    exact ⟨ordered, fun r' _ => Rely.refl r' w, retire_wp w⟩
  split at done
  · obtain ⟨⟨s, rest⟩, found, same⟩ := Option.map_eq_some_iff.mp done
    cases same
    obtain ⟨ordered', others, taken, own⟩ := select_ordered ordered free found
    refine ⟨ordered', others, ?_⟩
    refine wp_op (stable_hand [s]) taken ?_
    intro w ordered taken _ fate result w' done
    obtain ⟨ordered', others, free⟩ := writeTo_ordered ordered taken own done
    refine ⟨ordered', others, ?_⟩
    cases result with
    | true => exact wp_return (stable_hand []) free fun _ _ free => free
    | false => exact retire_wp w'
  split at done
  · cases done
    exact ⟨ordered, fun r' _ => Rely.refl r' w, retire_wp w⟩
  · cases done

/-- Ending a session or stopping the servers changes no list and no buffer. -/
theorem control_wp {op : Op} (only : op = .cancel i ∨ op = .stop) (w : World) :
    (do
      let _ ← ask op
      return .ended : Routine Mem).wp exec (contract kinds r) (fun _ _ => True) w := by
  refine wp_ask ?_
  intro w _ ordered _ fate _ w' done
  have on : OnSlices i w w' := by
    rcases only with rfl | rfl <;> cases done <;>
      exact ⟨rfl, rfl, rfl, rfl, fun _ _ => rfl, fun _ _ => rfl, fun _ _ => rfl, fun _ => .inl⟩
  have same : w'.outgoing i = w.outgoing i := by
    rcases only with rfl | rfl <;> cases done <;> rfl
  have hand : w'.hand = w.hand := by
    rcases only with rfl | rfl <;> cases done <;> rfl
  refine ⟨on.ordered ordered (same ▸ ordered.outgoing i), fun r' _ => ?_, fun _ _ _ => trivial⟩
  exact on.rely (fun _ => same ▸ List.Sublist.refl _) fun _ => by rw [hand]

end Programs

theorem protocol_sound (kinds : Nat → Kind) : (protocol kinds).Sound where
  lawful _ := contract_lawful
  stable r mem w w' known others _ := by
    cases r with
    | relay | copier =>
      cases mem with
      | looping buf => exact (others.buffers buf _ rfl known).1
      | _ => trivial
    | sender i =>
      cases mem with
      | new => exact (others.hand i rfl).trans known
      | _ => trivial
    | control i => trivial
  compatible r r' _ _ other guarantee := guarantee r' (Ne.symm other)
  body r call mem p w found known := by
    cases r with
    | relay i =>
      cases call <;> cases mem <;> cases found
      · exact getBuffer_wp rfl (fun _ _ held => held) w
      · exact copyPacket_wp known
    | sender i =>
      cases call <;> cases mem <;> cases found
      exact send_wp known
    | copier k =>
      cases call <;> cases mem <;> cases found
      · exact getBuffer_wp rfl (fun _ _ held => held) w
      · exact fill_wp known
      · exact copyEnds_wp rfl (fun _ => trivial) known
    | control i =>
      cases call <;> cases mem <;> cases found
      · exact wp_mono (fun _ _ _ _ => trivial) (control_wp (i := i) (.inr rfl) w)
      · exact wp_mono (fun _ _ _ _ => trivial) (control_wp (.inl rfl) w)
  boot _ _ _ never := by cases never

/-- If every slice is sent before its buffer is read into again or goes back to the pool, then
what each session has sent are packets of datagrams that this session has read, in order. -/
theorem datagrams_keep_their_bytes (kinds : Nat → Kind) (heap : Nat → Buffer)
    (labels : (machine kinds).Labels) (c : (machine kinds).State)
    (meets : (machine kinds).MeetsFrom SendsFirst { kinds := kinds, heap := heap } labels)
    (ran : (machine kinds).runFrom { kinds := kinds, heap := heap } labels = some c)
    (i : Nat) :
    (c.shared.sent i).Sublist ((c.shared.received i).map (kinds i).packet) := by
  have start : Ordered kinds { kinds := kinds, heap := heap } :=
    ⟨rfl, fun i => List.Sublist.refl _, fun s never => by cases never⟩
  have known : ∀ r, (protocol kinds).knows r .new { kinds := kinds, heap := heap } := by
    intro r
    cases r <;> trivial
  have good : (protocol kinds).Good ((machine kinds).boot { kinds := kinds, heap := heap }) :=
    ⟨start, known⟩
  have ordered := (good.run (protocol_sound kinds) meets ran).inv
  have sent : (c.shared.sent i).Sublist (c.shared.outgoing i) := sublist_append_left _ _
  rw [← ordered.kinds]
  exact sent.trans (ordered.outgoing i)

namespace Sample

def kinds : Nat → Kind := fun _ => .dokodemo

def boot : Machine.Config World Op Res fun _ : Role => Mem :=
  (machine kinds).boot { kinds := kinds }

def datagram (byte : UInt8) : Datagram :=
  ⟨{ addressType := .ipv4, ip := [192, 0, 2, 1], port := 53 }, [byte]⟩

abbrev Schedule := List (Label Role (fun _ => Call) Fate)

def start : Schedule := [.enter (.relay 0) .begin, .step (.relay 0) {}, .leave (.relay 0)]

/-- The loop reads a datagram and queues it. -/
def relayed (byte : UInt8) : Schedule :=
  [.enter (.relay 0) .iterate, .step (.relay 0) { incoming := some (datagram byte) },
    .step (.relay 0) {}, .leave (.relay 0)]

/-- The sender takes a datagram and sends it. -/
def sent : Schedule :=
  [.enter (.sender 0) .iterate, .step (.sender 0) {}, .step (.sender 0) {}, .leave (.sender 0)]

end Sample

open Sample in
theorem datagrams_sent_one_by_one :
    ∃ c, (machine kinds).run boot (start ++ relayed 1 ++ sent ++ relayed 2 ++ sent) = some c ∧
      (c.shared.sent 0).map Packet.payload = [[1], [2]] ∧
      ∀ i, (c.shared.sent i).Sublist ((c.shared.received i).map (kinds i).packet) := by
  refine Machine.run_checked_and (by decide +kernel) fun c ran => ?_
  exact datagrams_keep_their_bytes kinds _ _ c (by decide +kernel) ran

open Sample in
/-- The loop reads the second datagram while the first is in the queue: the client gets the
second one twice. -/
theorem queued_datagram_overwritten :
    ∃ c, (machine kinds).run boot (start ++ relayed 1 ++ relayed 2 ++ sent ++ sent) = some c ∧
      (c.shared.received 0).map Datagram.payload = [[1], [2]] ∧
      (c.shared.sent 0).map Packet.payload = [[2], [2]] := by
  exact Machine.run_checked (by decide +kernel)

end TrojanGo.Relay
