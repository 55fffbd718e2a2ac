import Mathlib.Data.List.ReduceOption
import TrojanGo.Relay.Buffers
import TrojanGo.Router.Rules
import TrojanGo.Trojan.Packets

/-!
# Datagrams from a trojan client to the router

Whatever goes wrong with a datagram ends the loop, and with it the session: a read that fails, an
empty payload, a target that is blocked or cannot be resolved.
-/
namespace TrojanGo.Relay.Upstream

open Lib Tunnel List
open Router (Outside Sent WriteError)
open Trojan (PacketError)

/-! ### The loop -/

/-- Why the loop returns. A panic of the address reader ends the whole process. -/
inductive End where
  | read (reason : PacketError)
  | empty
  | write (reason : WriteError)
  deriving DecidableEq

/-- What the session runs with. -/
structure Env where
  parseIP : Bytes → Option IP
  regex : Bytes → Bytes → Option Bool
  router : Router.Client

structure Loop (ρ : Type) where
  conn : ρ
  sent : List Sent := []
  ended : Option End := none

section

variable {ρ : Type} (env : Env) (read : Read ρ UInt8)

/-- One round of `copyPacket`, from the trojan connection to the router. -/
def round (o : Outside) (l : Loop ρ) : Loop ρ :=
  match l.ended with
  | some _ => l
  | none =>
    match (Trojan.readWithMetadata env.parseIP bufferSize).eval (ReadOp.step read) l.conn with
    | (.error reason, conn) => { l with conn := conn, ended := some (.read reason) }
    | (.ok (payload, address), conn) =>
      if payload.length = 0 then { l with conn := conn, ended := some .empty }
      else
        match env.router.writeWithMetadata env.regex o payload address with
        | .error reason => { l with conn := conn, ended := some (.write reason) }
        | .ok sent => { l with conn := conn, sent := l.sent ++ [sent] }

/-- One round for each element; the rounds after the end do nothing. -/
def copyPacket (outside : List Outside) (l : Loop ρ) : Loop ρ :=
  outside.foldl (fun l o => round env read o l) l

end

/-! ### Frames -/

/-- A datagram that has a frame. -/
structure Frame extends Datagram where
  fits : address.Fits
  short : payload.length < 65536

def Frame.wire (f : Frame) : Bytes := Trojan.writeWithMetadata f.payload f.address

/-- A datagram and what happens outside while it is relayed. -/
abbrev Arrival := Frame × Outside

def wire (arrivals : List Arrival) : Bytes := arrivals.flatMap fun a => a.1.wire

/-- The address reader panics on it. -/
def Frame.LongName (f : Frame) : Prop :=
  f.address.addressType = .domainName ∧ 254 ≤ f.address.domainName.length

instance (f : Frame) : Decidable f.LongName := inferInstanceAs (Decidable (_ ∧ _))

/-- Where the datagram goes, if it can be forwarded. -/
def forward (env : Env) (a : Arrival) : Option Sent :=
  let f := a.1
  if f.LongName ∨ Trojan.maxPacketSize < f.payload.length ∨ f.payload = [] then none
  else
    (env.router.writeWithMetadata env.regex a.2 f.payload
      (f.address.received env.parseIP)).toOption

/-! ### Rounds -/

section Rounds

variable {ρ : Type} {read : Read ρ UInt8} {content : ρ → Bytes} {env : Env}

/-- What the reader makes of a frame. -/
def Frame.result (parseIP : Bytes → Option IP) (f : Frame) :
    Except PacketError (Bytes × Address) :=
  if f.LongName then .error (.address .panic)
  else if Trojan.maxPacketSize < f.payload.length then .error .tooLarge
  else .ok (f.payload, f.address.received parseIP)

theorem yields_frame (lawful : read.Lawful content fun _ _ => True) {f : Frame}
    (short : ¬ f.LongName) :
    Parser.Yields read content (fun _ _ => True)
      (Trojan.readWithMetadata env.parseIP bufferSize) f.wire (f.result env.parseIP) := by
  have readable : f.address.addressType = .domainName → f.address.domainName.length < 254 :=
    fun domain => Nat.lt_of_not_le fun large => short ⟨domain, large⟩
  rw [Frame.result, if_neg short]
  by_cases large : Trojan.maxPacketSize < f.payload.length
  · rw [if_pos large]
    exact Trojan.yields_packet lawful f.fits readable
      (Trojan.yields_payload_large lawful (.inr large) f.short)
  · have fits : f.payload.length ≤ bufferSize := by
      have := f.short
      unfold bufferSize
      omega
    rw [if_neg large]
    exact Trojan.yields_packet lawful f.fits readable
      (Trojan.yields_payload lawful fits (Nat.le_of_not_lt large))

/-- The reader ends right behind a frame, unless the process panics over it. -/
theorem read_frame (env : Env) (lawful : read.Lawful content fun _ _ => True) {f : Frame}
    {conn : ρ} {rest : Bytes} (next : content conn = f.wire ++ rest) :
    ∃ conn', (Trojan.readWithMetadata env.parseIP bufferSize).eval (ReadOp.step read) conn =
        (f.result env.parseIP, conn') ∧
      (¬ f.LongName → content conn' = rest) := by
  by_cases long : f.LongName
  · obtain ⟨taken, left, written, panics⟩ :=
      @Trojan.yields_packet_long _ _ _ _ env.parseIP bufferSize lawful f.address long.1 long.2
        f.fits
    rw [Frame.wire, Trojan.writeWithMetadata, written, append_assoc,
      append_assoc] at next
    obtain ⟨conn', ran, -, -⟩ := panics taken.length conn _ next trivial (le_refl _)
    exact ⟨conn', by rw [ran, Frame.result, if_pos long], fun other => (other long).elim⟩
  · obtain ⟨conn', ran, left, -⟩ :=
      yields_frame lawful long f.wire.length conn rest next trivial (le_refl _)
    exact ⟨conn', ran, fun _ => left⟩

theorem round_spec (env : Env) (lawful : read.Lawful content fun _ _ => True) {a : Arrival}
    {l : Loop ρ} {rest : Bytes} (running : l.ended = none)
    (next : content l.conn = a.1.wire ++ rest) :
    ∃ conn',
      (∃ sent, forward env a = some sent ∧ content conn' = rest ∧
        round env read a.2 l = { l with conn := conn', sent := l.sent ++ [sent] }) ∨
      ∃ reason, forward env a = none ∧
        round env read a.2 l = { l with conn := conn', ended := some reason } := by
  obtain ⟨conn', ran, left⟩ := read_frame env lawful next
  refine ⟨conn', ?_⟩
  simp only [round, forward, running, ran, Frame.result]
  by_cases long : a.1.LongName
  · simp [long]
  by_cases large : Trojan.maxPacketSize < a.1.payload.length
  · simp [long, large]
  by_cases empty : a.1.payload = []
  · simp [long, empty]
  -- only the router is left to refuse it
  cases written : env.router.writeWithMetadata env.regex a.2 a.1.payload
      (a.1.address.received env.parseIP) with
  | error reason => simp [long, large, empty, written, Except.toOption]
  | ok sent => simp [long, large, empty, written, Except.toOption, left]

/-- The rounds after the end do nothing. -/
theorem copyPacket_ended {l : Loop ρ} (ended : l.ended ≠ none) (outside : List Outside) :
    copyPacket env read outside l = l := by
  induction outside with
  | nil => rfl
  | cons o outside ih =>
    have same : round env read o l = l := by
      obtain ⟨reason, past⟩ := Option.ne_none_iff_exists'.mp ended
      simp only [round, past]
    rw [copyPacket, foldl_cons, same]
    exact ih

theorem copyPacket_spec (lawful : read.Lawful content fun _ _ => True) (arrivals : List Arrival)
    {l : Loop ρ} {rest : Bytes} (running : l.ended = none)
    (next : content l.conn = wire arrivals ++ rest) :
    let after := copyPacket env read (arrivals.map Prod.snd) l
    after.sent =
        l.sent ++ ((arrivals.map (forward env)).takeWhile Option.isSome).reduceOption ∧
      (after.ended = none ↔ ∀ a ∈ arrivals, forward env a ≠ none) := by
  induction arrivals generalizing l with
  | nil => simp [copyPacket, running]
  | cons a arrivals ih =>
    simp only [wire, flatMap_cons, append_assoc] at next
    simp only [map_cons, copyPacket, foldl_cons]
    obtain ⟨conn', ⟨sent, fate, left, went⟩ | ⟨reason, fate, went⟩⟩ :=
      round_spec env lawful running next
    · rw [went]
      obtain ⟨later, survives⟩ :=
        @ih { l with conn := conn', sent := l.sent ++ [sent] } running left
      rw [copyPacket] at later survives
      constructor
      · rw [later]
        simp [fate]
      · rw [survives]
        simp [fate]
    · have past := @copyPacket_ended _ read env { l with conn := conn', ended := some reason }
        (by simp) (arrivals.map Prod.snd)
      rw [copyPacket] at past
      simp [went, past, fate]

end Rounds

/-! ### Sessions -/

/-- Nothing is lost by stopping at the first gap exactly if only gaps follow it. -/
theorem reduceOption_takeWhile_eq_iff {α : Type} (fates : List (Option α)) :
    (fates.takeWhile Option.isSome).reduceOption = fates.reduceOption ↔
      fates.Pairwise fun a b => a = none → b = none := by
  induction fates with
  | nil => simp
  | cons fate fates ih =>
    cases fate with
    | some value => simpa using ih
    | none =>
      have gaps : fates.reduceOption = [] ↔ ∀ b ∈ fates, b = none := by
        simp [reduceOption, filterMap_eq_nil_iff]
      simp only [takeWhile_cons, Option.isSome_none, Bool.false_eq_true, if_false,
        reduceOption_nil, reduceOption_cons_of_none, pairwise_cons, forall_const,
        eq_comm (a := ([] : List α)), gaps]
      constructor
      · intro nothing
        exact ⟨nothing, pairwise_of_forall_mem_list fun _ _ b inside _ => nothing b inside⟩
      · exact And.left

/-- A session forwards all datagrams that can be forwarded, in order, exactly if none of them
comes after one that cannot; and it outlives its datagrams exactly if all can be forwarded. -/
theorem session_forwards_iff (env : Env) (arrivals : List Arrival) (conn : Segments UInt8)
    (rest : Bytes) (arrives : conn.content = wire arrivals ++ rest) :
    let after := copyPacket env Segments.read (arrivals.map Prod.snd) { conn := conn }
    (after.sent = arrivals.filterMap (forward env) ↔
        arrivals.Pairwise fun a b => forward env a = none → forward env b = none) ∧
      (after.ended = none ↔ ∀ a ∈ arrivals, forward env a ≠ none) := by
  have spec := @copyPacket_spec _ _ _ env Segments.lawful arrivals { conn := conn } rest rfl arrives
  obtain ⟨sent, survives⟩ := spec
  refine ⟨?_, survives⟩
  have all : (arrivals.map (forward env)).reduceOption = arrivals.filterMap (forward env) := by
    simp [reduceOption, filterMap_map]
  rw [sent, nil_append, ← all, reduceOption_takeWhile_eq_iff, pairwise_map]

namespace Sample

/-- The names `a` are blocked and the names `b` are reached directly. -/
def env : Env where
  parseIP := fun _ => none
  regex := fun _ _ => none
  router :=
    { domains := fun
        | .block => [⟨.full, [97]⟩]
        | .bypass => [⟨.full, [98]⟩]
        | .proxy => []
      cidrs := fun _ => []
      defaultPolicy := .proxy
      domainStrategy := .asIs }

def target (letter : UInt8) : Address :=
  { addressType := .domainName, domainName := [letter], port := 53 }

def frame (letter : UInt8) (payload : Bytes) (short : payload.length < 65536) : Frame where
  address := target letter
  payload := payload
  fits := by simp [Address.Fits, target]
  short := short

/-- No lookup succeeds. -/
def arrival (letter : UInt8) (payload : Bytes) (short : payload.length < 65536) : Arrival :=
  (frame letter payload short, {})

def fine : Arrival := arrival 99 [1] (by decide)

def empty : Arrival := arrival 99 [] (by decide)

def large : Arrival := arrival 99 (List.replicate 8193 0) (by rw [List.length_replicate]; decide)

def blocked : Arrival := arrival 97 [1] (by decide)

def unresolved : Arrival := arrival 98 [1] (by decide)

/-- The frames arrive in one piece. -/
def conn (arrivals : List Arrival) : Segments UInt8 :=
  ⟨[wire arrivals].filter (· ≠ []), by simp⟩

theorem conn_content (arrivals : List Arrival) :
    (conn arrivals).content = wire arrivals ++ [] := by
  by_cases nothing : wire arrivals = [] <;> simp [conn, Segments.content, nothing]

end Sample

open Sample in
theorem session_forwards_both :
    (copyPacket env Segments.read [{}, {}] { conn := conn [fine, fine] }).sent =
      [.proxied (target 99) [1], .proxied (target 99) [1]] := by
  have spec := session_forwards_iff env [fine, fine] (conn [fine, fine]) [] (conn_content _)
  have ordered : [fine, fine].Pairwise
      fun a b => forward env a = none → forward env b = none := by decide
  exact spec.1.mpr ordered

namespace Sample

/-- The session ends with a datagram, and the one behind it is lost. -/
def Loses (bad : Arrival) : Prop :=
  let after := copyPacket env Segments.read [bad.2, fine.2] { conn := conn [bad, fine] }
  [bad, fine].filterMap (forward env) = [.proxied (target 99) [1]] ∧
    after.sent = [] ∧ after.ended ≠ none

theorem loses_of_stuck {bad : Arrival} (stuck : forward env bad = none) : Loses bad := by
  have forwarded : forward env fine = some (.proxied (target 99) [1]) := by decide
  obtain ⟨sent, survives⟩ := @copyPacket_spec _ _ _ env Segments.lawful [bad, fine]
    { conn := conn [bad, fine] } [] rfl (conn_content _)
  refine ⟨by simp [stuck, forwarded], ?_, ?_⟩
  · rw [map_cons (f := forward env), stuck] at sent
    exact sent
  · intro outlived
    exact survives.mp outlived bad (by simp) stuck

end Sample

open Sample in
/-- An empty datagram, one over the limit, one to a blocked target and one whose target is not
found each end the session. -/
theorem session_loses_datagrams :
    Loses empty ∧ Loses large ∧ Loses blocked ∧ Loses unresolved := by
  refine ⟨loses_of_stuck (by decide), loses_of_stuck ?_, loses_of_stuck (by decide),
    loses_of_stuck (by decide)⟩
  have past : Trojan.maxPacketSize < large.1.payload.length := by
    change _ < (replicate 8193 (0 : UInt8)).length
    rw [length_replicate]
    decide
  rw [forward, if_pos (.inr (.inl past))]

end TrojanGo.Relay.Upstream
