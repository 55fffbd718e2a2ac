import Mathlib.Logic.Function.Basic
import TrojanGo.Tunnel.Connections

/-!
# The trojan handshake

`Auth` takes the hash with a single read and only then fills its buffers. In between it looks up
the user and takes a slot for the IP address of the client.
-/
namespace TrojanGo.Trojan

open Lib Tunnel RewindReader List

/-! ### Users -/

/-- A user of the authenticator, as far as the number of its clients is limited. -/
structure User where
  maxIPNum : Int := 0
  ipTable : List String := []
  distinct : ipTable.Nodup := by decide

namespace User

def addIP (u : User) (ip : String) : Bool × User :=
  if u.maxIPNum ≤ 0 then (true, u)
  else if found : ip ∈ u.ipTable then (true, u)
  else if u.maxIPNum ≤ u.ipTable.length then (false, u)
  else (true, { u with
    ipTable := ip :: u.ipTable, distinct := List.nodup_cons.mpr ⟨found, u.distinct⟩ })

def delIP (u : User) (ip : String) : Bool × User :=
  if u.maxIPNum ≤ 0 then (true, u)
  else if ip ∉ u.ipTable then (false, u)
  else (true, { u with ipTable := u.ipTable.erase ip, distinct := u.distinct.erase ip })

end User

/-! ### Connections of the server -/

/-- How far a connection has come. From `admitted` on its user and its IP address are known. -/
inductive Phase where
  | handshake
  | admitted (hash : Bytes) (ip : String)
  | authenticated (hash : Bytes) (ip : String)
  | rejected
  | closed (hash : Bytes) (ip : String)
  deriving DecidableEq

/-- `Auth` returns without an error. -/
def Phase.established : Phase → Phase
  | .admitted hash ip => .authenticated hash ip
  | phase => phase

structure Inbound where
  reader : RewindReader Wire
  remoteAddr : TCPAddr
  phase : Phase := .handshake

/-- A connection that the server has just taken from the tunnel below. -/
def Inbound.start (conn : Conn) : Inbound where
  reader := setBufferSize { raw := conn.wire } 128
  remoteAddr := conn.remoteAddr

structure World where
  users : Bytes → Option User
  conns : Nat → Option Inbound := fun _ => none
  /-- the connections so far -/
  ids : List Nat := []

def World.onConn (w : World) (i : Nat) (f : Inbound → Inbound) : World :=
  { w with conns := Function.update w.conns i ((w.conns i).map f) }

def World.enter (w : World) (i : Nat) (phase : Phase) : World :=
  w.onConn i fun c => { c with phase := phase }

def World.accept (w : World) (i : Nat) (conn : Conn) : World :=
  { w with conns := Function.update w.conns i (some (.start conn)), ids := i :: w.ids }

def World.onUser (w : World) (hash : Bytes) (f : User → User) : World :=
  { w with users := Function.update w.users hash ((w.users hash).map f) }

/-- The user and the address that closing a connection refers to; they stay when it is closed. -/
def World.freed (w : World) (i : Nat) : Option (Bytes × String) :=
  match (w.conns i).map Inbound.phase with
  | some (.authenticated hash ip) | some (.closed hash ip) => some (hash, ip)
  | _ => none

/-! ### Operations -/

inductive Op where
  | accept (i : Nat) (conn : Conn)
  | io (i : Nat) (op : ReadOp)
  | authUser (hash : Bytes)
  | remoteIP (i : Nat)
  | addIP (i : Nat) (hash : Bytes) (ip : String)
  | reject (i : Nat)
  | establish (i : Nat)
  | close (i : Nat)

@[reducible] def Res : Op → Type
  | .accept _ _ | .reject _ | .establish _ | .close _ => Unit
  | .io _ op => ReadOp.Res UInt8 op
  | .authUser _ | .addIP _ _ _ => Bool
  | .remoteIP _ => String

/-- What a read on a connection that is not there returns. -/
def ReadOp.nothing : (op : ReadOp) → ReadOp.Res UInt8 op
  | .read _ => ([], some .eof)
  | .full _ => .error .eof

structure Env where
  parseIP : Bytes → Option IP
  ipString : IP → String

def step (env : Env) : World → (op : Op) → Res op × World
  | w, .accept i conn => ((), w.accept i conn)
  | w, .io i op =>
    match w.conns i with
    | none => (ReadOp.nothing op, w)
    | some c =>
      match ReadOp.step (read Wire.read) c.reader op with
      | (result, reader) => (result, w.onConn i fun c => { c with reader := reader })
  | w, .authUser hash => ((w.users hash).isSome, w)
  | w, .remoteIP i => ((w.conns i).elim "" fun c => env.ipString c.remoteAddr.ip, w)
  | w, .addIP i hash ip =>
    match w.users hash with
    | none => (false, w)
    | some u =>
      if (u.addIP ip).1 then
        (true, (w.onUser hash fun u => (u.addIP ip).2).enter i (.admitted hash ip))
      else (false, w)
  | w, .reject i =>
    -- the redirector or the server closes the connection below, not the inbound one
    ((), (w.onConn i fun c => { c with reader := c.reader.rewind.stopBuffering }).enter i .rejected)
  | w, .establish i =>
    ((), w.onConn i fun c => { c with
      reader := c.reader.stopBuffering, phase := c.phase.established })
  | w, .close i =>
    match w.freed i with
    | some (hash, ip) => ((), (w.onUser hash fun u => (u.delIP ip).2).enter i (.closed hash ip))
    | none => ((), w)

/-! ### `Auth` -/

abbrev Handler := Prog Op Res

abbrev ask (op : Op) : Handler (Res op) := Prog.ask op

/-- A parser, on one connection. -/
def parse {β : Type} (i : Nat) (p : Parser UInt8 β) : Handler β :=
  Prog.embed (Op.io i) (fun _ result => result) p

inductive AuthError where
  | readHash
  | invalidHash
  | ipLimit
  | crlf (reason : ReadError)
  | metadata (reason : MetadataError)
  deriving DecidableEq

/-- What `Auth` stores in the connection. -/
structure Accepted where
  hash : Bytes
  ip : String
  metadata : Metadata

/-- The part of `Auth` behind the slot. -/
def readRequest (env : Env) : Parser UInt8 (Except AuthError Metadata) := do
  match ← Parser.full 2 with
  | .error reason => return .error (.crlf reason)
  | .ok _ =>
    match ← Metadata.readFrom env.parseIP with
    | .error reason => return .error (.metadata reason)
    | .ok (_, metadata) =>
      match ← Parser.full 2 with
      | .error reason => return .error (.crlf reason)
      | .ok _ => return .ok metadata

/-- The part of `Auth` behind the hash. -/
def takeSlot (env : Env) (i : Nat) (hash : Bytes) : Handler (Except AuthError Accepted) := do
  if ← ask (.authUser hash) then
    let ip ← ask (.remoteIP i)
    if ← ask (.addIP i hash ip) then
      match ← parse i (readRequest env) with
      | .error reason => return .error reason
      | .ok metadata => return .ok ⟨hash, ip, metadata⟩
    else return .error .ipLimit
  else return .error .invalidHash

def auth (env : Env) (i : Nat) : Handler (Except AuthError Accepted) := do
  let got ← ask (.io i (.read 56))
  if got.2.isSome ∨ got.1.length ≠ 56 then return .error .readHash
  else takeSlot env i got.1

/-- `WriteHeader`. -/
def writeHeader (hash : Bytes) (m : Metadata) (payload : Bytes) : Bytes :=
  hash ++ (crlf ++ (m.writeTo ++ (crlf ++ payload)))

/-! ### What `Auth` makes of a header -/

section Auth

variable {env : Env} {w : World} {i : Nat}

@[simp] theorem onConn_conns (w : World) (i : Nat) (f : Inbound → Inbound) :
    (w.onConn i f).conns i = (w.conns i).map f := by
  simp [World.onConn]

theorem onConn_onConn (w : World) (i : Nat) (f g : Inbound → Inbound) :
    (w.onConn i f).onConn i g = w.onConn i fun c => g (f c) := by
  simp only [World.onConn, Function.update_self, Function.update_idem, Option.map_map]
  rfl

/-- A parser changes only the reader of its connection. -/
theorem eval_parse {β : Type} (p : Parser UInt8 β) {c : Inbound} (found : w.conns i = some c) :
    (parse i p).eval (step env) w =
      ((p.eval (ReadOp.step (read Wire.read)) c.reader).1,
        w.onConn i fun c' => { c' with
          reader := (p.eval (ReadOp.step (read Wire.read)) c.reader).2 }) := by
  induction p generalizing w c with
  | ret value =>
    have same : w.onConn i (fun c' => { c' with reader := c.reader }) = w := by
      simp only [World.onConn, found, Option.map_some]
      rw [← found, Function.update_eq_self]
    simp only [parse, Prog.embed, Prog.eval, same]
  | call op next ih =>
    have onward := fun result reader => ih result
      (w := w.onConn i fun c' => { c' with reader := reader })
      (c := { c with reader := reader }) (by simp [found])
    simp only [parse, onConn_onConn] at onward
    simp only [parse, Prog.embed, Prog.eval, step, found]
    rcases ReadOp.step (read Wire.read) c.reader op with ⟨result, reader⟩
    exact onward result reader

abbrev readInbound : Read (RewindReader Wire) UInt8 := read Wire.read

abbrev contentOf : RewindReader Wire → Bytes := remaining Wire.content

abbrev ServesInbound : Nat → RewindReader Wire → Prop := Serves fun _ => Wire.Ready

theorem inbound_lawful : readInbound.Lawful contentOf ServesInbound :=
  lawful Wire.lawful

/-- The first read decides whether there is a hash at all. -/
theorem auth_without_hash {c : Inbound} (found : w.conns i = some c)
    (short : (readInbound c.reader 56).1.1.length ≠ 56) :
    ((auth env i).eval (step env) w).1 = .error .readHash := by
  have refused : (readInbound c.reader 56).1.2.isSome ∨ (readInbound c.reader 56).1.1.length ≠ 56 :=
    .inr short
  simp only [auth, Prog.eval_ask, step, found, ReadOp.step]
  rw [if_pos refused]
  rfl

theorem auth_with_hash {c : Inbound} {hash : Bytes} {reader : RewindReader Wire}
    (found : w.conns i = some c) (got : readInbound c.reader 56 = ((hash, none), reader))
    (long : hash.length = 56) :
    (auth env i).eval (step env) w =
      (takeSlot env i hash).eval (step env) (w.onConn i fun c => { c with reader := reader }) := by
  have goes : ¬ ((none : Option ReadError).isSome ∨ hash.length ≠ 56) := by simp [long]
  simp only [auth, Prog.eval_ask, step, found, ReadOp.step, got]
  rw [if_neg goes]

theorem takeSlot_without_slot {c : Inbound} {u : User} {hash : Bytes} (found : w.conns i = some c)
    (registered : w.users hash = some u)
    (full : (u.addIP (env.ipString c.remoteAddr.ip)).1 = false) :
    ((takeSlot env i hash).eval (step env) w).1 = .error .ipLimit := by
  simp [takeSlot, Prog.eval_ask, step, registered, found, full]

theorem takeSlot_with_slot {c : Inbound} {u : User} {hash : Bytes} (found : w.conns i = some c)
    (registered : w.users hash = some u)
    (free : (u.addIP (env.ipString c.remoteAddr.ip)).1 = true) :
    let done := (readRequest env).eval (ReadOp.step readInbound) c.reader
    ((takeSlot env i hash).eval (step env) w).1 =
        done.1.map (fun m => ⟨hash, env.ipString c.remoteAddr.ip, m⟩) ∧
      (((takeSlot env i hash).eval (step env) w).2.conns i).map Inbound.reader = some done.2 := by
  intro done
  let admitted := (w.onUser hash fun u => (u.addIP (env.ipString c.remoteAddr.ip)).2).enter i
    (.admitted hash (env.ipString c.remoteAddr.ip))
  have held : admitted.conns i = some { c with
      phase := .admitted hash (env.ipString c.remoteAddr.ip) } := by
    simp [admitted, World.enter, World.onUser, found]
  have parsed := @eval_parse env admitted i _ (readRequest env) _ held
  simp only [takeSlot, Prog.eval_ask, step, registered, found, free, Option.isSome_some, if_true,
    Option.elim_some]
  rw [Prog.eval_bind, parsed]
  cases result : done.1 with
  | error | ok =>
    simp only [done] at result
    simp [Except.map, done, held]

theorem yields_request {m : Metadata} (fits : m.address.Fits)
    (short : m.address.addressType = .domainName → m.address.domainName.length < 254) :
    Parser.Yields readInbound contentOf ServesInbound (readRequest env)
      (crlf ++ (m.writeTo ++ (crlf ++ [])))
      (.ok { command := m.command, address := m.address.received env.parseIP }) := by
  refine Parser.yields_full_bind inbound_lawful rfl ?_
  refine Parser.yields_bind (yields_metadata inbound_lawful fits short) ?_
  exact Parser.yields_full_bind inbound_lawful rfl (Parser.yields_pure _)

theorem yields_request_long {m : Metadata} (fits : m.address.Fits)
    (domain : m.address.addressType = .domainName) (long : 254 ≤ m.address.domainName.length) :
    ∃ taken rest, m.writeTo = taken ++ rest ∧
      Parser.Yields readInbound contentOf ServesInbound (readRequest env) (crlf ++ (taken ++ []))
        (.error (.metadata (.address .panic))) := by
  obtain ⟨taken, rest, split, panics⟩ :=
    @yields_metadata_long _ _ _ _ env.parseIP inbound_lawful m domain long fits
  refine ⟨taken, rest, split, ?_⟩
  refine Parser.yields_full_bind inbound_lawful rfl ?_
  exact Parser.yields_bind panics (Parser.yields_pure _)

end Auth

/-! ### What arrives -/

/-- With or without a PROXY header in front. -/
inductive Entry where
  | plain
  | proxied (header : Bytes) (remoteAddr : TCPAddr)

def Entry.Arrives (env : Env) (tcp : TCPConn) (bytes : Bytes) : Entry → Prop
  | .plain => tcp.segments.content = bytes
  | .proxied header remoteAddr =>
    ValidHeader env.parseIP tcp header remoteAddr ∧ tcp.segments.content = header ++ bytes

/-- What the transport makes of an accepted connection. -/
def Entry.accept (env : Env) (tcp : TCPConn) : Entry → Except ProxyError Conn
  | .plain =>
    .ok { wire := .direct tcp.segments, localAddr := tcp.localAddr, remoteAddr := tcp.remoteAddr }
  | .proxied _ _ => readProxyProtocolV1 env.parseIP tcp

theorem Entry.accept_ok {env : Env} {tcp : TCPConn} {bytes : Bytes} {entry : Entry}
    (arrives : entry.Arrives env tcp bytes) :
    ∃ conn, entry.accept env tcp = .ok conn ∧ conn.wire.content = bytes ∧ conn.wire.Ready := by
  cases entry with
  | plain => exact ⟨_, rfl, arrives, trivial⟩
  | proxied header remoteAddr =>
    obtain ⟨conn, accepted, -, content, ready⟩ := readProxyProtocolV1_ok arrives.1 arrives.2
    exact ⟨conn, accepted, content, ready⟩

/-- `Auth` on connection `i` succeeds with this request, and what follows is the payload: any
reads return a beginning of it, and enough of them all of it. -/
def Recovers (env : Env) (w : World) (i : Nat) (m : Metadata) (payload : Bytes) : Prop :=
  ∃ accepted w' c, (auth env i).eval (step env) w = (.ok accepted, w') ∧ w'.conns i = some c ∧
    accepted.metadata.command = m.command ∧ accepted.metadata.address.Same m.address ∧
    ∀ sizes : List Nat, (∀ n ∈ sizes, 0 < n) →
      (readInbound.many c.reader.stopBuffering sizes).1 <+: payload ∧
        (payload.length ≤ sizes.length →
          (readInbound.many c.reader.stopBuffering sizes).1 = payload)

/-- The first read of the connection returns a whole hash. -/
def FirstReadFull (conn : Conn) : Prop := (conn.wire.read 56).1.1.length = 56

instance (conn : Conn) : Decidable (FirstReadFull conn) := inferInstanceAs (Decidable (_ = _))

theorem start_read (conn : Conn) (n : Nat) :
    (readInbound (Inbound.start conn).reader n).1.1 = (conn.wire.read n).1.1 :=
  read_bytes Wire.read rfl n

variable {conn : Conn} {reader : RewindReader Wire}

/-- The first read, if it is full, takes exactly the hash. -/
theorem first_read {hash rest : Bytes} (ready : conn.wire.Ready)
    (content : conn.wire.content = hash ++ rest) (long : hash.length = 56)
    (whole : FirstReadFull conn) :
    ∃ reader, readInbound (Inbound.start conn).reader 56 = ((hash, none), reader) ∧
      contentOf reader = rest ∧ ServesInbound (bufferLimit - 56) reader := by
  have start : contentOf (Inbound.start conn).reader = hash ++ rest := content
  have more : contentOf (Inbound.start conn).reader ≠ [] := by
    rw [start]
    intro empty
    rw [(append_eq_nil_iff.mp empty).1] at long
    cases long
  obtain ⟨bytes, ran, -, -, split, ready'⟩ := inbound_lawful.step bufferLimit _ 56
    ⟨fun _ => Nat.le_of_eq (Nat.zero_add _), fun _ => ready⟩ (by decide) (by decide) more
  have size : bytes.length = 56 := by
    rw [← whole, ← start_read, ran]
  rw [start] at split
  obtain ⟨rfl, left⟩ := append_inj split (by rw [long, size])
  rw [size] at ready'
  refine ⟨_, Prod.ext ran rfl, left.symm, ready'⟩

theorem payload_follows {payload : Bytes} {k : Nat} (content : contentOf reader = payload)
    (ready : ServesInbound k reader) (sizes : List Nat) (positive : ∀ n ∈ sizes, 0 < n) :
    (readInbound.many reader.stopBuffering sizes).1 <+: payload ∧
      (payload.length ≤ sizes.length →
        (readInbound.many reader.stopBuffering sizes).1 = payload) := by
  have same : contentOf reader.stopBuffering = payload := content
  -- once the buffering has stopped, nothing limits what can be read
  have serves (k' : Nat) : ServesInbound k' reader.stopBuffering :=
    ⟨fun never => (by cases never), ready.2⟩
  obtain ⟨split, drained⟩ := Read.many_lawful inbound_lawful positive serves
  rw [same] at split drained
  refine ⟨⟨_, split⟩, fun enough => ?_⟩
  rw [drained enough, append_nil] at split
  exact split

theorem recovers_iff {env : Env} {hash : Bytes} {m : Metadata} {payload : Bytes}
    (content : conn.wire.content = writeHeader hash m payload) (ready : conn.wire.Ready)
    (long : hash.length = 56) (fits : m.address.Fits) {w : World} (i : Nat) {u : User}
    (registered : w.users hash = some u) :
    Recovers env (w.accept i conn) i m payload ↔
      FirstReadFull conn ∧ (u.addIP (env.ipString conn.remoteAddr.ip)).1 = true ∧
        m.address.Plain env.parseIP := by
  have found : (w.accept i conn).conns i = some (.start conn) := by simp [World.accept]
  have request_short : m.writeTo.length + 4 ≤ bufferLimit - 56 := by
    have := Address.writeTo_length fits
    simp only [Metadata.writeTo, bufferLimit, length_append, length_cons,
      length_nil]
    omega
  by_cases whole : FirstReadFull conn
  · obtain ⟨reader, got, left, ready₁⟩ := first_read ready content long whole
    have held : ((w.accept i conn).onConn i fun c => { c with reader := reader }).conns i =
        some { Inbound.start conn with reader := reader } := by simp [found]
    have onward : ∀ accepted w', (auth env i).eval (step env) (w.accept i conn) = (.ok accepted, w') ↔
        (takeSlot env i hash).eval (step env)
          ((w.accept i conn).onConn i fun c => { c with reader := reader }) = (.ok accepted, w') := by
      intro accepted w'
      rw [auth_with_hash found got long]
    by_cases free : (u.addIP (env.ipString conn.remoteAddr.ip)).1 = true
    · obtain ⟨result, stream⟩ := @takeSlot_with_slot env _ i _ u hash held registered free
      by_cases short : m.address.addressType = .domainName → m.address.domainName.length < 254
      · -- the whole header is read
        obtain ⟨reader', parsed, rest, ready₂⟩ := @yields_request env m fits short _ reader payload
          (by rw [left]; simp) ready₁ (by
            simp only [crlf, length_append, length_cons, length_nil]
            omega)
        rw [parsed] at result stream
        constructor
        · rintro ⟨accepted, w', c, ran, -, -, same, -⟩
          rw [(onward accepted w').mp ran] at result
          cases Except.ok.inj result
          exact ⟨whole, free, fun domain =>
            ⟨short domain, (received_same_iff fits).mp same domain⟩⟩
        · rintro ⟨-, -, plain⟩
          obtain ⟨c, last, rfl⟩ := Option.map_eq_some_iff.mp stream
          refine ⟨_, _, c, (onward _ _).mpr (Prod.ext result rfl), last, rfl, ?_, ?_⟩
          · exact (received_same_iff fits).mpr fun domain => (plain domain).2
          · exact fun sizes positive => payload_follows rest ready₂ sizes positive
      · -- the buffer for the name is too small
        obtain ⟨domain, large⟩ := Classical.not_imp.mp short
        obtain ⟨taken, rest, split, panics⟩ :=
          @yields_request_long env m fits domain (Nat.le_of_not_lt large)
        obtain ⟨reader', parsed, -, -⟩ := panics _ reader (rest ++ (crlf ++ payload))
          (by rw [left, split]; simp) ready₁ (by
            rw [split] at request_short
            simp only [crlf, length_append, length_cons, length_nil] at request_short ⊢
            omega)
        rw [parsed] at result
        constructor
        · rintro ⟨accepted, w', c, ran, -⟩
          rw [(onward accepted w').mp ran] at result
          cases result
        · rintro ⟨-, -, plain⟩
          exact absurd (plain domain).1 large
    · have refused := @takeSlot_without_slot env _ i _ u hash held registered
        (Bool.eq_false_iff.mpr free)
      constructor
      · rintro ⟨accepted, w', c, ran, -⟩
        rw [(onward accepted w').mp ran] at refused
        cases refused
      · rintro ⟨-, here, -⟩
        exact absurd here free
  · have short : (readInbound (Inbound.start conn).reader 56).1.1.length ≠ 56 := by
      rwa [start_read]
    constructor
    · rintro ⟨accepted, w', c, ran, -⟩
      have failed := @auth_without_hash env _ i _ found short
      rw [ran] at failed
      cases failed
    · rintro ⟨here, -⟩
      exact absurd here whole

/-- A request arrives as it was sent exactly when the first read returns the whole hash, the
user has a slot for the client, and a domain name is short enough and no IP address. -/
theorem request_recovered_iff (env : Env) (entry : Entry) (tcp : TCPConn) (hash : Bytes)
    (long : hash.length = 56) (m : Metadata) (fits : m.address.Fits) (payload : Bytes)
    (arrives : entry.Arrives env tcp (writeHeader hash m payload)) (w : World) (i : Nat) (u : User)
    (registered : w.users hash = some u) :
    (∃ conn, entry.accept env tcp = .ok conn ∧ Recovers env (w.accept i conn) i m payload) ↔
      ∃ conn, entry.accept env tcp = .ok conn ∧ FirstReadFull conn ∧
        (u.addIP (env.ipString conn.remoteAddr.ip)).1 = true ∧ m.address.Plain env.parseIP := by
  obtain ⟨conn, accepted, content, ready⟩ := Entry.accept_ok arrives
  constructor
  · rintro ⟨conn', accepted', recovers⟩
    cases accepted.symm.trans accepted'
    exact ⟨conn, accepted, (recovers_iff content ready long fits i registered).mp recovers⟩
  · rintro ⟨conn', accepted', condition⟩
    cases accepted.symm.trans accepted'
    exact ⟨conn, accepted, (recovers_iff content ready long fits i registered).mpr condition⟩

namespace Sample

def env : Env where
  parseIP _ := none
  ipString ip := toString ip

def hash : Bytes := List.replicate 56 97

def world : World where
  users key := if key = hash then some { maxIPNum := 1 } else none

def request : Metadata where
  command := 1
  address := { addressType := .domainName, domainName := ascii "example.org", port := 443 }

def header : Bytes := writeHeader hash request (ascii "hello")

/-- The header arrives in two segments, the first of this length. -/
def tcp (first : Nat) (cut : [] ∉ [header.take first, header.drop first]) : TCPConn where
  segments := ⟨[header.take first, header.drop first], cut⟩
  localAddr := ⟨[127, 0, 0, 1], 443⟩
  remoteAddr := ⟨[192, 0, 2, 1], 50000⟩

end Sample

theorem request_recovered_after_hash :
    ∃ conn, Entry.plain.accept Sample.env (Sample.tcp 56 (by decide)) = .ok conn ∧
      Recovers Sample.env (Sample.world.accept 0 conn) 0 Sample.request (ascii "hello") :=
  (request_recovered_iff Sample.env .plain (Sample.tcp 56 (by decide)) Sample.hash (by decide)
    Sample.request (by decide) (ascii "hello") rfl Sample.world 0 { maxIPNum := 1 } rfl).mpr
    ⟨_, rfl, by decide, by decide, by decide⟩

/-- A segment that ends inside the hash makes the server refuse a valid request. -/
theorem hash_in_two_segments_is_refused :
    Entry.plain.Arrives Sample.env (Sample.tcp 55 (by decide)) Sample.header ∧
      Sample.request.address.Fits ∧ (Sample.world.users Sample.hash).isSome ∧
      ∀ conn, Entry.plain.accept Sample.env (Sample.tcp 55 (by decide)) = .ok conn →
        ((auth Sample.env 0).eval (step Sample.env) (Sample.world.accept 0 conn)).1 =
          .error .readHash := by
  refine ⟨rfl, by decide, by decide, ?_⟩
  rintro conn ⟨⟩
  rfl

end TrojanGo.Trojan
