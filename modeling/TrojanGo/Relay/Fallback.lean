import TrojanGo.Trojan.Handshake
import TrojanGo.Tunnel.Encodings
import TrojanGo.Tunnel.Trial

/-!
# Falling back

A reader on trial keeps at most 1 MiB, and the TLS server leaves the keeping switched on when it
hands over a connection whose handshake has failed. The TLS handshake, the HTTP parser and the
websocket handshake are parameters. The fallback server does not finish before the client.
-/
namespace TrojanGo.Fallback

open Lib Tunnel RewindReader Segments Parser
open Trojan (AuthError User)

/-! ### The servers -/

/-- What the servers look at in a request that `http.ReadRequest` has parsed. -/
structure Request where
  path : String
  /-- `Header.Get("Upgrade")` -/
  upgrade : String

/-- What becomes of a connection that a server does not understand. -/
inductive Refusal (ρ : Type) where
  | redirected (inboundConn : RewindReader ρ) (redirectTo : Address)
  | answered (response : Bytes)
  | closed
  /-- an error is returned, and the connection is left alone -/
  | dropped

/-- `tls.Server`. -/
structure TLSServer where
  fallbackAddress : Option Address := none
  httpResp : Option Bytes := none
  /-- `Matches` of the router of services -/
  serviceRouter : Option (String → Bool) := none
  adminServer : Bool := false
  subPath : String := ""
  adminPath : String := ""
  unauthRedirect : String := ""
  nextHTTP : Bool := false

/-- What becomes of a connection in the TLS server. -/
inductive TLSResult where
  /-- the handshake has failed -/
  | refused (refusal : Refusal (Segments UInt8))
  | service (conn : RewindReader (Segments UInt8))
  | admin (conn : RewindReader (Segments UInt8))
  /-- a request that no websocket server waits for -/
  | unclaimed (refusal : Refusal (Segments UInt8))
  | connChan (conn : RewindReader (Segments UInt8))
  | wsChan (conn : RewindReader (Segments UInt8))

namespace TLSServer

def refuse (s : TLSServer) (conn : RewindReader (Segments UInt8)) : Refusal (Segments UInt8) :=
  match s.fallbackAddress, s.httpResp with
  | some redirectTo, _ => .redirected conn redirectTo
  | none, some response => .answered response
  | none, none => .closed

def isAdmin (s : TLSServer) (path : String) : Bool :=
  s.adminServer && (s.subPath != "" && path == s.subPath ||
    s.adminPath != "" && path.startsWith s.adminPath)

def found (location : String) : String :=
  "HTTP/1.1 302 Found\r\nLocation: " ++ location ++
    "\r\nContent-Length: 0\r\nConnection: close\r\n\r\n"

/-- The part behind the handshake. -/
def route (s : TLSServer) (readRequest : Parser UInt8 (Option Request))
    (tlsConn : Segments UInt8) : TLSResult :=
  let sniffed := sniff read 1024 readRequest tlsConn
  let rewindConn := sniffed.2.rewind.stopBuffering
  match sniffed.1 with
  | none => .connChan rewindConn
  | some httpReq =>
    if s.serviceRouter.any fun routes => routes httpReq.path then .service rewindConn
    else if s.isAdmin httpReq.path then .admin rewindConn
    else if s.nextHTTP then .wsChan rewindConn
    else if s.unauthRedirect ≠ "" then
      .unclaimed (.answered (found s.unauthRedirect).toUTF8.toList)
    else .unclaimed (s.refuse rewindConn)

/-- The goroutine of `acceptLoop` for one connection. A handshake that succeeds returns the bytes
that TLS makes of the rest of the connection, in the pieces in which they come. -/
def serve (s : TLSServer) (handshake : Parser UInt8 (Option (Segments UInt8)))
    (readRequest : Parser UInt8 (Option Request)) (conn : Segments UInt8) : TLSResult :=
  let shaken := sniff read 4096 handshake conn
  match shaken.1 with
  -- the connection is rewound, but goes on keeping what is read
  | none => .refused (s.refuse shaken.2.rewind)
  | some tlsConn => s.route readRequest tlsConn

end TLSServer

variable {ρ : Type}

/-- The websocket and the trojan server redirect unless the port is 0. The former looks at the
text of the address, which ends with the port. -/
def refuse (redirAddr : Address) (conn : RewindReader ρ) : Refusal ρ :=
  if redirAddr.port ≠ 0 then .redirected conn redirAddr else .closed

/-- `websocket.Server`. -/
structure WebsocketServer where
  enabled : Bool := true
  path : String
  redirAddr : Address

inductive WebsocketResult (ρ : Type) where
  /-- the connection is handed over as it is, or closed -/
  | disabled (conn : ρ) (redirectTo : Option Address)
  | refused (refusal : Refusal ρ)
  | accepted (conn : RewindReader ρ)

namespace WebsocketServer

/-- The request asks for a websocket at the path of the server. -/
def Invited (s : WebsocketServer) (toLower : String → String) (req : Request) : Prop :=
  toLower req.upgrade = "websocket" ∧ req.path = s.path

instance (s : WebsocketServer) (toLower : String → String) (req : Request) :
    Decidable (s.Invited toLower req) :=
  inferInstanceAs (Decidable (_ ∧ _))

/-- `AcceptConn`; `serveHTTP` says whether a websocket comes out of a request before the
timeout. -/
def acceptConn (s : WebsocketServer) (inner : Read ρ UInt8) (toLower : String → String)
    (readRequest : Parser UInt8 (Option Request)) (serveHTTP : Request → Bool) (conn : ρ) :
    WebsocketResult ρ :=
  if s.enabled then
    let sniffed := sniff inner 512 readRequest conn
    match sniffed.1 with
    | none => .refused (refuse s.redirAddr sniffed.2.rewind.stopBuffering)
    | some req =>
      if s.Invited toLower req then
        if serveHTTP req then .accepted sniffed.2.stopBuffering
        -- neither rewound nor redirected
        else .refused .dropped
      else .refused (refuse s.redirAddr sniffed.2.rewind.stopBuffering)
  else .disabled conn (if s.redirAddr.port ≠ 0 then some s.redirAddr else none)

end WebsocketServer

/-! ### `Auth` as a parser -/

/-- What the authenticator makes of a hash. -/
def admission (users : Bytes → Option User) (ip : String) (hash : Bytes) : Except AuthError Unit :=
  match users hash with
  | none => .error .invalidHash
  | some user => if (user.addIP ip).1 then .ok () else .error .ipLimit

/-- What `Auth` reads, on any connection. -/
def authReads (env : Trojan.Env) (grants : Bytes → Except AuthError Unit) :
    Parser UInt8 (Except AuthError Metadata) := do
  let got ← read 56
  if got.2.isSome ∨ got.1.length ≠ 56 then return .error .readHash
  else
    match grants got.1 with
    | .error reason => return .error reason
    | .ok _ => Trojan.readRequest env

inductive TrojanResult (ρ : Type) where
  | refused (reason : AuthError) (refusal : Refusal ρ)
  /-- nothing recovers, and the process ends -/
  | panicked
  | authenticated (metadata : Metadata) (conn : RewindReader ρ)

/-- The goroutine of `acceptLoop` of the trojan server, up to `Auth`. -/
def serveTrojan (inner : Read ρ UInt8) (env : Trojan.Env) (grants : Bytes → Except AuthError Unit)
    (redirAddr : Address) (conn : ρ) : TrojanResult ρ :=
  let sniffed := sniff inner 128 (authReads env grants) conn
  match sniffed.1 with
  | .error (.metadata (.address .panic)) => .panicked
  | .error reason => .refused reason (refuse redirAddr sniffed.2.rewind.stopBuffering)
  | .ok metadata => .authenticated metadata sniffed.2.stopBuffering

/-! ### The redirector -/

/-- The connection is redirected to this address, and the bytes are what is copied from it until
the copying ends. -/
def Refusal.Receives (inner : Read ρ UInt8) (refusal : Refusal ρ) (address : Address)
    (bytes : Bytes) : Prop :=
  ∃ conn fuel, refusal = .redirected conn address ∧
    (read inner).copy copySize fuel conn = some bytes

def TrojanResult.Receives (inner : Read ρ UInt8) (result : TrojanResult ρ) (address : Address)
    (bytes : Bytes) : Prop :=
  ∃ reason refusal, result = .refused reason refusal ∧ refusal.Receives inner address bytes

/-! ### `Auth` -/

section

variable (parseIP : Bytes → Option IP)

include parseIP

theorem readDomain_within : (readDomain parseIP).Within 256 := by
  refine within_ask (by decide) fun first => ?_
  cases first with
  | error reason => trivial
  | ok byte =>
    -- whatever length is announced, a byte holds what is asked for
    refine within_ask (Nat.le_of_lt_succ (UInt8.toNat_lt _)) fun second => ?_
    cases second with
    | error reason => trivial
    | ok buf =>
      dsimp only
      split
      · trivial
      · split <;> trivial

theorem readAddress_within :
    (Address.readFrom parseIP).Within 257 := by
  refine within_ask (by decide) fun first => ?_
  cases first with
  | error reason => trivial
  | ok byte =>
    dsimp only
    split
    · exact within_ask (by decide) fun second => by cases second <;> trivial
    · split
      · exact within_ask (by decide) fun second => by cases second <;> trivial
      · split
        · refine within_bind (k := 0) (readDomain_within parseIP) fun read => ?_
          rcases read with reason | ⟨n, address⟩ <;> trivial
        · trivial

theorem readMetadata_within :
    (Metadata.readFrom parseIP).Within 258 := by
  refine within_ask (by decide) fun first => ?_
  cases first with
  | error reason => trivial
  | ok byte =>
    refine within_bind (k := 0) (readAddress_within parseIP) fun read => ?_
    rcases read with reason | ⟨n, address⟩ <;> trivial

end

/-- `Auth` asks for far less than can be kept. -/
theorem authReads_within (env : Trojan.Env) (grants : Bytes → Except AuthError Unit) :
    (authReads env grants).Within 318 := by
  refine within_ask (by decide) fun got => ?_
  split
  · trivial
  split
  · trivial
  refine within_ask (by decide) fun line => ?_
  cases line with
  | error reason => trivial
  | ok crlf =>
    refine within_bind (k := 2) (readMetadata_within env.parseIP) fun read => ?_
    rcases read with reason | ⟨n, metadata⟩
    · trivial
    · exact within_ask (by decide) fun line => by cases line <;> trivial

/-- The parser is `Auth`, as far as its reads go. -/
theorem auth_eval {env : Trojan.Env} {w : Trojan.World} {i : Nat} {c : Trojan.Inbound}
    (found : w.conns i = some c) :
    let ran := (Trojan.auth env i).eval (Trojan.step env) w
    let done := (authReads env (admission w.users (env.ipString c.remoteAddr.ip))).eval
      (ReadOp.step Trojan.readInbound) c.reader
    ran.1.map Trojan.Accepted.metadata = done.1 ∧
      (ran.2.conns i).map Trojan.Inbound.reader = some done.2 := by
  intro ran done
  rcases got : Trojan.readInbound c.reader 56 with ⟨⟨hash, err⟩, reader⟩
  by_cases refused : err.isSome ∨ hash.length ≠ 56
  · simp [ran, done, Trojan.auth, authReads, Prog.eval_ask, Trojan.step, found, ReadOp.step, got,
      refused, Except.map]
  obtain ⟨rfl, long⟩ : err = none ∧ hash.length = 56 := by simpa [not_or] using refused
  let w' := w.onConn i fun c => { c with reader := reader }
  have found' : w'.conns i = some { c with reader := reader } := by simp [w', found]
  have goes : ran = (Trojan.takeSlot env i hash).eval (Trojan.step env) w' :=
    Trojan.auth_with_hash found got long
  have rest : done = Prog.eval (ReadOp.step Trojan.readInbound)
      (match admission w.users (env.ipString c.remoteAddr.ip) hash with
        | .error reason => pure (.error reason)
        | .ok _ => Trojan.readRequest env) reader := by
    simp only [done, authReads, Prog.eval_ask, ReadOp.step, got, if_neg refused]
  -- from here on both have the hash, and look it up
  cases registered : w'.users hash with
  | none =>
    have unknown : admission w.users (env.ipString c.remoteAddr.ip) hash =
        .error .invalidHash := by
      rw [admission, show w.users hash = none from registered]
    rw [goes, rest, unknown]
    simp [Trojan.takeSlot, Prog.eval_ask, Trojan.step, registered, found', Except.map]
  | some u =>
    have known : admission w.users (env.ipString c.remoteAddr.ip) hash =
        if (u.addIP (env.ipString c.remoteAddr.ip)).1 then .ok () else .error .ipLimit := by
      rw [admission, show w.users hash = some u from registered]
    cases free : (u.addIP (env.ipString c.remoteAddr.ip)).1 with
    | false =>
      rw [goes, rest, known, free]
      simp [Trojan.takeSlot, Prog.eval_ask, Trojan.step, registered, found', free, Except.map]
    | true =>
      obtain ⟨result, left⟩ := Trojan.takeSlot_with_slot found' registered free
      rw [goes, rest, known, free, result, left]
      refine ⟨?_, rfl⟩
      simp only [if_true]
      cases ((Trojan.readRequest env).eval (ReadOp.step Trojan.readInbound) reader).1 <;> rfl

theorem auth_eval_request : ∃ w c, w.conns 0 = some c ∧
    ((Trojan.auth Trojan.Sample.env 0).eval (Trojan.step Trojan.Sample.env) w).1.map
      Trojan.Accepted.metadata = .ok Trojan.Sample.request :=
  ⟨Trojan.Sample.world.accept 0 ⟨.direct (.whole Trojan.Sample.header), ⟨[], 0⟩, ⟨[], 0⟩⟩, _, rfl,
    (auth_eval rfl).1.trans rfl⟩

/-! ### What the fallback server receives -/

section

variable {inner : Read ρ UInt8} {conn : RewindReader ρ} {address : Address} {bytes : Bytes}

theorem receives_redirected : (Refusal.redirected conn address).Receives inner address bytes ↔
      ∃ fuel, (read inner).copy copySize fuel conn = some bytes := by
  constructor
  · rintro ⟨conn', fuel, same, copied⟩
    cases same
    exact ⟨fuel, copied⟩
  · rintro ⟨fuel, copied⟩
    exact ⟨conn, fuel, rfl, copied⟩

theorem refuse_receives (configured : address.port ≠ 0) :
    (refuse address conn).Receives inner address bytes ↔
      ∃ fuel, (read inner).copy copySize fuel conn = some bytes := by
  rw [refuse, if_pos configured, receives_redirected]

theorem not_receives_dropped : ¬ (Refusal.dropped : Refusal ρ).Receives inner address bytes := by
  rintro ⟨_, _, never, -⟩
  cases never

end

section Layers

variable {ρ β : Type} {inner : Read ρ UInt8} {content : ρ → Bytes} {ready : ρ → Prop}
  {size : Nat} {p : Parser UInt8 β} {conn : ρ}

section

variable (sound : Sound inner content ready) (calm : ready conn)

include sound calm

/-- A connection that was rewound and is not kept any more. -/
theorem copies_stopped_iff (bytes : Bytes) :
    (∃ fuel, (read inner).copy copySize fuel
        (sniff inner size p conn).2.rewind.stopBuffering = some bytes) ↔
      remaining content (sniff inner size p conn).2.rewind = bytes := by
  have stopped : Calm ready (sniff inner size p conn).2.rewind.stopBuffering :=
    ⟨rfl, sniff_calm sound calm⟩
  exact copies_calm sound stopped bytes

/-- A connection that was rewound and is still kept. -/
theorem copies_rewound_iff :
    (∃ fuel, (read inner).copy copySize fuel (sniff inner size p conn).2.rewind =
        some (content conn)) ↔
      Kept inner content p conn ∧
        Ends inner content (content conn).length (p.eval (ReadOp.step inner) conn).2 := by
  by_cases kept : Kept inner content p conn
  · obtain ⟨-, exact, raw⟩ := @sniff_kept _ _ _ _ sound.faithful size _ _ kept
    have whole := (@remaining_rewind_iff _ _ _ _ sound.faithful size _ _).mpr kept
    have total : (sniff inner size p conn).2.rewind.buf.length +
        (content (sniff inner size p conn).2.rewind.raw).length = (content conn).length := by
      rw [← whole, remaining_rewind, List.length_append]
      rfl
    have on : (sniff inner size p conn).2.rewind.buffering = true := exact.buffering
    obtain ⟨bytes, copied, iff⟩ :=
      copy_keeping sound on exact.limited (sniff_calm sound calm) (Nat.lt_succ_self _)
    rw [whole, total] at iff
    rw [and_iff_right kept, ← raw]
    refine Iff.trans ⟨?_, ?_⟩ iff
    · rintro ⟨fuel, done⟩
      exact Read.copy_unique copied done
    · rintro rfl
      exact ⟨_, copied⟩
  · refine ⟨?_, fun both => absurd both.1 kept⟩
    rintro ⟨fuel, done⟩
    -- even if all of it were copied, it would be too short
    obtain ⟨rest, split⟩ := (faithful sound.faithful).copy done
    have short := @remaining_rewind_lt _ _ _ _ sound.faithful size _ _ kept
    rw [split, List.length_append] at short
    omega

omit calm in
theorem auth_kept (env : Trojan.Env) (grants : Bytes → Except AuthError Unit) :
    Kept inner content (authReads env grants) conn := by
  have left := (authReads_within env grants).left sound.faithful sound.bounded conn
  exact left.trans (Nat.add_le_add_right (by decide) _)

/-- The trojan server passes on whatever connection it is given. -/
theorem trojan_receives {env : Trojan.Env} {grants : Bytes → Except AuthError Unit}
    {redirAddr : Address} {reason : AuthError} {refusal : Refusal ρ}
    (refused : serveTrojan inner env grants redirAddr conn = .refused reason refusal)
    (configured : redirAddr.port ≠ 0) (bytes : Bytes) :
    refusal.Receives inner redirAddr bytes ↔ content conn = bytes := by
  have whole := (@remaining_rewind_iff _ _ _ _ sound.faithful 128 _ conn).mpr
    (auth_kept sound env grants)
  simp only [serveTrojan] at refused
  split at refused
  · cases refused
  · cases refused
    rw [refuse_receives configured, copies_stopped_iff sound calm, whole]
  · cases refused

theorem readRequest_panic_iff (env : Trojan.Env) :
    ((Trojan.readRequest env).eval (ReadOp.step inner) conn).1 =
        .error (.metadata (.address .panic)) ↔ AnnouncesLong ((content conn).drop 3) := by
  have only : (Trojan.readRequest env).Only ReadOp.IsFull := by
    refine .step trivial fun line => ?_
    cases line with
    | error reason => trivial
    | ok crlf =>
      refine .bind readMetadata_only fun read => ?_
      rcases read with reason | ⟨n, metadata⟩
      · trivial
      · exact .step trivial fun line => by cases line <;> trivial
  obtain ⟨_, ran, -, -⟩ := eval_parse sound.lawful only fun _ => calm
  rw [ran, Trojan.readRequest, parse_full_bind]
  split
  next enough =>
    have panics := @readMetadata_panic_iff env.parseIP ((content conn).drop 2)
    rw [List.tail_drop] at panics
    rw [parse_bind, ← panics]
    rcases (Metadata.readFrom env.parseIP).parse ((content conn).drop 2) with
      ⟨reason | ⟨n, metadata⟩, rest⟩
    · simp
    · dsimp only
      rw [parse_full_bind]
      split <;> simp
  next short =>
    have nothing : (content conn).drop 3 = [] := List.drop_eq_nil_of_le (by omega)
    simp [nothing, AnnouncesLong]

/-- The hash of a user who is admitted is read at once, and behind the command a name of 254 or 255
bytes is announced. -/
def Overflows (inner : Read ρ UInt8) (content : ρ → Bytes) (grants : Bytes → Except AuthError Unit)
    (conn : ρ) : Prop :=
  ∃ hash conn', inner conn 56 = ((hash, none), conn') ∧ hash.length = 56 ∧
    grants hash = .ok () ∧ AnnouncesLong ((content conn).drop 59)

theorem trojan_panics_iff (env : Trojan.Env) (users : Bytes → Option User) (ip : String)
    (redirAddr : Address) :
    serveTrojan inner env (admission users ip) redirAddr conn = .panicked ↔
      Overflows inner content (admission users ip) conn := by
  have panicked : serveTrojan inner env (admission users ip) redirAddr conn = .panicked ↔
      ((authReads env (admission users ip)).eval (ReadOp.step inner) conn).1 =
        .error (.metadata (.address .panic)) := by
    rw [← (@sniff_kept _ _ _ _ sound.faithful 128 _ _ (auth_kept sound env _)).1, serveTrojan]
    split <;> simp_all
  rw [panicked]
  rcases got : inner conn 56 with ⟨⟨hash, err⟩, conn'⟩
  simp only [Overflows, got, authReads, Prog.eval_ask, ReadOp.step]
  by_cases refused : err.isSome ∨ hash.length ≠ 56
  · rw [if_pos refused]
    grind [Prog.eval_pure]
  rw [if_neg refused]
  obtain ⟨rfl, long⟩ : err = none ∧ hash.length = 56 := by simpa [not_or] using refused
  have behind : (content conn).drop 59 = (content conn').drop 3 := by
    have split := sound.faithful conn 56
    rw [got] at split
    rw [split, List.drop_append, long]
    simp [long]
  have ready' : ready conn' := by simpa [got] using sound.stays conn 56 calm
  cases granted : admission users ip hash with
  | error reason =>
    -- the authenticator does not panic
    grind [admission, Prog.eval_pure]
  | ok _ =>
    have panics := readRequest_panic_iff sound ready' env
    grind

end

section Websocket

variable {s : WebsocketServer} {toLower : String → String}
  {readRequest : Parser UInt8 (Option Request)} {serveHTTP : Request → Bool} {refusal : Refusal ρ}

/-- Only a request that the library is not asked to answer goes to the redirector. -/
theorem acceptConn_refused
    (refused : s.acceptConn inner toLower readRequest serveHTTP conn = .refused refusal) :
    (∀ req, (sniff inner 512 readRequest conn).1 = some req → ¬ s.Invited toLower req) ∧
        refusal =
          refuse s.redirAddr (sniff inner 512 readRequest conn).2.rewind.stopBuffering ∨
      (∃ req, (sniff inner 512 readRequest conn).1 = some req ∧ s.Invited toLower req) ∧
        refusal = .dropped := by
  grind [WebsocketServer.acceptConn]

variable (sound : Sound inner content ready) (calm : ready conn)
  (refused : s.acceptConn inner toLower readRequest serveHTTP conn = .refused refusal)
  (configured : s.redirAddr.port ≠ 0)

include sound calm refused configured

theorem websocket_receives_iff :
    refusal.Receives inner s.redirAddr (content conn) ↔
      Kept inner content readRequest conn ∧
        ∀ req, (readRequest.eval (ReadOp.step inner) conn).1 = some req →
          ¬ s.Invited toLower req := by
  have told (kept : Kept inner content readRequest conn) :=
    (@sniff_kept _ _ _ _ sound.faithful 512 _ _ kept).1
  rcases acceptConn_refused refused with ⟨unfit, rfl⟩ | ⟨⟨req, found, invited⟩, rfl⟩
  · rw [refuse_receives configured, copies_stopped_iff sound calm,
      remaining_rewind_iff sound.faithful]
    exact ⟨fun kept => ⟨kept, told kept ▸ unfit⟩, And.left⟩
  · -- the library has answered the client itself, and nobody else gets to read the request
    refine iff_of_false not_receives_dropped fun ⟨kept, unfit⟩ => ?_
    exact unfit req (told kept ▸ found) invited

/-- The websocket server adds nothing. -/
theorem websocket_receives_length {bytes : Bytes}
    (received : refusal.Receives inner s.redirAddr bytes) :
    bytes.length ≤ (content conn).length := by
  rcases acceptConn_refused refused with ⟨-, rfl⟩ | ⟨-, rfl⟩
  · rw [refuse_receives configured, copies_stopped_iff sound calm] at received
    subst received
    by_cases kept : Kept inner content readRequest conn
    · rw [(remaining_rewind_iff sound.faithful).mpr kept]
    · exact (remaining_rewind_lt sound.faithful kept).le
  · exact absurd received not_receives_dropped

end Websocket

end Layers

section TLS

variable {s : TLSServer} {handshake : Parser UInt8 (Option (Segments UInt8))}
  {readRequest : Parser UInt8 (Option Request)} {client plain : Segments UInt8}
  {conn : RewindReader (Segments UInt8)}

/-- Behind the handshake the connection is always handed on in the same state. -/
theorem route_cases (s : TLSServer) (readRequest : Parser UInt8 (Option Request))
    (plain : Segments UInt8) :
    let rewound := (sniff read 1024 readRequest plain).2.rewind.stopBuffering
    s.route readRequest plain = .connChan rewound ∨ s.route readRequest plain = .service rewound ∨
      s.route readRequest plain = .admin rewound ∨ s.route readRequest plain = .wsChan rewound ∨
      ∃ refusal, s.route readRequest plain = .unclaimed refusal := by
  grind [TLSServer.route]

theorem serve_refused {refusal : Refusal (Segments UInt8)}
    (refused : s.serve handshake readRequest client = .refused refusal) :
    refusal = s.refuse (sniff read 4096 handshake client).2.rewind := by
  grind [TLSServer.serve, route_cases]

theorem serve_handed (shaken : (sniff read 4096 handshake client).1 = some plain)
    (served : s.serve handshake readRequest client = .connChan conn ∨
      s.serve handshake readRequest client = .wsChan conn) :
    conn = (sniff read 1024 readRequest plain).2.rewind.stopBuffering := by
  grind [TLSServer.serve, route_cases]

end TLS

theorem handed_content {readRequest : Parser UInt8 (Option Request)} {plain : Segments UInt8} :
    remaining content
        (sniff read 1024 readRequest plain).2.rewind.stopBuffering = plain.content ↔
      Kept read content readRequest plain :=
  remaining_rewind_iff faithful

theorem handed_calm (readRequest : Parser UInt8 (Option Request)) (plain : Segments UInt8) :
    Calm (fun _ => True) (sniff read 1024 readRequest plain).2.rewind.stopBuffering :=
  ⟨rfl, trivial⟩

/-- The fallback server receives a connection from its first byte to its last

* when the TLS handshake fails, if and only if the handshake takes at most 1 MiB and nothing is
  left once more than 1 MiB was read in all;
* when the websocket handshake fails, if and only if the request can be read within 1 MiB by both
  servers and is not one that the websocket library turns down;
* when the trojan authentication fails, if and only if the TLS server finds within 1 MiB that
  there is no request, and `Auth` does not panic. -/
theorem fallback_receives_iff (tls : TLSServer) (websocket : WebsocketServer) (redirAddr : Address)
    (handshake : Parser UInt8 (Option (Segments UInt8)))
    (readRequest : Parser UInt8 (Option Request)) (toLower : String → String)
    (serveHTTP : Request → Bool) (env : Trojan.Env) (users : Bytes → Option User) (ip : String)
    (client : Segments UInt8) :
    (∀ refusal address, tls.serve handshake readRequest client = .refused refusal →
      tls.fallbackAddress = some address →
      (refusal.Receives read address client.content ↔
        Kept read content handshake client ∧
          Ends read content client.content.length
            (handshake.eval (ReadOp.step read) client).2)) ∧
    (∀ plain conn refusal, (sniff read 4096 handshake client).1 = some plain →
      tls.serve handshake readRequest client = .wsChan conn →
      websocket.acceptConn (read read) toLower readRequest serveHTTP conn =
        .refused refusal →
      websocket.redirAddr.port ≠ 0 →
      (refusal.Receives (read read) websocket.redirAddr plain.content ↔
        Kept read content readRequest plain ∧
          Kept (read read) (remaining content)
            readRequest conn ∧
          ∀ req, (readRequest.eval (ReadOp.step (read read)) conn).1 =
            some req → ¬ websocket.Invited toLower req)) ∧
    (∀ plain conn result, (sniff read 4096 handshake client).1 = some plain →
      tls.serve handshake readRequest client = .connChan conn →
      serveTrojan (read read) env (admission users ip) redirAddr conn = result →
      (∀ metadata conn', result ≠ .authenticated metadata conn') →
      redirAddr.port ≠ 0 →
      (result.Receives (read read) redirAddr plain.content ↔
        Kept read content readRequest plain ∧
          ¬ Overflows (read read) (remaining content) (admission users ip) conn)) := by
  refine ⟨?_, ?_, ?_⟩
  · intro refusal address refused configured
    rw [serve_refused refused, TLSServer.refuse, configured]
    exact receives_redirected.trans (copies_rewound_iff segments_sound trivial)
  · intro plain conn refusal shaken served refused configured
    obtain rfl := serve_handed shaken (.inr served)
    have calm := handed_calm readRequest plain
    by_cases kept : Kept read content readRequest plain
    · rw [and_iff_right kept, ← handed_content.mpr kept]
      exact websocket_receives_iff segments_sound.rewinding calm refused configured
    · refine ⟨fun received => ?_, fun all => absurd all.1 kept⟩
      have short := websocket_receives_length segments_sound.rewinding calm refused configured
        received
      exact absurd (remaining_rewind_lt faithful kept) (Nat.not_lt.mpr short)
  · intro plain conn result shaken served failed unauthenticated configured
    obtain rfl := serve_handed shaken (.inl served)
    have calm := handed_calm readRequest plain
    have panics := trojan_panics_iff segments_sound.rewinding calm env users ip redirAddr
    rw [failed] at panics
    cases result with
    | refused reason refusal =>
      have receives := trojan_receives segments_sound.rewinding calm failed configured plain.content
      rw [handed_content] at receives
      simp [TrojanResult.Receives, receives, ← panics]
    | panicked => simp [TrojanResult.Receives, ← panics]
    | authenticated metadata conn' => exact absurd rfl (unauthenticated metadata conn')

theorem long_connection_cut {s : TLSServer} {handshake : Parser UInt8 (Option (Segments UInt8))}
    {readRequest : Parser UInt8 (Option Request)} {client : Segments UInt8}
    {refusal : Refusal (Segments UInt8)} {address : Address}
    (refused : s.serve handshake readRequest client = .refused refusal)
    (configured : s.fallbackAddress = some address)
    (long : bufferLimit + copySize < client.content.length) :
    ¬ refusal.Receives read address client.content := by
  rw [serve_refused refused, TLSServer.refuse, configured]
  intro received
  obtain ⟨kept, ends⟩ :=
    (copies_rewound_iff segments_sound trivial).mp (receives_redirected.mp received)
  unfold Kept at kept
  exact not_ends_of_long segments_sound trivial (by omega) long ends

namespace Sample

def web : Address := { addressType := .ipv4, ip := [127, 0, 0, 1], port := 80 }

def tls : TLSServer := { fallbackAddress := some web, nextHTTP := true }

def websocket : WebsocketServer := { path := "/ws", redirAddr := web }

def request : Segments UInt8 := ⟨[[71, 69, 84], [32, 47]], by decide⟩

/-- The header of the first record is not one of TLS. -/
def noTLS : Parser UInt8 (Option (Segments UInt8)) := do
  let _ ← read 5
  return none

def decrypting : Parser UInt8 (Option (Segments UInt8)) := do
  let _ ← read 5
  return some request

def reading (found : Option Request) : Parser UInt8 (Option Request) := do
  let _ ← read 4096
  return found

def elsewhere : Request := { path := "/", upgrade := "" }

def upgrade : Request := { path := "/ws", upgrade := "websocket" }

def env : Trojan.Env := { parseIP := fun _ => none, ipString := fun _ => "" }

def zeros (n : Nat) : Segments UInt8 := .whole (List.replicate n 0)

end Sample

open Sample in
/-- A short request is received as it was sent, whichever server turns it down. -/
theorem short_request_received :
    (∃ refusal, tls.serve noTLS (reading none) request = .refused refusal ∧
      refusal.Receives read web request.content) ∧
    (∃ conn refusal, tls.serve decrypting (reading (some elsewhere)) request = .wsChan conn ∧
      websocket.acceptConn (read read) id (reading (some elsewhere)) (fun _ => false) conn =
        .refused refusal ∧
      refusal.Receives (read read) web request.content) ∧
    (∃ conn, tls.serve decrypting (reading none) request = .connChan conn ∧
      (serveTrojan (read read) env (admission (fun _ => none) "")
        web conn).Receives (read read) web request.content) := by
  refine ⟨⟨_, rfl, ?_⟩, ⟨_, _, rfl, rfl, ?_⟩, ⟨_, rfl, ?_⟩⟩
  · refine ((fallback_receives_iff tls websocket web noTLS (reading none) id (fun _ => false) env
      (fun _ => none) "" request).1 _ _ rfl rfl).mpr ⟨by decide, ends_of_short (by decide)⟩
  · refine ((fallback_receives_iff tls websocket web decrypting (reading (some elsewhere)) id
      (fun _ => false) env (fun _ => none) "" request).2.1 request _ _ rfl rfl rfl (by decide)).mpr
      ⟨by decide, by decide, ?_⟩
    intro req found
    cases found
    decide
  · refine ((fallback_receives_iff tls websocket web decrypting (reading none) id (fun _ => false)
      env (fun _ => none) "" request).2.2 request _ _ rfl rfl rfl (fun _ _ never => by cases never)
      (by decide)).mpr ⟨by decide, ?_⟩
    -- nobody is registered, so nobody is admitted
    rintro ⟨_, _, _, _, admitted, -⟩
    cases admitted

open Sample in
/-- A client that does not speak TLS sends 2 MiB, and the fallback server does not receive them;
a request for a websocket that the library turns down never reaches it. -/
theorem long_request_cut :
    (∃ refusal,
      tls.serve noTLS (reading none) (Sample.zeros (2 * bufferLimit)) = .refused refusal ∧
      ¬ refusal.Receives read web (Sample.zeros (2 * bufferLimit)).content) ∧
    (∃ conn refusal, tls.serve decrypting (reading (some upgrade)) request = .wsChan conn ∧
      websocket.acceptConn (read read) id (reading (some upgrade)) (fun _ => false) conn =
        .refused refusal ∧
      ¬ refusal.Receives (read read) web request.content) := by
  constructor
  · have configured : tls.fallbackAddress = some web := rfl
    have refused : tls.serve noTLS (reading none) (Sample.zeros (2 * bufferLimit)) = .refused
        (.redirected (sniff read 4096 noTLS (Sample.zeros (2 * bufferLimit))).2.rewind web) := rfl
    refine ⟨_, refused, long_connection_cut refused configured ?_⟩
    simp only [Sample.zeros, content_whole, List.length_replicate]
    decide
  · exact ⟨_, _, rfl, rfl, not_receives_dropped⟩

end TrojanGo.Fallback
