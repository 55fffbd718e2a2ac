import TrojanGo.Tunnel.Address

/-!
# Addresses in any bytes

What the reader of addresses does with bytes that nobody wrote on purpose, and which addresses
survive the writer, which cuts the length of a name and the port to their widths.
-/
namespace TrojanGo.Tunnel

open Lib Parser List

variable {parseIP : Bytes → Option IP}

/-! ### Successful reads -/

theorem putUint16_uint16 {bytes : Bytes} (two : bytes.length = 2) :
    putUint16 (uint16 bytes) = bytes := by
  obtain ⟨high, low, rfl⟩ := length_eq_two.mp two
  have lowByte := low.toNat_lt
  simp only [putUint16, uint16, getD_cons_zero, getD_cons_succ, cons.injEq,
    and_true]
  constructor
  · apply UInt8.toNat_inj.mp
    rw [UInt8.toNat_ofNat']
    have highByte := high.toNat_lt
    omega
  · apply UInt8.toNat_inj.mp
    rw [UInt8.toNat_ofNat']
    omega

theorem uint16_lt (bytes : Bytes) : uint16 bytes < 65536 := by
  have high := (bytes.getD 0 0).toNat_lt
  have low := (bytes.getD 1 0).toNat_lt
  unfold uint16
  omega

variable {n : Nat}

theorem toNat_port (small : n < 65536) : ((n : Int) % 65536).toNat = n := by omega

variable {l : Bytes}

theorem cut_name {k : Nat} (enough : k + 2 ≤ l.length) :
    ∃ name two rest, l = name ++ two ++ rest ∧ name.length = k ∧ two.length = 2 := by
  refine ⟨l.take k, (l.drop k).take 2, (l.drop k).drop 2, ?_, ?_, ?_⟩
  · rw [append_assoc, take_append_drop, take_append_drop]
  · rw [length_take]
    omega
  · rw [length_take, length_drop]
    omega

variable {rest : Bytes} {a : Address}

theorem readDomain_ok (parsed : (readDomain parseIP).parse l = (.ok (n, a), rest)) :
    ∃ name port, name.length < 254 ∧ port < 65536 ∧
      l = [UInt8.ofNat name.length] ++ (name ++ putUint16 port) ++ rest ∧
      n = 1 + (name.length + 2) ∧ a = receivedDomain parseIP name port := by
  rw [readDomain] at parsed
  cases l with
  | nil =>
    rw [parse_one_nil] at parsed
    cases parsed
  | cons byte l =>
    -- the buffer has room for as many bytes as the sum of two bytes says
    rw [parse_one_cons] at parsed
    simp only [headD_cons] at parsed
    rw [parse_full_bind] at parsed
    split at parsed
    next enough =>
      simp only [length_take, min_eq_left enough] at parsed
      split at parsed
      · cases parsed
      next fits =>
        -- a sum that has not wrapped around
        have sum : (byte + 2).toNat = byte.toNat + 2 := by
          have bound := byte.toNat_lt
          rw [UInt8.toNat_add] at fits ⊢
          simp only [UInt8.reduceToNat] at fits ⊢
          omega
        have bound : byte.toNat < 254 := by
          have wide := (byte + 2).toNat_lt
          omega
        rw [sum] at parsed enough
        obtain ⟨name, two, rest', rfl, length, pair⟩ := cut_name enough
        have whole : (name ++ two).length = byte.toNat + 2 := by
          rw [length_append, length, pair]
        rw [take_left' whole, drop_left' whole, take_left' length,
          drop_left' length] at parsed
        refine ⟨name, uint16 two, by omega, uint16_lt two, ?_, ?_⟩
        · rw [putUint16_uint16 pair, length, UInt8.ofNat_toNat]
          have left : rest' = rest := by
            cases found : parseIP name <;> simp only [found] at parsed <;> cases parsed <;> rfl
          simp [left]
        · rw [length]
          unfold receivedDomain
          cases found : parseIP name <;> simp only [found] at parsed <;> cases parsed <;>
            exact ⟨rfl, rfl⟩
    · cases parsed

/-- The part behind the type byte of an IP address of the given length. -/
theorem readIP_ok {k : Nat} {addressType : AddressType} {reason : AddressError}
    (parsed : parse (do
      match ← full (k + 2) with
      | .error _ => return .error reason
      | .ok buf =>
        return .ok (1 + (k + 2),
          { addressType := addressType, ip := buf.take k, port := uint16 (buf.drop k) })) l =
      ((.ok (n, a) : Except AddressError (Nat × Address)), rest)) :
    ∃ ip two, l = ip ++ two ++ rest ∧ ip.length = k ∧ two.length = 2 ∧ n = 1 + (k + 2) ∧
      a = { addressType := addressType, ip := ip, port := uint16 two } := by
  rw [parse_full_bind] at parsed
  split at parsed
  next enough =>
    cases parsed
    refine ⟨(l.take (k + 2)).take k, (l.take (k + 2)).drop k, ?_, ?_, ?_, rfl, rfl⟩
    · rw [take_append_drop, take_append_drop]
    · simp only [length_take]
      omega
    · simp only [length_drop, length_take]
      omega
  · cases parsed

/-- What was read is one address as the writer writes it, and the count is its length. -/
theorem readFrom_ok (parsed : (Address.readFrom parseIP).parse l = (.ok (n, a), rest)) :
    ∃ sent : Address, sent.Fits ∧ l = sent.writeTo ++ rest ∧ n = sent.writeTo.length ∧
      a = sent.received parseIP := by
  rw [Address.readFrom] at parsed
  cases l with
  | nil =>
    rw [parse_one_nil] at parsed
    cases parsed
  | cons code l =>
    -- the cases are those of the type byte
    rw [parse_one_cons] at parsed
    dsimp only at parsed
    rw [headD_cons] at parsed
    by_cases v4 : code = 1
    · rw [if_pos v4] at parsed
      obtain ⟨ip, two, rfl, four, pair, rfl, rfl⟩ := readIP_ok (k := 4) parsed
      have small := uint16_lt two
      refine ⟨{ addressType := .ipv4, ip := ip, port := uint16 two }, ?_, ?_, ?_, ?_⟩
      · simp [Address.Fits, to4_self four]
        omega
      · simp [Address.writeTo, AddressType.code, to4_self four, toNat_port small,
          putUint16_uint16 pair, v4]
      · simp [Address.writeTo, to4_self four, four]
      · simp [Address.received, to4_self four]
    rw [if_neg v4] at parsed
    by_cases v6 : code = 4
    · rw [if_pos v6] at parsed
      obtain ⟨ip, two, rfl, sixteen, pair, rfl, rfl⟩ := readIP_ok (k := 16) parsed
      have small := uint16_lt two
      refine ⟨{ addressType := .ipv6, ip := ip, port := uint16 two }, ?_, ?_, ?_, ?_⟩
      · simp [Address.Fits, to16_self sixteen]
        omega
      · simp [Address.writeTo, AddressType.code, to16_self sixteen, toNat_port small,
          putUint16_uint16 pair, v6]
      · simp [Address.writeTo, to16_self sixteen, sixteen]
      · simp [Address.received, to16_self sixteen]
    rw [if_neg v6] at parsed
    by_cases domain : code = 3
    · rw [if_pos domain, parse_bind] at parsed
      rcases outcome : (readDomain parseIP).parse l with ⟨result, left⟩
      rw [outcome] at parsed
      cases result with
      | error reason => cases parsed
      | ok got =>
        cases parsed
        obtain ⟨name, port, short, small, rfl, counted, received⟩ := readDomain_ok outcome
        refine ⟨{ addressType := .domainName, domainName := name, port := port }, ?_, ?_, ?_, ?_⟩
        · simp [Address.Fits]
          omega
        · simp [Address.writeTo, AddressType.code, toNat_port small, domain]
        · simp [Address.writeTo, counted]
          omega
        · simp [Address.received, received]
    · rw [if_neg domain] at parsed
      cases parsed

/-! ### Panics -/

/-- The bytes announce a name of 254 or 255 bytes, and the buffer the reader makes for it, of no
byte or of one, gets filled. -/
def AnnouncesLong (bytes : Bytes) : Prop :=
  [3, 254] <+: bytes ∨ [3, 255] <+: bytes ∧ 2 < bytes.length

instance (bytes : Bytes) : Decidable (AnnouncesLong bytes) :=
  inferInstanceAs (Decidable (_ ∨ _))

theorem readDomain_panic_iff (byte : UInt8) (l : Bytes) :
    ((readDomain parseIP).parse (byte :: l)).1 = .error .panic ↔
      byte = 254 ∨ byte = 255 ∧ 0 < l.length := by
  rw [readDomain, parse_one_cons]
  simp only [headD_cons]
  rw [parse_full_bind]
  -- the length that is read is the sum of two bytes, so it wraps around at 254
  have sum : (byte + 2).toNat = (byte.toNat + 2) % 256 := UInt8.toNat_add byte 2
  have bound := byte.toNat_lt
  have first : byte = 254 ↔ byte.toNat = 254 := UInt8.toNat_inj.symm
  have second : byte = 255 ↔ byte.toNat = 255 := UInt8.toNat_inj.symm
  rw [first, second]
  split
  next enough =>
    simp only [length_take, min_eq_left enough]
    by_cases small : (byte + 2).toNat < byte.toNat
    · rw [if_pos small]
      simp only [parse_pure, true_iff]
      omega
    · rw [if_neg small]
      have never : ¬ (byte.toNat = 254 ∨ byte.toNat = 255 ∧ 0 < l.length) := by omega
      simp only [never, iff_false]
      cases parseIP ((l.take (byte + 2).toNat).take byte.toNat) <;> simp
  next short =>
    simp only [parse_pure]
    have never : ¬ (byte.toNat = 254 ∨ byte.toNat = 255 ∧ 0 < l.length) := by omega
    simp [never]

theorem readFrom_panic_iff (l : Bytes) :
    ((Address.readFrom parseIP).parse l).1 = .error .panic ↔ AnnouncesLong l := by
  rw [Address.readFrom]
  cases l with
  | nil => simp [parse_one_nil, AnnouncesLong]
  | cons code l =>
    rw [parse_one_cons]
    dsimp only
    rw [headD_cons]
    by_cases v4 : code = 1
    · rw [if_pos v4, parse_full_bind]
      split <;> simp [AnnouncesLong, v4]
    rw [if_neg v4]
    by_cases v6 : code = 4
    · rw [if_pos v6, parse_full_bind]
      split <;> simp [AnnouncesLong, v6]
    rw [if_neg v6]
    by_cases domain : code = 3
    · rw [if_pos domain, parse_bind]
      rcases outcome : (readDomain parseIP).parse l with ⟨result, left⟩
      have panics : result = .error .panic ↔ AnnouncesLong (code :: l) := by
        cases l with
        | nil =>
          rw [readDomain, parse_one_nil] at outcome
          cases outcome
          simp [AnnouncesLong]
        | cons byte l =>
          have inner := @readDomain_panic_iff parseIP byte l
          rw [outcome] at inner
          simpa [AnnouncesLong, domain, eq_comm (b := byte)] using inner
      rw [← panics]
      cases result <;> simp
    · rw [if_neg domain]
      simp [AnnouncesLong, eq_comm (b := code), domain]

/-! ### Metadata -/

/-- A request that was read is a command byte and an address that was read. -/
theorem readMetadata_split {m : Metadata}
    (parsed : (Metadata.readFrom parseIP).parse l = (.ok (n, m), rest)) :
    ∃ l' n', l = m.command :: l' ∧ n = 1 + n' ∧
      (Address.readFrom parseIP).parse l' = (.ok (n', m.address), rest) := by
  rw [Metadata.readFrom] at parsed
  cases l with
  | nil =>
    rw [parse_one_nil] at parsed
    cases parsed
  | cons command l =>
    rw [parse_one_cons, parse_bind] at parsed
    rcases outcome : (Address.readFrom parseIP).parse l with ⟨result, left⟩
    rw [outcome] at parsed
    cases result with
    | error reason => cases parsed
    | ok got =>
      cases parsed
      exact ⟨l, got.1, rfl, rfl, outcome⟩

theorem readMetadata_ok {m : Metadata}
    (parsed : (Metadata.readFrom parseIP).parse l = (.ok (n, m), rest)) :
    ∃ sent : Metadata, sent.address.Fits ∧ l = sent.writeTo ++ rest ∧ n = sent.writeTo.length ∧
      m = { command := sent.command, address := sent.address.received parseIP } := by
  obtain ⟨l', n', rfl, rfl, address⟩ := readMetadata_split parsed
  obtain ⟨sent, fits, rfl, rfl, received⟩ := readFrom_ok address
  refine ⟨⟨m.command, sent⟩, fits, by simp [Metadata.writeTo], ?_, by simp [← received]⟩
  simp [Metadata.writeTo, Nat.add_comm]

theorem readMetadata_panic_iff (l : Bytes) :
    ((Metadata.readFrom parseIP).parse l).1 = .error (.address .panic) ↔
      AnnouncesLong l.tail := by
  rw [Metadata.readFrom]
  cases l with
  | nil => simp [parse_one_nil, AnnouncesLong]
  | cons command l =>
    rw [parse_one_cons, parse_bind, tail_cons, ← @readFrom_panic_iff parseIP l]
    rcases (Address.readFrom parseIP).parse l with ⟨result, left⟩
    cases result <;> simp

/-! ### Connections -/

theorem readFrom_only : (Address.readFrom parseIP).Only ReadOp.IsFull := by
  refine .step trivial fun first => ?_
  cases first with
  | error reason => trivial
  | ok byte =>
    dsimp only
    split
    · exact .step trivial fun buf => by cases buf <;> trivial
    split
    · exact .step trivial fun buf => by cases buf <;> trivial
    split
    · refine .bind (.step trivial fun length => ?_) fun got => ?_
      · cases length with
        | error reason => trivial
        | ok byte =>
          refine .step trivial fun buf => ?_
          cases buf with
          | error reason => trivial
          | ok buf =>
            dsimp only
            split
            · trivial
            · split <;> trivial
      · cases got <;> trivial
    · trivial

theorem readMetadata_only : (Metadata.readFrom parseIP).Only ReadOp.IsFull := by
  grind [Metadata.readFrom, readFrom_only, ReadOp.IsFull]

/-- The read does not panic. If it succeeds, it has consumed the encoding of its value, reports
the length of the encoding, and has left the rest. -/
def ReadsOne {ε β : Type} (p : Parser UInt8 (Except ε (Nat × β))) (panic : ε)
    (encodes : Bytes → β → Prop) (conn : Segments UInt8) : Prop :=
  (p.eval (ReadOp.step Segments.read) conn).1 ≠ .error panic ∧
    ∀ n value conn', p.eval (ReadOp.step Segments.read) conn = (.ok (n, value), conn') →
      ∃ taken, encodes taken value ∧ n = taken.length ∧ conn.content = taken ++ conn'.content

theorem readsOne_iff {ε β : Type} {p : Parser UInt8 (Except ε (Nat × β))} {panic : ε}
    {encodes : Bytes → β → Prop} {conn : Segments UInt8} (only : p.Only ReadOp.IsFull)
    (parses : ∀ n value rest, p.parse conn.content = (.ok (n, value), rest) →
      ∃ taken, encodes taken value ∧ n = taken.length ∧ conn.content = taken ++ rest) :
    ReadsOne p panic encodes conn ↔ (p.parse conn.content).1 ≠ .error panic := by
  obtain ⟨conn', ran, left, -⟩ := eval_parse Segments.lawful only (r := conn)
    fun _ => trivial
  rw [ReadsOne, ran]
  refine and_iff_left ?_
  intro n value conn'' returned
  obtain ⟨result, rfl⟩ := Prod.mk.injEq .. ▸ returned
  rw [left]
  exact parses n value _ (Prod.ext result rfl)

/-- The bytes are an address as the writer writes it, and the reader's value stands for it. -/
def Address.Encodes (parseIP : Bytes → Option IP) (bytes : Bytes) (a : Address) : Prop :=
  ∃ sent : Address, sent.Fits ∧ bytes = sent.writeTo ∧ a = sent.received parseIP

def Metadata.Encodes (parseIP : Bytes → Option IP) (bytes : Bytes) (m : Metadata) : Prop :=
  ∃ sent : Metadata, sent.address.Fits ∧ bytes = sent.writeTo ∧
    m = { command := sent.command, address := sent.address.received parseIP }

/-- However the bytes arrive, the readers take one address (or one request) and report its
length, unless the bytes announce a name of 254 or 255 bytes: then they panic. -/
theorem reads_one_iff (parseIP : Bytes → Option IP) (conn : Segments UInt8) :
    (ReadsOne (Address.readFrom parseIP) .panic (Address.Encodes parseIP) conn ↔
      ¬ AnnouncesLong conn.content) ∧
    (ReadsOne (Metadata.readFrom parseIP) (.address .panic) (Metadata.Encodes parseIP) conn ↔
      ¬ AnnouncesLong conn.content.tail) := by
  constructor
  · rw [← @readFrom_panic_iff parseIP]
    apply readsOne_iff readFrom_only
    intro n a rest parsed
    obtain ⟨sent, fits, split, counted, received⟩ := readFrom_ok parsed
    exact ⟨sent.writeTo, ⟨sent, fits, rfl, received⟩, counted, split⟩
  · rw [← @readMetadata_panic_iff parseIP]
    apply readsOne_iff readMetadata_only
    intro n m rest parsed
    obtain ⟨sent, fits, split, counted, received⟩ := readMetadata_ok parsed
    exact ⟨sent.writeTo, ⟨sent, fits, rfl, received⟩, counted, split⟩

/-- Two bytes bring the reader of addresses down, three the reader of requests. -/
theorem long_name_panics :
    ¬ ReadsOne (Address.readFrom fun _ => none) .panic (Address.Encodes fun _ => none)
      ⟨[[3, 254]], by decide⟩ ∧
    ¬ ReadsOne (Metadata.readFrom fun _ => none) (.address .panic)
      (Metadata.Encodes fun _ => none) ⟨[[1, 3, 254]], by decide⟩ := by
  constructor
  · intro safe
    exact safe.1 rfl
  · intro safe
    exact safe.1 rfl

/-! ### Round trips -/

/-- `net.ParseIP`: which texts are IP addresses. It returns the long form. -/
structure IPText where
  parse : Bytes → Option IP
  long : ∀ text ip, parse text = some ip → ip.length = 16

def newAddressFromHostPort (ips : IPText) (host : Bytes) (port : Int) : Address :=
  match ips.parse host with
  | some ip =>
    if (to4 ip).isSome then { addressType := .ipv4, ip := ip, port := port }
    else { addressType := .ipv6, ip := ip, port := port }
  | none => { addressType := .domainName, domainName := host, port := port }

/-- The request comes back from its bytes, whatever follows them and however they arrive. -/
def Metadata.RoundTrips (ips : IPText) (m : Metadata) : Prop :=
  ∀ (rest : Bytes) (conn : Segments UInt8), conn.content = m.writeTo ++ rest →
    ∃ n address conn', (Metadata.readFrom ips.parse).eval (ReadOp.step Segments.read) conn =
      (.ok (n, { command := m.command, address := address }), conn') ∧
      address.Same m.address ∧ conn'.content = rest

theorem received_port (a : Address) : (a.received parseIP).port = a.port := by
  grind [Address.received, receivedDomain]

/-- What is received as a domain name was sent as this name. -/
theorem received_domain (domain : (a.received parseIP).addressType = .domainName) :
    a.addressType = .domainName ∧ (a.received parseIP).domainName = a.domainName := by
  obtain ⟨addressType, name, ip, port⟩ := a
  cases addressType with
  | domainName =>
    simp only [Address.received, receivedDomain] at domain ⊢
    cases found : parseIP name with
    | none => simp
    | some ip => grind
  | ipv4 | ipv6 => cases domain

theorem writeTo_announces (domain : a.addressType = .domainName) (long : 254 ≤ a.domainName.length)
    (byte : a.domainName.length < 256) (rest : Bytes) :
    AnnouncesLong (a.writeTo ++ rest) := by
  have either : a.domainName.length = 254 ∨ a.domainName.length = 255 := by omega
  rcases either with length | length
  · left
    exact ⟨a.domainName ++ putUint16 (a.port % 65536).toNat ++ rest, by
      simp [Address.writeTo, domain, AddressType.code, length]⟩
  · right
    constructor
    · exact ⟨a.domainName ++ putUint16 (a.port % 65536).toNat ++ rest, by
        simp [Address.writeTo, domain, AddressType.code, length]⟩
    · grind [Address.writeTo]

theorem fits_of_same {received : Address} {left : Bytes}
    (parsed : (Address.readFrom parseIP).parse (a.writeTo ++ rest) = (.ok (n, received), left))
    (same : received.Same a) :
    (0 ≤ a.port ∧ a.port < 65536) ∧
      (a.addressType = .domainName → a.domainName.length < 254) := by
  obtain ⟨sent, fits, -, -, rfl⟩ := readFrom_ok parsed
  obtain ⟨kind, port, target⟩ := same
  rw [received_port] at port
  refine ⟨port ▸ fits.1, fun domain => ?_⟩
  rw [kind, domain] at target
  obtain ⟨named, name⟩ := received_domain (kind.trans domain)
  have byte : a.domainName.length < 256 := by
    rw [← target, name]
    exact fits.2.1 named
  -- of the lengths a byte holds, the last two are announced and then not read
  by_contra long
  have panics := @readFrom_panic_iff parseIP (a.writeTo ++ rest)
  rw [parsed] at panics
  exact absurd (panics.mpr (writeTo_announces domain (by omega) byte rest)) (by simp)

theorem newAddress_spec (ips : IPText) (host : Bytes) (port : Int) :
    ((newAddressFromHostPort ips host port).addressType = .domainName → ips.parse host = none) ∧
      (ips.parse host = none →
        newAddressFromHostPort ips host port =
          { addressType := .domainName, domainName := host, port := port }) ∧
      (newAddressFromHostPort ips host port).port = port := by
  grind [newAddressFromHostPort]

/-- Only the port and the length of a name decide whether the address can be written. -/
theorem newAddress_fits {ips : IPText} {host : Bytes} {port : Int}
    (small : 0 ≤ port ∧ port < 65536) (short : ips.parse host = none → host.length < 254) :
    (newAddressFromHostPort ips host port).Fits := by
  unfold newAddressFromHostPort
  cases found : ips.parse host with
  | none =>
    have := short found
    simp [Address.Fits, small]
    omega
  | some ip =>
    by_cases four : (to4 ip).isSome
    · simp [Address.Fits, four, small]
    · simp [Address.Fits, four, small, to16_self (ips.long host ip found)]

/-- A request for a host and a port survives the way over the wire if and only if the port has
sixteen bits and the host, unless it is an IP address, has fewer than 254 bytes. The writer
reports no error in either case. -/
theorem round_trips_iff (ips : IPText) (command : Command) (host : Bytes) (port : Int) :
    (Metadata.mk command (newAddressFromHostPort ips host port)).RoundTrips ips ↔
      (0 ≤ port ∧ port < 65536) ∧ (ips.parse host = none → host.length < 254) := by
  have fitting := @newAddress_fits ips host port
  obtain ⟨domain, named, ported⟩ := newAddress_spec ips host port
  generalize newAddressFromHostPort ips host port = a at domain named ported fitting
  constructor
  · intro trips
    let conn := Segments.whole ((Metadata.mk command a).writeTo ++ [])
    obtain ⟨n, address, conn', ran, same, -⟩ := trips [] conn (by simp [conn])
    obtain ⟨conn'', ran', left, -⟩ := eval_parse Segments.lawful
      (@readMetadata_only ips.parse) (r := conn) fun _ => trivial
    rw [ran, Prod.mk.injEq] at ran'
    have parsed := (Prod.ext ran'.1.symm rfl :
      (Metadata.readFrom ips.parse).parse conn.content = (_, _))
    obtain ⟨l', n', bytes, -, address'⟩ := readMetadata_split parsed
    obtain rfl : l' = a.writeTo ++ [] := by
      simpa [conn, Metadata.writeTo] using bytes.symm
    obtain ⟨small, short⟩ := fits_of_same address' same
    rw [ported] at small
    refine ⟨small, fun name => ?_⟩
    obtain rfl := named name
    exact short rfl
  · rintro ⟨small, short⟩ rest conn arrives
    have fits := fitting small short
    have readable : a.addressType = .domainName → a.domainName.length < 254 := by grind
    have plain : a.addressType = .domainName → ips.parse a.domainName = none := by
      intro name
      rw [named (domain name)]
      exact domain name
    obtain ⟨conn', ran, left, -⟩ := yields_metadata (m := ⟨command, a⟩) Segments.lawful fits
      readable _ conn rest arrives trivial (le_refl _)
    exact ⟨_, _, conn', ran, (received_same_iff fits).mpr plain, left⟩

namespace Sample

/-- No text is an IP address here. -/
def ips : IPText := ⟨fun _ => none, fun _ _ never => by cases never⟩

def host (length : Nat) : Bytes := List.replicate length 97

end Sample

/-- A port of seventeen bits comes back as another port, a name of 254 bytes not at all. -/
theorem request_comes_back_changed :
    ¬ (Metadata.mk 1 (newAddressFromHostPort Sample.ips (Sample.host 1) 65537)).RoundTrips
      Sample.ips ∧
    ¬ (Metadata.mk 1 (newAddressFromHostPort Sample.ips (Sample.host 254) 443)).RoundTrips
      Sample.ips := by
  constructor
  · intro trips
    obtain ⟨n, address, conn', ran, same, -⟩ := trips [] ⟨[[1, 3, 1, 97, 0, 1]], by decide⟩ rfl
    cases ran
    exact absurd same.2.1 (by decide)
  · intro trips
    obtain ⟨n, address, conn', ran, -⟩ :=
      trips [] ⟨[[1, 3, 254], Sample.host 254, [1, 187]], by decide⟩ (by decide +kernel)
    cases ran

end TrojanGo.Tunnel
