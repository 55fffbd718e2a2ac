import TrojanGo.Lib.Prog
import TrojanGo.Lib.Streams
import TrojanGo.Texts

/-!
# Addresses on the wire

The reader is a program over reads, so that it can be run over any connection. The length of a
domain name is a byte, and so is the sum from which the reader allocates its buffer.
-/
namespace TrojanGo.Tunnel

open Lib Parser List

/-! ### Addresses -/

/-- An IP address in its short or its long form; other lengths are not valid. -/
abbrev IP := Bytes

def v4InV6 : IP := [0, 0, 0, 0, 0, 0, 0, 0, 0, 0, 255, 255]

def to4 (ip : IP) : Option IP :=
  if ip.length = 4 then some ip
  else if ip.length = 16 ∧ ip.take 12 = v4InV6 then some (ip.drop 12)
  else none

def to16 (ip : IP) : Option IP :=
  if ip.length = 4 then some (v4InV6 ++ ip) else if ip.length = 16 then some ip else none

theorem to4_length {ip short : IP} (found : to4 ip = some short) : short.length = 4 := by
  unfold to4 at found
  split at found
  · cases found
    assumption
  split at found
  next long =>
    cases found
    rw [length_drop, long.1]
  · cases found

theorem to16_length {ip long : IP} (found : to16 ip = some long) : long.length = 16 := by
  unfold to16 at found
  split at found
  next short =>
    cases found
    rw [length_append, short]
    rfl
  split at found
  · cases found
    assumption
  · cases found

theorem to4_self {ip : IP} (short : ip.length = 4) : to4 ip = some ip := by simp [to4, short]

theorem to16_self {ip : IP} (long : ip.length = 16) : to16 ip = some ip := by simp [to16, long]

inductive AddressType where
  | ipv4
  | domainName
  | ipv6
  deriving DecidableEq

def AddressType.code : AddressType → UInt8
  | .ipv4 => 1
  | .domainName => 3
  | .ipv6 => 4

structure Address where
  addressType : AddressType
  domainName : Bytes := []
  ip : IP := []
  port : Int
  deriving DecidableEq

/-- Both name the same target. -/
def Address.Same (a b : Address) : Prop :=
  a.addressType = b.addressType ∧ a.port = b.port ∧
    match a.addressType with
    | .domainName => a.domainName = b.domainName
    | .ipv4 => to4 a.ip = to4 b.ip
    | .ipv6 => to16 a.ip = to16 b.ip

/-- The address can be written down in its type. -/
def Address.Fits (a : Address) : Prop :=
  (0 ≤ a.port ∧ a.port < 65536) ∧
    (a.addressType = .domainName → a.domainName.length < 256) ∧
    (a.addressType = .ipv4 → (to4 a.ip).isSome) ∧ (a.addressType = .ipv6 → (to16 a.ip).isSome)

instance (a : Address) : Decidable a.Fits := inferInstanceAs (Decidable (_ ∧ _))

/-! ### Writing -/

def putUint16 (n : Nat) : Bytes := [UInt8.ofNat (n / 256), UInt8.ofNat n]

@[simp] theorem putUint16_length (n : Nat) : (putUint16 n).length = 2 := rfl

def uint16 (bytes : Bytes) : Nat := (bytes.getD 0 0).toNat * 256 + (bytes.getD 1 0).toNat

theorem uint16_put {n : Nat} (small : n < 65536) : uint16 (putUint16 n) = n := by
  have high : n / 256 < 256 := by omega
  simp only [uint16, putUint16, getD_cons_zero, getD_cons_succ, UInt8.toNat_ofNat']
  omega

theorem uint16_port {port : Int} (small : 0 ≤ port ∧ port < 65536) :
    (uint16 (putUint16 (port % 65536).toNat) : Int) = port := by
  have cut : port % 65536 = port := Int.emod_eq_of_lt small.1 small.2
  rw [uint16_put (by omega), cut, Int.toNat_of_nonneg small.1]

/-- `Address.WriteTo`. -/
def Address.writeTo (a : Address) : Bytes :=
  [a.addressType.code] ++
    (match a.addressType with
    | .domainName => [UInt8.ofNat a.domainName.length] ++ a.domainName
    | .ipv4 => (to4 a.ip).getD []
    | .ipv6 => (to16 a.ip).getD []) ++
    -- the port is cut to sixteen bits
    putUint16 (a.port % 65536).toNat

theorem Address.writeTo_length {a : Address} (fits : a.Fits) : a.writeTo.length ≤ 259 := by
  obtain ⟨addressType, name, ip, port⟩ := a
  obtain ⟨-, domain, v4, v6⟩ := fits
  cases addressType with
  | domainName =>
    have short : name.length < 256 := domain rfl
    simp only [Address.writeTo, putUint16_length, length_append, length_cons,
      length_nil]
    omega
  | ipv4 =>
    obtain ⟨ip', found⟩ := Option.isSome_iff_exists.mp (v4 rfl)
    simp only at found
    simp [Address.writeTo, found, to4_length found]
  | ipv6 =>
    obtain ⟨ip', found⟩ := Option.isSome_iff_exists.mp (v6 rfl)
    simp only at found
    simp [Address.writeTo, found, to16_length found]

abbrev Command := UInt8

structure Metadata where
  command : Command
  address : Address
  deriving DecidableEq

/-- `Metadata.WriteTo`. -/
def Metadata.writeTo (m : Metadata) : Bytes := [m.command] ++ m.address.writeTo

/-! ### Reading -/

inductive AddressError where
  | atyp
  | ipv4
  | ipv6
  | domainLength
  | domain
  | invalidType (code : UInt8)
  /-- the process panics -/
  | panic
  deriving DecidableEq

variable (parseIP : Bytes → Option IP)

/-- The part behind the type byte of a domain name. Like all readers here it also returns how
many bytes it reports as read. -/
def readDomain :
    Parser UInt8 (Except AddressError (Nat × Address)) := do
  match ← full 1 with
  | .error _ => return .error .domainLength
  | .ok byte =>
    let length : UInt8 := byte.headD 0
    -- the sum is one of bytes
    match ← full (length + 2).toNat with
    | .error _ => return .error .domain
    | .ok buf =>
      if buf.length < length.toNat then return .error .panic
      else
        let host := buf.take length.toNat
        let port := uint16 (buf.drop length.toNat)
        let n := 1 + (length.toNat + 2)
        match parseIP host with
        | some ip =>
          let addressType := if (to4 ip).isSome then AddressType.ipv4 else .ipv6
          return .ok (n, { addressType := addressType, ip := ip, port := port })
        | none => return .ok (n, { addressType := .domainName, domainName := host, port := port })

/-- `Address.ReadFrom`. -/
def Address.readFrom :
    Parser UInt8 (Except AddressError (Nat × Address)) := do
  match ← full 1 with
  | .error _ => return .error .atyp
  | .ok byte =>
    let code := byte.headD 0
    if code = 1 then
      match ← full 6 with
      | .error _ => return .error .ipv4
      | .ok buf =>
        return .ok (1 + 6, { addressType := .ipv4, ip := buf.take 4, port := uint16 (buf.drop 4) })
    else if code = 4 then
      match ← full 18 with
      | .error _ => return .error .ipv6
      | .ok buf =>
        return .ok (1 + 18,
          { addressType := .ipv6, ip := buf.take 16, port := uint16 (buf.drop 16) })
    else if code = 3 then
      match ← readDomain parseIP with
      | .error reason => return .error reason
      | .ok (n, address) => return .ok (1 + n, address)
    else return .error (.invalidType code)

inductive MetadataError where
  | command
  | address (reason : AddressError)
  deriving DecidableEq

/-- `Metadata.ReadFrom`. -/
def Metadata.readFrom :
    Parser UInt8 (Except MetadataError (Nat × Metadata)) := do
  match ← full 1 with
  | .error _ => return .error .command
  | .ok byte =>
    match ← Address.readFrom parseIP with
    | .error reason => return .error (.address reason)
    | .ok (n, address) => return .ok (1 + n, { command := byte.headD 0, address := address })

/-! ### What is read back -/

/-- What becomes of a domain name. -/
def receivedDomain (name : Bytes) (port : Int) : Address :=
  match parseIP name with
  | some ip =>
    { addressType := if (to4 ip).isSome then AddressType.ipv4 else .ipv6, ip := ip, port := port }
  | none => { addressType := .domainName, domainName := name, port := port }

def Address.received (a : Address) : Address :=
  match a.addressType with
  | .domainName => receivedDomain parseIP a.domainName a.port
  | .ipv4 => { addressType := .ipv4, ip := (to4 a.ip).getD [], port := a.port }
  | .ipv6 => { addressType := .ipv6, ip := (to16 a.ip).getD [], port := a.port }

/-- The address survives the way over the wire: its name leaves room for the port in a byte, and
is not an IP address. -/
def Address.Plain (a : Address) : Prop :=
  a.addressType = .domainName → a.domainName.length < 254 ∧ parseIP a.domainName = none

instance  (a : Address) : Decidable (a.Plain parseIP) :=
  inferInstanceAs (Decidable (_ → _))

theorem received_same_iff {parseIP : Bytes → Option IP} {a : Address} (fits : a.Fits) :
    (a.received parseIP).Same a ↔ (a.addressType = .domainName → parseIP a.domainName = none) := by
  obtain ⟨addressType, name, ip, port⟩ := a
  obtain ⟨-, -, short, long⟩ := fits
  cases addressType with
  | domainName =>
    simp only [Address.received, receivedDomain]
    cases parsed : parseIP name with
    | none => simp [Address.Same]
    | some ip' =>
      by_cases four : (to4 ip').isSome <;> simp [Address.Same, four]
  | ipv4 =>
    obtain ⟨ip', found⟩ := Option.isSome_iff_exists.mp (short rfl)
    simp only at found
    simp [Address.received, Address.Same, found, to4_self (to4_length found)]
  | ipv6 =>
    obtain ⟨ip', found⟩ := Option.isSome_iff_exists.mp (long rfl)
    simp only at found
    simp [Address.received, Address.Same, found, to16_self (to16_length found)]

section Reading

variable {ρ : Type} {read : Read ρ UInt8} {content : ρ → Bytes} {serves : Nat → ρ → Prop}
  {parseIP : Bytes → Option IP}

theorem toNat_add_two {length : Nat} (short : length < 254) :
    (UInt8.ofNat length + 2).toNat = length + 2 := by
  rw [UInt8.toNat_add, UInt8.toNat_ofNat']
  simp only [UInt8.reduceToNat]
  omega

section

variable (lawful : read.Lawful content serves)

include lawful

theorem yields_domain {name : Bytes} {port : Int} (short : name.length < 254)
    (small : 0 ≤ port ∧ port < 65536) :
    Yields read content serves (readDomain parseIP)
      ([UInt8.ofNat name.length] ++ (name ++ putUint16 (port % 65536).toNat))
      (.ok (1 + (name.length + 2), receivedDomain parseIP name port)) := by
  have byte : (UInt8.ofNat name.length).toNat = name.length := by
    rw [UInt8.toNat_ofNat']
    omega
  refine yields_full_bind lawful rfl ?_
  refine yields_full_last lawful (by simp [toNat_add_two short]) ?_
  simp only [headD_cons, byte]
  rw [if_neg (by simp), take_left, drop_left, uint16_port small, receivedDomain]
  cases parseIP name <;> rfl

/-- The buffer for a name of 254 or 255 bytes has no byte or one. -/
theorem yields_domain_long {name : Bytes} (long : 254 ≤ name.length) (byte : name.length < 256) :
    Yields read content serves (readDomain parseIP)
      ([UInt8.ofNat name.length] ++ name.take (name.length - 254)) (.error .panic) := by
  have length : (UInt8.ofNat name.length).toNat = name.length := by
    rw [UInt8.toNat_ofNat']
    omega
  have size : (UInt8.ofNat name.length + 2).toNat = name.length - 254 := by
    rw [UInt8.toNat_add, length]
    simp only [UInt8.reduceToNat]
    omega
  refine yields_full_bind lawful rfl ?_
  refine yields_full_last lawful (by simp [size]) ?_
  simp only [headD_cons, length]
  rw [if_pos (by rw [length_take]; omega)]

theorem yields_address {a : Address} (fits : a.Fits)
    (short : a.addressType = .domainName → a.domainName.length < 254) :
    Yields read content serves (Address.readFrom parseIP) a.writeTo
      (.ok (a.writeTo.length, a.received parseIP)) := by
  obtain ⟨addressType, name, ip, port⟩ := a
  obtain ⟨small, -, v4, v6⟩ := fits
  unfold Address.writeTo
  rw [append_assoc]
  refine yields_full_bind lawful rfl ?_
  cases addressType with
  | domainName =>
    simp only [append_assoc]
    refine yields_last (yields_domain lawful (short rfl) small) ?_
    simp [Nat.add_comm, Address.received]
  | ipv4 =>
    obtain ⟨ip', found⟩ := Option.isSome_iff_exists.mp (v4 rfl)
    have four := to4_length found
    simp only at found small
    simp only [found, Option.getD_some, Address.received]
    refine yields_full_last lawful (by simp [four]) ?_
    simp [take_left' four, drop_left' four, uint16_port small, four]
  | ipv6 =>
    obtain ⟨ip', found⟩ := Option.isSome_iff_exists.mp (v6 rfl)
    have sixteen := to16_length found
    simp only at found small
    simp only [found, Option.getD_some, Address.received]
    refine yields_full_last lawful (by simp [sixteen]) ?_
    simp [take_left' sixteen, drop_left' sixteen, uint16_port small, sixteen]

theorem yields_metadata {m : Metadata} (fits : m.address.Fits)
    (short : m.address.addressType = .domainName → m.address.domainName.length < 254) :
    Yields read content serves (Metadata.readFrom parseIP) m.writeTo
      (.ok (m.writeTo.length,
        { command := m.command, address := m.address.received parseIP })) := by
  refine yields_full_bind lawful rfl ?_
  refine yields_last (yields_address lawful fits short) ?_
  simp [Metadata.writeTo, Nat.add_comm]

/-- The reader gives up in the middle of a name of 254 or 255 bytes. -/
theorem yields_address_long {a : Address} (domain : a.addressType = .domainName)
    (long : 254 ≤ a.domainName.length) (fits : a.Fits) :
    ∃ taken rest, a.writeTo = taken ++ rest ∧
      Yields read content serves (Address.readFrom parseIP) taken (.error .panic) := by
  obtain ⟨addressType, name, ip, port⟩ := a
  simp only at domain long
  subst domain
  have byte : name.length < 256 := fits.2.1 rfl
  refine ⟨[3] ++ ([UInt8.ofNat name.length] ++ name.take (name.length - 254)),
    name.drop (name.length - 254) ++ putUint16 (port % 65536).toNat, ?_,
    yields_full_bind lawful rfl
      (yields_last (yields_domain_long lawful long byte) rfl)⟩
  simp only [Address.writeTo, AddressType.code, cons_append, nil_append]
  rw [← append_assoc (name.take _), take_append_drop]

theorem yields_metadata_long {m : Metadata} (domain : m.address.addressType = .domainName)
    (long : 254 ≤ m.address.domainName.length) (fits : m.address.Fits) :
    ∃ taken rest, m.writeTo = taken ++ rest ∧
      Yields read content serves (Metadata.readFrom parseIP) taken
        (.error (.address .panic)) := by
  obtain ⟨taken, rest, written, address⟩ :=
    @yields_address_long _ _ _ _ parseIP lawful m.address domain long fits
  refine ⟨[m.command] ++ taken, rest, ?_, ?_⟩
  · rw [Metadata.writeTo, written, append_assoc]
  · exact yields_full_bind lawful rfl (yields_last address rfl)

end

end Reading

end TrojanGo.Tunnel
