import TrojanGo.Tunnel.Connections

/-!
# Datagrams on a trojan connection

A payload over the limit is drained and reported as an error.
-/
namespace TrojanGo.Trojan

open Lib Tunnel

def maxPacketSize : Nat := 1024 * 8

/-- `PacketConn.WriteWithMetadata`. -/
def writeWithMetadata (payload : Bytes) (address : Address) : Bytes :=
  address.writeTo ++ (putUint16 payload.length ++ (crlf ++ payload))

inductive PacketError where
  | address (reason : AddressError)
  | length
  | crlf
  | tooLarge
  | payload
  deriving DecidableEq

/-- The part behind the address, read into a buffer of the given size. The line break is not
looked at. -/
def readPayload (size : Nat) : Parser UInt8 (Except PacketError Bytes) := do
  match ← Parser.full 2 with
  | .error _ => return .error .length
  | .ok lengthBuf =>
    let length := uint16 lengthBuf
    match ← Parser.full 2 with
    | .error _ => return .error .crlf
    | .ok _ =>
      if size < length ∨ maxPacketSize < length then
        -- whether the rest of the packet could be drained is ignored
        let _ ← Parser.full length
        return .error .tooLarge
      else
        match ← Parser.full length with
        | .error _ => return .error .payload
        | .ok payload => return .ok payload

/-- `PacketConn.ReadWithMetadata`. -/
def readWithMetadata (parseIP : Bytes → Option IP) (size : Nat) :
    Parser UInt8 (Except PacketError (Bytes × Address)) := do
  match ← Address.readFrom parseIP with
  | .error reason => return .error (.address reason)
  | .ok (_, address) =>
    match ← readPayload size with
    | .error reason => return .error reason
    | .ok payload => return .ok (payload, address)

section Reading

variable {ρ : Type} {read : Read ρ UInt8} {content : ρ → Bytes} {serves : Nat → ρ → Prop}
  {parseIP : Bytes → Option IP} {size : Nat} {payload : Bytes}

section

variable (lawful : read.Lawful content serves)

include lawful

theorem yields_payload (fits : payload.length ≤ size) (small : payload.length ≤ maxPacketSize) :
    Parser.Yields read content serves (readPayload size)
      (putUint16 payload.length ++ (crlf ++ payload)) (.ok payload) := by
  have short : payload.length < 65536 := by
    unfold maxPacketSize at small
    omega
  refine Parser.yields_full_bind lawful rfl ?_
  refine Parser.yields_full_bind lawful rfl ?_
  simp only [uint16_put short]
  rw [if_neg (by omega)]
  exact Parser.yields_full_last lawful rfl rfl

theorem yields_payload_large (large : size < payload.length ∨ maxPacketSize < payload.length)
    (short : payload.length < 65536) :
    Parser.Yields read content serves (readPayload size)
      (putUint16 payload.length ++ (crlf ++ payload)) (.error .tooLarge) := by
  refine Parser.yields_full_bind lawful rfl ?_
  refine Parser.yields_full_bind lawful rfl ?_
  simp only [uint16_put short]
  rw [if_pos large]
  exact Parser.yields_full_last lawful rfl rfl

/-- What is read behind an address that can be read. -/
theorem yields_packet {a : Address} (fits : a.Fits)
    (short : a.addressType = .domainName → a.domainName.length < 254) {bytes : Bytes}
    {result : Except PacketError Bytes}
    (behind : Parser.Yields read content serves (readPayload size) bytes result) :
    Parser.Yields read content serves (readWithMetadata parseIP size) (a.writeTo ++ bytes)
      (result.map fun payload => (payload, a.received parseIP)) := by
  refine Parser.yields_bind (yields_address lawful fits short) ?_
  refine Parser.yields_last behind ?_
  cases result <;> rfl

theorem yields_packet_long {a : Address} (domain : a.addressType = .domainName)
    (long : 254 ≤ a.domainName.length) (fits : a.Fits) :
    ∃ taken rest, a.writeTo = taken ++ rest ∧
      Parser.Yields read content serves (readWithMetadata parseIP size) taken
        (.error (.address .panic)) := by
  obtain ⟨taken, rest, written, address⟩ :=
    @yields_address_long _ _ _ _ parseIP lawful a domain long fits
  exact ⟨taken, rest, written, Parser.yields_last address rfl⟩

end

end Reading

end TrojanGo.Trojan
