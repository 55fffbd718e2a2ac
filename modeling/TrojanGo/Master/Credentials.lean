import TrojanGo.Master.Handlers

/-!
# Stored credentials

Recoverable credentials are encrypted under a key outside the database and bound to what they are
stored for. The cipher is a parameter that opens what it has sealed, under the same purpose.
-/
namespace TrojanGo.Master

/-- Authenticated encryption under the credential key, from text to text. -/
structure Cipher where
  sealText : (purpose nonce value : String) → String
  openText : (purpose payload : String) → Option String
  openText_sealText : ∀ purpose nonce value,
    openText purpose (sealText purpose nonce value) = some value

/-- A cipher that keeps its argument readable, for runs on fixed inputs. -/
def Cipher.plain : Cipher :=
  ⟨fun _ _ value => value, fun _ payload => some payload, fun _ _ _ => rfl⟩

def credentialCipherVersion : String := "enc:v1:default:"

variable (cipher : Cipher) (purpose nonce value : String)

def encryptCredential : String :=
  if value = "" then "" else credentialCipherVersion ++ cipher.sealText purpose nonce value

def decryptCredential : Option String :=
  if value = "" then some ""
  else if credentialCipherVersion.toList <+: value.toList then
    cipher.openText purpose
      (String.ofList (value.toList.drop credentialCipherVersion.toList.length))
  else none

theorem encryptCredential_ne_empty (nonempty : value ≠ "") :
    encryptCredential cipher purpose nonce value ≠ "" := by
  intro empty
  rw [encryptCredential, if_neg nonempty] at empty
  have length := congrArg String.length empty
  rw [String.length_append] at length
  have version : credentialCipherVersion.length = 15 := by decide
  rw [version] at length
  simp at length

/-- What was encrypted for a purpose is decrypted for it. -/
theorem decryptCredential_encryptCredential :
    decryptCredential cipher purpose (encryptCredential cipher purpose nonce value) =
      some value := by
  by_cases empty : value = ""
  · subst empty
    rfl
  · have stored := encryptCredential_ne_empty cipher purpose nonce value empty
    rw [decryptCredential, if_neg stored, encryptCredential, if_neg empty, String.toList_append,
      if_pos (List.prefix_append _ _), List.drop_left, String.ofList_toList, cipher.openText_sealText]

def userPasswordPurpose (id : Nat) : String := "user-password:" ++ toString id

def nodeSecretPurpose (id : Nat) : String := "node-secret:" ++ toString id

end TrojanGo.Master
