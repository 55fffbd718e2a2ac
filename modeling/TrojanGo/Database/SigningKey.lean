import TrojanGo.Database.Users

/-!
# The stored signing key

Session tokens are signed with a key of 32 bytes, which is a configuration value: encrypted, or the
bytes of the key themselves, from before there was encryption.
-/
namespace TrojanGo.Database

open Master

/-- `base64.RawURLEncoding`. -/
structure Base64 where
  encode : ByteArray → String
  decode : String → Option ByteArray
  decode_encode : ∀ bytes, decode (encode bytes) = some bytes
  encode_ne_empty : ∀ bytes, bytes.size ≠ 0 → encode bytes ≠ ""

inductive LoadError where
  /-- of `EncryptCredential` or `DecryptCredential` -/
  | credential
  /-- "stored JWT secret is invalid" -/
  | invalid
  /-- "generate JWT secret" -/
  | random
  | write

/-- How the calls below fare: whether the row can be read and written and the credential key
loaded, the nonce, and what the random source gives for a secret. -/
structure LoadFate where
  read : Bool := true
  write : Bool := true
  key : Bool := true
  nonce : Option String := some ""
  random : Option { secret : ByteArray // secret.size = 32 } := none

structure Loaded where
  result : Except LoadError ByteArray
  /-- the value of the row afterwards, if there is one -/
  stored : Option String
  generated : Bool := false

def jwtSecretPurpose : String := "jwt-secret:global"

variable (cipher : Cipher) (base64 : Base64) (fate : LoadFate)

def LoadFate.encrypt (value : String) : Except LoadError String :=
  if value = "" then .ok ""
  else if fate.key then
    match fate.nonce with
    | some nonce => .ok (encryptCredential cipher jwtSecretPurpose nonce value)
    | none => .error .credential
  else .error .credential

def LoadFate.decrypt (value : String) : Except LoadError String :=
  match decryptCredential cipher jwtSecretPurpose value with
  | some encoded => if fate.key then .ok encoded else .error .credential
  | none => .error .credential

def rotateJWTSecret (stored : Option String) : Loaded :=
  match fate.random with
  | none => { result := .error .random, stored }
  | some secret =>
    match fate.encrypt cipher (base64.encode secret) with
    | .error failure => { result := .error failure, stored, generated := true }
    | .ok ciphertext =>
      if fate.write then { result := .ok secret, stored := some ciphertext, generated := true }
      else { result := .error .write, stored, generated := true }

def isEncrypted (value : String) : Prop := credentialCipherVersion.toList <+: value.toList

instance (value : String) : Decidable (isEncrypted value) :=
  inferInstanceAs (Decidable (_ <+: _))

def loadJWTSecret (stored : Option String) : Loaded :=
  match if fate.read then stored else none with
  | none => rotateJWTSecret cipher base64 fate stored
  | some value =>
    if value = "" then rotateJWTSecret cipher base64 fate stored
    else if isEncrypted value then
      match fate.decrypt cipher value with
      | .error failure => { result := .error failure, stored }
      | .ok encoded =>
        match base64.decode encoded with
        | none => { result := .error .invalid, stored }
        | some secret =>
          if secret.size = 32 then { result := .ok secret, stored }
          else { result := .error .invalid, stored }
    else if value.utf8ByteSize = 32 then
      match fate.encrypt cipher (base64.encode value.toUTF8) with
      | .error failure => { result := .error failure, stored }
      | .ok ciphertext =>
        if fate.write then { result := .ok value.toUTF8, stored := some ciphertext }
        else { result := .error .write, stored }
    -- a key of another length is given up
    else rotateJWTSecret cipher base64 fate stored

/-! ### What a stored value means -/

/-- The secret that a stored value holds. -/
def secretOf (value : String) : Option ByteArray :=
  if value = "" then none
  else if isEncrypted value then
    ((decryptCredential cipher jwtSecretPurpose value).bind base64.decode).filter (·.size = 32)
  else if value.utf8ByteSize = 32 then some value.toUTF8 else none

/-- A usable secret is returned or an error is, and it stays stored; a new one is generated only if
there is none. -/
def KeepsSecret (stored : Option String) : Prop :=
  let loaded := loadJWTSecret cipher base64 fate stored
  (∀ secret, stored.bind (secretOf cipher base64) = some secret →
    (loaded.result = .ok secret ∨ ∃ failure, loaded.result = .error failure) ∧
      loaded.stored.bind (secretOf cipher base64) = some secret) ∧
  (loaded.generated → stored.getD "" = "")

variable {cipher base64 fate}

/-- A secret that has been encrypted is read back. -/
theorem secretOf_encrypt {secret : ByteArray} {ciphertext : String} (size : secret.size = 32)
    (encrypted : fate.encrypt cipher (base64.encode secret) = .ok ciphertext) :
    secretOf cipher base64 ciphertext = some secret := by
  have encoded : base64.encode secret ≠ "" := base64.encode_ne_empty secret (by omega)
  rw [LoadFate.encrypt, if_neg encoded] at encrypted
  split at encrypted
  · split at encrypted
    · next nonce _ =>
      cases encrypted
      have nonempty := encryptCredential_ne_empty cipher jwtSecretPurpose nonce _ encoded
      have version : isEncrypted (encryptCredential cipher jwtSecretPurpose nonce
          (base64.encode secret)) := by
        rw [isEncrypted, encryptCredential, if_neg encoded, String.toList_append]
        exact List.prefix_append _ _
      simp [secretOf, nonempty, version, decryptCredential_encryptCredential,
        base64.decode_encode, size]
    · cases encrypted
  · cases encrypted

/-- An encrypted value is never changed. -/
theorem load_encrypted {value : String} (read : fate.read) (nonempty : value ≠ "")
    (encrypted : isEncrypted value) : KeepsSecret cipher base64 fate (some value) := by
  have meaning : secretOf cipher base64 value = ((decryptCredential cipher jwtSecretPurpose
      value).bind base64.decode).filter (·.size = 32) := by
    rw [secretOf, if_neg nonempty, if_pos encrypted]
  have loads : loadJWTSecret cipher base64 fate (some value) =
      { result := (loadJWTSecret cipher base64 fate (some value)).result, stored := some value } := by
    simp only [loadJWTSecret, read, if_true, if_neg nonempty, if_pos encrypted]
    grind
  refine ⟨fun secret usable => ⟨?_, by rw [loads, usable]⟩, fun generated => ?_⟩
  swap
  · rw [loads] at generated
    cases generated
  simp only [Option.bind_some, meaning, Option.filter_eq_some_iff, Option.bind_eq_some_iff,
    decide_eq_true_eq] at usable
  obtain ⟨⟨encoded, opened, decoded⟩, size⟩ := usable
  cases key : fate.key with
    simp [loadJWTSecret, read, nonempty, encrypted, LoadFate.decrypt, opened, key, decoded, size]

/-- A legacy value is kept in encrypted form, or as it is. -/
theorem load_legacy {value : String} (read : fate.read) (nonempty : value ≠ "")
    (plain : ¬ isEncrypted value) (size : value.utf8ByteSize = 32) :
    KeepsSecret cipher base64 fate (some value) := by
  have meaning : secretOf cipher base64 value = some value.toUTF8 := by
    simp [secretOf, nonempty, plain, size]
  simp only [KeepsSecret, loadJWTSecret, read, if_true, if_neg nonempty, if_neg plain, if_pos size,
    Option.bind_some, meaning]
  cases encrypted : fate.encrypt cipher (base64.encode value.toUTF8) with
  | error failure => simp [meaning]
  | ok ciphertext => cases fate.write <;> simp [meaning, secretOf_encrypt (by simpa) encrypted]

theorem rotate_generated (stored : Option String) :
    (rotateJWTSecret cipher base64 fate stored).generated = fate.random.isSome := by
  unfold rotateJWTSecret
  grind

/-- With a secret stored, the code keeps it unless the row cannot be read or the secret is a legacy
one of another length, and the random source works. -/
theorem keepsSecret_iff (stored : Option String) :
    KeepsSecret cipher base64 fate stored ↔
      stored.getD "" = "" ∨ fate.random = none ∨
        fate.read ∧ (isEncrypted (stored.getD "") ∨ (stored.getD "").utf8ByteSize = 32) := by
  cases stored with
  | none => simp [KeepsSecret]
  | some value =>
    simp only [Option.getD_some]
    by_cases nonempty : value = ""
    · simp [KeepsSecret, nonempty, secretOf]
    have rotated (gives : loadJWTSecret cipher base64 fate (some value) =
        rotateJWTSecret cipher base64 fate (some value)) :
        KeepsSecret cipher base64 fate (some value) ↔ fate.random = none := by
      constructor
      · intro keeps
        have generated := keeps.2
        simpa [gives, rotate_generated, nonempty] using generated
      · intro none
        simp [KeepsSecret, gives, rotateJWTSecret, none]
    by_cases read : fate.read
    · by_cases encrypted : isEncrypted value
      · simp [read, encrypted, load_encrypted read nonempty encrypted]
      by_cases size : value.utf8ByteSize = 32
      · simp only [read, size, load_legacy read nonempty encrypted size, and_self, or_true]
      · grind [loadJWTSecret]
    · rw [rotated (by simp [loadJWTSecret, read])]
      simp [nonempty, read]

namespace Sample

def rawURLEncoding : Base64 where
  encode bytes := String.ofList (bytes.data.toList.map fun byte => Char.ofNat byte.toNat)
  decode text := some ⟨(text.toList.map fun c => UInt8.ofNat c.toNat).toArray⟩
  decode_encode bytes := by
    have back (byte : UInt8) : UInt8.ofNat (Char.ofNat byte.toNat).toNat = byte := by
      have valid : byte.toNat.isValidChar := .inl (byte.toNat_lt.trans (by decide))
      rw [Char.ofNat, dif_pos valid]
      exact UInt8.ofNat_toNat
    simp [Function.comp_def, back]
  encode_ne_empty bytes size empty := by
    have length := congrArg String.length empty
    simp at length
    simp [length] at size

end Sample

/-- A row that cannot be read is taken for a missing one, and a new key is generated. -/
theorem unread_secret_replaced :
    ∃ fate : LoadFate, fate.read = false ∧
      ¬ KeepsSecret Sample.crypto.cipher Sample.rawURLEncoding fate
        (some "0123456789abcdef0123456789abcdef") := by
  refine ⟨{ read := false, random := some ⟨⟨Array.replicate 32 0⟩, rfl⟩ }, rfl, fun keeps => ?_⟩
  have empty := keeps.2 (rotate_generated _)
  simp at empty

end TrojanGo.Database
