import Mathlib.Data.Nat.Find
import TrojanGo.Lib.Events
import TrojanGo.Texts

/-!
# The certificate check loop

The TLS server reads its key and certificate files again and again, as long as it runs. The files
may change at any time, so that every read sees contents of its own.
-/
namespace TrojanGo.Tls

open Lib.Events

/-- What the code uses of the TLS library. -/
structure Library (Pair : Type) where
  pemDecode : Bytes → Option Bytes
  /-- `x509.DecryptPEMBlock`; there are no bytes beside an error -/
  decryptPEMBlock : (block password : Bytes) → Option Bytes
  x509KeyPair : (cert key : Bytes) → Option Pair
  /-- whether the leaf certificate can be parsed -/
  parses : Pair → Bool

variable {Pair : Type}

/-- `loadKeyPair`, with what it reads from the two files. -/
def loadKeyPair (lib : Library Pair) (password : Bytes) (key cert : Option Bytes) : Option Pair :=
  if password ≠ [] then do
    let keyBlock ← lib.pemDecode (← key)
    match lib.decryptPEMBlock keyBlock password with
    -- a key that can be decrypted is refused: the test of the error is the wrong way round
    | some _ => none
    | none => (lib.x509KeyPair (← lib.pemDecode (cert.getD [])) []).filter lib.parses
  else do
    let certFile ← cert
    (lib.x509KeyPair certFile (← key)).filter lib.parses

/-! ### The loop -/

/-- What one round reads: the key and the certificate, and both again if it loads them. -/
structure Look where
  key : Option Bytes
  cert : Option Bytes
  loadedKey : Option Bytes := key
  loadedCert : Option Bytes := cert

/-- What the loop runs with: the pair the server starts with, and what each round will read. -/
structure Env (Pair : Type) extends Library Pair where
  password : Bytes
  keyPair : Pair
  history : Nat → Look

structure Memory (Pair : Type) where
  lastKeyBytes : Bytes := []
  lastCertBytes : Bytes := []
  keyPair : Pair
  /-- the pairs that have been loaded, the last one first -/
  loaded : List Pair := []

/-- A round of the loop up to its wait, and whether it gets there. -/
def check (env : Env Pair) (look : Look) (memory : Memory Pair) : Memory Pair × Bool :=
  match look.key, look.cert with
  | some keyBytes, some certBytes =>
    if keyBytes ≠ memory.lastKeyBytes ∨ memory.lastCertBytes ≠ certBytes then
      match loadKeyPair env.toLibrary env.password look.loadedKey look.loadedCert with
      | some keyPair => (⟨keyBytes, certBytes, keyPair, keyPair :: memory.loaded⟩, true)
      | none => (memory, false)
    else (memory, true)
  | _, _ => (memory, false)

inductive Phase where
  | checking
  | waiting
  | stopped
  deriving DecidableEq

structure State (Pair : Type) where
  memory : Memory Pair
  phase : Phase := .checking
  cancelled : Bool := false
  /-- the rounds begun, and the ticks received -/
  looks : Nat := 0
  ticks : Nat := 0

inductive Event where
  | look
  | tick
  | cancel
  | stop

/-- A wait ends with a tick or, once the context is cancelled, with the loop. -/
def step (env : Env Pair) (s : State Pair) : Event → Option (State Pair)
  | .look =>
    if s.phase = .checking then
      let (memory, waits) := check env (env.history s.looks) s.memory
      some { s with
        memory
        phase := if waits then .waiting else .checking
        looks := s.looks + 1 }
    else none
  | .tick =>
    if s.phase = .waiting then some { s with phase := .checking, ticks := s.ticks + 1 } else none
  | .cancel => some { s with cancelled := true }
  | .stop =>
    if s.phase = .waiting ∧ s.cancelled then some { s with phase := .stopped } else none

def Env.start (env : Env Pair) : State Pair := { memory := { keyPair := env.keyPair } }

/-- There is no look without a tick but the first, the last pair loaded is in use, and after a
cancellation the loop stops at the end of the round unless a tick comes first. -/
structure Sound (env : Env Pair) (s : State Pair) : Prop where
  paced : s.looks ≤ s.ticks + 1
  current : s.memory.keyPair = s.memory.loaded.headD env.keyPair
  ends : s.cancelled → s.phase ≠ .stopped → ∃ s', run (step env) s
    (if s.phase = .checking then [.look, .stop] else [.stop]) = some s' ∧ s'.phase = .stopped

/-! ### Rounds that reach their wait -/

/-- What the loop remembers after a number of rounds. -/
def Env.memoryAfter (env : Env Pair) : Nat → Memory Pair
  | 0 => { keyPair := env.keyPair }
  | n + 1 => (check env (env.history n) (env.memoryAfter n)).1

/-- The key and the certificate of the round before. -/
def Env.before (env : Env Pair) : Nat → Bytes × Bytes
  | 0 => ([], [])
  | n + 1 => ((env.history n).key.getD [], (env.history n).cert.getD [])

/-- Both files can be read and, if one of them has changed, the pair be loaded. -/
def Env.Passes (env : Env Pair) (n : Nat) : Prop :=
  ∃ key cert, (env.history n).key = some key ∧ (env.history n).cert = some cert ∧
    ((key, cert) = env.before n ∨ (loadKeyPair env.toLibrary env.password
      (env.history n).loadedKey (env.history n).loadedCert).isSome)

variable {env : Env Pair} {s s' : State Pair} {n : Nat}

/-- The loop remembers what the last round read. -/
theorem memoryAfter_last (passes : ∀ m < n, env.Passes m) :
    ((env.memoryAfter n).lastKeyBytes, (env.memoryAfter n).lastCertBytes) = env.before n := by
  induction n with
  | zero => rfl
  | succ n ih =>
    have last := ih fun m less => passes m (by omega)
    obtain ⟨key, cert, readKey, readCert, loads⟩ := passes n (by omega)
    rw [← last] at loads
    simp only [Env.memoryAfter, Env.before, check, readKey, readCert]
    grind

theorem check_waits_iff (passes : ∀ m < n, env.Passes m) :
    (check env (env.history n) (env.memoryAfter n)).2 = true ↔ env.Passes n := by
  have last := memoryAfter_last passes
  unfold Env.Passes check
  rw [← last]
  grind

/-- What holds in the loop while all rounds reach their wait. -/
structure Paced (env : Env Pair) (s : State Pair) : Prop where
  memory : s.memory = env.memoryAfter s.looks
  current : s.memory.keyPair = s.memory.loaded.headD env.keyPair
  ticks : s.looks = s.ticks + if s.phase = .checking then 0 else 1

theorem Paced.step (passes : ∀ n, env.Passes n) {event : Event} (paced : Paced env s)
    (stepped : step env s event = some s') : Paced env s' := by
  obtain ⟨memory, current, ticks⟩ := paced
  cases event with
  | look =>
    simp only [Tls.step] at stepped
    split at stepped
    · next checking =>
      cases stepped
      have reached : (check env (env.history s.looks) s.memory).2 = true := by
        rw [memory]
        exact (check_waits_iff fun m _ => passes m).mpr (passes s.looks)
      refine ⟨by rw [Env.memoryAfter, ← memory], by grind [check], ?_⟩
      rw [if_pos checking] at ticks
      simpa [reached] using ticks
    · cases stepped
  | tick | cancel | stop => grind [Tls.step, Paced]

theorem Paced.sound (passes : ∀ n, env.Passes n) (paced : Paced env s) : Sound env s := by
  refine ⟨?_, paced.current, fun cancelled running => ?_⟩
  · have := paced.ticks
    split at this <;> omega
  · have reached : (check env (env.history s.looks) s.memory).2 = true := by
      rw [paced.memory]
      exact (check_waits_iff fun m _ => passes m).mpr (passes s.looks)
    cases phase : s.phase with
    | checking => simp [run, Tls.step, phase, reached, cancelled]
    | waiting => simp [run, Tls.step, phase, cancelled]
    | stopped => exact absurd phase running

/-- The loop gets to any round, if there is a tick after every earlier one. -/
theorem run_rounds (passes : ∀ m < n, env.Passes m) :
    ∃ events s, run (step env) env.start events = some s ∧ s.memory = env.memoryAfter n ∧
      s.phase = .checking ∧ s.looks = n ∧ s.ticks = n := by
  induction n with
  | zero => exact ⟨[], env.start, rfl, rfl, rfl, rfl, rfl⟩
  | succ n ih =>
    obtain ⟨events, s, ran, memory, phase, rfl, ticks⟩ := ih fun m less => passes m (by omega)
    have reached := (check_waits_iff fun m less => passes m (by omega)).mpr (passes s.looks (by omega))
    refine ⟨events ++ [.look, .tick], ?_⟩
    rw [run_append, ran]
    simp [run, Tls.step, phase, Env.memoryAfter, memory, ticks, reached]

/-- The loop is sound for a history of the files exactly if every round can read both files and
load them if they have changed: after any other round it starts over at once. -/
theorem sound_iff (env : Env Pair) :
    (∀ events s, run (step env) env.start events = some s → Sound env s) ↔ ∀ n, env.Passes n := by
  constructor
  · intro sound
    by_contra fails
    rw [not_forall] at fails
    -- the first round that does not get to its wait, and another one right after it
    classical
    have earlier : ∀ m < Nat.find fails, env.Passes m :=
      fun m less => not_not.mp (Nat.find_min fails less)
    obtain ⟨events, s, ran, memory, phase, looks, ticks⟩ := run_rounds earlier
    have failed : (check env (env.history s.looks) s.memory).2 = false := by
      rw [memory, looks]
      exact Bool.eq_false_iff.mpr fun waits =>
        Nat.find_spec fails ((check_waits_iff earlier).mp waits)
    have twice : ∃ s', run (step env) env.start (events ++ [.look, .look]) = some s' ∧
        s'.looks = s.looks + 2 ∧ s'.ticks = s.ticks := by
      rw [run_append, ran]
      simp [run, Tls.step, phase, failed]
    obtain ⟨s', ran', looks', ticks'⟩ := twice
    have paced := (sound _ _ ran').paced
    omega
  · intro passes events s ran
    have start : Paced env env.start := ⟨rfl, rfl, rfl⟩
    exact (run_keeps (fun _ _ _ paced stepped => paced.step passes stepped) start ran).sound passes

/-- Without the key file the second round follows the first without a tick, and so on, whether the
context is cancelled or not. -/
theorem missing_key_spins :
    let env : Env Unit :=
      { pemDecode := some, decryptPEMBlock := fun _ _ => none, x509KeyPair := fun _ _ => some ()
        parses := fun _ => true, password := [], keyPair := ()
        history := fun _ => { key := none, cert := some [] } }
    ∃ s, run (step env) env.start [.look, .cancel, .look, .look] = some s ∧ ¬ Sound env s := by
  refine ⟨_, rfl, fun sound => ?_⟩
  exact absurd sound.paced (by decide)

end TrojanGo.Tls
