import TrojanGo.Lib.Tally
import TrojanGo.Traffic

/-!
# The outbox state

`Save` and `Load` both validate, so a stored state carries its validity; a file that `Load` cannot
accept is only known to be unreadable.
-/
namespace TrojanGo.Plane

open Lib

abbrev Amounts := Finmap fun _ : String => Traffic

structure State where
  version : Int := 0
  pendingSyncID : String := ""
  pending : Amounts := ∅
  queued : Amounts := ∅
  deriving DecidableEq

namespace State

def currentVersion : Int := 1

def isEmpty (st : State) : Prop := st.pendingSyncID = "" ∧ st.pending = ∅ ∧ st.queued = ∅

instance (st : State) : Decidable st.isEmpty := inferInstanceAs (Decidable (_ ∧ _ ∧ _))

def normalize (st : State) : State := { st with version := currentVersion }

/-- The checks of one group; the first offending user is not named here, since a range loop
visits them in no particular order. -/
def validateGroup (group : String) (traffic : Amounts) : Except String Unit :=
  if "" ∈ traffic then
    .error s!"{group} traffic contains an empty user hash"
  else if traffic.any fun _ amount => decide (amount = 0) then
    .error s!"{group} traffic contains an empty value for user"
  else .ok ()

def validate (st : State) : Except String Unit :=
  if st.version ≠ 0 ∧ st.version ≠ currentVersion then
    .error s!"unsupported traffic outbox version {st.version}"
  else if st.pending ≠ ∅ ∧ st.pendingSyncID = "" then
    .error "pending traffic is missing a sync id"
  else if st.pending = ∅ ∧ st.pendingSyncID ≠ "" then
    .error "pending sync id has no traffic"
  else
    match validateGroup "pending" st.pending with
    | .error reason => .error reason
    | .ok () => validateGroup "queued" st.queued

@[simp] theorem normalize_pendingSyncID (st : State) :
    st.normalize.pendingSyncID = st.pendingSyncID := rfl
@[simp] theorem normalize_pending (st : State) : st.normalize.pending = st.pending := rfl
@[simp] theorem normalize_queued (st : State) : st.normalize.queued = st.queued := rfl

/-- A valid state has a sync ID exactly when it has a batch in flight. -/
theorem validate_ok {st : State} (valid : st.validate = .ok ()) :
    st.pendingSyncID = "" ↔ st.pending = ∅ := by
  grind [validate]

end State

/-- A state as `Save` writes it. -/
structure StoredState where
  state : State
  valid : state.validate = .ok ()
  normal : state.version = State.currentVersion

/-- The outbox file. -/
inductive Disk where
  | absent
  | unreadable (reason : String)
  | stored (state : StoredState)

namespace Disk

def load : Disk → Except String State
  | .absent => .ok (State.normalize {})
  | .unreadable reason => .error reason
  | .stored st => .ok st.state.normalize

/-- What a restart can know from the file. -/
def content : Disk → State
  | .stored st => st.state
  | _ => State.normalize {}

theorem content_valid (disk : Disk) :
    disk.content.pendingSyncID = "" ↔ disk.content.pending = ∅ := by
  cases disk with
  | stored st => exact State.validate_ok st.valid
  | absent | unreadable => simp [content]

theorem content_normal (disk : Disk) : disk.content.version = State.currentVersion := by
  cases disk with
  | stored st => exact st.normal
  | absent | unreadable => rfl

theorem load_content {disk : Disk} {st : State} (loaded : disk.load = .ok st) :
    st = disk.content := by
  cases disk with
  | absent => cases loaded; rfl
  | unreadable reason => cases loaded
  | stored stored =>
    cases loaded
    have normal := stored.normal
    cases found : stored.state
    simp_all [State.normalize, content]

end Disk

end TrojanGo.Plane
