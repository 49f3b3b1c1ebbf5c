import Soika.Domain.Membership
import Soika.Domain.Text
import Soika.Error

/-! # Accounts and invites

Roles, states and credentials of an account, the grants that the configuration makes,
and the rules by which sign-in accepts them.
-/

namespace Soika

inductive InstanceRole where
  | owner
  | manager
  | member
  deriving DecidableEq

namespace InstanceRole

def isOwner (r : InstanceRole) : Bool := r = owner

def canManageInstance (r : InstanceRole) : Bool := r = owner || r = manager

end InstanceRole

inductive UserStatus where
  | active
  | pending
  deriving DecidableEq

def UserStatus.isPending (s : UserStatus) : Bool := s = .pending

inductive AuthProvider where
  | localAccount
  | oidc
  deriving DecidableEq

structure UserRow where
  id : Id
  email : String
  displayName : String
  /-- Argon2 PHC string; empty for accounts of an identity provider. -/
  passwordHash : String
  instanceRole : InstanceRole
  authProvider : AuthProvider
  status : UserStatus
  deriving DecidableEq

structure NewUser where
  email : String
  displayName : String
  passwordHash : String
  instanceRole : InstanceRole
  authProvider : AuthProvider
  status : UserStatus

structure Invite where
  token : String
  teamId : Id
  role : TeamRole
  email : Option String
  createdBy : Option Id
  createdAt : Timestamp
  expiresAt : Timestamp
  acceptedAt : Option Timestamp
  deriving DecidableEq

/-- `str::to_ascii_lowercase` -/
def asciiLowercase (s : String) : String := String.ofList (s.toList.map Char.toLower)

/-- `str::eq_ignore_ascii_case` -/
def eqIgnoreAsciiCase (a b : String) : Bool := asciiLowercase a = asciiLowercase b

/-- `char::is_control` -/
def isControl (c : Char) : Bool := c.val < 0x20 || (0x7f ≤ c.val && c.val ≤ 0x9f)

/-- `str::split_once` at one character. -/
def splitOnce (c : Char) (s : String) : Option (String × String) :=
  (cutText [c] s.toList).map fun parts => (String.ofList parts.1, String.ofList parts.2)

/-- `str::rsplit_once` at one character. -/
def rsplitOnce (c : Char) (s : String) : Option (String × String) :=
  (rfindText [c] s.toList).map fun i =>
    (String.ofList (s.toList.take i), String.ofList (s.toList.drop (i + 1)))

/-- Minimum accepted length of a display name, in characters after trimming. -/
def minDisplayNameLen : ℕ := 3

def normalizeDisplayName (name : String) : Except Error String :=
  if (trim name).length < minDisplayNameLen then
    .error (.validation "display name must be at least 3 characters")
  else .ok (trim name)

@[irreducible]
def normalizeEmail (email : String) : Except Error String :=
  let e := asciiLowercase (trim email)
  if 254 < e.utf8ByteSize ∨ (e.toList.any fun c => isWhitespace c || isControl c) ∨
      ¬ (splitOnce '@' e).any fun (loc, domain) => loc ≠ "" && domain ≠ "" && '@' ∉ domain.toList then
    .error (.validation "a valid email is required")
  else .ok e

def validatePassword (password : String) : Except Error Unit :=
  if password.utf8ByteSize < 8 then
    .error (.validation "password must be at least 8 characters")
  else .ok ()

/-- Configuration-only Owner grants, as lowercase addresses. -/
structure AdminUsers where
  emails : List String

namespace AdminUsers

def contains (a : AdminUsers) (email : String) : Bool := asciiLowercase (trim email) ∈ a.emails

def isEmpty (a : AdminUsers) : Bool := a.emails.isEmpty

/-- Apply the environment grant without writing it to the stored role. -/
def effectiveRole (a : AdminUsers) (email : String) (stored : InstanceRole) : InstanceRole :=
  if a.contains email then .owner else stored

/-- A request-scoped user with effective permissions. -/
def apply (a : AdminUsers) (user : UserRow) : UserRow :=
  { user with instanceRole := a.effectiveRole user.email user.instanceRole }

variable {a : AdminUsers} {user : UserRow}

@[simp] theorem apply_id : (a.apply user).id = user.id := rfl
@[simp] theorem apply_status : (a.apply user).status = user.status := rfl
@[simp] theorem apply_email : (a.apply user).email = user.email := rfl
@[simp] theorem apply_passwordHash : (a.apply user).passwordHash = user.passwordHash := rfl

theorem apply_isOwner : (a.apply user).instanceRole.isOwner = true ↔
    user.instanceRole = .owner ∨ a.contains user.email = true := by
  unfold apply effectiveRole InstanceRole.isOwner
  split_ifs with h <;> simp [h]

theorem contains_of_isEmpty (h : a.isEmpty = true) (email : String) : a.contains email = false := by
  have : a.emails = [] := List.isEmpty_iff.mp h
  simp [contains, this]

end AdminUsers

/-- SSO must replace local credentials except for effective instance Owners. -/
def shouldConvertToSso (user : UserRow) : Bool :=
  user.authProvider = .localAccount && !user.instanceRole.isOwner

/-- Whether a stored account may use an existing session with SSO enabled. -/
def sessionAllowedWithSso (user : UserRow) : Bool :=
  user.authProvider = .oidc || user.instanceRole.isOwner

/-- An invite is usable at `now`: not yet accepted and not expired. -/
def checkInviteUsable (invite : Invite) (now : Timestamp) : Except Error Unit :=
  if invite.acceptedAt.isSome then .error (.auth "invite has already been accepted")
  else if invite.expiresAt ≤ now then .error (.auth "invite has expired")
  else .ok ()

end Soika
