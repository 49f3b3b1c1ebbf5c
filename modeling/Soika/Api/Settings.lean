import Soika.Auth.Session

/-! # Administration of users

The handlers that approve and delete accounts and change their instance role.
-/

namespace Soika.Api

open Interaction Auth

def targetUser (id : Id) : Prog authCalls Error UserRow := do
  match ← get (.findUserById id) with
  | some user => return user
  | none => Prog.fail (.notFound s!"user not found: {id}")

/-- `POST /admin/users/{id}/approve` -/
def approveUser (app : AppState) (cookies : Option String) (id : Id) :
    Prog authCalls Error Response := do
  let admin ← Auth.adminUser app cookies
  match ← get (.findUserById id) with
  | none => Prog.fail (.notFound "user")
  | some target => do
    if (app.adminUsers.effectiveRole target.email target.instanceRole).isOwner &&
        !admin.instanceRole.isOwner then
      Prog.fail (.forbidden "only an owner can approve an owner account")
    else do
      let user ← updateUser id ⟨none, none, some .active⟩
      return .adminUser (.withConfig app user)

def requireAnotherOwner (msg : String) (needed : Bool) : Prog authCalls Error Unit :=
  if needed then do
    let owners : ℕ ← get .countOwners
    if owners ≤ 1 then Prog.fail (.conflict msg) else return ()
  else return ()

/-- `DELETE /admin/users/{id}` -/
def deleteUser (app : AppState) (cookies : Option String) (id : Id) :
    Prog authCalls Error Response := do
  let admin ← Auth.adminUser app cookies
  if id = admin.id then Prog.fail (.forbidden "you cannot delete your own account")
  else do
    let target ← targetUser id
    if (app.adminUsers.effectiveRole target.email target.instanceRole).isOwner &&
        !admin.instanceRole.isOwner then
      Prog.fail (.forbidden "only an owner can delete an owner")
    else do
      requireAnotherOwner "cannot delete the last owner" target.instanceRole.isOwner
      put (.deleteUser id)
      return .deletedUser id

/-- `PATCH /admin/users/{id}` -/
def setUserRole (app : AppState) (cookies : Option String) (id : Id) (role : InstanceRole) :
    Prog authCalls Error Response := do
  let admin ← Auth.adminUser app cookies
  let target ← targetUser id
  if app.adminUsers.contains target.email then
    Prog.fail (.forbidden "role is managed by ADMIN_USERS and cannot be changed")
  else if (target.instanceRole.isOwner || role.isOwner) && !admin.instanceRole.isOwner then
    Prog.fail (.forbidden "only an owner can grant or revoke the owner role")
  else do
    requireAnotherOwner "cannot demote the last owner" (target.instanceRole.isOwner && !role.isOwner)
    let updated ← put (.setInstanceRole id role)
    return .adminUser (.withConfig app updated)

end Soika.Api
