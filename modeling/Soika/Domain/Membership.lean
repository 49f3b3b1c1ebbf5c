import Soika.Domain.Issue

/-! # Team membership

The role of a user in a team, as it is stored and as several sources of it combine.
-/

namespace Soika

inductive TeamRole where
  | admin
  | contributor
  deriving DecidableEq

namespace TeamRole

def asStr : TeamRole → String
  | admin => "admin"
  | contributor => "contributor"

/-- Parse the stored text value; unknown values fall back to `contributor`. -/
def fromDb (value : String) : TeamRole := if value = "admin" then admin else contributor

theorem fromDb_asStr (r : TeamRole) : fromDb r.asStr = r := by cases r <;> rfl

end TeamRole

/-- The loop of `reconcile_memberships`, from the result so far. -/
def reconcileFrom (result : Option TeamRole) : List TeamRole → Option TeamRole
  | [] => result
  | role :: roles => if role = .admin then some role else reconcileFrom (some role) roles

/-- Combine all membership sources, preferring `admin` over `contributor`. -/
def reconcileMemberships (roles : List TeamRole) : Option TeamRole := reconcileFrom none roles

theorem reconcileFrom_eq_none {result : Option TeamRole} {roles : List TeamRole} :
    reconcileFrom result roles = none ↔ result = none ∧ roles = [] := by
  induction roles generalizing result with
  | nil => simp [reconcileFrom]
  | cons r roles ih => cases r <;> simp [reconcileFrom, ih]

theorem reconcileFrom_eq_admin {result : Option TeamRole} (h : result ≠ some .admin)
    {roles : List TeamRole} : reconcileFrom result roles = some .admin ↔ .admin ∈ roles := by
  induction roles generalizing result with
  | nil => simp [reconcileFrom, h]
  | cons r roles ih =>
    cases r with
    | admin => simp [reconcileFrom]
    | contributor => simp [reconcileFrom, ih]

theorem reconcileMemberships_eq_none {roles : List TeamRole} :
    reconcileMemberships roles = none ↔ roles = [] := by
  simp [reconcileMemberships, reconcileFrom_eq_none]

theorem reconcileMemberships_eq_admin {roles : List TeamRole} :
    reconcileMemberships roles = some .admin ↔ .admin ∈ roles :=
  reconcileFrom_eq_admin (Option.some_ne_none _).symm

theorem reconcileMemberships_eq_contributor {roles : List TeamRole} :
    reconcileMemberships roles = some .contributor ↔ .admin ∉ roles ∧ roles ≠ [] := by
  rw [← reconcileMemberships_eq_admin, Ne, ← reconcileMemberships_eq_none]
  rcases reconcileMemberships roles with _ | _ | _ <;> simp

/-- The combined role depends on which roles are granted only. -/
theorem reconcileMemberships_congr {roles roles' : List TeamRole} (h : ∀ r, r ∈ roles ↔ r ∈ roles') :
    reconcileMemberships roles = reconcileMemberships roles' := by
  have hnil : roles = [] ↔ roles' = [] := by
    simp only [List.eq_nil_iff_forall_not_mem, h]
  cases hr : reconcileMemberships roles' with
  | none => rw [reconcileMemberships_eq_none, hnil, ← reconcileMemberships_eq_none, hr]
  | some r =>
    cases r with
    | admin => rw [reconcileMemberships_eq_admin, h, ← reconcileMemberships_eq_admin, hr]
    | contributor =>
      rw [reconcileMemberships_eq_contributor, h, Ne, hnil, ← Ne,
        ← reconcileMemberships_eq_contributor, hr]

end Soika
