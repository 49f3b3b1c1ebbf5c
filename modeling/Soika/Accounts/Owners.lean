import Soika.Adapters.AccountsConsistent
import Soika.Adapters.AccountsFrame
import Soika.Auth.Calls
import Soika.Library.Protocol

/-! # The owners of an instance

Demotion, deletion and conversion look for another owner in the transaction that they write
in, so an instance that has an owner keeps one. The first one is created by a setup, which
finds no owner there; in PostgreSQL it keeps the settings locked from then on, and nobody
becomes an owner in between because only an owner can promote.
-/

namespace Soika

open Table Interaction

namespace Accounts

def HasOwner (d : Accounts) : Prop := ∃ u ∈ d.users, u.instanceRole = .owner

instance (d : Accounts) : Decidable d.HasOwner := inferInstanceAs (Decidable (∃ u ∈ d.users, _))

variable {B : AccountBackend} {d d' : Accounts} {now : Timestamp} {id : Id}

theorem mem_owners {u : UserRow} :
    u ∈ select UserRow.instanceRole .owner d.users ↔ u ∈ d.users ∧ u.instanceRole = .owner :=
  mem_select

theorem countOwners_pos : 0 < d.countOwners ↔ d.HasOwner := by
  rw [countOwners, List.length_pos_iff_exists_mem]
  exact exists_congr fun u => mem_owners

/-- A user who is not the last owner leaves the instance with another one. -/
theorem HasOwner.other (hd : d.Consistent) (h : d.HasOwner) (hlast : ¬ d.IsLastOwner id) :
    ∃ u ∈ d.users, u.instanceRole = .owner ∧ u.id ≠ id := by
  by_contra hnone
  push Not at hnone
  have hid : ∀ u ∈ select UserRow.instanceRole .owner d.users, u.id = id := fun u hu =>
    hnone u (mem_owners.mp hu).1 (mem_owners.mp hu).2
  have hunique : UniqueOn UserRow.id (select UserRow.instanceRole .owner d.users) :=
    hd.userIds.filter _
  obtain ⟨u, hu, hrole⟩ := h
  refine hlast ⟨⟨u, hu, hnone u hu hrole, hrole⟩, ?_⟩
  unfold countOwners
  generalize select UserRow.instanceRole .owner d.users = owners at hid hunique ⊢
  rcases owners with _ | ⟨a, _ | ⟨b, rest⟩⟩
  · exact Nat.zero_le _
  · exact le_rfl
  · refine absurd ?_ ((UniqueOn.cons_iff.mp hunique).1 b List.mem_cons_self)
    rw [hid a List.mem_cons_self, hid b (List.mem_cons_of_mem _ List.mem_cons_self)]

theorem HasOwner.modify {f : UserRow → UserRow} (hd : d.Consistent) (h : d.HasOwner)
    (hlast : (∀ u ∈ d.users, u.id = id → u.instanceRole = .owner → (f u).instanceRole = .owner) ∨
      ¬ d.IsLastOwner id) (husers : d'.users = Table.modify UserRow.id id f d.users) :
    d'.HasOwner := by
  rcases hlast with hkeep | hlast
  · obtain ⟨u, hu, hrole⟩ := h
    refine ⟨_, husers ▸ mem_modify.mpr ⟨u, hu, rfl⟩, ?_⟩
    split
    · rename_i hid
      exact hkeep u hu hid hrole
    · exact hrole
  · obtain ⟨u, hu, hrole, hne⟩ := h.other hd hlast
    exact ⟨u, husers ▸ mem_modify.mpr ⟨u, hu, if_neg hne⟩, hrole⟩

theorem hasOwner_of_modify {f : UserRow → UserRow}
    (hf : ∀ u, (f u).instanceRole = .owner → u.instanceRole = .owner)
    (husers : d'.users = Table.modify UserRow.id id f d.users) (h : d'.HasOwner) : d.HasOwner := by
  obtain ⟨_, hmem, hrole⟩ := h
  obtain ⟨u, hu, rfl⟩ := mem_modify.mp (husers ▸ hmem)
  clear hmem
  split at hrole
  · exact ⟨u, hu, hf u hrole⟩
  · exact ⟨u, hu, hrole⟩

end Accounts

open Accounts Auth

def Auth.Write.Mints : Write → Prop
  | createAccount new _ => new.instanceRole = .owner
  | setupInsert new => new.instanceRole = .owner
  | setInstanceRole _ role => role = .owner
  | _ => False

theorem Accounts.HasOwner.run {B : AccountBackend} {now : Timestamp} {d d' : Accounts}
    (hd : d.Consistent) {w : Write} {r : w.Reply} (hrun : w.run B now d = .ok (r, d'))
    (h : d.HasOwner) : d'.HasOwner := by
  cases htouch : w.touchesUsers with
  | false => rwa [HasOwner, (Write.frame hrun).users htouch]
  | true =>
    cases w with
    | createAccount new initialOwner =>
      obtain ⟨-, -, -, rfl⟩ := createAccount_eq_ok.mp hrun
      obtain ⟨u, hu, hrole⟩ := h
      exact ⟨u, List.mem_append_left _ hu, hrole⟩
    | setupInsert new =>
      obtain ⟨-, -, rfl⟩ := setupInsert_eq_ok.mp hrun
      obtain ⟨u, hu, hrole⟩ := h
      exact ⟨u, List.mem_append_left _ hu, hrole⟩
    | updateUser id update =>
      obtain ⟨_, -, rfl⟩ := updateUser_eq_ok.mp hrun
      exact h.modify (f := update.apply) hd (.inl fun u _ _ hrole => hrole) rfl
    | setInstanceRole id role =>
      obtain ⟨hlast, _, -, -, rfl⟩ := setInstanceRole_eq_ok.mp hrun
      refine h.modify (f := UserRow.withRole role) hd ?_ rfl
      by_cases hrole : role = .owner
      · exact .inl fun _ _ _ _ => hrole
      · exact .inr fun hn => hlast ⟨hrole, hn⟩
    | deleteUser id =>
      obtain ⟨hlast, -, -, rfl⟩ := deleteUser_eq_ok.mp hrun
      obtain ⟨u, hu, hrole, hne⟩ := h.other hd hlast
      exact ⟨u, mem_remove.mpr ⟨hu, hne⟩, hrole⟩
    | convertToSso id =>
      obtain ⟨_, -, -, rfl⟩ := convertToSso_eq_ok.mp hrun
      exact h.modify (f := UserRow.ssoOnly) hd (.inl fun u _ _ hrole => hrole) rfl
    | _ => cases htouch

theorem Accounts.hasOwner_of_run {B : AccountBackend} {now : Timestamp} {d d' : Accounts} {w : Write}
    {r : w.Reply} (hrun : w.run B now d = .ok (r, d')) (hmints : ¬ w.Mints) (h : d'.HasOwner) :
    d.HasOwner := by
  cases htouch : w.touchesUsers with
  | false => rwa [HasOwner, (Write.frame hrun).users htouch] at h
  | true =>
    have hadd : ∀ {new : NewUser} {id : Id}, ¬ new.instanceRole = .owner →
        (∃ u ∈ d.users ++ [new.row id], u.instanceRole = .owner) → d.HasOwner := by
      rintro new id hrole ⟨u, hu, hown⟩
      rcases List.mem_append.mp hu with hu | hu
      · exact ⟨u, hu, hown⟩
      · obtain rfl := List.mem_singleton.mp hu
        exact absurd hown hrole
    cases w with
    | createAccount new initialOwner =>
      obtain ⟨-, -, -, rfl⟩ := createAccount_eq_ok.mp hrun
      exact hadd hmints h
    | setupInsert new =>
      obtain ⟨-, -, rfl⟩ := setupInsert_eq_ok.mp hrun
      exact hadd hmints h
    | updateUser id update =>
      obtain ⟨_, -, rfl⟩ := updateUser_eq_ok.mp hrun
      exact hasOwner_of_modify (f := update.apply) (fun _ h => h) rfl h
    | setInstanceRole id role =>
      obtain ⟨-, _, -, -, rfl⟩ := setInstanceRole_eq_ok.mp hrun
      exact hasOwner_of_modify (f := UserRow.withRole role)
        (fun _ hrole => absurd hrole hmints) rfl h
    | deleteUser id =>
      obtain ⟨-, -, -, rfl⟩ := deleteUser_eq_ok.mp hrun
      obtain ⟨u, hu, hrole⟩ := h
      exact ⟨u, (mem_remove.mp hu).1, hrole⟩
    | convertToSso id =>
      obtain ⟨_, -, -, rfl⟩ := convertToSso_eq_ok.mp hrun
      exact hasOwner_of_modify (f := UserRow.ssoOnly) (fun _ h => h) rfl h
    | _ => cases htouch

end Soika
