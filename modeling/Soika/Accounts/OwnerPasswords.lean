import Soika.Accounts.FirstOwner
import Soika.Auth.Callback
import Soika.Domain.Slug
import Soika.Domain.Trim

/-! # Passwords of owners

Setup gives the first owner a password, and nothing takes a password away from an owner: conversion
refuses owners, and the accounts that a provider vouches for are members. A role change keeps that if
it finds a password set for the account.
-/

namespace Soika

theorem toLower_toLower (c : Char) : c.toLower.toLower = c.toLower := by
  by_cases halphanum : c.isAlphanum = true
  · exact toLower_of_isWordChar (isWordChar_toLower halphanum)
  · have hsame : c.toLower = c := by
      unfold Char.toLower
      rw [dif_neg]
      rintro ⟨hlow, hhigh⟩
      apply halphanum
      rw [isAlphanum_iff, isAlpha_iff]
      exact .inl (.inl ⟨hlow, hhigh⟩)
    rw [hsame, hsame]

theorem asciiLowercase_asciiLowercase (s : String) :
    asciiLowercase (asciiLowercase s) = asciiLowercase s := by
  unfold asciiLowercase
  rw [String.toList_ofList, List.map_map]
  congr 1
  apply List.map_congr_left
  intro c _
  exact toLower_toLower c

theorem trim_of_no_whitespace {s : String} (h : ∀ c ∈ s.toList, isWhitespace c = false) :
    trim s = s := by
  have hchars : trimChars s.toList = s.toList :=
    trimChars_of_ends (fun c hc => h c (List.mem_of_mem_head? hc))
      fun c hc => h c (List.mem_of_getLast? hc)
  change String.ofList (trimChars s.toList) = s
  rw [hchars, String.ofList_toList]

theorem normalizeEmail_normal {email address : String} (h : normalizeEmail email = .ok address) :
    normalizeEmail address = .ok address := by
  unfold normalizeEmail at h
  dsimp only at h
  split at h
  · cases h
  rename_i hvalid
  obtain rfl := Except.ok.inj h
  have hspaceless : ∀ c ∈ (asciiLowercase (trim email)).toList, isWhitespace c = false := by
    intro c hc
    by_contra hspace
    refine hvalid (.inr (.inl (List.any_eq_true.mpr ⟨c, hc, ?_⟩)))
    rw [eq_true_of_ne_false hspace, Bool.true_or]
  unfold normalizeEmail
  rw [trim_of_no_whitespace hspaceless, asciiLowercase_asciiLowercase]
  exact if_neg hvalid

namespace Auth

open Table Interaction Accounts

/-- The requests that make, convert, activate, promote and remove accounts once the provider is
configured. -/
inductive OwnerOp where
  | setup (body : SetupRequest) (drawn : Drawn)
  | callback (request : CallbackRequest)
  | approveUser (cookies : Option String) (id : Id)
  | setUserRole (cookies : Option String) (id : Id) (role : InstanceRole)
  | deleteUser (cookies : Option String) (id : Id)

def OwnerOp.prog (app : AppState) (settings : OidcSettings) (provider : OidcProvider) :
    OwnerOp → Prog authCalls Error Response
  | setup body drawn => Auth.setup app body drawn
  | callback request => runCallback app settings provider request
  | approveUser cookies id => Api.approveUser app cookies id
  | setUserRole cookies id role => Api.setUserRole app cookies id role
  | deleteUser cookies id => Api.deleteUser app cookies id

/-- A hash verifies the password that it is made of. -/
def Argon2.RoundTrips (A : Argon2) : Prop :=
  ∀ salt password stored, A.hashPassword salt password = .ok stored →
    stored ≠ "" ∧ A.verifyPassword password stored = .ok true

/-- A password has been set, for an address that is stored as sign-in reads it. -/
structure HasPassword (A : Argon2) (email passwordHash : String) : Prop where
  hash : passwordHash ≠ ""
  email : normalizeEmail email = .ok email
  password : ∃ password, A.verify password passwordHash = .ok true

theorem HasPassword.of_hash {A : Argon2} (hA : A.RoundTrips) {salt password stored email : String}
    (hemail : normalizeEmail email = .ok email) (h : A.hash salt password = .ok stored) :
    HasPassword A email stored := by
  obtain ⟨-, hhash⟩ := ite_error_eq_ok.mp h
  obtain ⟨hne, hverify⟩ := hA _ _ _ hhash
  refine ⟨hne, hemail, password, ?_⟩
  rwa [Argon2.verify, if_neg hne]

/-- Every hash that is stored is of a password, and every owner has one. -/
structure Keyed (A : Argon2) (d : Accounts) : Prop where
  ids : UniqueOn UserRow.id d.users
  emails : UniqueOn UserRow.email d.users
  fresh : ∀ u ∈ d.users, u.id < d.nextId
  passwords : ∀ u ∈ d.users, u.passwordHash ≠ "" → HasPassword A u.email u.passwordHash
  owners : ∀ u ∈ d.users, u.instanceRole = .owner → u.passwordHash ≠ ""

namespace Keyed

variable {A : Argon2} {B : AccountBackend} {d d' : Accounts} {now : Timestamp} {id : Id}

theorem of_users (h : Keyed A d) (husers : d'.users = d.users) (hnext : d.nextId ≤ d'.nextId) :
    Keyed A d' where
  ids := husers ▸ h.ids
  emails := husers ▸ h.emails
  fresh u hu := Nat.lt_of_lt_of_le (h.fresh u (husers ▸ hu)) hnext
  passwords u hu := h.passwords u (husers ▸ hu)
  owners u hu := h.owners u (husers ▸ hu)

theorem addUser (h : Keyed A d) {new : NewUser} (hemail : d.userByEmail new.email = none)
    (hpassword : new.passwordHash ≠ "" → HasPassword A new.email new.passwordHash)
    (howner : new.instanceRole = .owner → new.passwordHash ≠ "")
    (husers : d'.users = d.users ++ [new.row d.nextId]) (hnext : d'.nextId = d.nextId + 1) :
    Keyed A d' where
  ids := husers ▸ h.ids.append_single fun u hu => (h.fresh u hu).ne
  emails := husers ▸ h.emails.append_single (lookup_eq_none.mp hemail)
  fresh := by
    rw [husers, hnext]
    exact forall_mem_snoc (fun u hu => Nat.lt_succ_of_lt (h.fresh u hu)) (Nat.lt_succ_self _)
  passwords := husers ▸ forall_mem_snoc h.passwords hpassword
  owners := husers ▸ forall_mem_snoc h.owners howner

/-- The rows of one account change: a password stays or goes, and it does not go from an owner. -/
theorem modify (h : Keyed A d) {f : UserRow → UserRow} (hid : ∀ u, (f u).id = u.id)
    (hemail : ∀ u, (f u).email = u.email)
    (hpassword : ∀ u, (f u).passwordHash ≠ "" → (f u).passwordHash = u.passwordHash)
    (howner : ∀ u ∈ d.users, u.id = id → (f u).instanceRole = .owner → (f u).passwordHash ≠ "")
    (husers : d'.users = Table.modify UserRow.id id f d.users) (hnext : d'.nextId = d.nextId) :
    Keyed A d' where
  ids := husers ▸ h.ids.modify hid
  emails := husers ▸ h.emails.modify hemail
  fresh := by
    intro u hu
    obtain ⟨v, hv, rfl⟩ := mem_modify.mp (husers ▸ hu)
    have hrow : (if v.id = id then f v else v).id = v.id := by split <;> simp [hid]
    rw [hrow, hnext]
    exact h.fresh v hv
  passwords := by
    intro u hu
    obtain ⟨v, hv, rfl⟩ := mem_modify.mp (husers ▸ hu)
    split
    · intro hset
      have hsame := hpassword v hset
      rw [hemail, hsame]
      exact h.passwords v hv (hsame ▸ hset)
    · exact h.passwords v hv
  owners := by
    intro u hu
    obtain ⟨v, hv, rfl⟩ := mem_modify.mp (husers ▸ hu)
    split
    · rename_i hv'
      exact howner v hv hv'
    · exact h.owners v hv

end Keyed

/-- The write gives no account a hash of no password, and makes no owner without one but by a role
change. -/
def Write.KeepsKeys (A : Argon2) : Write → Prop
  | createAccount new _ | setupInsert new =>
    (new.passwordHash = "" ∧ new.instanceRole ≠ .owner) ∨
      HasPassword A new.email new.passwordHash
  | updateUser _ update => update.passwordHash = none
  | _ => True

theorem Keyed.addKept {A : Argon2} {d d' : Accounts} (h : Keyed A d) {new : NewUser}
    (hemail : d.userByEmail new.email = none)
    (hkeeps : (new.passwordHash = "" ∧ new.instanceRole ≠ .owner) ∨
      HasPassword A new.email new.passwordHash)
    (husers : d'.users = d.users ++ [new.row d.nextId]) (hnext : d'.nextId = d.nextId + 1) :
    Keyed A d' := by
  rcases hkeeps with ⟨hempty, hrole⟩ | hpassword
  · exact h.addUser hemail (absurd hempty) (fun howner => absurd howner hrole) husers hnext
  · exact h.addUser hemail (fun _ => hpassword) (fun _ => hpassword.hash) husers hnext

/-- One transaction, if a role change that makes an owner finds a password set. -/
theorem Keyed.run {A : Argon2} {B : AccountBackend} {now : Timestamp} {d d' : Accounts}
    (h : Keyed A d) {w : Write} (hw : w.KeepsKeys A) {r : w.Reply}
    (hrun : w.run B now d = .ok (r, d')) (hpromotes : ∀ id, w = .setInstanceRole id .owner →
      ∀ u ∈ d.users, u.id = id → u.passwordHash ≠ "") : Keyed A d' := by
  cases htouch : w.touchesUsers with
  | false =>
    obtain ⟨hframe, hnext⟩ := Write.frame_and_ids hrun
    exact h.of_users (hframe.users htouch) hnext
  | true =>
    cases w with
    | createAccount new initialOwner =>
      obtain ⟨-, hemail, -, rfl⟩ := createAccount_eq_ok.mp hrun
      exact h.addKept hemail hw rfl rfl
    | setupInsert new =>
      obtain ⟨hemail, -, rfl⟩ := setupInsert_eq_ok.mp hrun
      exact h.addKept hemail hw rfl rfl
    | updateUser id update =>
      obtain ⟨_, -, rfl⟩ := updateUser_eq_ok.mp hrun
      have hkept : ∀ u, (update.apply u).passwordHash = u.passwordHash := by
        intro u
        change update.passwordHash.getD u.passwordHash = _
        rw [show update.passwordHash = none from hw]
        rfl
      refine h.modify (f := update.apply) (fun _ => rfl) (fun _ => rfl) (fun u _ => hkept u) ?_
        rfl rfl
      intro u hu _ hrole
      rw [hkept]
      exact h.owners u hu hrole
    | setInstanceRole id role =>
      obtain ⟨-, _, -, -, rfl⟩ := setInstanceRole_eq_ok.mp hrun
      refine h.modify (f := UserRow.withRole role) (fun _ => rfl) (fun _ => rfl) (fun _ _ => rfl) ?_
        rfl rfl
      rintro u hu hid ⟨⟩
      exact hpromotes id rfl u hu hid
    | deleteUser id =>
      obtain ⟨-, -, -, rfl⟩ := deleteUser_eq_ok.mp hrun
      have hmem : ∀ u ∈ (d.removeUser id).users, u ∈ d.users := fun u hu => (mem_remove.mp hu).1
      exact {
        ids := h.ids.remove
        emails := h.emails.remove
        fresh := fun u hu => h.fresh u (hmem u hu)
        passwords := fun u hu => h.passwords u (hmem u hu)
        owners := fun u hu => h.owners u (hmem u hu) }
    | convertToSso id =>
      obtain ⟨found, hfound, hrole, rfl⟩ := convertToSso_eq_ok.mp hrun
      refine h.modify (f := UserRow.ssoOnly) (fun _ => rfl) (fun _ => rfl)
        (fun _ hne => absurd rfl hne) ?_ rfl rfl
      intro u hu hid howner
      obtain ⟨hmem, hsame⟩ := userById_mem hfound
      obtain rfl := h.ids.eq_of_key hmem hu (hsame.trans hid.symm)
      exact absurd howner hrole
    | _ => cases htouch

/-- What the requests call: writes that keep the passwords, and anything but a write. -/
def KeepsKeys (A : Argon2) : AuthCall → Prop
  | .write w => w.KeepsKeys A
  | _ => True

def AuthCall.promotes : AuthCall → Option Id
  | .write (.setInstanceRole id .owner) => some id
  | _ => none

/-- A role change that makes an owner finds a password set for the account. -/
def PromotesKeyed (e : Transition authCalls Error Server) : Prop :=
  ∀ id ∈ AuthCall.promotes e.call, e.answer.isOk = true →
    ∀ u ∈ e.before.db.users, u.id = id → u.passwordHash ≠ ""

instance : DecidablePred PromotesKeyed := fun _ => inferInstanceAs (Decidable (∀ _ ∈ _, _))

/-- Every call keeps the passwords; the local state says that the promotions so far found one. -/
def keysProtocol (A : Argon2) : Protocol authCalls Error Server Prop :=
  Protocol.always (KeepsKeys A) PromotesKeyed

section Requests

variable {H : Host} {A : Argon2} {app : AppState} {settings : OidcSettings}
  {provider : OidcProvider} {t : Prop} {α β : Type}

theorem keeps_of_writes {p : Prog authCalls Error α} (hp : p.Calls (Writes (Write.KeepsKeys A))) :
    p.Obeys H.machine (keysProtocol A) (fun _ _ => True) t := by
  apply Prog.Obeys.of_calls (T := fun _ => True) _ (fun _ _ _ _ _ _ => trivial) hp trivial
  intro t c _ hc
  cases c with
  | write w => exact hc
  | _ => trivial

theorem keeps_bind {p : Prog authCalls Error α} {f : α → Prog authCalls Error β}
    (hp : p.Obeys H.machine (keysProtocol A) (fun _ _ => True) t)
    (hf : ∀ a t, (f a).Obeys H.machine (keysProtocol A) (fun _ _ => True) t) :
    (p.bind f).Obeys H.machine (keysProtocol A) (fun _ _ => True) t := by
  apply Prog.Obeys.bind
  apply hp.mono
  rintro t (a | e | _) _
  · exact hf a t
  · trivial
  · trivial

theorem updateUser_calls {may : Write → Prop} {id : Id} {update : UserUpdate}
    (h : may (.updateUser id update)) : (updateUser id update).Calls (Writes may) := by
  apply Prog.Calls.bind (put_calls h)
  intro _
  apply Prog.Calls.bind (get_calls _)
  intro found
  split <;> trivial

theorem approveUser_calls {may : Write → Prop} (cookies : Option String) (id : Id)
    (h : may (.updateUser id ⟨none, none, some .active⟩)) :
    (Api.approveUser app cookies id).Calls (Writes may) := by
  unfold Api.approveUser
  apply Prog.Calls.bind (adminUser_calls _)
  intro admin
  apply Prog.Calls.bind (get_calls _)
  intro found
  split
  · trivial
  · split
    · trivial
    · exact (updateUser_calls h).bind fun _ => trivial

theorem setUserRole_calls {may : Write → Prop} (cookies : Option String) (id : Id)
    (role : InstanceRole) (h : may (.setInstanceRole id role)) :
    (Api.setUserRole app cookies id role).Calls (Writes may) := by
  unfold Api.setUserRole
  apply Prog.Calls.bind (adminUser_calls _)
  intro admin
  apply Prog.Calls.bind (targetUser_calls _)
  intro target
  split
  · trivial
  · split
    · trivial
    · apply Prog.Calls.bind (requireAnotherOwner_calls _ _)
      intro _
      exact (put_calls h).bind fun _ => trivial

theorem createInitialOwner_keeps {new : NewUser} (h : HasPassword A new.email new.passwordHash)
    (dialect : Dialect) :
    (dialect.repositories.createInitialOwner new).Calls (Writes (Write.KeepsKeys A)) := by
  cases dialect with
  | sqlite => exact (lift_calls _).bind fun _ => put_calls (.inr h)
  | postgres =>
    apply (lift_calls _).bind
    intro _
    apply (put_calls trivial).bind
    intro _
    exact orRollback_calls trivial (put_calls (.inr h))

theorem checkSetup_email {body : SetupRequest} {new : NewUser} {orgName : String}
    (h : checkSetup body = .ok (new, orgName)) : normalizeEmail new.email = .ok new.email := by
  simp only [checkSetup, bind_eq_ok] at h
  obtain ⟨email, hemail, _, -, displayName, -, _, -, h⟩ := h
  cases h
  exact normalizeEmail_normal hemail

theorem setup_keeps (hargon : H.argon2.RoundTrips) (body : SetupRequest) (drawn : Drawn) :
    (setup app body drawn).Obeys H.machine (keysProtocol H.argon2) (fun _ _ => True) t := by
  unfold setup
  cases requireSetup app with
  | error e => trivial
  | ok _ =>
    refine Prog.Obeys.ask trivial (fun s owners s' _ => ?_) fun _ _ _ _ _ => trivial
    split
    · trivial
    · cases hcheck : checkSetup body with
      | error e => trivial
      | ok checked =>
        obtain ⟨new, orgName⟩ := checked
        refine Prog.Obeys.ask trivial (fun s passwordHash s' hhash => ?_) fun _ _ _ _ _ => trivial
        have hpassword : HasPassword H.argon2 new.email passwordHash :=
          .of_hash hargon (checkSetup_email hcheck) (Prod.mk.inj hhash).1
        apply keeps_of_writes
        have hinsert := @createInitialOwner_keeps H.argon2 { new with passwordHash } hpassword
          app.dialect
        apply Prog.Calls.bind hinsert.result
        intro result
        split
        · trivial
        · have hend : ∀ id view session, ((startSession drawn.sessionId id).bind fun _ =>
              Prog.ret (Response.account 201 view session)).Calls
                (Writes (Write.KeepsKeys H.argon2)) :=
            fun id view session => (startSession_calls (fun _ _ _ => trivial) _ _).bind
              fun _ => trivial
          dsimp only
          split
          · exact (put_calls trivial).bind fun _ => hend _ _ _
          · exact hend _ _ _

theorem identify_calls {may : Write → Prop} (request : CallbackRequest) :
    (identify app settings provider request).Calls (Writes may) := by
  unfold identify
  apply (lift_calls _).bind
  intro code
  apply (lift_calls _).bind
  intro state
  apply (lift_calls _).bind
  intro signed
  apply (get_calls _).bind
  intro now
  apply (lift_calls _).bind
  intro payload
  apply (lift_calls _).bind
  intro _
  apply (lift_calls _).bind
  intro claims
  exact (lift_calls _).bind fun _ => trivial

theorem findOrCreate_calls (claims : OidcClaims) :
    (findOrCreate app settings claims).Calls (Writes (Write.KeepsKeys A)) := by
  unfold findOrCreate
  apply Prog.Calls.bind (get_calls _)
  intro found
  split
  · split
    · trivial
    · unfold ssoAccount
      split
      · exact convertToSso_calls _ trivial
      · trivial
  · exact put_calls (.inl ⟨rfl, by simp [vouchedAccount]⟩)

theorem grantTeams_keeps (claims : OidcClaims) (occasion : ℕ) (user : UserRow) :
    (grantTeams app claims occasion user).Obeys H.machine (keysProtocol A) (fun _ _ => True) t := by
  unfold grantTeams
  split
  · refine Prog.Obeys.ask trivial (fun s granted s' _ => ?_) fun _ _ _ _ _ => trivial
    split
    · exact keeps_of_writes (updateUser_calls rfl)
    · trivial
  · trivial

theorem runCallback_keeps (request : CallbackRequest) :
    (runCallback app settings provider request).Obeys H.machine (keysProtocol A)
      (fun _ _ => True) t := by
  unfold runCallback
  apply keeps_bind (keeps_of_writes (identify_calls request))
  rintro ⟨payload, claims⟩ t
  apply keeps_bind (keeps_of_writes (findOrCreate_calls claims))
  intro user t
  apply keeps_bind (grantTeams_keeps claims request.occasion user)
  intro user t
  split
  · trivial
  · apply keeps_of_writes
    apply Prog.Calls.bind (startSession_calls (fun _ _ _ => trivial) _ _)
    intro _
    exact (lift_calls _).bind fun _ => trivial

theorem OwnerOp.keeps (hargon : H.argon2.RoundTrips) (op : OwnerOp) :
    (op.prog app settings provider).Obeys H.machine (keysProtocol H.argon2) (fun _ _ => True)
      t := by
  cases op with
  | setup body drawn => exact setup_keeps hargon body drawn
  | callback request => exact runCallback_keeps request
  | approveUser cookies id => exact keeps_of_writes (approveUser_calls cookies id rfl)
  | setUserRole cookies id role => exact keeps_of_writes (setUserRole_calls cookies id role trivial)
  | deleteUser cookies id => exact keeps_of_writes (deleteUser_calls cookies id trivial)

end Requests

end Auth

end Soika
