import Soika.Domain.User

/-! # Signed cookies

A signed value is `<payload>.<sig>`, both parts in base64: the signature is the HMAC of the
encoded payload under the secret key of the instance.
-/

namespace Soika.Auth

local instance decidableEqBytes : DecidableEq ByteArray := ByteArray.instDecidableEq

/-- URL-safe base64 without padding, and HMAC-SHA256. -/
structure Signing where
  encode : ByteArray → String
  decode : String → Option ByteArray
  mac : ByteArray → ByteArray → ByteArray

namespace Signing

variable (S : Signing)

/-- Sign payload bytes. -/
def sign (secret payload : ByteArray) : String :=
  S.encode payload ++ "." ++ S.encode (S.mac secret (S.encode payload).toUTF8)

def signStr (secret : ByteArray) (payload : String) : String := S.sign secret payload.toUTF8

/-- Verify a signed token and return the original payload bytes. -/
def verify (secret : ByteArray) (token : String) : Except Error ByteArray :=
  match splitOnce '.' token with
  | none => .error (.auth "malformed signed token")
  | some (encodedPayload, encodedSig) =>
    match S.decode encodedSig with
    | none => .error (.auth "malformed signature encoding")
    | some expectedSig =>
      if S.mac secret encodedPayload.toUTF8 ≠ expectedSig then .error (.auth "invalid signature")
      else
        match S.decode encodedPayload with
        | none => .error (.auth "malformed payload encoding")
        | some payload => .ok payload

def verifyStr (secret : ByteArray) (token : String) : Except Error String :=
  match S.verify secret token with
  | .error e => .error e
  | .ok bytes =>
    match String.fromUTF8? bytes with
    | none => .error (.auth "payload is not valid UTF-8")
    | some text => .ok text

variable {S} {secret : ByteArray} {token : String}

theorem verify_eq_ok {payload : ByteArray} : S.verify secret token = .ok payload ↔
    ∃ encodedPayload encodedSig, splitOnce '.' token = some (encodedPayload, encodedSig) ∧
      S.decode encodedSig = some (S.mac secret encodedPayload.toUTF8) ∧
      S.decode encodedPayload = some payload := by
  unfold verify
  rcases splitOnce '.' token with _ | ⟨encodedPayload, encodedSig⟩
  · simp
  · simp only [Option.some.injEq, Prod.mk.injEq]
    constructor
    · intro h
      refine ⟨_, _, ⟨rfl, rfl⟩, ?_⟩
      cases hsig : S.decode encodedSig with
      | none => simp [hsig] at h
      | some sig =>
        simp only [hsig] at h
        split at h
        · cases h
        · rename_i hmac
          refine ⟨congrArg some (not_not.mp hmac).symm, ?_⟩
          split at h
          · cases h
          · rename_i found hfound
            cases h
            exact hfound
    · rintro ⟨_, _, ⟨rfl, rfl⟩, hsig, hpayload⟩
      simp [hsig, hpayload]

theorem verifyStr_eq_ok {text : String} : S.verifyStr secret token = .ok text ↔
    ∃ payload, S.verify secret token = .ok payload ∧ String.fromUTF8? payload = some text := by
  unfold verifyStr
  rcases S.verify secret token with e | payload
  · simp
  · rcases h : String.fromUTF8? payload with _ | found <;> simp [h]

end Signing

/-- Stands in for `base64` and `hmac` in examples: both show their bytes. -/
def Signing.plain : Signing where
  encode bytes := (String.fromUTF8? bytes).getD ""
  decode text := some text.toUTF8
  mac secret message := secret ++ message

/-- The first cookie of the name in a `Cookie` header. -/
def readCookie (header : Option String) (name : String) : Option String :=
  header.bind fun header =>
    (header.toList.splitOn ';').findSome? fun part =>
      match splitOnce '=' (trim (String.ofList part)) with
      | some (k, v) => if trim k = name then some (trim v) else none
      | none => none

end Soika.Auth
