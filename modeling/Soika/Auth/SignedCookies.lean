import Soika.Auth.Ceremonies
import Soika.Domain.Find
import Soika.Domain.Trim
import Soika.Library.Base64
import Soika.Library.Separated

/-! # Signed cookies are exact

A token is accepted when it is what the instance signs for its payload, and for no other. The session
cookie that an instance issues names its session in any `Cookie` header, whatever cookies
stand around it.
-/

namespace Soika.Auth

/-- Base64 has one text for each list of bytes, in its alphabet, and decodes no other. -/
structure Signing.Exact (S : Signing) : Prop where
  alphabet : ∀ bytes, ∀ c ∈ (S.encode bytes).toList, Base64.isDigit64 c = true
  decode_eq_some : ∀ text bytes, S.decode text = some bytes ↔ S.encode bytes = text

theorem splitOnce_eq_some {c : Char} {s before after : String}
    (h : splitOnce c s = some (before, after)) : s = before ++ String.singleton c ++ after := by
  obtain ⟨⟨b, a⟩, hcut, hparts⟩ := Option.map_eq_some_iff.mp h
  obtain ⟨rfl, rfl⟩ := Prod.mk.inj hparts
  have hs := ((cutText_eq_some (List.cons_ne_nil c [])).mp hcut).eq
  rw [← String.toList_inj, hs]
  simp

namespace Signing.Exact

variable {S : Signing} (hS : S.Exact)
include hS

theorem lawful : S.Lawful := by
  constructor
  · intro bytes
    exact (hS.decode_eq_some _ _).mpr rfl
  · intro bytes hdot
    have hdigit := hS.alphabet bytes '.' hdot
    revert hdigit
    decide

theorem verify_iff {secret payload : ByteArray} {token : String} :
    S.verify secret token = .ok payload ↔ token = S.sign secret payload := by
  rw [verify_eq_ok]
  constructor
  · rintro ⟨encodedPayload, encodedSig, hsplit, hsig, hpayload⟩
    obtain rfl := (hS.decode_eq_some _ _).mp hpayload
    obtain rfl := (hS.decode_eq_some _ _).mp hsig
    exact splitOnce_eq_some hsplit
  · rintro rfl
    refine ⟨_, _, splitOnce_append (hS.lawful.no_dot payload) _, ?_, ?_⟩
    · exact hS.lawful.decode_encode _
    · exact hS.lawful.decode_encode _

theorem signStr_alphabet {secret : ByteArray} {text : String} :
    ∀ c ∈ (S.signStr secret text).toList, Base64.isDigit64 c = true ∨ c = '.' := by
  intro c hc
  rw [signStr, sign, String.toList_append, String.toList_append, List.mem_append,
    List.mem_append] at hc
  rcases hc with (hc | hc) | hc
  · exact Or.inl (hS.alphabet _ c hc)
  · exact Or.inr (by simpa using hc)
  · exact Or.inl (hS.alphabet _ c hc)

end Signing.Exact

/-- URL-safe base64 without padding, with a function for the MAC. -/
def Signing.base64 (mac : ByteArray → ByteArray → ByteArray) : Signing where
  encode bytes := String.ofList (Base64.encode bytes.data.toList)
  decode text := (Base64.decode text.toList).map fun bytes => ⟨bytes.toArray⟩
  mac := mac

theorem Signing.base64_exact (mac : ByteArray → ByteArray → ByteArray) :
    (Signing.base64 mac).Exact := by
  constructor
  · intro bytes c hc
    rw [base64, String.toList_ofList] at hc
    exact Base64.isDigit64_encode _ c hc
  · intro text bytes
    simp only [base64, Option.map_eq_some_iff]
    constructor
    · rintro ⟨decoded, hdecoded, rfl⟩
      rw [List.toList_toArray, Base64.encode_of_decode hdecoded, String.ofList_toList]
    · rintro rfl
      refine ⟨bytes.data.toList, ?_, ?_⟩
      · rw [String.toList_ofList, Base64.decode_encode]
      · rfl

/-- The characters of a header value that `HeaderValue::to_str` reads. -/
def isVisible (c : Char) : Bool := c = '\t' || (32 ≤ c.toNat && c.toNat < 127)

/-- `HeaderValue::to_str` -/
def headerText (value : String) : Option String :=
  if value.toList.all isVisible then some value else none

/-- `session_id_from_headers`, from the value of the `Cookie` header. -/
def sessionIdFromHeaders (app : AppState) (cookie : Option String) : Option String :=
  sessionIdFrom app (cookie.bind headerText)

def sessionTtlDays : ℤ := 30

/-- Build the signed `Set-Cookie` value that establishes a session. -/
def buildSessionCookie (app : AppState) (sessionId : String) (secure : Bool) : String :=
  let signed := app.signing.signStr app.secretKey sessionId
  let maxAge := sessionTtlDays * 24 * 60 * 60
  sessionCookie ++ "=" ++ signed ++ ("; HttpOnly; SameSite=Lax; Path=/; Max-Age=" ++ toString maxAge) ++
    if secure then "; Secure" else ""

/-- What a user agent keeps of a `Set-Cookie` value: the name, and the value up to the attributes. -/
def setCookiePair (cookie : String) : Option (String × String) :=
  (splitOnce '=' (String.ofList (cookie.toList.takeWhile (· ≠ ';')))).map fun parts =>
    (trim parts.1, trim parts.2)

/-- A cookie in a `Cookie` header, with the whitespace around its name and its value. -/
structure CookiePair where
  lead : List Char
  name : String
  afterName : List Char
  beforeValue : List Char
  value : String
  trail : List Char
  blank : (lead ++ afterName ++ beforeValue ++ trail).all isWhitespace = true
  name_trim : trim name = name
  name_clean : ';' ∉ name.toList ∧ '=' ∉ name.toList
  value_trim : trim value = value
  value_clean : ';' ∉ value.toList

def CookiePair.text (p : CookiePair) : List Char :=
  p.lead ++ p.name.toList ++ p.afterName ++ ['='] ++ (p.beforeValue ++ p.value.toList ++ p.trail)

/-- A `Cookie` header of these cookies. -/
def cookieHeader (pairs : List CookiePair) : String :=
  String.ofList (Separated.join ';' (pairs.map CookiePair.text))

theorem trim_ofList (s : List Char) : trim (String.ofList s) = String.ofList (trimChars s) := by
  rw [trim, String.toList_ofList]
  rfl

theorem trimChars_toList {s : String} (h : trim s = s) : trimChars s.toList = s.toList := by
  have hs := congrArg String.toList h
  rwa [trim, String.toList_ofList] at hs

theorem isWhitespace_eq_false_of_isDigit64 {c : Char} (h : Base64.isDigit64 c = true) :
    isWhitespace c = false := by
  simp only [Base64.isDigit64, Bool.or_eq_true, decide_eq_true_eq] at h
  rcases h with (h | rfl) | rfl
  · exact isWhitespace_eq_false h
  · decide
  · decide

namespace CookiePair

variable (p : CookiePair)

theorem blank_parts : (∀ c ∈ p.lead, isWhitespace c = true) ∧ (∀ c ∈ p.afterName, isWhitespace c = true) ∧
    (∀ c ∈ p.beforeValue, isWhitespace c = true) ∧ ∀ c ∈ p.trail, isWhitespace c = true := by
  have hblank := List.all_eq_true.mp p.blank
  simp only [List.forall_mem_append] at hblank
  exact ⟨hblank.1.1.1, hblank.1.1.2, hblank.1.2, hblank.2⟩

theorem semicolon_notMem : ';' ∉ p.text := by
  obtain ⟨hlead, hafter, hbefore, htrail⟩ := p.blank_parts
  have hsep : ∀ {s : List Char}, (∀ c ∈ s, isWhitespace c = true) → ';' ∉ s :=
    fun hs hmem => absurd (hs _ hmem) (by decide)
  simp only [text, List.mem_append, List.mem_singleton, not_or]
  exact ⟨⟨⟨⟨hsep hlead, p.name_clean.1⟩, hsep hafter⟩, by decide⟩,
    ⟨hsep hbefore, p.value_clean⟩, hsep htrail⟩

theorem splitOnce_text : splitOnce '=' (trim (String.ofList p.text)) =
    some (String.ofList ((p.lead ++ p.name.toList ++ p.afterName).dropWhile isWhitespace),
      String.ofList ((p.beforeValue ++ p.value.toList ++ p.trail).rdropWhile isWhitespace)) := by
  obtain ⟨hlead, hafter, -, -⟩ := p.blank_parts
  have hequals : '=' ∉ (p.lead ++ p.name.toList ++ p.afterName).dropWhile isWhitespace := by
    intro hmem
    have hmem := (List.dropWhile_sublist isWhitespace).subset hmem
    simp only [List.mem_append] at hmem
    rcases hmem with (hmem | hmem) | hmem
    · exact absurd (hlead _ hmem) (by decide)
    · exact p.name_clean.2 hmem
    · exact absurd (hafter _ hmem) (by decide)
  rw [trim_ofList, text, trimChars_append (List.cons_ne_nil '=' []) ⟨by decide, by decide⟩,
    String.ofList_append, String.ofList_append]
  exact splitOnce_append (by rwa [String.toList_ofList]) _

theorem trim_name : trim (String.ofList
    ((p.lead ++ p.name.toList ++ p.afterName).dropWhile isWhitespace)) = p.name := by
  obtain ⟨hlead, hafter, -, -⟩ := p.blank_parts
  rw [trim_ofList, trimChars_dropWhile, trimChars_pad hlead hafter, trimChars_toList p.name_trim,
    String.ofList_toList]

theorem trim_value : trim (String.ofList
    ((p.beforeValue ++ p.value.toList ++ p.trail).rdropWhile isWhitespace)) = p.value := by
  obtain ⟨-, -, hbefore, htrail⟩ := p.blank_parts
  rw [trim_ofList, trimChars_rdropWhile, trimChars_pad hbefore htrail, trimChars_toList p.value_trim,
    String.ofList_toList]

end CookiePair

theorem readCookie_cookieHeader (pairs : List CookiePair) (name : String) :
    readCookie (some (cookieHeader pairs)) name =
      (pairs.find? (·.name = name)).map CookiePair.value := by
  by_cases hnil : pairs = []
  · subst hnil
    rfl
  have hclean : ∀ part ∈ pairs.map CookiePair.text, ';' ∉ part := by
    intro part hpart
    obtain ⟨p, -, rfl⟩ := List.mem_map.mp hpart
    exact p.semicolon_notMem
  rw [readCookie, cookieHeader, Option.bind_some, String.toList_ofList,
    Separated.splitOn_join _ (by simpa using hnil), Separated.pieces_of_not_mem _ hclean,
    List.findSome?_map]
  clear hnil hclean
  induction pairs with
  | nil => rfl
  | cons p pairs ih =>
    rw [List.findSome?_cons, List.find?_cons, Function.comp_apply, p.splitOnce_text]
    simp only [p.trim_name, p.trim_value]
    by_cases hname : p.name = name
    · simp [hname]
    · simp only [hname, if_false, decide_false]
      exact ih

theorem takeWhile_buildSessionCookie (app : AppState) (sessionId : String) (secure : Bool)
    (hsigned : ∀ c ∈ (app.signing.signStr app.secretKey sessionId).toList, c ≠ ';') :
    String.ofList ((buildSessionCookie app sessionId secure).toList.takeWhile (· ≠ ';')) =
      sessionCookie ++ String.singleton '=' ++ app.signing.signStr app.secretKey sessionId := by
  generalize hissued : app.signing.signStr app.secretKey sessionId = signed at hsigned ⊢
  obtain ⟨attributes, hcookie⟩ : ∃ attributes, (buildSessionCookie app sessionId secure).toList =
      (sessionCookie ++ "=").toList ++ (signed.toList ++ ';' :: attributes) := by
    refine ⟨(" HttpOnly; SameSite=Lax; Path=/; Max-Age=" ++ toString (sessionTtlDays * 24 * 60 * 60) ++
      if secure then "; Secure" else "").toList, ?_⟩
    have hsemicolon : "; HttpOnly; SameSite=Lax; Path=/; Max-Age=".toList =
        ';' :: " HttpOnly; SameSite=Lax; Path=/; Max-Age=".toList := by decide
    simp only [buildSessionCookie, hissued, String.toList_append, hsemicolon, List.append_assoc,
      List.cons_append]
  have hname : ∀ c ∈ (sessionCookie ++ "=").toList, decide (c ≠ ';') = true :=
    List.all_eq_true.mp (by decide)
  rw [hcookie, List.takeWhile_append_of_pos hname,
    List.takeWhile_append_of_pos fun c hc => decide_eq_true (hsigned c hc),
    List.takeWhile_cons_of_neg (by decide), List.append_nil, String.ofList_append,
    String.ofList_toList, String.ofList_toList]
  rfl

section Issued

variable {app : AppState} (hS : app.signing.Exact)
include hS

theorem setCookiePair_buildSessionCookie (sessionId : String) (secure : Bool) :
    setCookiePair (buildSessionCookie app sessionId secure) =
      some (sessionCookie, app.signing.signStr app.secretKey sessionId) := by
  have hsigned : ∀ c ∈ (app.signing.signStr app.secretKey sessionId).toList,
      isWhitespace c = false ∧ c ≠ ';' := by
    intro c hc
    rcases hS.signStr_alphabet c hc with hdigit | rfl
    · refine ⟨isWhitespace_eq_false_of_isDigit64 hdigit, ?_⟩
      rintro rfl
      revert hdigit
      decide
    · decide
  have hcut := takeWhile_buildSessionCookie app sessionId secure fun c hc => (hsigned c hc).2
  have htrim : trim (app.signing.signStr app.secretKey sessionId) =
      app.signing.signStr app.secretKey sessionId := by
    rw [← String.toList_inj, trim, String.toList_ofList]
    refine trimChars_of_ends ?_ ?_
    · intro c hc
      exact (hsigned c (List.mem_of_mem_head? hc)).1
    · intro c hc
      exact (hsigned c (List.mem_of_mem_getLast? hc)).1
  have hname : trim sessionCookie = sessionCookie := by decide
  rw [setCookiePair, hcut, splitOnce_append (by decide), Option.map_some, hname, htrim]

/-- Tokens and session cookies are exact: a token is accepted with a payload exactly when it is signed
for that payload, and the id of the session cookie that was issued is read from every header of visible
characters in which each cookie of that name has the issued value. -/
theorem signed_cookies_exact :
    (∀ token payload, app.signing.verify app.secretKey token = .ok payload ↔
      token = app.signing.sign app.secretKey payload) ∧
    ∀ (sessionId value : String) (secure : Bool) (pairs : List CookiePair),
      setCookiePair (buildSessionCookie app sessionId secure) = some (sessionCookie, value) →
      (∃ p ∈ pairs, p.name = sessionCookie) →
      (∀ p ∈ pairs, p.name = sessionCookie → p.value = value) →
      (cookieHeader pairs).toList.all isVisible = true →
      sessionIdFromHeaders app (some (cookieHeader pairs)) = some sessionId := by
  constructor
  · intro token payload
    exact hS.verify_iff
  · rintro sessionId value secure pairs hissued ⟨p, hp, hname⟩ hvalue hvisible
    rw [setCookiePair_buildSessionCookie hS] at hissued
    cases hissued
    obtain ⟨q, hq⟩ : ∃ q, pairs.find? (·.name = sessionCookie) = some q := by
      refine Option.isSome_iff_exists.mp (List.find?_isSome.mpr ⟨p, hp, ?_⟩)
      exact decide_eq_true hname
    have hqname : q.name = sessionCookie := by simpa using List.find?_some hq
    have hqvalue := hvalue q (List.mem_of_find?_eq_some hq) hqname
    rw [sessionIdFromHeaders, Option.bind_some, headerText, if_pos hvisible, sessionIdFrom,
      readCookie_cookieHeader, hq, Option.map_some, Option.bind_some, hqvalue,
      Signing.verifyStr_signStr hS.lawful]
    rfl

end Issued

/-- The code of the session `session-id-123` under the key `secret`. -/
def sessionMac : ByteArray :=
  ⟨#[190, 182, 156, 126, 111, 46, 53, 72, 234, 55, 71, 72, 11, 218, 101, 155, 200, 69, 104, 209, 213,
    222, 146, 214, 73, 5, 244, 164, 138, 211, 102, 109]⟩

/-- The default configuration under base64, as far as one message is concerned. -/
def signedApp : AppState :=
  { AppState.plain .sqlite with signing := .base64 fun _ _ => sessionMac }

def issuedToken : String := "c2Vzc2lvbi1pZC0xMjM.vracfm8uNUjqN0dIC9plm8hFaNHV3pLWSQX0pIrTZm0"

def sessionPair : CookiePair :=
  ⟨[' '], sessionCookie, [], [], issuedToken, [], by decide, by decide, by decide, by decide, by decide⟩

def themePair : CookiePair :=
  ⟨[], "theme", [' '], ['\t'], "a=b", [], by decide, by decide, by decide, by decide, by decide⟩

def accentedPair : CookiePair :=
  ⟨[], "theme", [], [], "é", [], by decide, by decide, by decide, by decide, by decide⟩

theorem setCookiePair_signedApp : setCookiePair (buildSessionCookie signedApp "session-id-123" false) =
    some (sessionCookie, issuedToken) := by
  have hissued := @setCookiePair_buildSessionCookie signedApp (Signing.base64_exact _)
    "session-id-123" false
  have htoken : signedApp.signing.signStr signedApp.secretKey "session-id-123" = issuedToken := by
    decide
  exact hissued.trans (congrArg (fun token => some (sessionCookie, token)) htoken)

theorem signed_cookies_exact_session :
    (signedApp.signing.verify signedApp.secretKey issuedToken = .ok "session-id-123".toUTF8 ↔
      issuedToken = signedApp.signing.sign signedApp.secretKey "session-id-123".toUTF8) ∧
    sessionIdFromHeaders signedApp (some (cookieHeader [themePair, sessionPair])) =
      some "session-id-123" :=
  ⟨(@signed_cookies_exact signedApp (Signing.base64_exact _)).1 _ _,
    (@signed_cookies_exact signedApp (Signing.base64_exact _)).2 _ _ false _
      setCookiePair_signedApp ⟨sessionPair, by simp, rfl⟩
      (by
        intro p hp hname
        rcases List.mem_pair.mp hp with rfl | rfl
        · exact absurd hname (by decide)
        · rfl)
      (by decide)⟩

/-- A letter that is not ASCII in another cookie hides the session cookie. -/
theorem session_hidden_by_neighbour :
    signedApp.signing.Exact ∧
    setCookiePair (buildSessionCookie signedApp "session-id-123" false) =
      some (sessionCookie, issuedToken) ∧
    sessionPair.name = sessionCookie ∧ sessionPair.value = issuedToken ∧
    accentedPair.name ≠ sessionCookie ∧
    cookieHeader [accentedPair, sessionPair] = "theme=é; soika_session=" ++ issuedToken ∧
    sessionIdFromHeaders signedApp (some (cookieHeader [accentedPair, sessionPair])) = none := by
  refine ⟨Signing.base64_exact _, setCookiePair_signedApp, rfl, rfl, by decide, by decide, ?_⟩
  have hhidden : headerText (cookieHeader [accentedPair, sessionPair]) = none := by decide
  rw [sessionIdFromHeaders, Option.bind_some, hhidden]
  rfl

end Soika.Auth
