import AutoTrader.Python.IntText
import AutoTrader.Python.Url
import AutoTrader.Services.Auth

/-!
# `app/core/security.py`

Password hashes and access tokens. The two packages behind them are parameters, each with what
the module counts on: `bcrypt` tells passwords apart, as far as they have no NUL and fit its
limit, and `jwt` gives back the claims of a token it has signed, while they are valid.
-/

namespace AutoTrader.Auth

open Python

/-! ## Passwords -/

/-- `password.encode("utf-8")`. -/
def octets (password : String) : List Nat := Utf8.encode password.toList

/-- `bcrypt` makes no promise about passwords with a NUL. -/
def NulFree (password : String) : Prop := 0 ∉ octets password

instance (password : String) : Decidable (NulFree password) :=
  inferInstanceAs (Decidable (0 ∉ octets password))

/-- The package `bcrypt`. -/
structure Bcrypt where
  /-- `hashpw(password, salt)`. -/
  hashpw : List Nat → String → String
  /-- `checkpw(password, hash)`; `none` stands for the `ValueError` of a malformed hash. -/
  checkpw : List Nat → String → Option Bool
  checkpw_hashpw : ∀ p q salt, passwordWithinBcryptLimit p = true →
    passwordWithinBcryptLimit q = true → NulFree p → NulFree q →
      checkpw (octets q) (hashpw (octets p) salt) = some (decide (q = p))

/-- `hash_password`, with the salt of `gensalt()`; `none` stands for the `ValueError`. -/
def hashPassword (bcrypt : Bcrypt) (password salt : String) : Option String :=
  if passwordWithinBcryptLimit password then some (bcrypt.hashpw (octets password) salt) else none

/-- `verify_password`. -/
def verifyPassword (bcrypt : Bcrypt) (plainPassword passwordHash : String) : Bool :=
  if passwordWithinBcryptLimit plainPassword then
    (bcrypt.checkpw (octets plainPassword) passwordHash).getD false
  else false

/-- A password is verified against its own hash and against no other one's. Those that are over
the limit of `bcrypt` have no hash and are never verified. -/
theorem verifyPassword_hash {bcrypt : Bcrypt} {p q salt passwordHash : String} (hp : NulFree p)
    (hq : NulFree q) (h : hashPassword bcrypt p salt = some passwordHash) :
    verifyPassword bcrypt q passwordHash = true ↔ q = p := by
  rw [hashPassword] at h
  split at h
  · rename_i hfits
    rw [Option.some_inj] at h
    rw [verifyPassword]
    split
    · rename_i hfits'
      rw [← h, bcrypt.checkpw_hashpw p q salt hfits hfits' hp hq, Option.getD_some,
        decide_eq_true_iff]
    · rename_i hlong
      refine iff_of_false Bool.false_ne_true ?_
      rintro rfl
      exact hlong hfits
  · cases h

/-! ## Access tokens -/

/-- The claims of an access token. Points in time are in whole seconds there. -/
structure Claims where
  sub : String
  type : String
  iat : Int
  exp : Int
  jti : String
  deriving DecidableEq

/-- The claims as a dictionary. -/
def Claims.payload (c : Claims) : List (String × Json) :=
  [("sub", .str c.sub), ("type", .str c.type), ("iat", .int c.iat), ("exp", .int c.exp),
    ("jti", .str c.jti)]

inductive JwtError
  | expiredSignature
  /-- Any other `InvalidTokenError`. -/
  | invalidToken
  deriving DecidableEq

/-- The package `jwt`, with the configured secret and algorithm. -/
structure Jwt where
  encode : Claims → String
  encode_nonempty : ∀ c, (encode c).isEmpty = false
  /-- `decode(token, ..., options={"require": ["exp", "sub"]})` at a moment. -/
  decode : String → DateTime → Except JwtError (List (String × Json))
  decode_encode : ∀ c now, decode (encode c) now =
    if now < c.iat * 1000000 then .error .invalidToken
    else if c.exp * 1000000 ≤ now then .error .expiredSignature
    else .ok c.payload

/-- The settings and packages behind authentication. -/
structure Security where
  tables : CaseTables
  bcrypt : Bcrypt
  jwt : Jwt
  accessTokenExpireMinutes : Int
  expire_ge : 1 ≤ accessTokenExpireMinutes
  expire_le : accessTokenExpireMinutes ≤ 60 * 24 * 7

/-- `TOKEN_TYPE_ACCESS`. -/
def tokenTypeAccess : String := "access"

/-- A point in time as `jwt` writes it. -/
def seconds (t : DateTime) : Int := t / 1000000

/-- The lifetime of a token: `expires_delta or timedelta(minutes=...)`. -/
def lifetime (s : Security) (expiresDelta : Option Int) : Int :=
  match expiresDelta with
  | some d => if d = 0 then s.accessTokenExpireMinutes * 60000000 else d
  | none => s.accessTokenExpireMinutes * 60000000

/-- The claims that `create_access_token` signs. -/
def accessClaims (s : Security) (userId : UserId) (expiresDelta : Option Int) (issuedAt : DateTime)
    (jti : String) : Claims where
  sub := Json.intText userId
  type := tokenTypeAccess
  iat := seconds issuedAt
  exp := seconds (issuedAt + lifetime s expiresDelta)
  jti := jti

/-- `create_access_token`, given the clock and `uuid4().hex`. -/
def createAccessToken (s : Security) (userId : UserId) (expiresDelta : Option Int)
    (issuedAt : DateTime) (jti : String) : String × Int :=
  (s.jwt.encode (accessClaims s userId expiresDelta issuedAt jti),
    (lifetime s expiresDelta).tdiv 1000000)

/-- What leaves `decode_access_token`: a `TokenError` with its reason, or an error that it does
not expect. -/
inductive DecodeError
  | token (reason : String)
  | conversion (e : ConversionError)
  deriving DecidableEq

/-- `decode_access_token`. -/
def decodeAccessToken (jwt : Jwt) (token : String) (now : DateTime) : Except DecodeError Int :=
  match jwt.decode token now with
  | .error .expiredSignature => .error (.token "Token has expired")
  | .error .invalidToken => .error (.token "Invalid authentication token")
  | .ok payload =>
    match Json.get payload "type" with
    | some (.str type) =>
      if type = tokenTypeAccess then
        match ((Json.get payload "sub").getD .null).toInt with
        | .ok id => .ok id
        | .error .overflowError => .error (.conversion .overflowError)
        | .error _ => .error (.token "Invalid authentication token")
      else .error (.token "Invalid authentication token")
    | _ => .error (.token "Invalid authentication token")

/-- A token of the lifetime of the settings is good for as long, from the second it was issued
in. -/
theorem accessClaims_exp (s : Security) (userId : UserId) (issuedAt : DateTime) (jti : String) :
    (accessClaims s userId none issuedAt jti).exp =
      (accessClaims s userId none issuedAt jti).iat + s.accessTokenExpireMinutes * 60 := by
  simp only [accessClaims, lifetime, seconds]
  omega

/-- A token of the service is read back while it is valid. -/
theorem decodeAccessToken_issued {s : Security} {userId : UserId}
    (hid : (natDigits userId).length ≤ maxIntDigits) (expiresDelta : Option Int)
    (issuedAt : DateTime) (jti : String) (now : DateTime) :
    decodeAccessToken s.jwt (createAccessToken s userId expiresDelta issuedAt jti).1 now =
      if now < seconds issuedAt * 1000000 then .error (.token "Invalid authentication token")
      else if seconds (issuedAt + lifetime s expiresDelta) * 1000000 ≤ now then
        .error (.token "Token has expired")
      else .ok userId := by
  simp only [decodeAccessToken, createAccessToken, s.jwt.decode_encode]
  by_cases hearly : now < seconds issuedAt * 1000000
  · rw [if_pos (show now < (accessClaims s userId expiresDelta issuedAt jti).iat * 1000000 from hearly),
      if_pos hearly]
  · rw [if_neg (show ¬ now < (accessClaims s userId expiresDelta issuedAt jti).iat * 1000000 from
      hearly), if_neg hearly]
    by_cases hlate : seconds (issuedAt + lifetime s expiresDelta) * 1000000 ≤ now
    · rw [if_pos (show (accessClaims s userId expiresDelta issuedAt jti).exp * 1000000 ≤ now from
        hlate), if_pos hlate]
    · rw [if_neg (show ¬ (accessClaims s userId expiresDelta issuedAt jti).exp * 1000000 ≤ now from
        hlate), if_neg hlate]
      have htype : Json.get (accessClaims s userId expiresDelta issuedAt jti).payload "type" =
          some (.str tokenTypeAccess) := rfl
      have hsub : Json.get (accessClaims s userId expiresDelta issuedAt jti).payload "sub" =
          some (.str (Json.intText userId)) := rfl
      simp only [htype, hsub, if_true, Option.getD_some, Json.toInt, intOfText_intText hid]

/-! ## Shared secrets -/

/-- `secrets_match`. -/
def secretsMatch (provided : Option String) (expected : String) : Bool :=
  match provided with
  | none => false
  | some text => if text.isEmpty then false else decide (octets text = octets expected)

/-- Texts with the same octets are the same. -/
theorem octets_inj {a b : String} (h : octets a = octets b) : a = b := by
  have hchars : a.toList = b.toList := by
    rw [← Utf8.decode_encode a.toList, ← Utf8.decode_encode b.toList]
    exact congrArg Utf8.decode h
  rw [← String.ofList_toList (s := a), hchars, String.ofList_toList]

theorem secretsMatch_iff {provided : Option String} {expected : String} (h : expected ≠ "") :
    secretsMatch provided expected = true ↔ provided = some expected := by
  cases provided with
  | none => simp [secretsMatch]
  | some text =>
    simp only [secretsMatch, Option.some_inj]
    by_cases hempty : text.isEmpty = true
    · rw [if_pos hempty]
      have htext : text = "" := by simpa using hempty
      simp [htext, h.symm]
    · rw [if_neg hempty, decide_eq_true_iff]
      exact ⟨octets_inj, fun he => he ▸ rfl⟩

/-! ## Toy packages

They meet the laws, and runs can be computed with them. -/

namespace Sample

open Python.Url

theorem octets_lt {password : String} {b : Nat} (h : b ∈ octets password) : b < 256 := by
  obtain ⟨c, -, hb⟩ := List.mem_flatMap.mp h
  exact Utf8.encodeChar_lt c b hb

theorem toNat_ofNat_octet {b : Nat} (h : b < 256) : (Char.ofNat b).toNat = b := by
  rw [Char.ofNat, dif_pos (Or.inl (by omega))]
  rfl

/-- A hash spells out the password, up to a NUL, and then the salt. -/
def hashpw (p : List Nat) (salt : String) : String :=
  String.ofList (p.map Char.ofNat ++ Char.ofNat 0 :: salt.toList)

def checkpw (q : List Nat) (hash : String) : Option Bool :=
  if Char.ofNat 0 ∈ hash.toList then
    some (decide ((hash.toList.takeWhile (· != Char.ofNat 0)).map Char.toNat = q))
  else none

theorem checkpw_hashpw {p q : String} (salt : String) (hp : NulFree p) :
    checkpw (octets q) (hashpw (octets p) salt) = some (decide (q = p)) := by
  have hread : ((octets p).map Char.ofNat).map Char.toNat = octets p := by
    rw [List.map_map]
    exact (List.map_congr_left fun b hb => toNat_ofNat_octet (octets_lt hb)).trans (List.map_id _)
  have hnul : ∀ c ∈ (octets p).map Char.ofNat, (c != Char.ofNat 0) = true := by
    intro c hc
    obtain ⟨b, hb, rfl⟩ := List.mem_map.mp hc
    rw [bne_iff_ne]
    intro heq
    have hzero : b = 0 := by
      rw [← toNat_ofNat_octet (octets_lt hb), heq]
      rfl
    exact hp (hzero ▸ hb)
  rw [checkpw, hashpw, String.toList_ofList, if_pos (by simp), takeWhile_stop hnul (by simp), hread]
  exact congrArg some (decide_eq_decide.mpr ⟨fun h => (octets_inj h).symm, fun h => by rw [h]⟩)

def bcrypt : Bcrypt where
  hashpw := hashpw
  checkpw := checkpw
  checkpw_hashpw _ _ salt _ _ hp _ := checkpw_hashpw salt hp

/-- As many strokes as the number, behind its sign. -/
def strokes (n : Int) : List Char := (if n < 0 then '-' else '+') :: List.replicate n.natAbs 'i'

def ofStrokes : List Char → Int
  | '-' :: cs => -(cs.length : Int)
  | cs => (cs.drop 1).length

theorem ofStrokes_strokes (n : Int) : ofStrokes (strokes n) = n := by
  rw [strokes]
  by_cases h : n < 0
  · rw [if_pos h]
    simp only [ofStrokes, List.length_replicate]
    omega
  · rw [if_neg h]
    change ((List.replicate n.natAbs 'i').length : Int) = n
    rw [List.length_replicate]
    omega

def params (c : Claims) : List Param :=
  [("sub".toList, c.sub.toList), ("type".toList, c.type.toList), ("iat".toList, strokes c.iat),
    ("exp".toList, strokes c.exp), ("jti".toList, c.jti.toList)]

/-- The claims as a query, behind the secret. -/
def encode (c : Claims) : String := String.ofList ('k' :: urlencode (params c))

def decode (token : String) (now : DateTime) : Except JwtError (List (String × Json)) :=
  match token.toList with
  | 'k' :: cs =>
    match parseQsl cs with
    | [sub, type, iat, exp, jti] =>
      if now < ofStrokes iat.2 * 1000000 then .error .invalidToken
      else if ofStrokes exp.2 * 1000000 ≤ now then .error .expiredSignature
      else .ok (Claims.payload ⟨String.ofList sub.2, String.ofList type.2, ofStrokes iat.2,
        ofStrokes exp.2, String.ofList jti.2⟩)
    | _ => .error .invalidToken
  | _ => .error .invalidToken

theorem decode_encode (c : Claims) (now : DateTime) : decode (encode c) now =
    if now < c.iat * 1000000 then .error .invalidToken
    else if c.exp * 1000000 ≤ now then .error .expiredSignature
    else .ok c.payload := by
  simp only [decode, encode, String.toList_ofList, parseQsl_urlencode, params, ofStrokes_strokes,
    String.ofList_toList]

def jwt : Jwt where
  encode := encode
  encode_nonempty c := by simp [encode]
  decode := decode
  decode_encode := decode_encode

/-- Tokens of one minute. -/
def security : Security where
  tables := asciiTables
  bcrypt := bcrypt
  jwt := jwt
  accessTokenExpireMinutes := 1
  expire_ge := by omega
  expire_le := by omega

end Sample

end AutoTrader.Auth
