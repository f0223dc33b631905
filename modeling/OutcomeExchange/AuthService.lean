import OutcomeExchange.Entities
import OutcomeExchange.Text.Pattern
import Mathlib.Algebra.Order.Group.Int
import Mathlib.Logic.Function.Basic

set_option autoImplicit false

/-! # Access tokens

How a request is authenticated and how logging out revokes its token: the header parsers of
`passport-jwt`, `JwtStrategy` and `AuthController`, the expiry of a JWT, and
`AuthTokenRevocationService`, which keeps a key with a time to live in Redis for each revoked
token.

Instants are milliseconds of one clock. `Date.now()` and the instants at which Redis executes
a command are parameters, so that any time can pass between them. -/

namespace OutcomeExchange

/-! ## Library functions -/

structure JwtPayload where
  sub : Option String
  exp : Option ℤ
  deriving DecidableEq

/-- The SHA-256 digest in hexadecimal, and the JWT library with the secret of the
application. -/
structure TokenLibrary where
  sha256 : String → String
  /-- the payload of a token whose signature is valid -/
  verifySignature : String → Option JwtPayload
  /-- the payload of a token, its signature unchecked -/
  decode : String → Option JwtPayload
  decode_of_verify : ∀ {token payload}, verifySignature token = some payload →
    decode token = some payload

/-- `Math.floor(now / 1000)` -/
def unixSeconds (now : ℕ) : ℤ := (now / 1000 : ℕ)

/-- `jwt.verify(token, secret)`: a token with an expiry is rejected from that second on. -/
def TokenLibrary.verify (lib : TokenLibrary) (token : String) (now : ℕ) : Option JwtPayload :=
  match lib.verifySignature token with
  | none => none
  | some payload =>
      match payload.exp with
      | none => some payload
      | some exp => if unixSeconds now ≥ exp then none else some payload

/-- The characters that `\s` stands for. -/
def isSpace (c : Char) : Bool :=
  c ∈ [' ', '\t', '\n', '\x0b', '\x0c', '\r', '\u00a0', '\u1680', '\u2028', '\u2029', '\u202f',
    '\u205f', '\u3000', '\ufeff'] || ('\u2000' ≤ c && c ≤ '\u200a')

def isNoSpace (c : Char) : Bool := !isSpace c

/-- `ExtractJwt.fromAuthHeaderAsBearerToken()`: the groups of the first match of
`/(\S+)\s+(\S+)/` are the scheme and the token. No letter outside ASCII has one of the letters
of `bearer` as its lower case. -/
def fromAuthHeaderAsBearerToken (authorization : Option String) : Option String :=
  match authorization with
  | none => none
  | some authorization =>
      match Text.firstMatch [isNoSpace, isSpace, isNoSpace] authorization.toList with
      | some [scheme, _, value] =>
          if scheme.map Char.toLower = "bearer".toList then some (String.ofList value) else none
      | _ => none

/-! ## AuthTokenRevocationService -/

/-- `Unauthorized` with its message. -/
structure Unauthorized where
  message : String
  deriving DecidableEq

def DEFAULT_REVOCATION_TTL_SECONDS : ℤ := 86400

def getAuthRevokedTokenKey (keyPrefix tokenHash : String) : String :=
  keyPrefix ++ (":auth:revoked-token:" ++ tokenHash)

/-- The keys of revoked tokens that Redis holds, with the last instant of each. -/
abbrev RevokedTokens := String → Option ℕ

namespace RevokedTokens

/-- `EXISTS key` -/
def existsKey (revoked : RevokedTokens) (now : ℕ) (key : String) : ℕ :=
  match revoked key with
  | none => 0
  | some last => if now ≤ last then 1 else 0

/-- `SET key '1' EX seconds` -/
def setEx (revoked : RevokedTokens) (now : ℕ) (key : String) (seconds : ℕ) : RevokedTokens :=
  Function.update revoked key (some (now + 1000 * seconds))

end RevokedTokens

/-- The arguments of `SET key '1' EX seconds`. -/
structure SetCommand where
  key : String
  seconds : ℕ
  deriving DecidableEq

section

variable (keyPrefix : String) (lib : TokenLibrary)

def revokedTokenKey (token : String) : String :=
  getAuthRevokedTokenKey keyPrefix (lib.sha256 token)

def resolveTtlSeconds (expUnixSeconds : Option ℤ) (now : ℕ) : ℤ :=
  match expUnixSeconds with
  | none => DEFAULT_REVOCATION_TTL_SECONDS
  | some exp =>
      if exp = 0 then DEFAULT_REVOCATION_TTL_SECONDS else max 0 (exp - unixSeconds now)

/-- The command that `revokeToken` sends. An error that Redis answers is only logged. -/
def revokeToken (token : String) (expUnixSeconds : Option ℤ) (now : ℕ) : Option SetCommand :=
  let ttlSeconds := resolveTtlSeconds expUnixSeconds now
  if ttlSeconds ≤ 0 then none
  else some ⟨revokedTokenKey keyPrefix lib token, ttlSeconds.toNat⟩

/-- What `isTokenRevoked` makes of the answer to `EXISTS`; an error counts as 0. -/
def isTokenRevoked (answer : Except Unit ℕ) : Bool :=
  match answer with
  | .ok count => count = 1
  | .error _ => false

/-- The answer to `EXISTS` for a token, where Redis can be reached. -/
def revocationAnswer (revoked : RevokedTokens) (available : Bool) (now : ℕ) (token : String) :
    Except Unit ℕ :=
  if available then .ok (revoked.existsKey now (revokedTokenKey keyPrefix lib token)) else .error ()

/-! ## The application's own header parser -/

/-- `authorization.split(' ')`, of which the first two pieces count. -/
def extractBearerToken (authorization : Option String) : Option String :=
  match authorization with
  | none => none
  | some authorization =>
      match Text.splitOn ' ' authorization.toList with
      | type :: token :: _ =>
          if type ≠ "Bearer".toList ∨ token = [] then none else some (String.ofList token)
      | _ => none

/-- `JwtStrategy.validate`, which runs once passport has verified the token; `user` is what
`getUserById(payload.sub)` answers. -/
def validate (revoked : RevokedTokens) (available : Bool) (now : ℕ) (user : Option Uuid)
    (authorization : Option String) : Except Unauthorized Uuid :=
  match extractBearerToken authorization with
  | none => .error ⟨"Unauthorized"⟩
  | some accessToken =>
      if isTokenRevoked (revocationAnswer keyPrefix lib revoked available now accessToken) then
        .error ⟨"Token revoked"⟩
      else
        match user with
        | none => .error ⟨"Unauthorized"⟩
        | some user => .ok user

def extractExpiry (accessToken : String) : Option ℤ := (lib.decode accessToken).bind JwtPayload.exp

/-- `AuthController.logout` up to the command of `revokeToken`, with the same parser as
`JwtStrategy`. -/
def logout (authorization : Option String) (now : ℕ) : Except Unauthorized (Option SetCommand) :=
  match extractBearerToken authorization with
  | none => .error ⟨"Authorization token missing"⟩
  | some token => .ok (revokeToken keyPrefix lib token (extractExpiry lib token) now)

end

/-! ## What the two parsers read -/

section Parsers

variable {authorization : Option String} {token token' : String}

/-- The application reads a token without white space exactly where the second piece of the
header has none. -/
def NoOtherSpace (token : String) : Prop := ∀ c ∈ token.toList, isSpace c = false

instance (token : String) : Decidable (NoOtherSpace token) :=
  inferInstanceAs (Decidable (∀ c ∈ token.toList, isSpace c = false))

theorem NoOtherSpace.append (h : NoOtherSpace token) (h' : NoOtherSpace token') :
    NoOtherSpace (token ++ token') := by
  intro c hc
  rw [String.toList_append, List.mem_append] at hc
  exact hc.elim (h c) (h' c)

theorem extractBearerToken_eq_some (h : extractBearerToken authorization = some token) :
    ∃ text rest, authorization = some text ∧ token.toList ≠ [] ∧
      text.toList = "Bearer".toList ++ ' ' :: (token.toList ++ rest) ∧
      ∀ c ∈ rest.head?, c = ' ' := by
  cases authorization with
  | none => cases h
  | some text =>
      rw [extractBearerToken] at h
      split at h
      · rename_i type piece pieces hsplit
        split at h
        · cases h
        · rename_i hparts
          have htype : type = "Bearer".toList := not_not.mp fun hne => hparts (Or.inl hne)
          have hpiece : piece ≠ [] := fun hnil => hparts (Or.inr hnil)
          cases h
          obtain ⟨-, ⟨hnil, -⟩ | ⟨text', htext, hsplit'⟩⟩ := Text.splitOn_eq_cons hsplit
          · cases hnil
          · obtain ⟨-, ⟨-, htext'⟩ | ⟨rest, htext', -⟩⟩ := Text.splitOn_eq_cons hsplit'
            · refine ⟨text, [], rfl, by simpa using hpiece, ?_, fun c hc => by cases hc⟩
              rw [htext, htype, htext']
              simp
            · refine ⟨text, ' ' :: rest, rfl, by simpa using hpiece, ?_, fun c hc => ?_⟩
              · rw [htext, htype, htext']
                simp
              · cases hc
                rfl
      · cases h

/-- The token that passport reads has no white space. -/
theorem noOtherSpace_of_passport (h : fromAuthHeaderAsBearerToken authorization = some token) :
    NoOtherSpace token := by
  cases authorization with
  | none => cases h
  | some text =>
      rw [fromAuthHeaderAsBearerToken] at h
      split at h
      · rename_i scheme gap value hmatch
        split at h
        · cases h
          have hruns := Text.firstMatch_runs hmatch
          cases hruns with
          | cons hscheme hruns =>
              cases hruns with
              | cons hgap hruns =>
                  cases hruns with
                  | cons hvalue hruns =>
                      intro c hc
                      rw [String.toList_ofList] at hc
                      simpa [isNoSpace] using hvalue.2 c hc
        · cases h
      · cases h

/-- Passport finds a token behind any white space, up to the next. -/
theorem passport_of_parts {text : String} {gap rest : List Char} (hspace : NoOtherSpace token)
    (hne : token.toList ≠ []) (hgapne : gap ≠ []) (hgap : ∀ c ∈ gap, isSpace c = true)
    (hrest : ∀ c ∈ rest.head?, isSpace c = true)
    (htext : text.toList = "Bearer".toList ++ (gap ++ (token.toList ++ rest))) :
    fromAuthHeaderAsBearerToken (some text) = some token := by
  have hvalue : Text.matchHere [isNoSpace] (token.toList ++ rest) = some [token.toList] := by
    refine Text.matchHere_run hne (fun c hc => by simp [isNoSpace, hspace c hc]) (fun c hc => ?_) rfl
    simp [isNoSpace, hrest c hc]
  have hgapMatch : Text.matchHere [isSpace, isNoSpace] (gap ++ (token.toList ++ rest)) =
      some [gap, token.toList] := by
    refine Text.matchHere_run hgapne hgap (fun c hc => ?_) hvalue
    rw [List.head?_append_of_ne_nil _ hne] at hc
    exact hspace c (List.mem_of_mem_head? hc)
  have hscheme : Text.matchHere [isNoSpace, isSpace, isNoSpace] text.toList =
      some ["Bearer".toList, gap, token.toList] := by
    rw [htext]
    refine Text.matchHere_run (by simp) (by simp [isNoSpace, isSpace]) (fun c hc => ?_) hgapMatch
    rw [List.head?_append_of_ne_nil _ hgapne] at hc
    simp [isNoSpace, hgap c (List.mem_of_mem_head? hc)]
  rw [fromAuthHeaderAsBearerToken]
  simp only [Text.firstMatch_of_matchHere hscheme]
  rw [if_pos (by decide), String.ofList_toList]

/-- Where the application reads a token without white space, passport reads the same. -/
theorem passport_of_noOtherSpace (h : extractBearerToken authorization = some token)
    (hspace : NoOtherSpace token) : fromAuthHeaderAsBearerToken authorization = some token := by
  obtain ⟨text, rest, rfl, hne, htext, hrest⟩ := extractBearerToken_eq_some h
  refine passport_of_parts hspace hne (List.cons_ne_nil ' ' []) (by simp [isSpace])
    (fun c hc => ?_) htext
  rw [hrest c hc]
  decide

/-- The canonical form of the header, for any token without a space. -/
theorem extractBearerToken_bearer (h : ' ' ∉ token.toList) (hne : token ≠ "") :
    extractBearerToken (some ("Bearer " ++ token)) = some token := by
  have hchars : token.toList ≠ [] := fun hnil => hne (String.toList_eq_nil_iff.mp hnil)
  have hsplit : Text.splitOn ' ' ("Bearer " ++ token).toList =
      ["Bearer".toList, token.toList] := by
    rw [String.toList_append]
    show Text.splitOn ' ' ("Bearer".toList ++ ' ' :: token.toList) = _
    rw [Text.splitOn_append (by simp), Text.splitOn_of_not_mem h]
  simp only [extractBearerToken, hsplit]
  rw [if_neg (by simp [hchars]), String.ofList_toList]

/-- **The token that is checked is the token that was verified exactly where it has no white
space.** -/
theorem checked_eq_verified_iff (hverified : fromAuthHeaderAsBearerToken authorization = some token)
    (hchecked : extractBearerToken authorization = some token') :
    token' = token ↔ NoOtherSpace token' := by
  constructor
  · intro heq
    rw [heq]
    exact noOtherSpace_of_passport hverified
  · intro hspace
    have hsame := passport_of_noOtherSpace hchecked hspace
    rw [hverified] at hsame
    exact (Option.some.inj hsame).symm

end Parsers

/-! ## The time to live covers the token's lifetime -/

section TimeToLive

variable {exp : ℤ} {now later : ℕ} {token : String} {keyPrefix : String} {lib : TokenLibrary}

theorem lt_of_verify {payload : JwtPayload} (h : lib.verify token now = some payload)
    (hexp : payload.exp = some exp) : (now : ℤ) < 1000 * exp := by
  unfold TokenLibrary.verify at h
  split at h
  · cases h
  · rename_i payload' hsign
    cases hexp' : payload'.exp with
    | none =>
        rw [hexp'] at h
        cases h
        rw [hexp] at hexp'
        cases hexp'
    | some exp' =>
        simp only [hexp'] at h
        split at h
        · cases h
        · rename_i hlt
          cases h
          rw [hexp] at hexp'
          cases hexp'
          unfold unixSeconds at hlt
          omega

theorem signature_of_verify {payload : JwtPayload} (h : lib.verify token now = some payload) :
    lib.verifySignature token = some payload := by
  unfold TokenLibrary.verify at h
  split at h
  · cases h
  · rename_i payload' hsign
    rw [hsign]
    split at h
    · exact h
    · split at h
      · cases h
      · exact h

/-- Where no command is sent, the token has expired. -/
theorem expired_of_revokeToken (h : revokeToken keyPrefix lib token (some exp) now = none) :
    1000 * exp ≤ now := by
  unfold revokeToken resolveTtlSeconds DEFAULT_REVOCATION_TTL_SECONDS unixSeconds at h
  by_cases hzero : exp = 0
  · omega
  · simp only [hzero, if_false, ite_eq_left_iff, reduceCtorEq, imp_false, not_not] at h
    omega

/-- The command covers the rest of the lifetime, whenever Redis executes it. -/
theorem covered_of_revokeToken {command : SetCommand}
    (h : revokeToken keyPrefix lib token (some exp) now = some command) (hlater : now ≤ later) :
    command.key = revokedTokenKey keyPrefix lib token ∧
      1000 * exp ≤ (later + 1000 * command.seconds : ℕ) := by
  unfold revokeToken at h
  simp only [Option.ite_none_left_eq_some, Option.some.injEq] at h
  obtain ⟨hpos, rfl⟩ := h
  refine ⟨rfl, ?_⟩
  unfold resolveTtlSeconds DEFAULT_REVOCATION_TTL_SECONDS unixSeconds at hpos ⊢
  by_cases hzero : exp = 0
  · omega
  · simp only [hzero, if_false] at hpos ⊢
    omega

end TimeToLive

end OutcomeExchange
