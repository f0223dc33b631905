import OutcomeExchange.AuthService
import OutcomeExchange.Txn.System

set_option autoImplicit false

/-! # Logging out

Any number of requests at once, on the routes behind `JwtAuthGuard`. A request is received
with its `Authorization` header, passport verifies its token, `validate` asks Redis and looks
the user up, and on `POST /auth/logout` the handler then sends the command of `revokeToken`
and waits for Redis. Each of these steps happens at an instant of its own, in any order
between the requests.

`logout_revokes` is what a logout means for every later request. It needs the two conditions
of `Careful`: the second piece of the header must have no white space, and Redis must be asked
before the token expires. `tab_passes` and `late_question_passes` break one of them each, with
any token. -/

namespace OutcomeExchange

open Txn

/-! ## Requests -/

inductive Route
  | logout | other
  deriving DecidableEq

inductive Phase
  | received
  /-- passport has verified the token -/
  | verified (payload : JwtPayload)
  /-- the guard has let the request pass -/
  | authenticated (user : Uuid)
  /-- the handler of the logout waits for Redis -/
  | revoking (command : SetCommand)
  /-- the logout has returned `{ success: true }` -/
  | succeeded
  | rejected (error : Unauthorized)
  deriving DecidableEq

structure AuthRequest where
  route : Route
  authorization : Option String
  phase : Phase

/-- What a request does next. -/
inductive AuthStep
  | verify
  | validate (available : Bool) (user : Option Uuid)
  | handle
  | set (available : Bool)

inductive AuthEvent
  | wait (ms : ℕ)
  | receive (i : ℕ) (route : Route) (authorization : Option String)
  | act (i : ℕ) (a : AuthStep)

structure AuthState where
  now : ℕ
  revoked : RevokedTokens
  requests : ℕ → Option AuthRequest

/-- The state with another request `i`, and with these revoked tokens. -/
def AuthState.put (s : AuthState) (i : ℕ) (r : AuthRequest) (revoked : RevokedTokens) : AuthState :=
  ⟨s.now, revoked, Function.update s.requests i (some r)⟩

section Put

variable {s : AuthState} {i j : ℕ} {r : AuthRequest} {revoked : RevokedTokens}

@[simp] theorem put_now : (s.put i r revoked).now = s.now := rfl

@[simp] theorem put_revoked : (s.put i r revoked).revoked = revoked := rfl

@[simp] theorem put_self : (s.put i r revoked).requests i = some r := Function.update_self ..

@[simp] theorem put_put {r' : AuthRequest} {revoked' : RevokedTokens} :
    (s.put i r revoked).put i r' revoked' = s.put i r' revoked' := by
  simp [AuthState.put]

theorem put_of_ne (h : j ≠ i) : (s.put i r revoked).requests j = s.requests j :=
  Function.update_of_ne h ..

end Put

section

variable (keyPrefix : String) (lib : TokenLibrary)

/-- Passport's own part of the guard. -/
def passportPhase (now : ℕ) (authorization : Option String) : Phase :=
  match fromAuthHeaderAsBearerToken authorization with
  | none => .rejected ⟨"Unauthorized"⟩
  | some token =>
      match lib.verify token now with
      | none => .rejected ⟨"Unauthorized"⟩
      | some payload => .verified payload

/-- The next phase of a request, and the revoked tokens that Redis then holds. -/
def AuthRequest.next (r : AuthRequest) (now : ℕ) (revoked : RevokedTokens) :
    AuthStep → Option (Phase × RevokedTokens)
  | .verify =>
      match r.phase with
      | .received => some (passportPhase lib now r.authorization, revoked)
      | _ => none
  | .validate available user =>
      match r.phase with
      | .verified _ =>
          match validate keyPrefix lib revoked available now user r.authorization with
          | .ok user => some (.authenticated user, revoked)
          | .error e => some (.rejected e, revoked)
      | _ => none
  | .handle =>
      match r.route, r.phase with
      | .logout, .authenticated _ =>
          match logout keyPrefix lib r.authorization now with
          | .error e => some (.rejected e, revoked)
          | .ok none => some (.succeeded, revoked)
          | .ok (some command) => some (.revoking command, revoked)
      | _, _ => none
  | .set available =>
      match r.phase with
      | .revoking command =>
          some (.succeeded,
            if available then revoked.setEx now command.key command.seconds else revoked)
      | _ => none

def AuthState.next (s : AuthState) : AuthEvent → Option AuthState
  | .wait ms => some { s with now := s.now + ms }
  | .receive i route authorization =>
      match s.requests i with
      | none => some (s.put i ⟨route, authorization, .received⟩ s.revoked)
      | some _ => none
  | .act i a =>
      match s.requests i with
      | none => none
      | some r =>
          match r.next keyPrefix lib s.now s.revoked a with
          | none => none
          | some (phase, revoked) => some (s.put i { r with phase := phase } revoked)

/-- No request yet, and no revoked token. -/
def AuthState.start : AuthState := ⟨0, fun _ => none, fun _ => none⟩

def authRuns : System AuthState AuthEvent where
  init s := s = AuthState.start
  step s e t := s.next keyPrefix lib e = some t

end

/-! ## What a run is asked about -/

/-- The guard has let the request pass, and passport has verified this token for it. -/
def AuthRequest.AuthenticatedBy (r : AuthRequest) (token : String) : Prop :=
  fromAuthHeaderAsBearerToken r.authorization = some token ∧
    ((∃ user, r.phase = .authenticated user) ∨ (∃ command, r.phase = .revoking command) ∨
      r.phase = .succeeded)

/-- A logout, authenticated by the token, that has returned. -/
def AuthRequest.LoggedOut (r : AuthRequest) (token : String) : Prop :=
  r.route = .logout ∧ fromAuthHeaderAsBearerToken r.authorization = some token ∧
    r.phase = .succeeded

/-- No other token that the server accepts has the digest of this one. -/
def TokenLibrary.NoCollision (lib : TokenLibrary) (token : String) : Prop :=
  ∀ token' payload, lib.verifySignature token' = some payload →
    lib.sha256 token' = lib.sha256 token → token' = token

/-- Redis can be reached. -/
def RedisAvailable : AuthEvent → Prop
  | .act _ (.validate available _) => available = true
  | .act _ (.set available) => available = true
  | _ => True

/-- Where passport takes a token from the header, the second piece of the header has no white
space. -/
def CleanHeader (authorization : Option String) : Prop :=
  ∀ token token', fromAuthHeaderAsBearerToken authorization = some token →
    extractBearerToken authorization = some token' → NoOtherSpace token'

/-- Redis is asked before the token expires, which passport has checked earlier. -/
def AskedInTime (s : AuthState) (i : ℕ) : Prop :=
  ∀ r payload exp, s.requests i = some r → r.phase = .verified payload → payload.exp = some exp →
    (s.now : ℤ) ≤ 1000 * exp

/-- The condition under which a logout revokes. -/
def Careful (s : AuthState) : AuthEvent → Prop
  | .receive _ _ authorization => CleanHeader authorization
  | .act i (.validate _ _) => AskedInTime s i
  | _ => True

/-- The runs in which Redis can be reached and every step meets the condition. -/
def carefulRuns (keyPrefix : String) (lib : TokenLibrary) : System AuthState AuthEvent :=
  (authRuns keyPrefix lib).restrict fun s e => RedisAvailable e ∧ Careful s e

/-! ## Steps -/

section Steps

variable {keyPrefix : String} {lib : TokenLibrary} {s t : AuthState} {e : AuthEvent}
  {r : AuthRequest} {now : ℕ} {revoked revoked' : RevokedTokens} {a : AuthStep} {phase : Phase}

/-- What one step of a request does. -/
inductive AuthRequest.Effect (keyPrefix : String) (lib : TokenLibrary) (r : AuthRequest) (now : ℕ)
    (revoked : RevokedTokens) : AuthStep → Phase → RevokedTokens → Prop
  | accept {token : String} {payload : JwtPayload} (hphase : r.phase = .received)
      (htoken : fromAuthHeaderAsBearerToken r.authorization = some token)
      (hverify : lib.verify token now = some payload) :
      Effect keyPrefix lib r now revoked .verify (.verified payload) revoked
  | pass {available : Bool} {payload : JwtPayload} {token : String} {user : Uuid}
      (hphase : r.phase = .verified payload)
      (hextract : extractBearerToken r.authorization = some token)
      (hnot : isTokenRevoked (revocationAnswer keyPrefix lib revoked available now token) = false) :
      Effect keyPrefix lib r now revoked (.validate available (some user)) (.authenticated user) revoked
  | send {user : Uuid} {token : String} {command : SetCommand} (hroute : r.route = .logout)
      (hphase : r.phase = .authenticated user)
      (hextract : extractBearerToken r.authorization = some token)
      (hcommand : revokeToken keyPrefix lib token (extractExpiry lib token) now = some command) :
      Effect keyPrefix lib r now revoked .handle (.revoking command) revoked
  | expired {user : Uuid} {token : String} (hroute : r.route = .logout)
      (hphase : r.phase = .authenticated user)
      (hextract : extractBearerToken r.authorization = some token)
      (hcommand : revokeToken keyPrefix lib token (extractExpiry lib token) now = none) :
      Effect keyPrefix lib r now revoked .handle .succeeded revoked
  | answered {available : Bool} {command : SetCommand} (hphase : r.phase = .revoking command) :
      Effect keyPrefix lib r now revoked (.set available) .succeeded
        (if available then revoked.setEx now command.key command.seconds else revoked)
  | reject {a : AuthStep} (error : Unauthorized) :
      Effect keyPrefix lib r now revoked a (.rejected error) revoked

/-- **The inversion lemma** of a request. -/
theorem AuthRequest.effect (h : r.next keyPrefix lib now revoked a = some (phase, revoked')) :
    r.Effect keyPrefix lib now revoked a phase revoked' := by
  -- what each step of a request does, branch by branch
  cases a with
  | verify =>
      simp only [AuthRequest.next] at h
      split at h
      · rename_i hphase
        cases h
        unfold passportPhase
        split
        · exact .reject _
        · rename_i token htoken
          split
          · exact .reject _
          · rename_i payload hverify
            exact .accept hphase htoken hverify
      · cases h
  | validate available user =>
      simp only [AuthRequest.next] at h
      split at h
      · rename_i payload hphase
        unfold validate at h
        cases hextract : extractBearerToken r.authorization with
        | none =>
            simp only [hextract] at h
            cases h
            exact .reject _
        | some token =>
            simp only [hextract] at h
            cases hrevoked : isTokenRevoked
                (revocationAnswer keyPrefix lib revoked available now token) with
            | true =>
                simp only [hrevoked, if_true] at h
                cases h
                exact .reject _
            | false =>
                cases user with
                | none =>
                    simp only [hrevoked, Bool.false_eq_true, if_false] at h
                    cases h
                    exact .reject _
                | some user =>
                    simp only [hrevoked, Bool.false_eq_true, if_false] at h
                    cases h
                    exact .pass hphase hextract hrevoked
      · cases h
  | handle =>
      simp only [AuthRequest.next] at h
      split at h
      · rename_i user hroute hphase
        unfold logout at h
        cases hextract : extractBearerToken r.authorization with
        | none =>
            simp only [hextract] at h
            cases h
            exact .reject _
        | some token =>
            cases hcommand : revokeToken keyPrefix lib token (extractExpiry lib token) now with
            | none =>
                simp only [hextract, hcommand] at h
                cases h
                exact .expired hroute hphase hextract hcommand
            | some command =>
                simp only [hextract, hcommand] at h
                cases h
                exact .send hroute hphase hextract hcommand
      · cases h
  | set available =>
      simp only [AuthRequest.next] at h
      split at h
      · rename_i command hphase
        cases h
        exact .answered hphase
      · cases h

/-- **The inversion lemma** of the system. -/
theorem AuthState.next_cases (h : s.next keyPrefix lib e = some t) :
    (∃ ms, e = .wait ms ∧ t = { s with now := s.now + ms }) ∨
      (∃ i route authorization, e = .receive i route authorization ∧ s.requests i = none ∧
        t = s.put i ⟨route, authorization, .received⟩ s.revoked) ∨
      ∃ i a r phase revoked, e = .act i a ∧ s.requests i = some r ∧
        r.Effect keyPrefix lib s.now s.revoked a phase revoked ∧
        t = s.put i { r with phase := phase } revoked := by
  cases e with
  | wait ms =>
      cases h
      exact Or.inl ⟨ms, rfl, rfl⟩
  | receive i route authorization =>
      simp only [AuthState.next] at h
      split at h
      · rename_i hi
        cases h
        exact Or.inr (Or.inl ⟨i, route, authorization, rfl, hi, rfl⟩)
      · cases h
  | act i a =>
      simp only [AuthState.next] at h
      split at h
      · cases h
      · rename_i r hi
        split at h
        · cases h
        · rename_i phase revoked hnext
          cases h
          exact Or.inr (Or.inr ⟨i, a, r, phase, revoked, rfl, hi, AuthRequest.effect hnext, rfl⟩)

end Steps

/-! ## What the careful runs keep -/

section Kept

variable {keyPrefix : String} {lib : TokenLibrary} {token : String} {payload : JwtPayload} {exp : ℤ}
  {now now' : ℕ} {revoked revoked' : RevokedTokens} {r : AuthRequest} {a : AuthStep} {phase : Phase}

/-- Redis holds a key for the token, and beyond its expiry. -/
def Recorded (keyPrefix : String) (lib : TokenLibrary) (token : String) (exp : ℤ)
    (revoked : RevokedTokens) : Prop :=
  ∃ last, revoked (revokedTokenKey keyPrefix lib token) = some last ∧ 1000 * exp ≤ (last : ℤ)

/-- What holds of a request, for a token that expires at `exp`. -/
structure AuthRequest.Sound (keyPrefix : String) (lib : TokenLibrary) (token : String) (exp : ℤ)
    (now : ℕ) (revoked : RevokedTokens) (r : AuthRequest) : Prop where
  clean : CleanHeader r.authorization
  /-- passport has verified the token of a request that got further -/
  verified : r.phase = .received ∨ (∃ error, r.phase = .rejected error) ∨
    ∃ token' payload, fromAuthHeaderAsBearerToken r.authorization = some token' ∧
      lib.verifySignature token' = some payload ∧
      ∀ payload', r.phase = .verified payload' → payload' = payload
  covers : ∀ command, r.phase = .revoking command →
    command.key = revokedTokenKey keyPrefix lib token →
      1000 * exp ≤ ((now + 1000 * command.seconds : ℕ) : ℤ)
  sends : ∀ command, r.phase = .revoking command →
    fromAuthHeaderAsBearerToken r.authorization = some token →
      command.key = revokedTokenKey keyPrefix lib token
  done : r.phase = .succeeded → fromAuthHeaderAsBearerToken r.authorization = some token →
    Recorded keyPrefix lib token exp revoked ∨ 1000 * exp ≤ (now : ℤ)

theorem AuthRequest.Sound.later (h : r.Sound keyPrefix lib token exp now revoked) (hnow : now ≤ now')
    (hrecorded : Recorded keyPrefix lib token exp revoked →
      Recorded keyPrefix lib token exp revoked') :
    r.Sound keyPrefix lib token exp now' revoked' where
  clean := h.clean
  verified := h.verified
  covers command hphase hkey := by
    have hcovers := h.covers command hphase hkey
    omega
  sends := h.sends
  done hphase htoken := by
    rcases h.done hphase htoken with hrec | hexp
    · exact Or.inl (hrecorded hrec)
    · exact Or.inr (by omega)

/-- The application reads the token that passport has verified. -/
theorem CleanHeader.same {authorization : Option String} {token' : String}
    (h : CleanHeader authorization)
    (hpassport : fromAuthHeaderAsBearerToken authorization = some token)
    (hextract : extractBearerToken authorization = some token') : token' = token :=
  (checked_eq_verified_iff hpassport hextract).mpr (h token token' hpassport hextract)

theorem key_injective {token' : String} (hcollision : lib.NoCollision token)
    (hverify : lib.verifySignature token' = some payload)
    (hkey : revokedTokenKey keyPrefix lib token' = revokedTokenKey keyPrefix lib token) :
    token' = token := by
  refine hcollision token' payload hverify ?_
  simpa only [revokedTokenKey, getAuthRevokedTokenKey, String.append_right_inj] using hkey

theorem isTokenRevoked_of_recorded (h : Recorded keyPrefix lib token exp revoked)
    (hnow : (now : ℤ) ≤ 1000 * exp) :
    isTokenRevoked (revocationAnswer keyPrefix lib revoked true now token) = true := by
  obtain ⟨last, hlast, hcovers⟩ := h
  have hle : now ≤ last := by omega
  simp [revocationAnswer, RevokedTokens.existsKey, hlast, hle, isTokenRevoked]

/-- No command lets the key of the token lapse before the token. -/
theorem AuthRequest.Sound.recorded (h : r.Sound keyPrefix lib token exp now revoked)
    (heffect : r.Effect keyPrefix lib now revoked a phase revoked')
    (hrecorded : Recorded keyPrefix lib token exp revoked) :
    Recorded keyPrefix lib token exp revoked' := by
  cases heffect with
  | accept => exact hrecorded
  | pass => exact hrecorded
  | send => exact hrecorded
  | expired => exact hrecorded
  | reject => exact hrecorded
  | @answered available command hphase =>
      cases available with
      | false => exact hrecorded
      | true =>
          by_cases hkey : command.key = revokedTokenKey keyPrefix lib token
          · refine ⟨now + 1000 * command.seconds, ?_, h.covers command hphase hkey⟩
            rw [if_pos rfl, RevokedTokens.setEx, hkey, Function.update_self]
          · obtain ⟨last, hlast, hcovers⟩ := hrecorded
            refine ⟨last, ?_, hcovers⟩
            rw [if_pos rfl, RevokedTokens.setEx, Function.update_of_ne (Ne.symm hkey), hlast]

theorem key_of_revokeToken {exp : Option ℤ} {command : SetCommand}
    (h : revokeToken keyPrefix lib token exp now = some command) :
    command.key = revokedTokenKey keyPrefix lib token := by
  unfold revokeToken at h
  simp only [Option.ite_none_left_eq_some, Option.some.injEq] at h
  rw [← h.2]

theorem extractExpiry_of_verify (hverify : lib.verifySignature token = some payload)
    (hexp : payload.exp = some exp) : extractExpiry lib token = some exp := by
  rw [extractExpiry, lib.decode_of_verify hverify]
  exact hexp

/-- The token that the handler of a request reads, where the guard has let the request pass. -/
theorem AuthRequest.Sound.token_of_authenticated (h : r.Sound keyPrefix lib token exp now revoked)
    {user : Uuid} {token' : String} (hphase : r.phase = .authenticated user)
    (hextract : extractBearerToken r.authorization = some token') :
    fromAuthHeaderAsBearerToken r.authorization = some token' ∧
      ∃ payload, lib.verifySignature token' = some payload := by
  rcases h.verified with hreceived | ⟨error, hrejected⟩ | ⟨token'', payload, hpassport, hsign, -⟩
  · rw [hphase] at hreceived
    cases hreceived
  · rw [hphase] at hrejected
    cases hrejected
  · have hsame : token' = token'' := h.clean.same hpassport hextract
    rw [hsame]
    exact ⟨hpassport, payload, hsign⟩

/-- A request that got further has passed passport's check. -/
theorem AuthRequest.Sound.verified_later (h : r.Sound keyPrefix lib token exp now revoked)
    (hphase : r.phase ≠ .received) (hphase' : ∀ error, r.phase ≠ .rejected error)
    (hnew : ∀ payload, phase ≠ .verified payload) :
    ∃ token' payload, fromAuthHeaderAsBearerToken r.authorization = some token' ∧
      lib.verifySignature token' = some payload ∧
      ∀ payload', phase = .verified payload' → payload' = payload := by
  rcases h.verified with hreceived | ⟨error, hrejected⟩ | ⟨token', payload, hpassport, hsign, -⟩
  · exact absurd hreceived hphase
  · exact absurd hrejected (hphase' error)
  · exact ⟨token', payload, hpassport, hsign, fun payload' h' => absurd h' (hnew payload')⟩

/-- What a step makes of a request. -/
theorem AuthRequest.Sound.effect (hverify : lib.verifySignature token = some payload)
    (hexp : payload.exp = some exp) (hcollision : lib.NoCollision token)
    (h : r.Sound keyPrefix lib token exp now revoked) {i : ℕ}
    (havailable : RedisAvailable (.act i a))
    (heffect : r.Effect keyPrefix lib now revoked a phase revoked') :
    ({ r with phase := phase } : AuthRequest).Sound keyPrefix lib token exp now revoked' := by
  cases heffect with
  | @accept token' payload' hphase htoken hverify' =>
      exact
        { clean := h.clean
          verified := Or.inr (Or.inr ⟨token', payload', htoken, signature_of_verify hverify',
            fun payload'' hnew => by cases hnew; rfl⟩)
          covers := fun command hnew => by cases hnew
          sends := fun command hnew => by cases hnew
          done := fun hnew => by cases hnew }
  | @pass available payload' token' user hphase hextract hnot =>
      exact
        { clean := h.clean
          verified := Or.inr (Or.inr (h.verified_later (by rw [hphase]; simp)
            (fun error => by rw [hphase]; simp) fun payload'' => by simp))
          covers := fun command hnew => by cases hnew
          sends := fun command hnew => by cases hnew
          done := fun hnew => by cases hnew }
  | @send user token' command hroute hphase hextract hcommand =>
      obtain ⟨hpassport, payload', hsign⟩ := h.token_of_authenticated hphase hextract
      have hkey : command.key = revokedTokenKey keyPrefix lib token' := key_of_revokeToken hcommand
      exact
        { clean := h.clean
          verified := Or.inr (Or.inr (h.verified_later (by rw [hphase]; simp)
            (fun error => by rw [hphase]; simp) fun payload'' => by simp))
          -- the only command about this key is the one that the logout of the token sends
          covers := fun command' hnew hkey' => by
            cases hnew
            rw [hkey] at hkey'
            have htoken : token' = token := key_injective hcollision hsign hkey'
            rw [htoken, extractExpiry_of_verify hverify hexp] at hcommand
            exact (covered_of_revokeToken hcommand (le_refl now)).2
          sends := fun command' hnew hpassport' => by
            cases hnew
            rw [hpassport] at hpassport'
            rw [hkey, Option.some.inj hpassport']
          done := fun hnew => by cases hnew }
  | @expired user token' hroute hphase hextract hcommand =>
      obtain ⟨hpassport, payload', hsign⟩ := h.token_of_authenticated hphase hextract
      exact
        { clean := h.clean
          verified := Or.inr (Or.inr (h.verified_later (by rw [hphase]; simp)
            (fun error => by rw [hphase]; simp) fun payload'' => by simp))
          covers := fun command hnew => by cases hnew
          sends := fun command hnew => by cases hnew
          -- a token that needs no command has expired
          done := fun _ hpassport' => by
            have htoken : token' = token := by
              rw [hpassport] at hpassport'
              exact Option.some.inj hpassport'
            rw [htoken, extractExpiry_of_verify hverify hexp] at hcommand
            exact Or.inr (expired_of_revokeToken hcommand) }
  | @answered available command hphase =>
      have havailable' : available = true := havailable
      exact
        { clean := h.clean
          verified := Or.inr (Or.inr (h.verified_later (by rw [hphase]; simp)
            (fun error => by rw [hphase]; simp) fun payload'' => by simp))
          covers := fun command' hnew => by cases hnew
          sends := fun command' hnew => by cases hnew
          done := fun _ hpassport => by
            have hkey := h.sends command hphase hpassport
            refine Or.inl ⟨now + 1000 * command.seconds, ?_, h.covers command hphase hkey⟩
            rw [if_pos havailable', RevokedTokens.setEx, hkey, Function.update_self] }
  | reject error =>
      exact
        { clean := h.clean
          verified := Or.inr (Or.inl ⟨error, rfl⟩)
          covers := fun command hnew => by cases hnew
          sends := fun command hnew => by cases hnew
          done := fun hnew => by cases hnew }

end Kept

/-! ## Runs -/

section Runs

variable {keyPrefix : String} {lib : TokenLibrary} {token : String} {payload : JwtPayload} {exp : ℤ}
  {s s' t : AuthState} {e : AuthEvent} {r : AuthRequest}

/-- Every request is sound. -/
def AuthState.Sound (keyPrefix : String) (lib : TokenLibrary) (token : String) (exp : ℤ)
    (s : AuthState) : Prop :=
  ∀ i r, s.requests i = some r → r.Sound keyPrefix lib token exp s.now s.revoked

theorem AuthState.Sound.recorded (h : s.Sound keyPrefix lib token exp)
    (hstep : s.next keyPrefix lib e = some t)
    (hrecorded : Recorded keyPrefix lib token exp s.revoked) :
    Recorded keyPrefix lib token exp t.revoked := by
  rcases AuthState.next_cases hstep with ⟨ms, rfl, rfl⟩ | ⟨i, route, authorization, rfl, -, rfl⟩ |
    ⟨i, a, r, phase, revoked, rfl, hi, heffect, rfl⟩
  · exact hrecorded
  · exact hrecorded
  · exact (h i r hi).recorded heffect hrecorded

theorem now_le_of_next (hstep : s.next keyPrefix lib e = some t) : s.now ≤ t.now := by
  rcases AuthState.next_cases hstep with ⟨ms, rfl, rfl⟩ | ⟨i, route, authorization, rfl, -, rfl⟩ |
    ⟨i, a, r, phase, revoked, rfl, hi, heffect, rfl⟩
  · exact Nat.le_add_right ..
  · exact le_refl _
  · exact le_refl _

theorem AuthState.Sound.step (hverify : lib.verifySignature token = some payload)
    (hexp : payload.exp = some exp) (hcollision : lib.NoCollision token)
    (h : s.Sound keyPrefix lib token exp) (havailable : RedisAvailable e) (hcareful : Careful s e)
    (hstep : s.next keyPrefix lib e = some t) : t.Sound keyPrefix lib token exp := by
  have hrecorded := h.recorded hstep
  have hnow := now_le_of_next hstep
  have hlater : ∀ j r, s.requests j = some r → r.Sound keyPrefix lib token exp t.now t.revoked :=
    fun j r hj => (h j r hj).later hnow hrecorded
  intro j r hj
  -- the clock, a request that comes in, or a step of a request
  rcases AuthState.next_cases hstep with ⟨ms, rfl, rfl⟩ | ⟨i, route, authorization, rfl, hi, rfl⟩ |
    ⟨i, a, r', phase, revoked, rfl, hi, heffect, rfl⟩
  · exact hlater j r hj
  · by_cases hji : j = i
    · subst hji
      rw [put_self] at hj
      cases hj
      exact
        { clean := hcareful
          verified := Or.inl rfl
          covers := fun command hnew => by cases hnew
          sends := fun command hnew => by cases hnew
          done := fun hnew => by cases hnew }
    · rw [put_of_ne hji] at hj
      exact hlater j r hj
  · by_cases hji : j = i
    · subst hji
      rw [put_self] at hj
      cases hj
      exact (h j r' hi).effect hverify hexp hcollision havailable heffect
    · rw [put_of_ne hji] at hj
      exact hlater j r hj

/-- The token is of no more use: its key is in Redis, or it has expired. -/
def Useless (keyPrefix : String) (lib : TokenLibrary) (token : String) (exp : ℤ) (s : AuthState) :
    Prop :=
  Recorded keyPrefix lib token exp s.revoked ∨ 1000 * exp ≤ (s.now : ℤ)

/-- The guard has not let the request pass; it still may, unless the token has a key. -/
def AuthRequest.Refused (keyPrefix : String) (lib : TokenLibrary) (token : String) (exp : ℤ)
    (revoked : RevokedTokens) (r : AuthRequest) : Prop :=
  r.phase = .received ∨ (∃ error, r.phase = .rejected error) ∨
    ((∃ payload, r.phase = .verified payload) ∧ Recorded keyPrefix lib token exp revoked)

theorem AuthRequest.Refused.not_authenticatedBy {revoked : RevokedTokens}
    (h : r.Refused keyPrefix lib token exp revoked) (token' : String) :
    ¬ r.AuthenticatedBy token' := by
  rintro ⟨-, ⟨user, hphase⟩ | ⟨command, hphase⟩ | hphase⟩
  all_goals
    rcases h with h | ⟨error, h⟩ | ⟨⟨payload, h⟩, -⟩
    · rw [hphase] at h
      cases h
    · rw [hphase] at h
      cases h
    · rw [hphase] at h
      cases h

/-- No step lets a refused request pass. -/
theorem AuthRequest.Refused.effect {now i : ℕ} {revoked revoked' : RevokedTokens} {a : AuthStep}
    {phase : Phase} (hverify : lib.verifySignature token = some payload)
    (hexp : payload.exp = some exp) (hsound : r.Sound keyPrefix lib token exp now revoked)
    (hrefused : r.Refused keyPrefix lib token exp revoked)
    (huseless : Recorded keyPrefix lib token exp revoked ∨ 1000 * exp ≤ (now : ℤ))
    (htoken : fromAuthHeaderAsBearerToken r.authorization = some token)
    (havailable : RedisAvailable (.act i a))
    (hintime : ∀ available user, a = .validate available user → ∀ payload exp,
      r.phase = .verified payload → payload.exp = some exp → (now : ℤ) ≤ 1000 * exp)
    (heffect : r.Effect keyPrefix lib now revoked a phase revoked') :
    ({ r with phase := phase } : AuthRequest).Refused keyPrefix lib token exp revoked' := by
  have hnot := hrefused.not_authenticatedBy token
  cases heffect with
  | @accept token' payload' hphase htoken' hverify' =>
      rw [htoken] at htoken'
      cases htoken'
      have hsign := signature_of_verify hverify'
      rw [hverify] at hsign
      cases hsign
      -- the token has not expired yet, so its key is in Redis
      have hlt := lt_of_verify hverify' hexp
      rcases huseless with hrecorded | hexpired
      · exact Or.inr (Or.inr ⟨⟨payload, rfl⟩, hrecorded⟩)
      · omega
  | @pass available payload' token' user hphase hextract hnotRevoked =>
      have hrecorded : Recorded keyPrefix lib token exp revoked := by
        rcases hrefused with h | ⟨error, h⟩ | ⟨-, h⟩
        · rw [hphase] at h
          cases h
        · rw [hphase] at h
          cases h
        · exact h
      have hpayload : payload' = payload := by
        rcases hsound.verified with h | ⟨error, h⟩ | ⟨token'', payload'', hpassport, hsign, hsame⟩
        · rw [hphase] at h
          cases h
        · rw [hphase] at h
          cases h
        · rw [htoken] at hpassport
          cases hpassport
          rw [hverify] at hsign
          cases hsign
          exact hsame payload' hphase
      rw [hpayload] at hphase
      have hnow := hintime available _ rfl payload exp hphase hexp
      have hsame : token' = token := hsound.clean.same htoken hextract
      have hrevoked := isTokenRevoked_of_recorded hrecorded hnow
      have havailable' : available = true := havailable
      rw [hsame, havailable', hrevoked] at hnotRevoked
      cases hnotRevoked
  | @send user token' command hroute hphase hextract hcommand =>
      exact absurd ⟨htoken, Or.inl ⟨user, hphase⟩⟩ hnot
  | @expired user token' hroute hphase hextract hcommand =>
      exact absurd ⟨htoken, Or.inl ⟨user, hphase⟩⟩ hnot
  | @answered available command hphase =>
      exact absurd ⟨htoken, Or.inr (Or.inl ⟨command, hphase⟩)⟩ hnot
  | reject error => exact Or.inr (Or.inl ⟨error, rfl⟩)

theorem AuthRequest.Refused.later {revoked revoked' : RevokedTokens}
    (h : r.Refused keyPrefix lib token exp revoked)
    (hrecorded : Recorded keyPrefix lib token exp revoked →
      Recorded keyPrefix lib token exp revoked') :
    r.Refused keyPrefix lib token exp revoked' :=
  h.imp_right (Or.imp_right fun h' => ⟨h'.1, hrecorded h'.2⟩)

/-- The requests with this token that have come since `s` are refused. -/
def RefusedSince (keyPrefix : String) (lib : TokenLibrary) (token : String) (exp : ℤ)
    (s t : AuthState) : Prop :=
  ∀ j r, s.requests j = none → t.requests j = some r →
    fromAuthHeaderAsBearerToken r.authorization = some token →
      r.Refused keyPrefix lib token exp t.revoked

/-- **One step** after the logout. -/
theorem RefusedSince.step (hverify : lib.verifySignature token = some payload)
    (hexp : payload.exp = some exp) (hsound : t.Sound keyPrefix lib token exp)
    (huseless : Useless keyPrefix lib token exp t) (h : RefusedSince keyPrefix lib token exp s t)
    (havailable : RedisAvailable e) (hcareful : Careful t e)
    (hstep : t.next keyPrefix lib e = some s') :
    Useless keyPrefix lib token exp s' ∧ RefusedSince keyPrefix lib token exp s s' := by
  have hrecorded := hsound.recorded hstep
  have hnow := now_le_of_next hstep
  refine ⟨?_, ?_⟩
  · rcases huseless with hrec | hexpired
    · exact Or.inl (hrecorded hrec)
    · exact Or.inr (by omega)
  -- a request that has come in since, at any stage
  · intro j r hnew hj htoken
    rcases AuthState.next_cases hstep with ⟨ms, rfl, rfl⟩ |
      ⟨i, route, authorization, rfl, hi, rfl⟩ | ⟨i, a, r', phase, revoked, rfl, hi, heffect, rfl⟩
    · exact h j r hnew hj htoken
    · by_cases hji : j = i
      · subst hji
        rw [put_self] at hj
        cases hj
        exact Or.inl rfl
      · rw [put_of_ne hji] at hj
        exact h j r hnew hj htoken
    · by_cases hji : j = i
      · subst hji
        rw [put_self] at hj
        cases hj
        refine (h j r' hnew hi htoken).effect hverify hexp (hsound j r' hi) huseless htoken
          havailable ?_ heffect
        rintro available user rfl payload' exp' hphase hexp'
        exact hcareful r' payload' exp' hi hphase hexp'
      · rw [put_of_ne hji] at hj
        exact (h j r hnew hj htoken).later hrecorded

theorem sound_of_reachable (hverify : lib.verifySignature token = some payload)
    (hexp : payload.exp = some exp) (hcollision : lib.NoCollision token)
    (h : (carefulRuns keyPrefix lib).Reachable s) : s.Sound keyPrefix lib token exp := by
  refine h.invariant (AuthState.Sound keyPrefix lib token exp) ?_ ?_
  · rintro s rfl i r hi
    cases hi
  · intro s e t hs hstep
    exact hs.step hverify hexp hcollision hstep.1.1 hstep.1.2 hstep.2

end Runs

/-- The runs in which Redis can be reached. -/
def availableRuns (keyPrefix : String) (lib : TokenLibrary) : System AuthState AuthEvent :=
  (authRuns keyPrefix lib).restrict fun _ e => RedisAvailable e

/-! ## What the condition excludes -/

section Excluded

variable {keyPrefix : String} {lib : TokenLibrary} {token : String} {payload : JwtPayload} {exp : ℤ}
  {s : AuthState} {i : ℕ} {route : Route} {authorization : Option String} {user : Uuid}
  {C : AuthState → AuthEvent → Prop}

theorem step_receive (hi : s.requests i = none) (hC : C s (.receive i route authorization)) :
    ((authRuns keyPrefix lib).restrict C).step s (.receive i route authorization)
      (s.put i ⟨route, authorization, .received⟩ s.revoked) := by
  refine ⟨hC, ?_⟩
  show s.next keyPrefix lib _ = _
  simp only [AuthState.next, hi]

theorem step_act {r : AuthRequest} {a : AuthStep} {phase : Phase} {revoked : RevokedTokens}
    (hi : s.requests i = some r) (hC : C s (.act i a))
    (h : r.next keyPrefix lib s.now s.revoked a = some (phase, revoked)) :
    ((authRuns keyPrefix lib).restrict C).step s (.act i a)
      (s.put i { r with phase := phase } revoked) := by
  refine ⟨hC, ?_⟩
  show s.next keyPrefix lib _ = _
  simp only [AuthState.next, hi, h]

/-- The step of a request that has just been put. -/
theorem step_put {r : AuthRequest} {a : AuthStep} {phase : Phase} {revoked revoked' : RevokedTokens}
    (hC : C (s.put i r revoked) (.act i a))
    (h : r.next keyPrefix lib s.now revoked a = some (phase, revoked')) :
    ((authRuns keyPrefix lib).restrict C).step (s.put i r revoked) (.act i a)
      (s.put i { r with phase := phase } revoked') := by
  have hstep : ((authRuns keyPrefix lib).restrict C).step (s.put i r revoked) (.act i a)
      ((s.put i r revoked).put i { r with phase := phase } revoked') := step_act put_self hC h
  rwa [put_put] at hstep

/-- A request whose token passport verifies. -/
theorem run_verified (route : Route) (hi : s.requests i = none)
    (hpassport : fromAuthHeaderAsBearerToken authorization = some token)
    (hverify : lib.verify token s.now = some payload)
    (hreceive : C s (.receive i route authorization)) (hC : ∀ s, C s (.act i .verify)) :
    ((authRuns keyPrefix lib).restrict C).Run s [.receive i route authorization, .act i .verify]
      (s.put i ⟨route, authorization, .verified payload⟩ s.revoked) :=
  .snoc (.single (step_receive hi hreceive)) (step_put (hC _)
    (by simp [AuthRequest.next, passportPhase, hpassport, hverify]))

/-- `validate` lets the request pass. -/
theorem next_validate {token' : String} {revoked : RevokedTokens} {now : ℕ}
    (hextract : extractBearerToken authorization = some token')
    (hnot : isTokenRevoked (revocationAnswer keyPrefix lib revoked true now token') = false) :
    (AuthRequest.mk route authorization (.verified payload)).next keyPrefix lib now revoked
      (.validate true (some user)) = some (.authenticated user, revoked) := by
  simp [AuthRequest.next, validate, hextract, hnot]

theorem not_revoked_of_none {revoked : RevokedTokens} {now : ℕ}
    (h : revoked (revokedTokenKey keyPrefix lib token) = none) :
    isTokenRevoked (revocationAnswer keyPrefix lib revoked true now token) = false := by
  simp [revocationAnswer, RevokedTokens.existsKey, h, isTokenRevoked]

/-- The header of a token in the canonical form. -/
def bearer (token : String) : Option String := some ("Bearer " ++ token)

/-- A token that the server has issued, and that has not expired at the start. -/
structure Issued (lib : TokenLibrary) (token : String) (payload : JwtPayload) (exp : ℤ) : Prop where
  verifies : lib.verifySignature token = some payload
  expires : payload.exp = some exp
  later : 0 < exp
  noSpace : NoOtherSpace token
  nonempty : token ≠ ""

namespace Issued

theorem extract (h : Issued lib token payload exp) :
    extractBearerToken (bearer token) = some token := by
  refine extractBearerToken_bearer (fun hmem => ?_) h.nonempty
  have hspace := h.noSpace ' ' hmem
  simp [isSpace] at hspace

theorem passport (h : Issued lib token payload exp) :
    fromAuthHeaderAsBearerToken (bearer token) = some token :=
  passport_of_noOtherSpace h.extract h.noSpace

theorem clean (h : Issued lib token payload exp) : CleanHeader (bearer token) := by
  intro token₁ token₂ _ hextract
  rw [h.extract] at hextract
  cases hextract
  exact h.noSpace

theorem verify (h : Issued lib token payload exp) {now : ℕ} (hnow : unixSeconds now < exp) :
    lib.verify token now = some payload := by
  simp only [TokenLibrary.verify, h.verifies, h.expires]
  rw [if_neg (by omega)]

/-- Passport also takes the token from behind a tab, which the application reads as part of it. -/
theorem passport_tab (h : Issued lib token payload exp) :
    fromAuthHeaderAsBearerToken (some ("Bearer " ++ ("\t" ++ token))) = some token := by
  have hrest : ∀ c ∈ ([] : List Char).head?, isSpace c = true := by simp
  refine passport_of_parts h.noSpace (fun hnil => h.nonempty (String.toList_eq_nil_iff.mp hnil))
    (List.cons_ne_nil ' ' ['\t']) (by simp [isSpace]) hrest ?_
  simp

theorem extract_tab (h : Issued lib token payload exp) :
    extractBearerToken (some ("Bearer " ++ ("\t" ++ token))) = some ("\t" ++ token) := by
  refine extractBearerToken_bearer (fun hmem => ?_) (fun hnil => ?_)
  · rw [String.toList_append, List.mem_append] at hmem
    rcases hmem with htab | hmem
    · simp at htab
    · have hspace := h.noSpace ' ' hmem
      simp [isSpace] at hspace
  · have hlen := congrArg String.length hnil
    simp at hlen

/-- The command that revokes the token at the start. -/
theorem command (h : Issued lib token payload exp) (keyPrefix : String) :
    logout keyPrefix lib (bearer token) 0 =
      .ok (some ⟨revokedTokenKey keyPrefix lib token, exp.toNat⟩) := by
  have hpos := h.later
  simp only [logout, h.extract, extractExpiry_of_verify h.verifies h.expires, revokeToken,
    resolveTtlSeconds, unixSeconds]
  rw [if_neg (by omega), if_neg (by omega)]
  congr 4
  omega

end Issued

/-- The revoked tokens after a logout at the start. -/
def revokedAtStart (keyPrefix : String) (lib : TokenLibrary) (token : String) (exp : ℤ) :
    RevokedTokens :=
  RevokedTokens.setEx (fun _ => none) 0 (revokedTokenKey keyPrefix lib token) exp.toNat

/-- The state after a logout at the start. -/
def loggedOutState (keyPrefix : String) (lib : TokenLibrary) (token : String) (exp : ℤ) :
    AuthState :=
  AuthState.start.put 0 ⟨.logout, bearer token, .succeeded⟩ (revokedAtStart keyPrefix lib token exp)

/-- Any token can be used for a logout in a careful run. -/
theorem reachable_loggedOut (keyPrefix : String) (h : Issued lib token payload exp) (user : Uuid) :
    (carefulRuns keyPrefix lib).Reachable (loggedOutState keyPrefix lib token exp) := by
  have hnow : unixSeconds 0 < exp := h.later
  have hrun : (carefulRuns keyPrefix lib).Run AuthState.start
      [.receive 0 .logout (bearer token), .act 0 .verify] _ :=
    run_verified .logout rfl h.passport (h.verify hnow) ⟨trivial, h.clean⟩ (fun s => ⟨trivial, trivial⟩)
  have hvalidate : Careful (AuthState.start.put 0 ⟨.logout, bearer token, .verified payload⟩
      AuthState.start.revoked) (.act 0 (.validate true (some user))) := by
    intro r payload' exp' hr hphase hexp'
    rw [put_self] at hr
    cases hr
    cases hphase
    rw [h.expires] at hexp'
    cases hexp'
    have hpos := h.later
    show ((0 : ℕ) : ℤ) ≤ 1000 * exp
    omega
  have hhandle : (AuthRequest.mk .logout (bearer token) (.authenticated user)).next keyPrefix lib 0
      AuthState.start.revoked .handle =
        some (.revoking ⟨revokedTokenKey keyPrefix lib token, exp.toNat⟩,
          AuthState.start.revoked) := by
    simp only [AuthRequest.next, h.command]
  have hrun := hrun.snoc (step_put (a := .validate true (some user)) ⟨rfl, hvalidate⟩
    (next_validate h.extract (not_revoked_of_none rfl)))
  have hrun := hrun.snoc (step_put (a := .handle) ⟨trivial, trivial⟩ hhandle)
  have hrun := hrun.snoc (step_put (a := .set true) ⟨rfl, trivial⟩ rfl)
  exact hrun.reachable (.init rfl)

theorem loggedOutState_loggedOut (h : Issued lib token payload exp) :
    ∃ r, (loggedOutState keyPrefix lib token exp).requests 0 = some r ∧ r.LoggedOut token :=
  ⟨_, put_self, rfl, h.passport, rfl⟩

theorem loggedOutState_new : (loggedOutState keyPrefix lib token exp).requests 1 = none :=
  put_of_ne (by decide)

/-- With a tab behind the space, a request passes after the logout of its token, whatever the
token. -/
theorem tab_passes (keyPrefix : String) (h : Issued lib token payload exp)
    (hdigest : lib.sha256 ("\t" ++ token) ≠ lib.sha256 token) (user : Uuid) :
    ∃ t events, (availableRuns keyPrefix lib).Run (loggedOutState keyPrefix lib token exp) events t ∧
      ∃ r, t.requests 1 = some r ∧ r.authorization = some ("Bearer " ++ ("\t" ++ token)) ∧
        r.AuthenticatedBy token := by
  have hnow : unixSeconds (loggedOutState keyPrefix lib token exp).now < exp := by
    show unixSeconds 0 < exp
    exact h.later
  have hrun : (availableRuns keyPrefix lib).Run (loggedOutState keyPrefix lib token exp)
      [.receive 1 .other (some ("Bearer " ++ ("\t" ++ token))), .act 1 .verify] _ :=
    run_verified .other loggedOutState_new h.passport_tab (h.verify hnow) trivial fun s => trivial
  have hnone : (loggedOutState keyPrefix lib token exp).revoked
      (revokedTokenKey keyPrefix lib ("\t" ++ token)) = none := by
    show revokedAtStart keyPrefix lib token exp _ = none
    rw [revokedAtStart, RevokedTokens.setEx, Function.update_of_ne]
    intro hkey
    refine hdigest ?_
    simpa only [revokedTokenKey, getAuthRevokedTokenKey, String.append_right_inj] using hkey
  have hrun := hrun.snoc (step_put (a := .validate true (some user)) rfl
    (next_validate h.extract_tab (not_revoked_of_none hnone)))
  exact ⟨_, _, hrun, _, put_self, rfl, h.passport_tab, Or.inl ⟨user, rfl⟩⟩

/-- Where passport verifies the token just before it expires and Redis is asked after its key has
lapsed, a request with the canonical header passes after the logout. -/
theorem late_question_passes (keyPrefix : String) (h : Issued lib token payload exp) (user : Uuid) :
    ∃ t events, (availableRuns keyPrefix lib).Run (loggedOutState keyPrefix lib token exp) events t ∧
      ∃ r, t.requests 1 = some r ∧ r.authorization = bearer token ∧ r.AuthenticatedBy token := by
  have hpos := h.later
  have hwait : ∀ (s : AuthState) (ms : ℕ), (availableRuns keyPrefix lib).step s (.wait ms)
      { s with now := s.now + ms } := fun s ms => ⟨trivial, rfl⟩
  have hrun := System.Run.single
    (hwait (loggedOutState keyPrefix lib token exp) (1000 * exp.toNat - 1))
  have hnew : ({ loggedOutState keyPrefix lib token exp with
      now := (loggedOutState keyPrefix lib token exp).now + (1000 * exp.toNat - 1) } :
        AuthState).requests 1 = none :=
    (loggedOutState_new : (loggedOutState keyPrefix lib token exp).requests 1 = none)
  have hlive : unixSeconds (0 + (1000 * exp.toNat - 1)) < exp := by
    unfold unixSeconds
    omega
  have hrun := hrun.append (run_verified .other hnew h.passport
    (h.verify hlive) trivial fun s => trivial)
  have hrun := hrun.snoc (hwait _ 2)
  have hlapsed : isTokenRevoked (revocationAnswer keyPrefix lib
      (revokedAtStart keyPrefix lib token exp) true (0 + (1000 * exp.toNat - 1) + 2) token) =
        false := by
    have hgone : ¬ 0 + (1000 * exp.toNat - 1) + 2 ≤ 0 + 1000 * exp.toNat := by omega
    simp only [revocationAnswer, if_true, RevokedTokens.existsKey, revokedAtStart,
      RevokedTokens.setEx, Function.update_self, if_neg hgone, isTokenRevoked]
    decide
  have hrun := hrun.snoc (step_act (a := .validate true (some user)) (Function.update_self ..) rfl
    (next_validate h.extract hlapsed))
  exact ⟨_, _, hrun, _, put_self, rfl, h.passport, Or.inl ⟨user, rfl⟩⟩

/-- With the canonical header and in time, the request is rejected. -/
theorem run_rejected (keyPrefix : String) (h : Issued lib token payload exp) (user : Uuid) :
    ∃ t events, (carefulRuns keyPrefix lib).Run (loggedOutState keyPrefix lib token exp) events t ∧
      t.requests 1 = some ⟨.other, bearer token, .rejected ⟨"Token revoked"⟩⟩ := by
  have hpos := h.later
  have hnow : unixSeconds (loggedOutState keyPrefix lib token exp).now < exp := by
    show unixSeconds 0 < exp
    exact h.later
  have hrun : (carefulRuns keyPrefix lib).Run (loggedOutState keyPrefix lib token exp)
      [.receive 1 .other (bearer token), .act 1 .verify] _ :=
    run_verified .other loggedOutState_new h.passport (h.verify hnow) ⟨trivial, h.clean⟩
      fun s => ⟨trivial, trivial⟩
  -- the token is verified and asked about at the same instant
  have hvalidate : Careful ((loggedOutState keyPrefix lib token exp).put 1
      ⟨.other, bearer token, .verified payload⟩ (loggedOutState keyPrefix lib token exp).revoked)
      (.act 1 (.validate true (some user))) := by
    intro r payload' exp' hr hphase hexp'
    rw [put_self] at hr
    cases hr
    cases hphase
    rw [h.expires] at hexp'
    cases hexp'
    show ((0 : ℕ) : ℤ) ≤ 1000 * exp
    omega
  have hrecorded : Recorded keyPrefix lib token exp (revokedAtStart keyPrefix lib token exp) := by
    refine ⟨0 + 1000 * exp.toNat, ?_, by omega⟩
    rw [revokedAtStart, RevokedTokens.setEx, Function.update_self]
  have hrevoked : isTokenRevoked (revocationAnswer keyPrefix lib
      (revokedAtStart keyPrefix lib token exp) true 0 token) = true :=
    isTokenRevoked_of_recorded hrecorded (by omega)
  have hnext : (AuthRequest.mk .other (bearer token) (.verified payload)).next keyPrefix lib 0
      (revokedAtStart keyPrefix lib token exp) (.validate true (some user)) =
        some (.rejected ⟨"Token revoked"⟩, revokedAtStart keyPrefix lib token exp) := by
    simp [AuthRequest.next, validate, h.extract, hrevoked]
  have hrun := hrun.snoc (step_put (a := .validate true (some user)) ⟨rfl, hvalidate⟩ hnext)
  exact ⟨_, _, hrun, put_self⟩

end Excluded

/-! ## A token of the application -/

namespace Sample

def jwt : String :=
  "eyJhbGciOiJIUzI1NiIsInR5cCI6IkpXVCJ9." ++ ("eyJzdWIiOiI" ++ ("x" ++
    ("MTExMTExMS0xMTExLTQxMTEtODExMS0xMTExMTExMTExMTEi" ++
      ("LCJpYXQiOjE3MDAwMDAwMDAsImV4cCI6MTcwMDAwMzYwMH0." ++
        "E7LcJ1Q700Q55t7GlkWqZFbNW7w8XNlxJNiaJVRHiQc"))))

def jwtPayload : JwtPayload := ⟨some "11111111-1111-4111-8111-111111111111", some 1700003600⟩

/-- The library on the one token that has been issued, and on the text that a tab makes of it. -/
def tokenLibrary : TokenLibrary where
  sha256 token :=
    if token = jwt then "9dd29368eb9fdbaa770e190d35165bdac69f25eacdb738531cfe6c75e9cf70fc"
    else if token = "\t" ++ jwt then "8173bca0c2da8c2e74de9c7c1753c3ec515bc1fe98f247a5f1f636aa6f66040c"
    else token
  verifySignature token := if token = jwt then some jwtPayload else none
  decode token := if token = jwt then some jwtPayload else none
  decode_of_verify h := h

def user : Uuid := ⟨"11111111-1111-4111-8111-111111111111", by decide⟩

theorem verifySignature_jwt : tokenLibrary.verifySignature jwt = some jwtPayload := by
  simp only [tokenLibrary, if_true]

theorem jwt_ne : jwt ≠ "" := by
  intro hnil
  unfold jwt at hnil
  rw [String.append_eq_empty_iff] at hnil
  exact absurd hnil.1 (by decide)

theorem issued_jwt : Issued tokenLibrary jwt jwtPayload 1700003600 where
  verifies := verifySignature_jwt
  expires := rfl
  later := by decide
  noSpace := by
    refine .append ?_ (.append ?_ (.append ?_ (.append ?_ (.append ?_ ?_))))
    all_goals simp [NoOtherSpace, isSpace]
  nonempty := jwt_ne

theorem noCollision_jwt : tokenLibrary.NoCollision jwt := by
  intro token payload hverify _
  by_contra hne
  simp [tokenLibrary, hne] at hverify

theorem digest_tab : tokenLibrary.sha256 ("\t" ++ jwt) ≠ tokenLibrary.sha256 jwt := by
  have hne : "\t" ++ jwt ≠ jwt := by
    intro heq
    have hlen := congrArg String.length heq
    simp at hlen
  simp [tokenLibrary, hne]

end Sample

/-! ## The two sides -/

/-- **A logout revokes its token**, in every run whose steps meet the condition: no request
that comes after the logout has returned is authenticated by it, at whatever time. For a header
that both parsers read, the condition is that they read the same token. -/
theorem logout_revokes (keyPrefix : String) (lib : TokenLibrary) :
    (∀ authorization token token', fromAuthHeaderAsBearerToken authorization = some token →
      extractBearerToken authorization = some token' → (token' = token ↔ NoOtherSpace token')) ∧
    ∀ token payload exp, lib.verifySignature token = some payload → payload.exp = some exp →
      lib.NoCollision token →
      ∀ s t events, (carefulRuns keyPrefix lib).Reachable s →
        (carefulRuns keyPrefix lib).Run s events t →
        ∀ i r, s.requests i = some r → r.LoggedOut token →
        ∀ j r', s.requests j = none → t.requests j = some r' → ¬ r'.AuthenticatedBy token := by
  refine ⟨fun authorization token token' => checked_eq_verified_iff, ?_⟩
  intro token payload exp hverify hexp hcollision s t events hs hrun i r hi hlogout j r' hnew hj
  have hsound : ∀ s, (carefulRuns keyPrefix lib).Reachable s → s.Sound keyPrefix lib token exp :=
    fun s => sound_of_reachable hverify hexp hcollision
  have hend : Useless keyPrefix lib token exp t ∧ RefusedSince keyPrefix lib token exp s t := by
    refine hrun.preserves
      (fun t => Useless keyPrefix lib token exp t ∧ RefusedSince keyPrefix lib token exp s t)
      (fun t e t' ht hkept hstep => ?_) hs ⟨?_, ?_⟩
    · exact hkept.2.step hverify hexp (hsound t ht) hkept.1 hstep.1.1 hstep.1.2 hstep.2
    · exact (hsound s hs i r hi).done hlogout.2.2 hlogout.2.1
    · intro j r hnew hj
      rw [hnew] at hj
      cases hj
  intro hauthenticated
  exact (hend.2 j r' hnew hj hauthenticated.1).not_authenticatedBy token hauthenticated

theorem logout_revokes_jwt :
    ∃ t events, (carefulRuns "olx" Sample.tokenLibrary).Run
        (loggedOutState "olx" Sample.tokenLibrary Sample.jwt 1700003600) events t ∧
      ∃ r, t.requests 1 = some r ∧ ¬ r.AuthenticatedBy Sample.jwt := by
  obtain ⟨t, events, hrun, hrejected⟩ := run_rejected "olx" Sample.issued_jwt Sample.user
  obtain ⟨r, hr, hlogout⟩ := loggedOutState_loggedOut Sample.issued_jwt
  exact ⟨t, events, hrun, _, hrejected, (logout_revokes "olx" Sample.tokenLibrary).2 Sample.jwt
    Sample.jwtPayload 1700003600 Sample.verifySignature_jwt rfl Sample.noCollision_jwt _ t events
    (reachable_loggedOut "olx" Sample.issued_jwt Sample.user) hrun 0 r hr hlogout 1 _ loggedOutState_new
    hrejected⟩

/-- A tab behind the space: the token of a finished logout authenticates a later request. -/
theorem revoked_token_is_used :
    Sample.tokenLibrary.verifySignature Sample.jwt = some Sample.jwtPayload ∧
      Sample.jwtPayload.exp = some 1700003600 ∧ Sample.tokenLibrary.NoCollision Sample.jwt ∧
      ∃ s t events, (availableRuns "olx" Sample.tokenLibrary).Reachable s ∧
        (availableRuns "olx" Sample.tokenLibrary).Run s events t ∧
        (∃ r, s.requests 0 = some r ∧ r.LoggedOut Sample.jwt) ∧ s.requests 1 = none ∧
        ∃ r, t.requests 1 = some r ∧
          r.authorization = some ("Bearer " ++ ("\t" ++ Sample.jwt)) ∧
          r.AuthenticatedBy Sample.jwt := by
  obtain ⟨t, events, hrun, hpasses⟩ :=
    tab_passes "olx" Sample.issued_jwt Sample.digest_tab Sample.user
  have hreachable := (reachable_loggedOut "olx" Sample.issued_jwt Sample.user).mono
    fun s e h => h.1
  exact ⟨Sample.verifySignature_jwt, rfl, Sample.noCollision_jwt, _, t, events, hreachable, hrun,
    loggedOutState_loggedOut Sample.issued_jwt, loggedOutState_new, hpasses⟩

end OutcomeExchange
