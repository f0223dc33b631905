import OutcomeExchange.Revocation
import Mathlib.Data.List.Basic

set_option autoImplicit false

/-! # The private balance stream

`BalanceGateway` keeps the user of each socket in the map `authenticatedUsers`, and lets the
socket join the room of that user; a balance update goes to the sockets in the room. The
events of the gateway come in any order, between the HTTP requests of `AuthState`, which is how
tokens get revoked.

`presented` is the record of what a socket has shown last, with what the HTTP guard would have
said of it then. No step of the gateway reads it. -/

namespace OutcomeExchange

open Txn

/-! ## The gateway -/

def balanceRoom (userId : String) : String := "balance:" ++ userId

theorem balanceRoom_injective {u v : String} (h : balanceRoom u = balanceRoom v) : u = v := by
  simpa only [balanceRoom, String.append_right_inj] using h

/-- What `handleAuthenticate` answers. -/
structure AuthReply where
  status : String
  message : Option String
  deriving DecidableEq

structure BalanceGateway where
  authenticatedUsers : ℕ → Option String
  /-- the balance rooms that each socket has joined -/
  rooms : ℕ → List String

namespace BalanceGateway

/-- `authenticatedUsers.set(client.id, userId)` and `client.join(room)` -/
def join (g : BalanceGateway) (client : ℕ) (userId : String) : BalanceGateway where
  authenticatedUsers := Function.update g.authenticatedUsers client (some userId)
  rooms := Function.update g.rooms client ((g.rooms client).insert (balanceRoom userId))

def handleAuthenticate (lib : TokenLibrary) (now : ℕ) (g : BalanceGateway) (client : ℕ)
    (token : Option String) : AuthReply × BalanceGateway :=
  match token with
  | none => (⟨"error", some "No token provided"⟩, g)
  | some token =>
      if token = "" then (⟨"error", some "No token provided"⟩, g)
      else
        match lib.verify token now with
        | none => (⟨"error", some "Authentication failed"⟩, g)
        | some payload =>
            match payload.sub with
            | none => (⟨"error", some "Invalid token"⟩, g)
            | some userId =>
                if userId = "" then (⟨"error", some "Invalid token"⟩, g)
                else (⟨"authenticated", none⟩, g.join client userId)

/-- The socket leaves its rooms, and `handleDisconnect` runs. -/
def handleDisconnect (g : BalanceGateway) (client : ℕ) : BalanceGateway where
  authenticatedUsers := Function.update g.authenticatedUsers client none
  rooms := Function.update g.rooms client []

/-- The socket is one of those that `broadcastBalanceUpdate(userId, …)` sends to. -/
def Receives (g : BalanceGateway) (userId : String) (client : ℕ) : Prop :=
  balanceRoom userId ∈ g.rooms client

end BalanceGateway

/-! ## Sockets and requests -/

/-- The token of a successful `authenticate`, and whether it was revoked then. -/
structure Presented where
  token : String
  revoked : Bool

structure GatewayState where
  auth : AuthState
  connected : ℕ → Bool
  gateway : BalanceGateway
  presented : ℕ → Option Presented

inductive GatewayEvent
  | http (e : AuthEvent)
  | connect (client : ℕ)
  | authenticate (client : ℕ) (token : Option String)
  | disconnect (client : ℕ)

section

variable (keyPrefix : String) (lib : TokenLibrary)

/-- What the HTTP guard would say of the token. -/
def AuthState.isRevoked (s : AuthState) (token : String) : Bool :=
  isTokenRevoked (revocationAnswer keyPrefix lib s.revoked true s.now token)

def GatewayState.next (s : GatewayState) : GatewayEvent → Option GatewayState
  | .http e =>
      match s.auth.next keyPrefix lib e with
      | none => none
      | some auth => some { s with auth := auth }
  | .connect client =>
      if s.connected client = true then none
      else some { s with connected := Function.update s.connected client true }
  | .authenticate client token =>
      if s.connected client = true then
        match s.gateway.handleAuthenticate lib s.auth.now client token, token with
        | (⟨"authenticated", _⟩, gateway), some token =>
            some { s with
              gateway := gateway
              presented := Function.update s.presented client
                (some ⟨token, s.auth.isRevoked keyPrefix lib token⟩) }
        | (_, gateway), _ => some { s with gateway := gateway }
      else none
  | .disconnect client =>
      if s.connected client = true then
        some { s with
          connected := Function.update s.connected client false
          gateway := s.gateway.handleDisconnect client
          presented := Function.update s.presented client none }
      else none

/-- No request, no socket. -/
def GatewayState.start : GatewayState :=
  ⟨AuthState.start, fun _ => false, ⟨fun _ => none, fun _ => []⟩, fun _ => none⟩

def gatewayRuns : System GatewayState GatewayEvent where
  init s := s = GatewayState.start
  step s e t := s.next keyPrefix lib e = some t

end

/-! ## Isolation -/

/-- A balance update of a user goes only to connected sockets that have last presented a token
of this user, which was not revoked; and a socket is in the room of the user that is recorded for
it, and in no other. -/
structure GatewayState.Isolated (lib : TokenLibrary) (s : GatewayState) : Prop where
  delivered : ∀ userId client, s.gateway.Receives userId client →
    s.connected client = true ∧ ∃ p payload, s.presented client = some p ∧
      lib.verifySignature p.token = some payload ∧ payload.sub = some userId ∧ p.revoked = false
  rooms : ∀ client room, room ∈ s.gateway.rooms client ↔
    ∃ userId, s.gateway.authenticatedUsers client = some userId ∧ room = balanceRoom userId

/-- A token that the gateway accepts is not revoked, and is of the user that is recorded for the
socket, if there is one. -/
def Rightful (keyPrefix : String) (lib : TokenLibrary) (s : GatewayState) : GatewayEvent → Prop
  | .authenticate client (some token) =>
      ∀ payload userId, token ≠ "" → lib.verify token s.auth.now = some payload →
        payload.sub = some userId → userId ≠ "" →
          (∀ u, s.gateway.authenticatedUsers client = some u → u = userId) ∧
            s.auth.isRevoked keyPrefix lib token = false
  | _ => True

section Steps

variable {keyPrefix : String} {lib : TokenLibrary} {s t : GatewayState} {e : GatewayEvent}

theorem handleAuthenticate_cases (lib : TokenLibrary) (now : ℕ) (g : BalanceGateway) (client : ℕ)
    (token : Option String) :
    (∃ message, g.handleAuthenticate lib now client token = (⟨"error", some message⟩, g) ∧
        ∀ text payload userId, token = some text → text ≠ "" → lib.verify text now = some payload →
          payload.sub = some userId → userId = "") ∨
      ∃ text payload userId, token = some text ∧ text ≠ "" ∧ lib.verify text now = some payload ∧
        payload.sub = some userId ∧ userId ≠ "" ∧
        g.handleAuthenticate lib now client token =
          (⟨"authenticated", none⟩, g.join client userId) := by
  -- the ways out of the handler, in the order of the source
  cases token with
  | none => exact Or.inl ⟨_, rfl, fun text payload userId htoken => by cases htoken⟩
  | some text =>
      unfold BalanceGateway.handleAuthenticate
      by_cases htext : text = ""
      · refine Or.inl ⟨"No token provided", by simp [htext], ?_⟩
        intro text' payload userId htoken hne
        cases htoken
        exact absurd htext hne
      · cases hverify : lib.verify text now with
        | none =>
            refine Or.inl ⟨"Authentication failed", by simp [htext, hverify], ?_⟩
            intro text' payload userId htoken hne hverify'
            cases htoken
            rw [hverify] at hverify'
            cases hverify'
        | some payload =>
            cases hsub : payload.sub with
            | none =>
                refine Or.inl ⟨"Invalid token", by simp [htext, hverify, hsub], ?_⟩
                intro text' payload' userId htoken hne hverify' hsub'
                cases htoken
                rw [hverify] at hverify'
                cases hverify'
                rw [hsub] at hsub'
                cases hsub'
            | some userId =>
                by_cases huser : userId = ""
                · refine Or.inl ⟨"Invalid token", by simp [htext, hverify, hsub, huser], ?_⟩
                  intro text' payload' userId' htoken hne hverify' hsub'
                  cases htoken
                  rw [hverify] at hverify'
                  cases hverify'
                  rw [hsub] at hsub'
                  cases hsub'
                  exact huser
                · exact Or.inr ⟨text, payload, userId, rfl, htext, hverify, hsub, huser,
                    by simp [htext, hverify, hsub, huser]⟩

/-- **The inversion lemma** of the gateway. -/
theorem GatewayState.next_cases (h : s.next keyPrefix lib e = some t) :
    (∃ auth, t = { s with auth := auth } ∧ Rightful keyPrefix lib s e) ∨
      (∃ client, t = { s with connected := Function.update s.connected client true } ∧
        Rightful keyPrefix lib s e) ∨
      (∃ client, t = { s with
          connected := Function.update s.connected client false
          gateway := s.gateway.handleDisconnect client
          presented := Function.update s.presented client none } ∧ Rightful keyPrefix lib s e) ∨
      ∃ client token payload userId, e = .authenticate client (some token) ∧ token ≠ "" ∧
        s.connected client = true ∧ lib.verify token s.auth.now = some payload ∧
        payload.sub = some userId ∧ userId ≠ "" ∧
        t = { s with
          gateway := s.gateway.join client userId
          presented := Function.update s.presented client
            (some ⟨token, s.auth.isRevoked keyPrefix lib token⟩) } := by
  cases e with
  | http e =>
      simp only [GatewayState.next] at h
      split at h
      · cases h
      · cases h
        exact Or.inl ⟨_, rfl, trivial⟩
  | connect client =>
      simp only [GatewayState.next] at h
      split at h
      · cases h
      · cases h
        exact Or.inr (Or.inl ⟨client, rfl, trivial⟩)
  | disconnect client =>
      simp only [GatewayState.next] at h
      split at h
      · cases h
        exact Or.inr (Or.inr (Or.inl ⟨client, rfl, trivial⟩))
      · cases h
  | authenticate client token =>
      by_cases hconnected : s.connected client = true
      · simp only [GatewayState.next, if_pos hconnected] at h
        rcases handleAuthenticate_cases lib s.auth.now s.gateway client token with
          ⟨message, hreply, hnot⟩ | ⟨text, payload, userId, rfl, htext, hverify, hsub, huser, hreply⟩
        · -- an error leaves the state alone
          refine Or.inl ⟨s.auth, ?_, ?_⟩
          · rw [hreply] at h
            simp at h
            exact h.symm
          · cases token with
            | none => trivial
            | some text =>
                intro payload userId htext hverify hsub huser
                exact absurd (hnot text payload userId rfl htext hverify hsub) huser
        · rw [hreply] at h
          simp only [Option.some.injEq] at h
          exact Or.inr (Or.inr (Or.inr ⟨client, text, payload, userId, rfl, htext, hconnected,
            hverify, hsub, huser, h.symm⟩))
      · simp only [GatewayState.next, if_neg hconnected] at h
        cases h

/-- A disconnected socket is in no room and has no user. -/
theorem GatewayState.Isolated.disconnect (h : s.Isolated lib) (client : ℕ) :
    GatewayState.Isolated lib { s with
      connected := Function.update s.connected client false
      gateway := s.gateway.handleDisconnect client
      presented := Function.update s.presented client none } where
  delivered userId c hreceives := by
    simp only [BalanceGateway.Receives, BalanceGateway.handleDisconnect] at hreceives
    by_cases hc : c = client
    · subst hc
      rw [Function.update_self] at hreceives
      cases hreceives
    · rw [Function.update_of_ne hc] at hreceives
      simp only [Function.update_of_ne hc]
      exact h.delivered userId c hreceives
  rooms c room := by
    simp only [BalanceGateway.handleDisconnect]
    by_cases hc : c = client
    · subst hc
      simp
    · simp only [Function.update_of_ne hc]
      exact h.rooms c room

theorem GatewayState.Isolated.connect (h : s.Isolated lib) (client : ℕ) :
    GatewayState.Isolated lib { s with connected := Function.update s.connected client true } where
  delivered userId c hreceives := by
    obtain ⟨hconnected, hpresented⟩ := h.delivered userId c hreceives
    refine ⟨?_, hpresented⟩
    by_cases hc : c = client
    · subst hc
      exact Function.update_self ..
    · show Function.update s.connected client true c = true
      rw [Function.update_of_ne hc, hconnected]
  rooms := h.rooms

variable {client : ℕ} {token userId : String} {payload : JwtPayload}

/-- The room that is joined comes to the rooms of the socket; other sockets keep theirs. -/
theorem mem_rooms_join {g : BalanceGateway} {c : ℕ} {room : String} :
    room ∈ (g.join client userId).rooms c ↔
      (c = client ∧ room = balanceRoom userId) ∨ room ∈ g.rooms c := by
  by_cases hc : c = client
  · subst hc
    simp [BalanceGateway.join]
  · simp [BalanceGateway.join, hc]

/-- **A successful `authenticate` keeps the isolation exactly where it is rightful.** -/
theorem GatewayState.Isolated.authenticate_iff (h : s.Isolated lib) (hconnected : s.connected client = true)
    (hverify : lib.verify token s.auth.now = some payload) (hsub : payload.sub = some userId)
    {revoked : Bool} :
    GatewayState.Isolated lib { s with
        gateway := s.gateway.join client userId
        presented := Function.update s.presented client (some ⟨token, revoked⟩) } ↔
      (∀ u, s.gateway.authenticatedUsers client = some u → u = userId) ∧ revoked = false := by
  have huser : (s.gateway.join client userId).authenticatedUsers client = some userId :=
    Function.update_self ..
  constructor
  · intro h'
    constructor
    · intro u hu
      have hold : balanceRoom u ∈ (s.gateway.join client userId).rooms client :=
        mem_rooms_join.mpr (Or.inr ((h.rooms client _).mpr ⟨u, hu, rfl⟩))
      obtain ⟨u', hu', hroom⟩ := (h'.rooms client _).mp hold
      rw [huser] at hu'
      cases hu'
      exact balanceRoom_injective hroom
    · have hnew : balanceRoom userId ∈ (s.gateway.join client userId).rooms client :=
        mem_rooms_join.mpr (Or.inl ⟨rfl, rfl⟩)
      obtain ⟨-, p, payload', hp, -, -, hrevoked⟩ := h'.delivered userId client hnew
      simp only [Function.update_self, Option.some.injEq] at hp
      rw [← hp] at hrevoked
      exact hrevoked
  · rintro ⟨hsame, hrevoked⟩
    constructor
    · intro u c hreceives
      by_cases hc : c = client
      · subst hc
        -- the room is the new one, or that of the recorded user, who is the same
        have hu : u = userId := by
          rcases mem_rooms_join.mp hreceives with ⟨-, hroom⟩ | hroom
          · exact balanceRoom_injective hroom
          · obtain ⟨u', hu', hroom'⟩ := (h.rooms c _).mp hroom
            rw [balanceRoom_injective hroom', hsame u' hu']
        refine ⟨hconnected, ⟨token, revoked⟩, payload, Function.update_self .., ?_, ?_, hrevoked⟩
        · exact signature_of_verify hverify
        · rw [hu, hsub]
      · have hreceives' : s.gateway.Receives u c := by
          rcases mem_rooms_join.mp hreceives with ⟨hc', -⟩ | hroom
          · exact absurd hc' hc
          · exact hroom
        simp only [Function.update_of_ne hc]
        exact h.delivered u c hreceives'
    · intro c room
      show room ∈ (s.gateway.join client userId).rooms c ↔ _
      rw [mem_rooms_join, h.rooms]
      by_cases hc : c = client
      · subst hc
        rw [huser]
        constructor
        · rintro (⟨-, hroom⟩ | ⟨u, hu, hroom⟩)
          · exact ⟨userId, rfl, hroom⟩
          · exact ⟨userId, rfl, by rw [hroom, hsame u hu]⟩
        · rintro ⟨u, hu, hroom⟩
          cases hu
          exact Or.inl ⟨rfl, hroom⟩
      · have hother : (s.gateway.join client userId).authenticatedUsers c =
            s.gateway.authenticatedUsers c := Function.update_of_ne hc ..
        rw [hother]
        simp [hc]

/-- **One event keeps the isolation exactly where it is rightful.** -/
theorem GatewayState.Isolated.step_iff (h : s.Isolated lib) (hstep : s.next keyPrefix lib e = some t) :
    t.Isolated lib ↔ Rightful keyPrefix lib s e := by
  rcases GatewayState.next_cases hstep with ⟨auth, rfl, hrightful⟩ | ⟨client, rfl, hrightful⟩ |
    ⟨client, rfl, hrightful⟩ |
    ⟨client, token, payload, userId, rfl, htoken, hconnected, hverify, hsub, huser, rfl⟩
  · exact iff_of_true ⟨h.delivered, h.rooms⟩ hrightful
  · exact iff_of_true (h.connect client) hrightful
  · exact iff_of_true (h.disconnect client) hrightful
  · rw [h.authenticate_iff hconnected hverify hsub]
    constructor
    · intro hok payload' userId' _ hverify' hsub' _
      rw [hverify] at hverify'
      cases hverify'
      rw [hsub] at hsub'
      cases hsub'
      exact hok
    · intro hrightful
      exact hrightful payload userId htoken hverify hsub huser

end Steps

theorem isolated_start (lib : TokenLibrary) : GatewayState.start.Isolated lib where
  delivered _ _ hreceives := by cases hreceives
  rooms client room := by simp [GatewayState.start]

/-! ## Two tokens on one socket -/

/-- The state that a run of HTTP requests reaches, with no socket. -/
theorem reachable_http {keyPrefix : String} {lib : TokenLibrary} {a : AuthState}
    (h : (authRuns keyPrefix lib).Reachable a) :
    (gatewayRuns keyPrefix lib).Reachable { GatewayState.start with auth := a } := by
  induction h with
  | init h =>
      rw [h]
      exact .init rfl
  | @step a a' e _ hstep ih =>
      have hnext : a.next keyPrefix lib e = some a' := hstep
      refine .step ih (l := .http e) ?_
      show GatewayState.next keyPrefix lib _ _ = _
      simp only [GatewayState.next, hnext]

section Sockets

variable {keyPrefix : String} {lib : TokenLibrary} {s : GatewayState}
  {token userId : String} {payload : JwtPayload} {C : GatewayState → GatewayEvent → Prop}

theorem step_connect (client : ℕ) (hnew : s.connected client = false) (hC : C s (.connect client)) :
    ((gatewayRuns keyPrefix lib).restrict C).step s (.connect client)
      { s with connected := Function.update s.connected client true } := by
  refine ⟨hC, ?_⟩
  show s.next keyPrefix lib _ = _
  simp [GatewayState.next, hnew]

theorem step_authenticate (keyPrefix : String) (client : ℕ) (hconnected : s.connected client = true) (htoken : token ≠ "")
    (hverify : lib.verify token s.auth.now = some payload) (hsub : payload.sub = some userId)
    (huser : userId ≠ "") (hC : C s (.authenticate client (some token))) :
    ((gatewayRuns keyPrefix lib).restrict C).step s (.authenticate client (some token))
      { s with
        gateway := s.gateway.join client userId
        presented := Function.update s.presented client
          (some ⟨token, s.auth.isRevoked keyPrefix lib token⟩) } := by
  refine ⟨hC, ?_⟩
  show s.next keyPrefix lib _ = _
  simp [GatewayState.next, hconnected, BalanceGateway.handleAuthenticate, htoken, hverify, hsub,
    huser]

/-- A token whose logout has returned still opens the stream. -/
theorem revoked_token_joins {exp : ℤ} (keyPrefix : String) (h : Issued lib token payload exp)
    (hsub : payload.sub = some userId) (huser : userId ≠ "") (user : Uuid) :
    ∃ s, (gatewayRuns keyPrefix lib).Reachable s ∧ s.gateway.Receives userId 0 ∧
      ∃ p, s.presented 0 = some p ∧ p.token = token ∧ p.revoked = true := by
  have hpos := h.later
  have hlogout : (authRuns keyPrefix lib).Reachable (loggedOutState keyPrefix lib token exp) :=
    (reachable_loggedOut keyPrefix h user).of_restrict
  have hrecorded : Recorded keyPrefix lib token exp (revokedAtStart keyPrefix lib token exp) := by
    refine ⟨0 + 1000 * exp.toNat, ?_, by omega⟩
    rw [revokedAtStart, RevokedTokens.setEx, Function.update_self]
  have hrevoked : (loggedOutState keyPrefix lib token exp).isRevoked keyPrefix lib token = true :=
    isTokenRevoked_of_recorded hrecorded (by
      show ((0 : ℕ) : ℤ) ≤ 1000 * exp
      omega)
  have hverify : lib.verify token (loggedOutState keyPrefix lib token exp).now = some payload := by
    refine h.verify ?_
    show unixSeconds 0 < exp
    exact h.later
  have hconnect := (reachable_http hlogout).step
    (step_connect (C := fun _ _ => True) 0 rfl trivial).2
  have hjoin := hconnect.step (step_authenticate (C := fun _ _ => True) keyPrefix 0 (by simp) h.nonempty hverify
    hsub huser trivial).2
  exact ⟨_, hjoin, mem_rooms_join.mpr (Or.inl ⟨rfl, rfl⟩),
    ⟨token, (loggedOutState keyPrefix lib token exp).isRevoked keyPrefix lib token⟩, by simp, rfl,
    hrevoked⟩

end Sockets

namespace Sample

def bobJwt : String :=
  "eyJhbGciOiJIUzI1NiIsInR5cCI6IkpXVCJ9." ++ ("eyJzdWIiOiI" ++ ("y" ++
    ("MjIyMjIyMi0yMjIyLTQyMjItODIyMi0yMjIyMjIyMjIyMjIi" ++
      ("LCJpYXQiOjE3MDAwMDAwMDAsImV4cCI6MTcwMDAwMzYwMH0." ++
        "ws5ggP4hr7i-immkZ3nxCOHHiuy44QTTjN-ieh-lksM"))))

def bobPayload : JwtPayload := ⟨some "22222222-2222-4222-8222-222222222222", some 1700003600⟩

/-- The library on two tokens that have been issued. -/
def twoTokens : TokenLibrary where
  sha256 := tokenLibrary.sha256
  verifySignature token :=
    if token = bobJwt then some bobPayload else tokenLibrary.verifySignature token
  decode token := if token = bobJwt then some bobPayload else tokenLibrary.decode token
  decode_of_verify h := h

theorem jwt_ne_bobJwt : jwt ≠ bobJwt := by
  unfold jwt bobJwt
  rw [Ne, String.append_right_inj, String.append_right_inj]
  intro h
  have hhead := congrArg (fun s => s.toList.head?) h
  simp at hhead

theorem verify_jwt : twoTokens.verify jwt 0 = some jwtPayload := by
  simp [TokenLibrary.verify, twoTokens, jwt_ne_bobJwt, verifySignature_jwt, jwtPayload, unixSeconds]

theorem verify_bobJwt : twoTokens.verify bobJwt 0 = some bobPayload := by
  simp [TokenLibrary.verify, twoTokens, bobPayload, unixSeconds]

theorem bobJwt_ne : bobJwt ≠ "" := by
  intro hnil
  unfold bobJwt at hnil
  rw [String.append_eq_empty_iff] at hnil
  exact absurd hnil.1 (by decide)

/-- One socket, authenticated by Alice's token. -/
def aliceOnSocket : GatewayState where
  auth := AuthState.start
  connected := Function.update (fun _ => false) 0 true
  gateway := GatewayState.start.gateway.join 0 "11111111-1111-4111-8111-111111111111"
  presented := Function.update (fun _ => none) 0
    (some ⟨jwt, AuthState.start.isRevoked "olx" twoTokens jwt⟩)

theorem reachable_aliceOnSocket :
    ((gatewayRuns "olx" twoTokens).restrict (Rightful "olx" twoTokens)).Reachable aliceOnSocket := by
  have hconnect := (System.Reachable.init (M := (gatewayRuns "olx" twoTokens).restrict
      (Rightful "olx" twoTokens)) (s := GatewayState.start) rfl).step
      (step_connect 0 rfl trivial)
  refine hconnect.step (l := .authenticate 0 (some jwt)) (step_authenticate "olx" 0 (by simp) jwt_ne
    verify_jwt rfl (by simp) ?_)
  intro payload userId _ _ _ _
  exact ⟨fun u hu => (by cases hu), rfl⟩

end Sample

/-! ## The two sides -/

/-- **The balance stream is private** in every run in which each `authenticate` is rightful; and
from a state with this property, an event leads to one with it exactly where it is rightful. -/
theorem balance_stream_isolated (keyPrefix : String) (lib : TokenLibrary) :
    (∀ s, ((gatewayRuns keyPrefix lib).restrict (Rightful keyPrefix lib)).Reachable s →
      s.Isolated lib) ∧
    ∀ s e t, (gatewayRuns keyPrefix lib).Reachable s → s.Isolated lib →
      (gatewayRuns keyPrefix lib).step s e t → (t.Isolated lib ↔ Rightful keyPrefix lib s e) := by
  constructor
  · intro s hs
    refine hs.invariant (GatewayState.Isolated lib) ?_ ?_
    · rintro s rfl
      exact isolated_start lib
    · intro s e t h hstep
      exact (h.step_iff hstep.2).mpr hstep.1
  · intro s e t _ h hstep
    exact h.step_iff hstep

theorem balance_stream_isolated_alice :
    Sample.aliceOnSocket.gateway.Receives "11111111-1111-4111-8111-111111111111" 0 ∧
      Sample.aliceOnSocket.Isolated Sample.twoTokens :=
  ⟨mem_rooms_join.mpr (Or.inl ⟨rfl, rfl⟩),
    (balance_stream_isolated "olx" Sample.twoTokens).1 _ Sample.reachable_aliceOnSocket⟩

/-- A socket that authenticates as Alice and then as Bob receives the balances of both. -/
theorem second_user_receives_both :
    ∃ s, (gatewayRuns "olx" Sample.twoTokens).Reachable s ∧
      s.gateway.Receives "11111111-1111-4111-8111-111111111111" 0 ∧
      s.gateway.authenticatedUsers 0 = some "22222222-2222-4222-8222-222222222222" ∧
      ∃ p, s.presented 0 = some p ∧ p.token = Sample.bobJwt ∧
        Sample.twoTokens.verifySignature p.token = some Sample.bobPayload ∧
        ¬ s.Isolated Sample.twoTokens := by
  have hconnected : Sample.aliceOnSocket.connected 0 = true := by simp [Sample.aliceOnSocket]
  have hsub : Sample.bobPayload.sub = some "22222222-2222-4222-8222-222222222222" := rfl
  have huser : "22222222-2222-4222-8222-222222222222" ≠ "" := by simp
  have hverify : Sample.twoTokens.verify Sample.bobJwt Sample.aliceOnSocket.auth.now =
      some Sample.bobPayload := Sample.verify_bobJwt
  have hstep := step_authenticate (C := fun _ _ => True) "olx" 0 hconnected Sample.bobJwt_ne hverify hsub
    huser trivial
  have hbob := Sample.reachable_aliceOnSocket.of_restrict.step hstep.2
  have hreceives : (Sample.aliceOnSocket.gateway.join 0
      "22222222-2222-4222-8222-222222222222").Receives "11111111-1111-4111-8111-111111111111" 0 :=
    mem_rooms_join.mpr (Or.inr (mem_rooms_join.mpr (Or.inl ⟨rfl, rfl⟩)))
  refine ⟨_, hbob, hreceives, by simp [BalanceGateway.join],
    ⟨Sample.bobJwt, AuthState.start.isRevoked "olx" Sample.twoTokens Sample.bobJwt⟩,
    by simp [Sample.aliceOnSocket], rfl, signature_of_verify Sample.verify_bobJwt, ?_⟩
  intro hisolated
  obtain ⟨u, hu, hroom⟩ := (hisolated.rooms 0 _).mp hreceives
  have huser : u = "22222222-2222-4222-8222-222222222222" := by
    simpa [BalanceGateway.join] using hu.symm
  have hsame := balanceRoom_injective hroom
  rw [huser] at hsame
  simp at hsame

end OutcomeExchange
