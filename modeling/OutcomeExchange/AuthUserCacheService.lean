import OutcomeExchange.Cache.ReadThrough
import OutcomeExchange.Runs
import OutcomeExchange.UsersService

set_option autoImplicit false

/-! # The cache of authenticated users

`AuthUserCacheService`, which keeps the user of each request in Redis for a few seconds, and
`AdminOnlyGuard`, which believes it. The requests are those of a read-through cache whose source
is the table `users`; other programs may change that table at any time. `changes_get_through`
says how long such a change can go unnoticed. -/

namespace OutcomeExchange

open Txn Cache

/-! ## Library functions -/

structure CachedAuthUser where
  id : Uuid
  email : String
  username : String
  role : UserRole
  createdAt : String
  updatedAt : String
  deriving DecidableEq

/-- `JSON` and the dates of JavaScript. -/
structure JsonLibrary where
  stringify : CachedAuthUser → String
  /-- `none` where `JSON.parse` throws -/
  parse : String → Option CachedAuthUser
  parse_stringify : ∀ {cached parsed}, parse (stringify cached) = some parsed → parsed = cached
  toISOString : Timestamp → String
  /-- `new Date(text)` -/
  date : String → Timestamp
  date_toISOString : ∀ t, date (toISOString t) = t

/-! ## AuthUserCacheService -/

section

variable (json : JsonLibrary) (keyPrefix : String) (ttlSeconds : ℕ)

def getAuthUserCacheKey (userId : String) : String := keyPrefix ++ (":auth:user:" ++ userId)

def cacheKey (userId : Uuid) : String := getAuthUserCacheKey keyPrefix userId.text

def toUser (cached : CachedAuthUser) : AuthUserProfile :=
  ⟨cached.id, cached.email, cached.username, cached.role, json.date cached.createdAt,
    json.date cached.updatedAt⟩

/-- What `readFromCache` makes of the answer to `GET`. -/
def readFromCache (answer : Except Unit (Option String)) : Option AuthUserProfile :=
  match answer with
  | .error _ => none
  | .ok none => none
  | .ok (some rawValue) =>
      if rawValue = "" then none
      else
        match json.parse rawValue with
        | none => none
        | some parsed =>
            if parsed.id.text = "" ∨ parsed.email = "" ∨ parsed.username = "" ∨
                parsed.createdAt = "" ∨ parsed.updatedAt = "" then none
            else some (toUser json parsed)

/-- The value that `writeToCache` sets. -/
def cacheValue (user : AuthUserProfile) : String :=
  json.stringify ⟨user.id, user.email, user.username, user.role, json.toISOString user.createdAt,
    json.toISOString user.updatedAt⟩

/-- `UsersService.findById`: the password hash is not selected. -/
def findById (users : Table User) (userId : Uuid) : Option AuthUserProfile :=
  (users.find? userId).map User.sanitize

/-- The entries that Redis holds, with the last instant of each. -/
abbrev CachedUsers := String → Option (String × ℕ)

/-- The answer to `GET key`. -/
def CachedUsers.get (entries : CachedUsers) (available : Bool) (now : ℕ) (key : String) :
    Except Unit (Option String) :=
  if available then
    match entries key with
    | none => .ok none
    | some (value, last) => .ok (if now ≤ last then some value else none)
  else .error ()

/-- `SET key value EX seconds` -/
def CachedUsers.set (entries : CachedUsers) (available : Bool) (now : ℕ) (key value : String)
    (seconds : ℕ) : CachedUsers :=
  if available then Function.update entries key (some (value, now + 1000 * seconds)) else entries

/-- `getUserById`, executed by itself at one instant. Redis may fail at either command, which is
only logged. -/
def getUserById (userId : Uuid) (readable writable : Bool) (now : ℕ) (users : Table User)
    (entries : CachedUsers) : Option AuthUserProfile × CachedUsers :=
  match readFromCache json (entries.get readable now (cacheKey keyPrefix userId)) with
  | some cached => (some cached, entries)
  | none =>
      match findById users userId with
      | none => (none, entries)
      | some user =>
          (some user,
            entries.set writable now (cacheKey keyPrefix userId) (cacheValue json user) ttlSeconds)

end

/-! ## AdminOnlyGuard -/

/-- `Forbidden` with its message. -/
structure Forbidden where
  message : String
  deriving DecidableEq

/-- `canActivate`, for the user that `validate` has found. -/
def canActivate (user : Option AuthUserProfile) : Except Forbidden Bool :=
  if user.map AuthUserProfile.role = some .ADMIN then .ok true
  else .error ⟨"Admin role required"⟩

/-! ## The cache as a read-through cache -/

section

variable {json : JsonLibrary} {keyPrefix : String} {ttlSeconds delay : ℕ}

theorem readFromCache_cacheValue {user found : AuthUserProfile}
    (h : readFromCache json (.ok (some (cacheValue json user))) = some found) : found = user := by
  unfold readFromCache at h
  dsimp only at h
  by_cases hempty : cacheValue json user = ""
  · rw [if_pos hempty] at h
    cases h
  rw [if_neg hempty] at h
  cases hparse : json.parse (cacheValue json user) with
  | none => rw [hparse] at h; cases h
  | some parsed =>
      rw [hparse] at h
      obtain rfl := json.parse_stringify hparse
      dsimp only at h
      split at h
      · cases h
      · cases h
        simp [toUser, json.date_toISOString]

theorem cacheKey_injective : Function.Injective (cacheKey keyPrefix) := by
  intro a b h
  unfold cacheKey getAuthUserCacheKey at h
  exact Uuid.ext_text (by simpa using h)

/-- The table `users` behind the cache. -/
def cachedUsers (json : JsonLibrary) (keyPrefix : String) :
    Source (Table User) Uuid String AuthUserProfile String where
  find := findById
  slot := cacheKey keyPrefix
  slot_injective := cacheKey_injective
  encode := cacheValue json
  decode rawValue := readFromCache json (.ok (some rawValue))
  decode_encode := readFromCache_cacheValue

/-- Requests that look their user up, while the table and the cache may change. -/
abbrev userRequests (json : JsonLibrary) (keyPrefix : String) (ttlSeconds delay : ℕ) :=
  (readThrough (cachedUsers json keyPrefix) (1000 * ttlSeconds)).restrict (Prompt delay)

/-- A cache that fails and one that holds nothing come to the same. -/
theorem cached_eq {c : State (Table User) Uuid String AuthUserProfile String} {works : Bool}
    {userId : Uuid} : (if works then c.cached (cachedUsers json keyPrefix) userId else none) =
      readFromCache json (CachedUsers.get c.entries works c.now (cacheKey keyPrefix userId)) := by
  cases works with
  | false => rfl
  | true =>
      have hslot : (cachedUsers json keyPrefix).slot userId = cacheKey keyPrefix userId := rfl
      unfold State.cached CachedUsers.get
      rw [if_pos rfl, if_pos rfl, hslot]
      cases c.entries (cacheKey keyPrefix userId) with
      | none => rfl
      | some entry =>
          by_cases hlast : c.now ≤ entry.2
          · simp only [if_pos hlast]
            rfl
          · simp only [if_neg hlast]
            rfl

/-- **The code is a run of the requests**: executed by itself, it answers and writes as the
steps of one request do. -/
theorem getUserById_run {c : State (Table User) Uuid String AuthUserProfile String} {i : ℕ}
    {userId : Uuid} {readable writable : Bool} (hi : c.requests i = none) : ∃ es c',
      (userRequests json keyPrefix ttlSeconds delay).Run c es c' ∧
      c'.answers = ⟨userId, c.now, (getUserById json keyPrefix ttlSeconds userId readable writable
        c.now c.source c.entries).1⟩ :: c.answers ∧
      c'.entries = (getUserById json keyPrefix ttlSeconds userId readable writable
        c.now c.source c.entries).2 ∧
      c'.now = c.now ∧ c'.source = c.source ∧ c'.requests = c.requests := by
  let S := cachedUsers json keyPrefix
  let r : Cache.Request Uuid AuthUserProfile := ⟨userId, c.now, .get⟩
  let c₁ := c.put i (some r)
  have hbegin : (userRequests json keyPrefix ttlSeconds delay).Run c [.begin i userId] c₁ := by
    refine System.Run.single ⟨trivial, ?_⟩
    show State.next S _ c (.begin i userId) = some c₁
    rw [State.next, hi]
  have hr₁ : c₁.requests i = some r := Function.update_self ..
  have hget : (userRequests json keyPrefix ttlSeconds delay).Run c₁ [.step i readable]
      (c₁.stepRequest S (1000 * ttlSeconds) i r readable) :=
    Cache.run_step hr₁ fun _ _ hstage => by cases hstage
  have hcached : (if readable then c₁.cached S userId else none) = readFromCache json
      (CachedUsers.get c₁.entries readable c₁.now (cacheKey keyPrefix userId)) := cached_eq
  have hfree : ∀ o, Function.update (Function.update c.requests i o) i none = c.requests := by
    intro o
    rw [Function.update_idem, ← hi, Function.update_eq_self]
  -- three ways through the code: a hit, no such user, a miss whose answer is written back
  unfold getUserById
  cases hfound : readFromCache json
      (CachedUsers.get c.entries readable c.now (cacheKey keyPrefix userId)) with
  | some cached =>
      have hhit : c₁.stepRequest S (1000 * ttlSeconds) i r readable =
          c₁.answer i r (some cached) := by
        unfold State.stepRequest
        dsimp only
        rw [hcached.trans hfound]
      rw [hhit] at hget
      exact ⟨_, _, hbegin.append hget, rfl, rfl, rfl, rfl, hfree _⟩
  | none =>
      let r₂ : Cache.Request Uuid AuthUserProfile := { r with stage := .query }
      have hmiss : c₁.stepRequest S (1000 * ttlSeconds) i r readable = c₁.put i (some r₂) := by
        unfold State.stepRequest
        dsimp only
        rw [hcached.trans hfound]
      rw [hmiss] at hget
      have hr₂ : (c₁.put i (some r₂)).requests i = some r₂ := Function.update_self ..
      have hquery : (userRequests json keyPrefix ttlSeconds delay).Run (c₁.put i (some r₂))
          [.step i true] ((c₁.put i (some r₂)).stepRequest S (1000 * ttlSeconds) i r₂ true) :=
        Cache.run_step hr₂ fun _ _ hstage => by cases hstage
      have hfree₂ : ∀ o o', Function.update (Function.update (Function.update c.requests i o) i o')
          i none = c.requests := by
        intro o o'
        rw [Function.update_idem]
        exact hfree o
      dsimp only
      cases hfind : findById c.source userId with
      | none =>
          have hnobody : (c₁.put i (some r₂)).stepRequest S (1000 * ttlSeconds) i r₂ true =
              (c₁.put i (some r₂)).answer i r₂ none := by
            unfold State.stepRequest
            dsimp only
            rw [show S.find (c₁.put i (some r₂)).source r₂.key = none from hfind]
          rw [hnobody] at hquery
          exact ⟨_, _, (hbegin.append hget).append hquery, rfl, rfl, rfl, rfl, hfree₂ _ _⟩
      | some user =>
          let r₃ : Cache.Request Uuid AuthUserProfile := { r with stage := .set user c.now }
          have hread : (c₁.put i (some r₂)).stepRequest S (1000 * ttlSeconds) i r₂ true =
              (c₁.put i (some r₂)).put i (some r₃) := by
            unfold State.stepRequest
            dsimp only
            rw [show S.find (c₁.put i (some r₂)).source r₂.key = some user from hfind]
            rfl
          rw [hread] at hquery
          have hr₃ : ((c₁.put i (some r₂)).put i (some r₃)).requests i = some r₃ :=
            Function.update_self ..
          have hset : (userRequests json keyPrefix ttlSeconds delay).Run
              ((c₁.put i (some r₂)).put i (some r₃)) [.step i writable]
              (((c₁.put i (some r₂)).put i (some r₃)).stepRequest S (1000 * ttlSeconds) i r₃
                writable) := by
            refine Cache.run_step hr₃ fun v readAt hstage => ?_
            cases hstage
            show c.now ≤ c.now + delay
            omega
          refine ⟨_, _, ((hbegin.append hget).append hquery).append hset, rfl, ?_, rfl, rfl, ?_⟩
          · cases writable with
            | false => rfl
            | true => rfl
          · show Function.update (Function.update (Function.update (Function.update c.requests i _)
              i _) i _) i none = c.requests
            rw [Function.update_idem, Function.update_idem]
            exact hfree _

/-- **Changes get through.** A user is answered as the table has held him, at most so long before
the request began; that there is no such user is never held. So whoever has ceased to be an
administrator is refused from then on, and whoever has stayed the same is answered as he is. -/
theorem changes_get_through {c : State (Table User) Uuid String AuthUserProfile String}
    (h : (userRequests json keyPrefix ttlSeconds delay).Reachable c)
    {a : Answer Uuid AuthUserProfile} (ha : a ∈ c.answers) :
    (a.value = none → ∃ r users, (r, users) ∈ c.past ∧ a.since ≤ r ∧
      users.find? a.key = none) ∧
    (∀ profile, a.value = some profile → ∃ r users user, (r, users) ∈ c.past ∧
      users.find? a.key = some user ∧ user.sanitize = profile ∧
      a.since ≤ r + (1000 * ttlSeconds + delay)) ∧
    ∀ t, t + (1000 * ttlSeconds + delay) ≤ a.since →
      ((∀ r users user, (r, users) ∈ c.past → t ≤ r → users.find? a.key = some user →
        user.role ≠ .ADMIN) → canActivate a.value = .error ⟨"Admin role required"⟩) ∧
      ∀ user, (∀ r users, (r, users) ∈ c.past → t ≤ r → users.find? a.key = some user) →
        a.value = some user.sanitize := by
  have hsound := (Cache.sound_of_reachable h).answers a ha
  refine ⟨fun hnone => ?_, fun profile hsome => ?_,
    fun t ht => ⟨fun hrole => ?_, fun user hsame => ?_⟩⟩
  · unfold Answer.Sound at hsound
    rw [hnone] at hsound
    obtain ⟨r, users, hmem, hfind, hr⟩ := hsound
    exact ⟨r, users, hmem, hr, Option.map_eq_none_iff.mp hfind⟩
  · unfold Answer.Sound at hsound
    rw [hsome] at hsound
    obtain ⟨r, users, hmem, hfind, hr⟩ := hsound
    obtain ⟨user, huser, hprofile⟩ := Option.map_eq_some_iff.mp hfind
    exact ⟨r, users, user, hmem, huser, hprofile, by omega⟩
  -- from `t` on the table says one thing, so an answer this late says it too
  · have hnot := Cache.answers_settle
      (P := fun value => value.map AuthUserProfile.role ≠ some .ADMIN) h
      (fun r users hmem hr => ?_) ha rfl ht
    · unfold canActivate
      rw [if_neg hnot]
    · show (findById users a.key).map AuthUserProfile.role ≠ some .ADMIN
      unfold findById
      cases hfind : users.find? a.key with
      | none => simp
      | some user => simpa [User.sanitize] using hrole r users user hmem hr hfind
  · refine Cache.answers_settle (P := fun value => value = some user.sanitize) h
      (fun r users hmem hr => ?_) ha rfl ht
    show findById users a.key = some user.sanitize
    unfold findById
    rw [hsame r users hmem hr]
    rfl

end

namespace Sample

/-- An administrator, and the same user after he has been one. -/
def admin : User :=
  ⟨alice, "alice@example.org", "secret hash", "alice", .ADMIN, 0, 0⟩

def demoted : User := { admin with role := .USER }

def usersOf (user : User) : Table User := ⟨[user], List.pairwise_singleton _ _⟩

def epochText : String := "1970-01-01T00:00:00.000Z"

/-- A date other than the epoch, as that many signs. -/
def dateText (t : ℤ) : String :=
  if t = 0 then epochText
  else String.ofList (List.replicate t.natAbs (if t < 0 then '-' else '+'))

def dateOf (text : String) : ℤ :=
  if text = epochText then 0
  else if text.toList.head? = some '-' then -text.length else text.length

theorem dateOf_dateText (t : ℤ) : dateOf (dateText t) = t := by
  by_cases ht : t = 0
  · subst ht
    rfl
  obtain ⟨n, hn⟩ := Nat.exists_eq_succ_of_ne_zero (Int.natAbs_ne_zero.mpr ht)
  have hsigns : ∀ c : Char, c ≠ '1' →
      String.ofList (List.replicate (n + 1) c) ≠ epochText := by
    intro c hc heq
    have hhead := congrArg (fun s : String => s.toList.head?) heq
    exact hc (by simpa [List.replicate_succ, epochText] using hhead)
  unfold dateText dateOf
  rw [if_neg ht, hn]
  by_cases hneg : t < 0
  · rw [if_pos hneg, if_neg (hsigns '-' (by decide))]
    have hhead : (String.ofList (List.replicate (n + 1) '-')).toList.head? = some '-' := by
      simp [List.replicate_succ]
    have hlength : (String.ofList (List.replicate (n + 1) '-')).length = n + 1 := by simp
    rw [if_pos hhead, hlength]
    omega
  · rw [if_neg hneg, if_neg (hsigns '+' (by decide))]
    have hhead : (String.ofList (List.replicate (n + 1) '+')).toList.head? ≠ some '-' := by
      simp [List.replicate_succ]
    have hlength : (String.ofList (List.replicate (n + 1) '+')).length = n + 1 := by simp
    rw [if_neg hhead, hlength]
    omega

def adminText : String :=
  "\x7b\"id\":\"00000000-0000-4000-8000-00000000000a\",\"email\":\"alice@example.org\"," ++
    "\"username\":\"alice\",\"role\":\"ADMIN\",\"createdAt\":\"1970-01-01T00:00:00.000Z\"," ++
    "\"updatedAt\":\"1970-01-01T00:00:00.000Z\"\x7d"

def cachedAdmin : CachedAuthUser :=
  ⟨alice, "alice@example.org", "alice", .ADMIN, epochText, epochText⟩

/-- JSON, as far as the administrator needs it. -/
def json : JsonLibrary where
  stringify cached := if cached = cachedAdmin then adminText else ""
  parse text := if text = adminText then some cachedAdmin else none
  parse_stringify {cached parsed} h := by
    by_cases hadmin : cached = cachedAdmin
    · rw [if_pos hadmin, if_pos rfl] at h
      cases h
      exact hadmin.symm
    · rw [if_neg hadmin, if_neg (by decide +kernel)] at h
      cases h
  toISOString := dateText
  date := dateOf
  date_toISOString := dateOf_dateText

/-- The administrator is read, demoted, and written down as late as it may be; a request begins
when his entry is about to expire. -/
def lateAdmin : List (Cache.Event (Table User) Uuid String) :=
  [.begin 0 alice, .step 0 true, .step 0 true, .change (usersOf demoted), .wait 5, .step 0 true,
    .wait 15000, .begin 1 alice, .step 1 true]

end Sample

/-- The bound is attained: a millisecond later the request would have been refused. -/
theorem changes_get_through_sample :
    ∃ (c : State (Table User) Uuid String AuthUserProfile String) (a : Answer Uuid AuthUserProfile),
      (userRequests Sample.json "olx" 15 5).Reachable c ∧ a ∈ c.answers ∧
      canActivate a.value = .ok true ∧
      (∀ r users, (r, users) ∈ c.past → 1 ≤ r → users.rows = [Sample.demoted]) ∧
      1 + (1000 * 15 + 5) = a.since + 1 ∧
      ∃ r users user, (r, users) ∈ c.past ∧ users.find? a.key = some user ∧ user.role = .ADMIN ∧
        a.since ≤ r + (1000 * 15 + 5) := by
  let start : State (Table User) Uuid String AuthUserProfile String :=
    ⟨0, Sample.usersOf Sample.admin, fun _ => none, fun _ => none,
      [(0, Sample.usersOf Sample.admin)], []⟩
  have hstart : (userRequests Sample.json "olx" 15 5).Reachable start :=
    .init ⟨fun _ => rfl, fun _ => rfl, rfl, rfl⟩
  have hplay : (start.play (cachedUsers Sample.json "olx") (1000 * 15) 5 Sample.lateAdmin).any
      (fun c => c.answers.any (fun a => a.key = Sample.alice && a.since = 15005 &&
          a.value = some Sample.admin.sanitize) &&
        c.past.all fun entry => entry.1 < 1 || entry.2.rows = [Sample.demoted]) = true := by
    decide +kernel
  obtain ⟨c, hc, hchecks⟩ := (Option.any_eq_true _ _).mp hplay
  have hreach := Cache.reachable_of_play hstart hc
  simp only [Bool.and_eq_true, List.any_eq_true, List.all_eq_true, decide_eq_true_eq,
    Bool.or_eq_true] at hchecks
  obtain ⟨⟨a, ha, ⟨hkey, hsince⟩, hvalue⟩, hpast⟩ := hchecks
  obtain ⟨-, hheld, -⟩ := changes_get_through hreach ha
  obtain ⟨r, users, user, hmem, hfind, hprofile, hr⟩ := hheld _ hvalue
  refine ⟨c, a, hreach, ha, ?_, fun r users hmem hr => ?_, by omega, r, users, user, hmem, hfind,
    ?_, hr⟩
  · rw [hvalue]
    rfl
  · rcases hpast (r, users) hmem with hzero | hrows
    · omega
    · exact hrows
  · exact congrArg AuthUserProfile.role hprofile

end OutcomeExchange
