import OutcomeExchange.Accounts

set_option autoImplicit false

/-! # Registering and logging in

The users of a state are the registrations that its run has committed (`mem_users_iff`), so
whoever has registered can log in, and nobody else. The second half is the outcome of a
registration that runs by itself in a state of such a run. -/

namespace OutcomeExchange

open Txn

section

variable {lib : CredentialLibrary} {c c' c₀ : Conf accountStore AccountError Unit AccountCall}
  {es : List (Event AccountCall)}

/-! ## The users of a run -/

/-- The registration has been committed on the way from `c₀` to `c`. -/
def HasRegistered (lib : CredentialLibrary)
    (c₀ : Conf accountStore AccountError Unit AccountCall) (es : List (Event AccountCall))
    (c : Conf accountStore AccountError Unit AccountCall) (dto : RegisterDto)
    (generated : Generated) : Prop :=
  ∃ c₁ c₂ es₁ es₂ i x, es = es₁ ++ .commit i :: es₂ ∧ (accounts lib).Run c₀ es₁ c₁ ∧
    c₁.session i = some x ∧ x.call = .register dto generated ∧
    (accounts lib).step c₁ (.commit i) c₂ ∧ (accounts lib).Run c₂ es₂ c

theorem AccountCall.Effect.mem_users {k : AccountCall} {s t : Accounts} (h : k.Effect lib s t)
    {user : User} : user ∈ t.users.rows ↔ user ∈ s.users.rows ∨
      ∃ dto generated, k = .register dto generated ∧ user = dto.row lib generated := by
  cases k with
  | register dto generated =>
      rw [Table.mem_insert (Registered.user h)]
      constructor
      · rintro (hold | hnew)
        · exact Or.inl hold
        · exact Or.inr ⟨dto, generated, rfl, hnew⟩
      · rintro (hold | ⟨_, _, heq, hnew⟩)
        · exact Or.inl hold
        · cases heq
          exact Or.inr hnew
  | act a =>
      rw [h.1]
      constructor
      · exact Or.inl
      · rintro (hold | ⟨_, _, heq, -⟩)
        · exact hold
        · cases heq

/-- A user stays as he is. -/
theorem users_kept (h : (accounts lib).Reachable c) (hrun : (accounts lib).Run c es c')
    {user : User} (huser : user ∈ c.committed.users.rows) : user ∈ c'.committed.users.rows := by
  refine hrun.preserves (fun c => user ∈ c.committed.users.rows) ?_ h huser
  intro c e c' h huser hst
  rcases accounts_step h hst with hsame | ⟨i, x, -, -, heff⟩
  · rw [hsame]
    exact huser
  · exact heff.mem_users.mpr (Or.inl huser)

/-- **The users** are the registrations that have been committed. -/
theorem mem_users_iff (hinit : (accounts lib).init c₀) (h : (accounts lib).Run c₀ es c)
    {user : User} : user ∈ c.committed.users.rows ↔
      ∃ dto generated, HasRegistered lib c₀ es c dto generated ∧ user = dto.row lib generated := by
  have hreach : (accounts lib).Reachable c₀ := .init hinit
  constructor
  · intro huser
    have hnone : user ∉ c₀.committed.users.rows := by
      rw [hinit.1]
      exact List.not_mem_nil
    obtain ⟨c₁, e, c₂, es₁, es₂, hbefore, hst, hafter, hnot, hin, rfl⟩ :=
      h.exists_step (fun c => user ∈ c.committed.users.rows) hnone huser
    rcases accounts_step (hbefore.reachable hreach) hst with hsame | ⟨i, x, rfl, hx, heff⟩
    · rw [hsame] at hin
      exact absurd hin hnot
    · rcases heff.mem_users.mp hin with hold | ⟨dto, generated, hcall, hnew⟩
      · exact absurd hold hnot
      · exact ⟨dto, generated, ⟨c₁, c₂, es₁, es₂, i, x, rfl, hbefore, hx, hcall, hst, hafter⟩,
          hnew⟩
  · rintro ⟨dto, generated, ⟨c₁, c₂, es₁, es₂, i, x, rfl, hbefore, hx, hcall, hst, hafter⟩, rfl⟩
    have hreach₁ := hbefore.reachable hreach
    have heff := accounts_commit hreach₁ (accompanied_of_reachable hreach₁) hx hst
    exact users_kept (.step hreach₁ hst) hafter
      (heff.mem_users.mpr (Or.inr ⟨dto, generated, hcall, rfl⟩))

/-! ## Logging in -/

theorem findByEmail_eq_some {users : Table User} {email : String} {user : User} :
    findByEmail lib users email = some user ↔
      user ∈ users.rows ∧ user.email = normalizeEmail lib email := by
  constructor
  · intro h
    unfold findByEmail at h
    exact ⟨List.mem_of_find?_eq_some h, by simpa using List.find?_some h⟩
  · rintro ⟨hmem, hemail⟩
    cases hfound : findByEmail lib users email with
    | none =>
        have hnone := List.find?_eq_none.mp hfound user hmem
        exact absurd (decide_eq_true hemail) hnone
    | some found =>
        unfold findByEmail at hfound
        have hmem' : found ∈ users.rows := List.mem_of_find?_eq_some hfound
        have hemail' : found.email = normalizeEmail lib email := by
          simpa using List.find?_some hfound
        rw [Table.eq_of_clash users hmem' hmem (Or.inr (Or.inl (hemail'.trans hemail.symm)))]

theorem login_eq_ok {dto : LoginDto} {now : ℕ} {users : Table User} {response : AuthResponse} :
    login lib dto now users = .ok response ↔
      ∃ user ∈ users.rows, user.email = normalizeEmail lib dto.email ∧
        lib.compare dto.password user.passwordHash = true ∧
        response = ⟨issueToken lib user now, user.sanitize⟩ := by
  have hfound : ∀ user, findByEmail lib users (normalizeEmail lib dto.email) = some user ↔
      user ∈ users.rows ∧ user.email = normalizeEmail lib dto.email := by
    intro user
    rw [findByEmail_eq_some, normalizeEmail_idem]
  unfold login
  constructor
  · intro h
    cases hcase : findByEmail lib users (normalizeEmail lib dto.email) with
    | none => rw [hcase] at h; cases h
    | some user =>
        rw [hcase] at h
        dsimp only at h
        by_cases hcompare : lib.compare dto.password user.passwordHash = true
        · rw [if_pos hcompare] at h
          cases h
          obtain ⟨hmem, hemail⟩ := (hfound user).mp hcase
          exact ⟨user, hmem, hemail, hcompare, rfl⟩
        · rw [if_neg hcompare] at h
          cases h
  · rintro ⟨user, hmem, hemail, hcompare, rfl⟩
    rw [(hfound user).mpr ⟨hmem, hemail⟩]
    dsimp only
    rw [if_pos hcompare]

/-- What a user is answered when he has registered, and whenever he logs in. -/
theorem response_row (dto : RegisterDto) (generated : Generated) (now : ℕ) :
    (⟨issueToken lib (dto.row lib generated) now, (dto.row lib generated).sanitize⟩ :
      AuthResponse) =
      ⟨lib.sign generated.userId (normalizeEmail lib dto.email) now,
        ⟨generated.userId, normalizeEmail lib dto.email, jsTrim dto.username, .USER,
          generated.now, generated.now⟩⟩ := by
  unfold issueToken User.sanitize
  rw [row_id, row_email, row_username]
  rfl

/-- **Whoever has registered can log in**, with any spelling of his email, and nobody else. -/
theorem login_iff_registered (hinit : (accounts lib).init c₀) (h : (accounts lib).Run c₀ es c)
    {dto : LoginDto} {now : ℕ} {response : AuthResponse} :
    login lib dto now c.committed.users = .ok response ↔
      ∃ registration generated, HasRegistered lib c₀ es c registration generated ∧
        normalizeEmail lib registration.email = normalizeEmail lib dto.email ∧
        lib.compare dto.password (lib.hash registration.password generated.salt) = true ∧
        response = ⟨lib.sign generated.userId (normalizeEmail lib dto.email) now,
          ⟨generated.userId, normalizeEmail lib dto.email, jsTrim registration.username, .USER,
            generated.now, generated.now⟩⟩ := by
  rw [login_eq_ok]
  constructor
  · rintro ⟨user, hmem, hemail, hcompare, rfl⟩
    obtain ⟨registration, generated, hcommitted, rfl⟩ := (mem_users_iff hinit h).mp hmem
    rw [row_email] at hemail
    refine ⟨registration, generated, hcommitted, hemail, hcompare, ?_⟩
    rw [response_row, hemail]
  · rintro ⟨registration, generated, hcommitted, hemail, hcompare, rfl⟩
    refine ⟨registration.row lib generated,
      (mem_users_iff hinit h).mpr ⟨registration, generated, hcommitted, rfl⟩, ?_, hcompare, ?_⟩
    · rw [row_email, hemail]
    · rw [response_row, hemail]

/-! ## The text of a duplicate -/

/-- The username makes the detail of its own violation look like one about an email. -/
def ReadsAsEmail (username : String) : Prop :=
  "(email)".toList <:+: '(' :: (username.toList ++ [')'])

theorem includes_username {username : String} :
    jsIncludes (duplicateDetail "username" username) "(email)" = true ↔ ReadsAsEmail username := by
  have hfront : "(email)".toList <:+: (duplicateDetail "username" username).toList ↔
      "(email)".toList <:+: '(' :: (username.toList ++ ") already exists.".toList) := by
    have hdetail : (duplicateDetail "username" username).toList =
        "Key ".toList ++ ('(' :: ("username)=".toList ++
          '(' :: (username.toList ++ ") already exists.".toList))) := by
      simp [duplicateDetail]
    rw [hdetail]
    show '(' :: "email)".toList <:+: _ ↔ '(' :: "email)".toList <:+: _
    rw [Text.infix_append_iff (by decide), List.infix_cons_iff, Text.infix_append_iff (by decide)]
    simp
  have hback : "(email)".toList <:+: '(' :: (username.toList ++ ") already exists.".toList) ↔
      "(email)".toList <:+: '(' :: (username.toList ++ [')']) := by
    rw [← List.reverse_infix, ← @List.reverse_infix _ _ ('(' :: (username.toList ++ [')']))]
    have hsplit : ('(' :: (username.toList ++ ") already exists.".toList)).reverse =
        ".stsixe ydaerla ".toList ++ ('(' :: (username.toList ++ [')'])).reverse := by
      simp
    rw [hsplit]
    exact Text.infix_append_iff (a := ')') (p := "liame(".toList) (by decide)
  unfold jsIncludes ReadsAsEmail
  rw [decide_eq_true_iff, hfront, hback]

/-- The details of the two constraints name their column. -/
theorem includes_column (column value : String) :
    jsIncludes (duplicateDetail column value) ("(" ++ (column ++ ")")) = true := by
  refine decide_eq_true
    ⟨"Key ".toList, ('=' :: '(' :: value.toList) ++ ") already exists.".toList, ?_⟩
  simp [duplicateDetail]

/-! ## The outcome of a registration -/

theorem exists_insertWallet {L : Ledger} {w : Wallet}
    (h : ∀ v ∈ L.wallets.rows, ¬ Row.clash v w) : ∃ L', L.insertWallet w = .ok L' := by
  obtain ⟨ws, hws⟩ := Table.exists_insert h
  have hkey : ∀ e ∈ L.entries.rows, ∃ v ∈ ws.rows, v.id = e.walletId := by
    intro e he
    obtain ⟨v, hv, hid⟩ := L.walletOf e he
    exact ⟨v, (Table.mem_insert hws).mpr (Or.inl hv), hid⟩
  unfold Ledger.insertWallet
  rw [hws]
  exact ⟨_, Ledger.check_ok hkey L.keyLength⟩

variable {dto : RegisterDto} {generated : Generated} {s : Accounts} {now : ℕ}

theorem register_of_error {e : DriverError}
    (h : insertUserRow (dto.row lib generated) s.users = .error e) :
    register lib dto generated now s = .error (registerError (.query e)) := by
  have happly : (userInsertion lib dto generated).apply s = .error (.query e) := by
    show ((insertUserRow (dto.row lib generated) s.users).mapError AccountError.query).map _ = _
    rw [h]
    rfl
  unfold register
  rw [registerWithWallet_eq, Prog.run, happly]
  rfl

theorem register_of_ok {t : Accounts} (h : Registered lib dto generated s t)
    (hcolumns : ColumnsFit (dto.row lib generated))
    (hnone : s.db.ledger.wallets.find? generated.userId = none) :
    register lib dto generated now s =
      .ok (⟨issueToken lib (dto.row lib generated) now, (dto.row lib generated).sanitize⟩, t) := by
  have hfirst : (userInsertion lib dto generated).apply s = .ok (t.users, s.db) :=
    Update.left_apply.mpr
      ⟨Except.mapError_eq_ok.mpr (insertUserRow_eq_ok.mpr ⟨hcolumns, h.user⟩), rfl⟩
  have hsecond : (walletInsertion generated).apply (t.users, s.db) = .ok t :=
    Update.right_apply.mpr ⟨writeLedger_apply.mpr ⟨_, h.wallet, h.rest⟩, rfl⟩
  have hrest : (afterUser generated (dto.row lib generated)).run (fun _ => false) (t.users, s.db) =
      .ok (dto.row lib generated, t) := by
    have hwallets : Accounts.db (t.users, s.db) = s.db := rfl
    unfold afterUser
    simp only [Prog.run, hwallets, hnone, hsecond]
    rfl
  have hrun : (registerWithWallet lib (dto.data lib generated) generated).run (fun _ => false) s =
      .ok (dto.row lib generated, t) := by
    rw [registerWithWallet_eq]
    show Except.bind ((userInsertion lib dto generated).apply s) _ = _
    rw [hfirst]
    exact hrest
  unfold register
  rw [hrun]

/-! Why the insertion of the user fails. -/

def EmailTaken (users : Table User) (user : User) : Prop := ∃ v ∈ users.rows, v.email = user.email

def UsernameTaken (users : Table User) (user : User) : Prop :=
  ∃ v ∈ users.rows, v.username = user.username

theorem insertUserRow_cases {users : Table User} {user : User} (hcolumns : ColumnsFit user)
    (hid : users.find? user.id = none) :
    (EmailTaken users user ∧ insertUserRow user users =
      .error ⟨UNIQUE_VIOLATION_CODE, some (duplicateDetail "email" user.email)⟩) ∨
    (¬ EmailTaken users user ∧ UsernameTaken users user ∧ insertUserRow user users =
      .error ⟨UNIQUE_VIOLATION_CODE, some (duplicateDetail "username" user.username)⟩) ∨
    (¬ EmailTaken users user ∧ ¬ UsernameTaken users user ∧
      ∃ users', insertUserRow user users = .ok users') := by
  have hnew : ∀ v ∈ users.rows, v.id ≠ user.id := Table.find?_eq_none_iff.mp hid
  have hidany : users.rows.any (fun v => v.id = user.id) = false := by
    simpa using hnew
  have hemail : users.rows.any (fun v => v.email = user.email) = true ↔ EmailTaken users user := by
    simp [EmailTaken]
  unfold insertUserRow
  rw [if_pos hcolumns]
  cases hinsert : users.insert? user with
  | some users' =>
      have hclash := (Table.insert?_eq_some hinsert).1
      refine Or.inr (Or.inr ⟨?_, ?_, users', rfl⟩)
      · rintro ⟨v, hv, hsame⟩
        exact hclash v hv (Or.inr (Or.inl hsame))
      · rintro ⟨v, hv, hsame⟩
        exact hclash v hv (Or.inr (Or.inr hsame))
  -- a row is rejected because of its identifier, its email or its username, checked in this order
  | none =>
      have hclash : ∃ v ∈ users.rows, Row.clash v user := by
        by_contra hno
        obtain ⟨users', hsome⟩ := Table.exists_insert fun v hv h => hno ⟨v, hv, h⟩
        rw [hinsert] at hsome
        cases hsome
      by_cases htaken : EmailTaken users user
      · refine Or.inl ⟨htaken, ?_⟩
        simp [duplicateError, hidany, hemail.mpr htaken]
      · refine Or.inr (Or.inl ⟨htaken, ?_, ?_⟩)
        · obtain ⟨v, hv, hsame⟩ := hclash
          rcases hsame with hsame | hsame | hsame
          · exact absurd hsame (hnew v hv)
          · exact absurd ⟨v, hv, hsame⟩ htaken
          · exact ⟨v, hv, hsame⟩
        · have hfree : users.rows.any (fun v => v.email = user.email) = false :=
            Bool.eq_false_iff.mpr fun h => htaken (hemail.mp h)
          simp [duplicateError, hidany, hfree]

/-- Texts that do not fit are no conflict. -/
theorem registerError_column (user : User) :
    registerError (.query (columnError user)) = .rethrown (.query (columnError user)) := by
  unfold columnError
  split
  · rfl
  · rfl

theorem registerError_email {value : String} :
    registerError (.query ⟨UNIQUE_VIOLATION_CODE, some (duplicateDetail "email" value)⟩) =
      .conflict "Email already registered" := by
  have hincludes : jsIncludes (duplicateDetail "email" value) "(email)" = true :=
    includes_column "email" value
  simp [registerError, isDuplicateConstraintError, hincludes]

theorem registerError_username (value : String) :
    (ReadsAsEmail value ∧ registerError
      (.query ⟨UNIQUE_VIOLATION_CODE, some (duplicateDetail "username" value)⟩) =
        .conflict "Email already registered") ∨
    (¬ ReadsAsEmail value ∧ registerError
      (.query ⟨UNIQUE_VIOLATION_CODE, some (duplicateDetail "username" value)⟩) =
        .conflict "Username is already taken") := by
  have hincludes : jsIncludes (duplicateDetail "username" value) "(username)" = true :=
    includes_column "username" value
  by_cases hreads : ReadsAsEmail value
  · refine Or.inl ⟨hreads, ?_⟩
    simp [registerError, isDuplicateConstraintError, includes_username.mpr hreads]
  · have hnot : jsIncludes (duplicateDetail "username" value) "(email)" = false :=
      Bool.eq_false_iff.mpr fun h => hreads (includes_username.mp h)
    refine Or.inr ⟨hreads, ?_⟩
    simp [registerError, isDuplicateConstraintError, hnot, hincludes]

/-- **What a registration answers**, alone in a state of a run and with new identifiers. A taken
username is reported as a taken email where the username itself reads so. -/
theorem register_outcome (h : (accounts lib).Reachable c)
    (huser : c.committed.users.find? generated.userId = none)
    (hwallet : ∀ w ∈ c.committed.db.ledger.wallets.rows, w.id ≠ generated.walletId) :
    ((∃ t, Registered lib dto generated c.committed t ∧
        register lib dto generated now c.committed =
          .ok (⟨lib.sign generated.userId (normalizeEmail lib dto.email) now,
            ⟨generated.userId, normalizeEmail lib dto.email, jsTrim dto.username, .USER,
              generated.now, generated.now⟩⟩, t)) ↔
      ColumnsFit (dto.row lib generated) ∧
        ¬ EmailTaken c.committed.users (dto.row lib generated) ∧
        ¬ UsernameTaken c.committed.users (dto.row lib generated)) ∧
    (register lib dto generated now c.committed = .error (.conflict "Email already registered") ↔
      ColumnsFit (dto.row lib generated) ∧
        (EmailTaken c.committed.users (dto.row lib generated) ∨
          UsernameTaken c.committed.users (dto.row lib generated) ∧
            ReadsAsEmail (jsTrim dto.username))) ∧
    (register lib dto generated now c.committed = .error (.conflict "Username is already taken") ↔
      ColumnsFit (dto.row lib generated) ∧
        ¬ EmailTaken c.committed.users (dto.row lib generated) ∧
        UsernameTaken c.committed.users (dto.row lib generated) ∧
        ¬ ReadsAsEmail (jsTrim dto.username)) ∧
    (∀ e, register lib dto generated now c.committed = .error (.rethrown e) ↔
      ¬ ColumnsFit (dto.row lib generated) ∧ e = .query (columnError (dto.row lib generated))) := by
  by_cases hcolumns : ColumnsFit (dto.row lib generated)
  case neg =>
    have hinsert : insertUserRow (dto.row lib generated) c.committed.users =
        .error (columnError (dto.row lib generated)) := by
      unfold insertUserRow
      rw [if_neg hcolumns]
    have hresult : register lib dto generated now c.committed =
        .error (.rethrown (.query (columnError (dto.row lib generated)))) := by
      rw [register_of_error hinsert, registerError_column]
    simp [hresult, hcolumns, eq_comm]
  have hid : c.committed.users.find? (dto.row lib generated).id = none := huser
  -- the three outcomes of the insertion of the row
  rcases insertUserRow_cases hcolumns hid with ⟨hemail, hinsert⟩ | ⟨hemail, hname, hinsert⟩ |
    ⟨hemail, hname, users, hinsert⟩
  · have hresult : register lib dto generated now c.committed = .error _ :=
      register_of_error hinsert
    rw [registerError_email] at hresult
    simp [hresult, hcolumns, hemail]
  · have hresult : register lib dto generated now c.committed = .error _ :=
      register_of_error hinsert
    rw [row_username] at hresult
    rcases registerError_username (jsTrim dto.username) with ⟨hreads, herror⟩ | ⟨hreads, herror⟩
    · rw [herror] at hresult
      simp [hresult, hcolumns, hemail, hname, hreads]
    · rw [herror] at hresult
      simp [hresult, hcolumns, hemail, hname, hreads]
  · have hnone : c.committed.db.ledger.wallets.find? generated.userId = none :=
      (accompanied_of_reachable h).owned.no_wallet huser
    obtain ⟨L, hL⟩ := exists_insertWallet (L := c.committed.db.ledger)
      (w := ⟨generated.walletId, generated.userId, 0, 0⟩) (by
        rintro v hv (hsame | hsame)
        · exact Table.find?_eq_none_iff.mp hnone v hv hsame
        · exact hwallet v hv hsame)
    have hregistered : Registered lib dto generated c.committed
        (users, { c.committed.db with ledger := L }) :=
      ⟨(insertUserRow_eq_ok.mp hinsert).2, hL, rfl⟩
    have hresult : register lib dto generated now c.committed = .ok _ :=
      register_of_ok hregistered hcolumns hnone
    rw [response_row] at hresult
    simp only [hresult, hcolumns, hemail, hname, reduceCtorEq]
    refine ⟨⟨fun _ => ⟨trivial, not_false, not_false⟩, fun _ => ⟨_, hregistered, rfl⟩⟩, ?_⟩
    simp

end

/-- Alice logs in with another spelling of her email. -/
theorem login_iff_registered_sample : ∃ es c response, (accounts Sample.library).init
      (Conf.idle Accounts.empty) ∧
    (accounts Sample.library).Run (Conf.idle Accounts.empty) es c ∧
    login Sample.library ⟨"ALICE@example.org", "correct horse"⟩ 5 c.committed.users =
      .ok response ∧
    ∃ registration generated,
      HasRegistered Sample.library (Conf.idle Accounts.empty) es c registration generated ∧
      response.user.username = jsTrim registration.username := by
  obtain ⟨c, hrun, hp⟩ := Sample.play_registrations (fun s =>
    match login Sample.library ⟨"ALICE@example.org", "correct horse"⟩ 5 s.users with
    | .ok response => response.user.username = "alice"
    | .error _ => false) (by decide +kernel)
  have hinit : (accounts Sample.library).init (Conf.idle Accounts.empty) := ⟨rfl, fun _ => rfl⟩
  cases hlogin : login Sample.library ⟨"ALICE@example.org", "correct horse"⟩ 5
    c.committed.users with
  | error e => rw [hlogin] at hp; cases hp
  | ok response =>
      obtain ⟨registration, generated, hregistered, -, -, rfl⟩ :=
        (login_iff_registered hinit hrun).mp hlogin
      exact ⟨_, c, _, hinit, hrun, hlogin, registration, generated, hregistered, rfl⟩

/-- Somebody is called email, so a newcomer of that name is told that his email is taken. -/
theorem register_outcome_sample : ∃ c, (accounts Sample.library).Reachable c ∧
    register Sample.library ⟨"carol@example.org", "carols password", "email"⟩
      ⟨Sample.impostor, Sample.impostor, "salt", 5⟩ 6 c.committed =
        .error (.conflict "Email already registered") := by
  obtain ⟨c, hrun, hp⟩ := Sample.play_registrations (fun s =>
    (s.users.find? Sample.impostor).isNone &&
      s.db.ledger.wallets.rows.all (fun w => w.id ≠ Sample.impostor) &&
      s.users.rows.any (fun user => user.username = "email")) (by decide +kernel)
  have hreach : (accounts Sample.library).Reachable c := hrun.reachable (.init ⟨rfl, fun _ => rfl⟩)
  simp only [Bool.and_eq_true, Option.isNone_iff_eq_none, List.all_eq_true, List.any_eq_true,
    decide_eq_true_eq] at hp
  obtain ⟨⟨huser, hwallet⟩, hname⟩ := hp
  refine ⟨c, hreach, ((register_outcome hreach huser hwallet).2.1).mpr ⟨?_, Or.inr ⟨hname, ?_⟩⟩⟩
  · decide +kernel
  · unfold ReadsAsEmail
    decide +kernel

end OutcomeExchange
