import Mathlib.Data.List.DropRight
import Mathlib.Data.List.Infix
import OutcomeExchange.AuthService
import OutcomeExchange.Txn.Product
import OutcomeExchange.WalletService

set_option autoImplicit false

/-! # Users

The table `users`, `UsersService`, `UsersRegistrationService`, and of `AuthService` what is not
about tokens: registering and logging in. A registration inserts the user and his wallet in one
transaction, over the product of `users` with the database of the exchange.

`toLowerCase`, `bcrypt` and the signing of a token are parameters. An error of PostgreSQL is its
code and its detail, which `AuthService` takes the violated constraint from. -/

namespace OutcomeExchange

open Txn

/-! ## Library functions -/

/-- `s.trim()` -/
def jsTrim (s : String) : String :=
  String.ofList ((s.toList.dropWhile isJsSpace).rdropWhile isJsSpace)

/-- `s.includes(t)` -/
def jsIncludes (s t : String) : Bool := decide (t.toList <:+: s.toList)

/-- `toLowerCase`, the hash and the comparison of `bcrypt`, and `jwtService.sign`. -/
structure CredentialLibrary where
  toLowerCase : String → String
  toLowerCase_idem : ∀ s, toLowerCase (toLowerCase s) = toLowerCase s
  /-- a letter does not become white space, nor white space a letter -/
  trim_toLowerCase : ∀ s, jsTrim (toLowerCase s) = toLowerCase (jsTrim s)
  /-- `bcrypt.hash(password, 10)` with a random salt -/
  hash : String → String → String
  /-- `bcrypt.compare(password, passwordHash)` -/
  compare : String → String → Bool
  compare_hash : ∀ password salt, compare password (hash password salt) = true
  /-- the token of a user with this email, signed at an instant -/
  sign : Uuid → String → ℕ → String

/-! ## The entity -/

inductive UserRole
  | USER | ADMIN
  deriving DecidableEq, Repr

structure User where
  id : Uuid
  email : String
  passwordHash : String
  username : String
  role : UserRole
  createdAt : Timestamp
  updatedAt : Timestamp
  deriving DecidableEq

/-- `UQ_users_email` and `UQ_users_username`. -/
instance : Row User Uuid where
  key u := u.id
  clash a b := a.id = b.id ∨ a.email = b.email ∨ a.username = b.username
  clash_symm h := h.imp Eq.symm fun h => h.imp Eq.symm Eq.symm
  clash_of_key h := Or.inl h

@[simp] theorem key_user (u : User) : Row.key u = u.id := rfl

def userStore : Store (Table User) Uuid where
  Slice _ := Option User
  slice id users := users.find? id
  present _ v := v.isSome

/-- What a `QueryFailedError` carries of the driver's error. -/
structure DriverError where
  code : String
  detail : Option String
  deriving DecidableEq

def UNIQUE_VIOLATION_CODE : String := "23505"

/-- The detail of a unique violation, as PostgreSQL words it. -/
def duplicateDetail (column value : String) : String :=
  "Key (" ++ (column ++ (")=(" ++ (value ++ ") already exists.")))

/-- The first violated constraint, in the order in which they were created. -/
def duplicateError (users : Table User) (user : User) : DriverError :=
  ⟨UNIQUE_VIOLATION_CODE, some
    (if users.rows.any (fun u => u.id = user.id) then duplicateDetail "id" user.id.text
    else if users.rows.any (fun u => u.email = user.email) then duplicateDetail "email" user.email
    else duplicateDetail "username" user.username)⟩

/-- PostgreSQL takes the texts, and the columns have room for them. They are trimmed, so that no
spaces at their end could be cut off. -/
structure ColumnsFit (user : User) : Prop where
  texts : (isPgText user.email && isPgText user.passwordHash && isPgText user.username) = true
  email : user.email.length ≤ 255
  passwordHash : user.passwordHash.length ≤ 255
  username : user.username.length ≤ 100

instance (user : User) : Decidable (ColumnsFit user) :=
  decidable_of_iff
    ((isPgText user.email && isPgText user.passwordHash && isPgText user.username) = true ∧
      user.email.length ≤ 255 ∧ user.passwordHash.length ≤ 255 ∧ user.username.length ≤ 100)
    ⟨fun h => ⟨h.1, h.2.1, h.2.2.1, h.2.2.2⟩, fun h => ⟨h.texts, h.email, h.passwordHash, h.username⟩⟩

/-- The error for texts that do not fit; those with U+0000 are refused before the lengths are
looked at. -/
def columnError (user : User) : DriverError :=
  if isPgText user.email && isPgText user.passwordHash && isPgText user.username then
    ⟨"22001", none⟩
  else ⟨"22021", none⟩

/-- `INSERT INTO users` -/
def insertUserRow (user : User) (users : Table User) : Except DriverError (Table User) :=
  if ColumnsFit user then
    match users.insert? user with
    | some users' => .ok users'
    | none => .error (duplicateError users user)
  else .error (columnError user)

theorem insertUserRow_eq_ok {user : User} {users users' : Table User} :
    insertUserRow user users = .ok users' ↔ ColumnsFit user ∧ users.insert? user = some users' := by
  unfold insertUserRow
  by_cases hcolumns : ColumnsFit user
  · rw [if_pos hcolumns]
    cases users.insert? user with
    | none => simp
    | some u => simp [hcolumns]
  · simp [hcolumns]

/-- Why a transaction fails: the insertion of a user, or a statement of the exchange, whose
constraints are on other columns. -/
inductive AccountError
  | query (driverError : DriverError)
  | exchange (e : Err)
  deriving DecidableEq

def insertUser (user : User) : Update userStore AccountError where
  rows := [user.id]
  apply users := (insertUserRow user users).mapError .query
  frame {s t} h r hr := by
    have hinsert := insertUserRow_eq_ok.mp (Except.mapError_eq_ok.mp h)
    show t.find? r = s.find? r
    rw [Table.find?_insert hinsert.2, if_neg fun he => hr (List.mem_singleton.mpr he.symm)]
  determined {s s' t t'} h h' r hr _ := by
    have hinsert := insertUserRow_eq_ok.mp (Except.mapError_eq_ok.mp h)
    have hinsert' := insertUserRow_eq_ok.mp (Except.mapError_eq_ok.mp h')
    cases List.mem_singleton.mp hr
    show t.find? user.id = t'.find? user.id
    rw [Table.find?_insert hinsert.2, Table.find?_insert hinsert'.2, key_user, if_pos rfl,
      if_pos rfl]

/-! ## The database with its users -/

abbrev Accounts := Table User × Db

abbrev Accounts.users (s : Accounts) : Table User := s.1

abbrev Accounts.db (s : Accounts) : Db := s.2

def Accounts.empty : Accounts := (Table.empty, Db.empty)

abbrev accountStore : Store Accounts (Uuid ⊕ RowId) := userStore.prod dbStore

/-- The body of a transaction that may also write `users`. -/
abbrev AccountTx (α : Type) : Type := Prog accountStore AccountError α

/-! ## The services -/

section

variable (lib : CredentialLibrary)

/-- `normalizeEmail`, of `UsersService` and of `AuthService`. -/
def normalizeEmail (email : String) : String := lib.toLowerCase (jsTrim email)

/-- The hook `@BeforeInsert` of the entity. -/
def User.normalizeEmail (user : User) : User :=
  { user with email := lib.toLowerCase (jsTrim user.email) }

/-- What the database generates for a registration, and the salt of the hash. -/
structure Generated where
  userId : Uuid
  walletId : Uuid
  salt : String
  now : Timestamp

/-- The argument of `UsersService.create`. -/
structure NewUser where
  email : String
  passwordHash : String
  username : String

/-- The row that `UsersService.create` saves, with the column defaults. -/
def NewUser.row (data : NewUser) (generated : Generated) : User :=
  User.normalizeEmail lib
    { id := generated.userId
      email := OutcomeExchange.normalizeEmail lib data.email
      passwordHash := data.passwordHash
      username := data.username
      role := .USER
      createdAt := generated.now
      updatedAt := generated.now }

/-- `UsersService.create` -/
def createUser (data : NewUser) (generated : Generated) : AccountTx User := do
  Prog.save ((insertUser (data.row lib generated)).left dbStore)
  return data.row lib generated

/-- `UsersRegistrationService.registerWithWallet` -/
def registerWithWallet (data : NewUser) (generated : Generated) : AccountTx User := do
  let created ← createUser lib data generated
  let _ ← (createWalletForUser created.id generated.walletId).right .exchange userStore
  return created

def findByEmail (users : Table User) (email : String) : Option User :=
  users.rows.find? fun user => user.email = normalizeEmail lib email

/-! ## AuthService -/

/-- The request bodies. What the validation pipe checks of them is not assumed. -/
structure RegisterDto where
  email : String
  password : String
  username : String

structure LoginDto where
  email : String
  password : String

structure AuthUserProfile where
  id : Uuid
  email : String
  username : String
  role : UserRole
  createdAt : Timestamp
  updatedAt : Timestamp
  deriving DecidableEq

def User.sanitize (user : User) : AuthUserProfile :=
  ⟨user.id, user.email, user.username, user.role, user.createdAt, user.updatedAt⟩

structure AuthResponse where
  accessToken : String
  user : AuthUserProfile
  deriving DecidableEq

def issueToken (user : User) (now : ℕ) : String := lib.sign user.id user.email now

/-- The data that `register` hands over. -/
def RegisterDto.data (dto : RegisterDto) (generated : Generated) : NewUser :=
  ⟨normalizeEmail lib dto.email, lib.hash dto.password generated.salt, jsTrim dto.username⟩

/-- The row of a user who registers. -/
def RegisterDto.row (dto : RegisterDto) (generated : Generated) : User :=
  (dto.data lib generated).row lib generated

/-- The errors of `register`: an exception of its own, or the one it has caught. -/
inductive RegisterError
  | conflict (message : String)
  | rethrown (e : AccountError)
  deriving DecidableEq

def isDuplicateConstraintError (error : AccountError) (key : String) : Bool :=
  match error with
  | .exchange _ => false
  | .query driverError =>
      driverError.code = UNIQUE_VIOLATION_CODE &&
        driverError.detail.any (fun detail => jsIncludes detail key)

def registerError (error : AccountError) : RegisterError :=
  if isDuplicateConstraintError error "(email)" then .conflict "Email already registered"
  else if isDuplicateConstraintError error "(username)" then .conflict "Username is already taken"
  else .rethrown error

/-- `register`, executed by itself on a database; the token is issued at `now`. -/
def register (dto : RegisterDto) (generated : Generated) (now : ℕ) (s : Accounts) :
    Except RegisterError (AuthResponse × Accounts) :=
  match (registerWithWallet lib (dto.data lib generated) generated).run (fun _ => false) s with
  | .error e => .error (registerError e)
  | .ok (user, t) => .ok (⟨issueToken lib user now, user.sanitize⟩, t)

def login (dto : LoginDto) (now : ℕ) (users : Table User) : Except Unauthorized AuthResponse :=
  match findByEmail lib users (normalizeEmail lib dto.email) with
  | none => .error ⟨"Invalid credentials"⟩
  | some user =>
      if lib.compare dto.password user.passwordHash then
        .ok ⟨issueToken lib user now, user.sanitize⟩
      else .error ⟨"Invalid credentials"⟩

end

end OutcomeExchange
