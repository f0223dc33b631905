import OutcomeExchange.Resolution
import OutcomeExchange.Runs
import OutcomeExchange.Txn.Schedule
import OutcomeExchange.UsersService

set_option autoImplicit false

/-! # Users and their wallets

Registrations run among the transactions of the exchange, with their statements interleaved in
any way. `users_and_wallets` says what then holds of them, whichever transactions commit.

The wallet of a new user is looked for without a lock, so an execution as a whole
(`Exec .concurrent`) says too little about it. `Registering` follows the four statements. -/

namespace OutcomeExchange

open Txn

/-! ## The system -/

inductive AccountCall
  | register (dto : RegisterDto) (generated : Generated)
  | act (a : Action)

/-- A registration begins at any time; apart from it nothing creates a wallet. -/
def AccountCall.Starts (s : Accounts) : AccountCall → Prop
  | .register _ _ => True
  | .act a => a.Starts s.db ∧ ∀ userId walletId, a ≠ .createWalletForUser userId walletId

section

variable (lib : CredentialLibrary)

def AccountCall.prog : AccountCall → AccountTx Unit
  | .register dto generated => do
      let _ ← registerWithWallet lib (dto.data lib generated) generated
      return ()
  | .act a => a.prog.right .exchange userStore

/-- Registrations and the transactions of the exchange, interleaved under row locks. -/
def accounts : System (Conf accountStore AccountError Unit AccountCall) (Event AccountCall) :=
  rowLock (AccountCall.prog lib) AccountCall.Starts fun s => s = Accounts.empty

end

/-! ## Text -/

theorem jsTrim_idem (s : String) : jsTrim (jsTrim s) = jsTrim s := by
  have hstart : ((s.toList.dropWhile isJsSpace).rdropWhile isJsSpace).dropWhile isJsSpace =
      (s.toList.dropWhile isJsSpace).rdropWhile isJsSpace := by
    rw [List.dropWhile_eq_self_iff]
    intro hne
    -- it begins as the text without the leading white space does
    rw [(List.rdropWhile_prefix isJsSpace _).getElem hne]
    exact List.dropWhile_get_zero_not isJsSpace _ _
  unfold jsTrim
  rw [String.toList_ofList, hstart, List.rdropWhile_idempotent]

theorem normalizeEmail_idem (lib : CredentialLibrary) (email : String) :
    normalizeEmail lib (normalizeEmail lib email) = normalizeEmail lib email := by
  unfold normalizeEmail
  rw [lib.trim_toLowerCase, jsTrim_idem, lib.toLowerCase_idem]

/-! ## The wallets of the exchange -/

/-- The same users have a wallet. -/
def SameOwners (L L' : Ledger) : Prop :=
  ∀ u, (L'.wallets.find? u).isSome = (L.wallets.find? u).isSome

section Owners

variable {L L' L'' : Ledger} {m : Mode RowId} {s t : Db}

theorem SameOwners.of_eq (h : L' = L) : SameOwners L L' := fun u => by rw [h]

theorem SameOwners.trans (h : SameOwners L L') (h' : SameOwners L' L'') : SameOwners L L'' :=
  fun u => (h' u).trans (h u)

theorem Mutated.sameOwners {params : MutateWalletParams} (h : Mutated params L L') :
    SameOwners L L' := by
  cases h with
  | replay _ same => exact .of_eq same
  | posted hp =>
      intro u
      rw [hp.find?_wallet]
      by_cases hu : u = params.userId
      · rw [if_pos hu, hu, hp.wallet]
        rfl
      · rw [if_neg hu]

theorem Credited.sameOwners {market : Market} {winningSide : OutcomeSide} {orders : List Order}
    {createdAt : Timestamp} {trades : List Trade}
    (h : Credited market winningSide orders createdAt trades L L') : SameOwners L L' := by
  induction h with
  | nil => exact .of_eq rfl
  | cons _ credited _ ih => exact credited.sameOwners.trans ih

/-- Apart from `createWalletForUser` no action creates a wallet, or deletes one. -/
theorem Action.Effect.sameOwners {a : Action} (h : a.Effect m s t)
    (ha : ∀ userId walletId, a ≠ .createWalletForUser userId walletId) :
    SameOwners s.ledger t.ledger := by
  have unchanged : t = s → SameOwners s.ledger t.ledger := fun heq => .of_eq (by rw [heq])
  -- what moves a trade moves two wallets, one after the other
  have moved : ∀ {st v tradeId}, MovedFrom st v tradeId s t → SameOwners s.ledger t.ledger := by
    rintro st v tradeId ⟨trade, -, -, hmoved⟩
    obtain ⟨-, -, -, hmut, hmut', -⟩ := hmoved
    exact hmut.sameOwners.trans hmut'.sameOwners
  cases a with
  | createWalletForUser userId walletId => exact absurd rfl (ha userId walletId)
  | deposit userId dto createdAt =>
      obtain ⟨L, rfl, hmut⟩ := h
      exact hmut.sameOwners
  | withdraw userId dto createdAt =>
      obtain ⟨L, rfl, hmut⟩ := h
      exact hmut.sameOwners
  | createMarket closesAt marketId now => exact .of_eq h.2.1
  | closeMarket marketId now => exact .of_eq h.rest.1
  | closeExpiredMarkets now => exact .of_eq h.rest.1
  | resolveMarket marketId winningSide createdAt =>
      obtain ⟨-, -, -, hcredited, -⟩ := h
      exact hcredited.sameOwners
  | placeOrder userId dto orderId now createdAt =>
      exact h.elim unchanged fun hplaced => hplaced.reserved.sameOwners
  | cancelOrder userId orderId createdAt =>
      obtain ⟨-, -, -, -, hmut, -⟩ := h
      exact hmut.sameOwners
  | tryMatchOrder orderId tradeId =>
      refine h.elim unchanged fun hmade => ?_
      obtain ⟨-, -, -, -, -, -, -, -, hledger, -⟩ := hmade
      exact .of_eq hledger
  | failPendingTradeAndReleaseFunds tradeId createdAt => exact h.elim unchanged moved
  | handleSettlement tradeId createdAt => exact h.elim unchanged moved
  | markSettlementFailure tradeId createdAt => exact h.elim unchanged moved
  | prepareTradeForRetry tradeId createdAt => exact h.elim unchanged moved
  | reopenOrders orders => exact unchanged h

end Owners

/-! ## A registration, statement by statement -/

section Registration

variable {lib : CredentialLibrary} {dto : RegisterDto} {generated : Generated}

/-- The insertion of the user. -/
def userInsertion (lib : CredentialLibrary) (dto : RegisterDto) (generated : Generated) :
    Update accountStore AccountError :=
  (insertUser (dto.row lib generated)).left dbStore

/-- The insertion of his wallet. -/
def walletInsertion (generated : Generated) : Update accountStore AccountError :=
  Update.right .exchange userStore
    (writeLedger generated.userId
      (fun L => L.insertWallet ⟨generated.walletId, generated.userId, 0, 0⟩)
      (touchesWallet_insertWallet ⟨generated.walletId, generated.userId, 0, 0⟩))

/-- What is left of a registration once the user is inserted. -/
def afterUser {α : Type} (generated : Generated) (a : α) : AccountTx α :=
  .select fun s =>
    match s.db.ledger.wallets.find? generated.userId with
    | some _ => .pure a
    | none => .write (walletInsertion generated) (.pure a)

theorem registerWithWallet_eq : registerWithWallet lib (dto.data lib generated) generated =
    .write (userInsertion lib dto generated) (afterUser generated (dto.row lib generated)) := by
  show Prog.write (userInsertion lib dto generated) (.select fun s => _) = _
  unfold afterUser
  congr 2
  funext s
  have hid : ((dto.data lib generated).row lib generated).id = generated.userId := rfl
  simp only [Prog.bind, hid]
  cases s.db.ledger.wallets.find? generated.userId with
  | some existing => rfl
  | none => rfl

theorem prog_register : AccountCall.prog lib (.register dto generated) =
    .write (userInsertion lib dto generated) (afterUser generated ()) := by
  show (registerWithWallet lib (dto.data lib generated) generated).bind (fun _ => .pure ()) = _
  rw [registerWithWallet_eq]
  unfold afterUser
  simp only [Prog.bind]
  congr 2
  funext s
  cases s.db.ledger.wallets.find? generated.userId with
  | some existing => rfl
  | none => rfl

/-- The user and his wallet are new, and nothing else has changed. -/
structure Registered (lib : CredentialLibrary) (dto : RegisterDto) (generated : Generated)
    (s t : Accounts) : Prop where
  user : s.users.insert? (dto.row lib generated) = some t.users
  wallet : s.db.ledger.insertWallet ⟨generated.walletId, generated.userId, 0, 0⟩ = .ok t.db.ledger
  rest : t.db = { s.db with ledger := t.db.ledger }

theorem userInsertion_eq_ok {s t : Accounts}
    (h : (userInsertion lib dto generated).apply s = .ok t) :
    s.users.insert? (dto.row lib generated) = some t.users ∧ t.db = s.db := by
  obtain ⟨hinsert, hrest⟩ := Update.left_apply.mp h
  exact ⟨(insertUserRow_eq_ok.mp (Except.mapError_eq_ok.mp hinsert)).2, hrest⟩

theorem walletInsertion_eq_ok {s t : Accounts} (h : (walletInsertion generated).apply s = .ok t) :
    s.db.ledger.insertWallet ⟨generated.walletId, generated.userId, 0, 0⟩ = .ok t.db.ledger ∧
      t.db = { s.db with ledger := t.db.ledger } ∧ t.users = s.users := by
  obtain ⟨hinsert, hrest⟩ := Update.right_apply.mp h
  obtain ⟨L, hL, ht⟩ := writeLedger_apply.mp hinsert
  have hledger : t.db.ledger = L := congrArg Db.ledger ht
  rw [hledger]
  exact ⟨hL, ht, hrest⟩

/-- For the exchange a registration is the creation of a wallet. -/
theorem exec_register {s t : Accounts} {u : Unit}
    (h : Exec .concurrent (AccountCall.prog lib (.register dto generated)) s u t) :
    (Action.createWalletForUser generated.userId generated.walletId).Effect .concurrent
      s.db t.db := by
  rw [prog_register] at h
  obtain ⟨s₁, huser, s₀, -, h⟩ := h
  obtain ⟨-, hdb⟩ := userInsertion_eq_ok huser
  rw [← hdb]
  dsimp only at h
  split at h
  · obtain ⟨-, rfl⟩ := h
    exact Or.inl rfl
  · obtain ⟨t', hwallet, -, rfl⟩ := h
    obtain ⟨hL, hrest, -⟩ := walletInsertion_eq_ok hwallet
    exact Or.inr ⟨_, hL, hrest⟩

theorem Registered.effect {s t : Accounts} (h : Registered lib dto generated s t) :
    (Action.createWalletForUser generated.userId generated.walletId).Effect .concurrent
      s.db t.db := Or.inr ⟨_, h.wallet, h.rest⟩

/-- Where a registration stands, and what it has written so far. -/
inductive Registering (lib : CredentialLibrary) (dto : RegisterDto) (generated : Generated)
    (x : Session accountStore AccountError Unit AccountCall) : Prop
  | started (hrest : x.rest = AccountCall.prog lib (.register dto generated))
      (hpending : x.pending = [])
  | inserted (hrest : x.rest = afterUser generated ())
      (hpending : x.pending = [userInsertion lib dto generated])
  | withoutWallet (hrest : x.rest = .write (walletInsertion generated) (.pure ()))
      (hpending : x.pending = [userInsertion lib dto generated])
  | done (hrest : x.rest = .pure ())
      (hpending : x.pending = [userInsertion lib dto generated, walletInsertion generated])

/-- Every wallet has a user, and every user a wallet. -/
def Owned (s : Accounts) : Prop :=
  ∀ u, (s.users.find? u).isSome = (s.db.ledger.wallets.find? u).isSome

theorem Owned.no_wallet {s : Accounts} (h : Owned s) {u : Uuid} (hu : s.users.find? u = none) :
    s.db.ledger.wallets.find? u = none := by
  have howned := h u
  rw [hu, Option.isSome_none, eq_comm, Option.isSome_eq_false_iff] at howned
  exact Option.isNone_iff_eq_none.mp howned

/-- **The statement lemma.** The identifier of a new user belongs to nobody, so there is no
wallet to be found. -/
theorem Registering.next {x x' : Session accountStore AccountError Unit AccountCall}
    {s v : Accounts} {busy : Uuid ⊕ RowId → Prop} (h : Registering lib dto generated x)
    (howned : Owned s) (hview : x.view s = .ok v) (hnext : x.Next busy v x') :
    Registering lib dto generated x' := by
  cases h with
  | started hrest hpending =>
      rw [prog_register] at hrest
      obtain ⟨t, -, rfl⟩ := hnext.of_write hrest
      exact .inserted rfl (by rw [hpending]; rfl)
  | inserted hrest hpending =>
      have hx := hnext.of_select hrest
      have happlied : (userInsertion lib dto generated).apply s = .ok v := by
        rw [Session.view, hpending, ← List.nil_append [userInsertion lib dto generated],
          applyAll_append] at hview
        obtain ⟨_, hnil, happly⟩ := hview
        cases hnil
        exact happly
      obtain ⟨hinsert, hdb⟩ := userInsertion_eq_ok happlied
      -- the user has just been inserted, so nobody has a wallet of this identifier yet
      have hnone : v.db.ledger.wallets.find? generated.userId = none := by
        rw [hdb]
        exact howned.no_wallet (Table.find?_insert_self hinsert)
      rw [hx]
      exact .withoutWallet (by dsimp only; rw [hnone]) hpending
  | withoutWallet hrest hpending =>
      obtain ⟨t, -, rfl⟩ := hnext.of_write hrest
      exact .done rfl (by rw [hpending]; rfl)
  | done hrest hpending => exact absurd hrest hnext.of_pure

/-- A registration that has come to its end has inserted both rows. -/
theorem Registering.commit {x : Session accountStore AccountError Unit AccountCall}
    {s t : Accounts} {u : Unit} (h : Registering lib dto generated x) (hrest : x.rest = .pure u)
    (hview : x.view s = .ok t) : Registered lib dto generated s t := by
  cases h with
  | started hstart hpending =>
      rw [prog_register, hrest] at hstart
      cases hstart
  | inserted hselect hpending =>
      rw [hrest] at hselect
      cases hselect
  | withoutWallet hwrite hpending =>
      rw [hrest] at hwrite
      cases hwrite
  | done _ hpending =>
      rw [Session.view, hpending] at hview
      have hboth : applyAll ([userInsertion lib dto generated] ++ [walletInsertion generated]) s =
          .ok t := hview
      obtain ⟨v, huser, hwallet⟩ := applyAll_append.mp hboth
      rw [← List.nil_append [userInsertion lib dto generated], applyAll_append] at huser
      obtain ⟨_, hnil, huser⟩ := huser
      cases hnil
      obtain ⟨hinsert, hdb⟩ := userInsertion_eq_ok huser
      obtain ⟨hL, hdb', husers⟩ := walletInsertion_eq_ok hwallet
      rw [← husers] at hinsert
      rw [hdb] at hL hdb'
      exact ⟨hinsert, hL, hdb'⟩

/-- The new user and his wallet have the same identifier. -/
theorem Registered.owned {s t : Accounts} (h : Registered lib dto generated s t)
    (howned : Owned s) : Owned t := by
  intro u
  rw [Table.find?_insert h.user, Ledger.find?_insertWallet h.wallet]
  by_cases hu : generated.userId = u
  · rw [if_pos hu, if_pos (show Row.key (dto.row lib generated) = u from hu)]
    rfl
  · rw [if_neg hu, if_neg (show ¬ Row.key (dto.row lib generated) = u from hu)]
    exact howned u

end Registration

/-! ## Every interleaving -/

/-- What a committed transaction has done. -/
def AccountCall.Effect (lib : CredentialLibrary) (s t : Accounts) : AccountCall → Prop
  | .register dto generated => Registered lib dto generated s t
  | .act a => t.users = s.users ∧ a.Effect .concurrent s.db t.db ∧
      ∀ userId walletId, a ≠ .createWalletForUser userId walletId

section Interleavings

variable {lib : CredentialLibrary} {c c' : Conf accountStore AccountError Unit AccountCall}
  {e : Event AccountCall} {i : ℕ} {x : Session accountStore AccountError Unit AccountCall}

theorem exec_act {a : Action} {s t : Accounts} {u : Unit}
    (h : Exec .concurrent (AccountCall.prog lib (.act a)) s u t) :
    Exec .concurrent a.prog s.db u t.db ∧ t.users = s.users := exec_right.mp h

theorem coherent_step {s₀ s t : Accounts} {k : AccountCall} {u : Unit} (h₀ : s₀.db.Coherent)
    (hstart : k.Starts s₀) (hs : s.db.Coherent)
    (h : Exec .concurrent (AccountCall.prog lib k) s u t) : t.db.Coherent := by
  cases k with
  | register dto generated => exact hs.effect (exec_register h)
  | act a => exact hs.effect (exec_effect (hstart.1.nil h₀) (exec_act h).1)

theorem coherent_init (s : Accounts) (h : s = Accounts.empty) : s.db.Coherent := by
  rw [h]
  exact Coherent.empty

/-- Every registration stands somewhere, and users and wallets belong together. -/
structure Accompanied (lib : CredentialLibrary)
    (c : Conf accountStore AccountError Unit AccountCall) : Prop where
  owned : Owned c.committed
  registering : ∀ {i x dto generated}, c.session i = some x → x.call = .register dto generated →
    Registering lib dto generated x

/-- What a session commits is what it sees when it has come to its end. -/
theorem accounts_commit_view (hx : c.session i = some x)
    (hst : (accounts lib).step c (.commit i) c') :
    ∃ u, x.rest = .pure u ∧ x.view c.committed = .ok c'.committed := by
  cases hst with
  | @commit _ y u s hy hrest hview =>
      rw [hx] at hy
      cases hy
      exact ⟨u, hrest, hview⟩

theorem accounts_commit (h : (accounts lib).Reachable c) (hacc : Accompanied lib c)
    (hx : c.session i = some x) (hst : (accounts lib).step c (.commit i) c') :
    x.call.Effect lib c.committed c'.committed := by
  have hstep : ∀ s₀ k s (u : Unit) t, s₀.db.Coherent → AccountCall.Starts s₀ k → s.db.Coherent →
      Exec .concurrent (AccountCall.prog lib k) s u t → t.db.Coherent :=
    fun _ _ _ _ _ h₀ hstart hs hexec => coherent_step h₀ hstart hs hexec
  obtain ⟨s₀, u, h₀, hstart, hexec⟩ := Conf.commit_exec coherent_init hstep h hx hst
  cases hcall : x.call with
  | register dto generated =>
      obtain ⟨_, hrest, hview⟩ := accounts_commit_view hx hst
      exact (hacc.registering hx hcall).commit hrest hview
  | act a =>
      rw [hcall] at hstart hexec
      obtain ⟨hexec, husers⟩ := exec_act hexec
      exact ⟨husers, exec_effect (hstart.1.nil h₀) hexec, hstart.2⟩

theorem AccountCall.Effect.owned {k : AccountCall} {s t : Accounts} (h : k.Effect lib s t)
    (howned : Owned s) : Owned t := by
  cases k with
  | register dto generated => exact Registered.owned h howned
  | act a =>
      obtain ⟨husers, heff, hcreate⟩ := h
      intro u
      rw [husers, heff.sameOwners hcreate u]
      exact howned u

/-- **The step lemma.** -/
theorem Accompanied.step (h : (accounts lib).Reachable c) (hacc : Accompanied lib c)
    (hst : (accounts lib).step c e c') : Accompanied lib c' := by
  have hst' := hst
  cases hst with
  | @begin i k new hstart =>
      refine ⟨hacc.owned, fun {j y dto generated} hj hcall => ?_⟩
      rcases update_some hj with ⟨-, hy⟩ | ⟨-, hj⟩
      · cases hy
        obtain rfl : k = .register dto generated := hcall
        exact .started rfl rfl
      · exact hacc.registering hj hcall
  | @statement i x x' s hx hs hnext =>
      refine ⟨hacc.owned, fun {j y dto generated} hj hcall => ?_⟩
      rcases update_some hj with ⟨-, hy⟩ | ⟨-, hj⟩
      · cases hy
        rw [hnext.call] at hcall
        exact (hacc.registering hx hcall).next hacc.owned hs hnext
      · exact hacc.registering hj hcall
  | @commit i x u s hx hrest hview =>
      refine ⟨(accounts_commit h hacc hx hst').owned hacc.owned,
        fun {j y dto generated} hj hcall => ?_⟩
      rcases update_some hj with ⟨-, hy⟩ | ⟨-, hj⟩
      · cases hy
      · exact hacc.registering hj hcall
  | @abort i x hx =>
      refine ⟨hacc.owned, fun {j y dto generated} hj hcall => ?_⟩
      rcases update_some hj with ⟨-, hy⟩ | ⟨-, hj⟩
      · cases hy
      · exact hacc.registering hj hcall

theorem accompanied_of_reachable (h : (accounts lib).Reachable c) : Accompanied lib c := by
  induction h with
  | init hinit =>
      obtain ⟨hempty, hnone⟩ := hinit
      refine ⟨?_, fun {i x _ _} hi => ?_⟩
      · rw [hempty]
        exact fun _ => rfl
      · rw [hnone i] at hi
        cases hi
  | step h hst ih => exact ih.step h hst

/-- What one event does to the committed state: nothing, or what one transaction does. -/
theorem accounts_step (h : (accounts lib).Reachable c) (hst : (accounts lib).step c e c') :
    c'.committed = c.committed ∨ ∃ i x, e = .commit i ∧ c.session i = some x ∧
      x.call.Effect lib c.committed c'.committed := by
  have hst' := hst
  cases hst with
  | commit hx =>
      exact Or.inr ⟨_, _, rfl, hx, accounts_commit h (accompanied_of_reachable h) hx hst'⟩
  | _ => exact Or.inl rfl

/-- Invariants of the registrations and the exchange together. -/
theorem accounts_invariant (I : Accounts → Prop) (hinit : I Accounts.empty)
    (hstep : ∀ s k t, I s → AccountCall.Effect lib s t k → I t)
    (h : (accounts lib).Reachable c) : I c.committed := by
  refine h.invariant_of (fun c => I c.committed) (fun c => (accounts lib).Reachable c)
    (fun _ hc => hc) ?_ ?_
  · rintro c ⟨hempty, -⟩
    rw [hempty]
    exact hinit
  · intro c e c' hc hI hst
    rcases accounts_step hc hst with hsame | ⟨i, x, -, -, heff⟩
    · rw [hsame]
      exact hI
    · exact hstep _ _ _ hI heff

/-- For the exchange, whatever commits is one of its own transactions. -/
theorem AccountCall.Effect.action {k : AccountCall} {s t : Accounts} (h : k.Effect lib s t) :
    ∃ a : Action, a.Effect .concurrent s.db t.db := by
  cases k with
  | register dto generated => exact ⟨_, Registered.effect h⟩
  | act a => exact ⟨a, h.2.1⟩

/-! ## The users -/

@[simp] theorem row_id (dto : RegisterDto) (generated : Generated) :
    (dto.row lib generated).id = generated.userId := rfl

@[simp] theorem row_email (dto : RegisterDto) (generated : Generated) :
    (dto.row lib generated).email = normalizeEmail lib dto.email := by
  show normalizeEmail lib (normalizeEmail lib (normalizeEmail lib dto.email)) = _
  rw [normalizeEmail_idem, normalizeEmail_idem]

@[simp] theorem row_username (dto : RegisterDto) (generated : Generated) :
    (dto.row lib generated).username = jsTrim dto.username := rfl

/-- The columns of a user are in their normal form, and he is not an administrator. -/
structure User.Proper (lib : CredentialLibrary) (user : User) : Prop where
  email : OutcomeExchange.normalizeEmail lib user.email = user.email
  username : jsTrim user.username = user.username
  role : user.role = .USER

theorem row_proper (dto : RegisterDto) (generated : Generated) :
    (dto.row lib generated).Proper lib where
  email := by rw [row_email, normalizeEmail_idem]
  username := jsTrim_idem _
  role := rfl

/-- What holds in every state. -/
structure AccountsInOrder (lib : CredentialLibrary) (s : Accounts) : Prop where
  coherent : s.db.Coherent
  provided : s.db.Provided
  proper : ∀ user ∈ s.users.rows, user.Proper lib

theorem AccountsInOrder.step {k : AccountCall} {s t : Accounts} (h : AccountsInOrder lib s)
    (heff : k.Effect lib s t) : AccountsInOrder lib t := by
  obtain ⟨a, haction⟩ := heff.action
  refine ⟨h.coherent.effect haction, h.provided.effect h.coherent haction, fun user huser => ?_⟩
  cases k with
  | register dto generated =>
      rcases (Table.mem_insert (Registered.user heff)).mp huser with hold | rfl
      · exact h.proper user hold
      · exact row_proper dto generated
  | act a =>
      rw [heff.1] at huser
      exact h.proper user huser

theorem accountsInOrder (h : (accounts lib).Reachable c) : AccountsInOrder lib c.committed :=
  accounts_invariant (AccountsInOrder lib)
    ⟨Coherent.empty, provided_empty, fun _ huser => absurd huser List.not_mem_nil⟩
    (fun _ _ _ hs heff => hs.step heff) h

/-- Users and wallets belong together one to one, no two users share an email in any spelling,
or a username apart from white space around it, nobody is an administrator, and every order has
a user. -/
structure UsersAndWallets (lib : CredentialLibrary) (s : Accounts) : Prop where
  wallets : ∀ u, (∃ user, s.users.find? u = some user) ↔
    ∃ w, s.db.ledger.wallets.find? u = some w
  emails : ∀ a ∈ s.users.rows, ∀ b ∈ s.users.rows,
    normalizeEmail lib a.email = normalizeEmail lib b.email → a = b
  usernames : ∀ a ∈ s.users.rows, ∀ b ∈ s.users.rows,
    jsTrim a.username = jsTrim b.username → a = b
  roles : ∀ user ∈ s.users.rows, user.role = .USER
  orders : ∀ o ∈ s.db.orders.rows, ∃ user, s.users.find? o.userId = some user

/-- **Users and wallets**, under every interleaving of registrations with the transactions of
the exchange. -/
theorem users_and_wallets (h : (accounts lib).Reachable c) : UsersAndWallets lib c.committed := by
  have horder := accountsInOrder h
  have howned := (accompanied_of_reachable h).owned
  have hone : ∀ u, (∃ user, c.committed.users.find? u = some user) ↔
      ∃ w, c.committed.db.ledger.wallets.find? u = some w := by
    intro u
    rw [← Option.isSome_iff_exists, ← Option.isSome_iff_exists, howned u]
  constructor
  · exact hone
  · intro a ha b hb hsame
    rw [(horder.proper a ha).email, (horder.proper b hb).email] at hsame
    exact Table.eq_of_clash _ ha hb (Or.inr (Or.inl hsame))
  · intro a ha b hb hsame
    rw [(horder.proper a ha).username, (horder.proper b hb).username] at hsame
    exact Table.eq_of_clash _ ha hb (Or.inr (Or.inr hsame))
  · exact fun user huser => (horder.proper user huser).role
  · intro o ho
    exact (hone o.userId).mpr (horder.provided.owners (Table.find?_key ho))

end Interleavings

/-! ## A run -/

namespace Sample

theorem toLower_cases (c : Char) :
    (65 ≤ c.val.toNat ∧ c.val.toNat ≤ 90 ∧ c.toLower.val.toNat = c.val.toNat + 32) ∨
      c.toLower = c := by
  unfold Char.toLower
  split
  case isTrue h =>
    have hcode : 65 ≤ c.val.toNat ∧ c.val.toNat ≤ 90 := h
    refine Or.inl ⟨hcode.1, hcode.2, ?_⟩
    show (c.val + 32).toNat = _
    rw [UInt32.toNat_add]
    show (c.val.toNat + 32) % 4294967296 = _
    omega
  case isFalse => exact Or.inr rfl

theorem toLower_idem (c : Char) : c.toLower.toLower = c.toLower := by
  rcases toLower_cases c with ⟨hlow, hhigh, hcode⟩ | hsame
  · rcases toLower_cases c.toLower with ⟨-, hhigh', -⟩ | hsame
    · omega
    · exact hsame
  · rw [hsame, hsame]

theorem isJsSpace_toLower (c : Char) : isJsSpace c.toLower = isJsSpace c := by
  rcases toLower_cases c with ⟨hlow, hhigh, hcode⟩ | hsame
  · rw [isJsSpace_of_ascii (by omega) (by omega), isJsSpace_of_ascii (by omega) (by omega)]
  · rw [hsame]

def asciiLower (s : String) : String := String.ofList (s.toList.map Char.toLower)

theorem jsTrim_asciiLower (s : String) : jsTrim (asciiLower s) = asciiLower (jsTrim s) := by
  have hspace : isJsSpace ∘ Char.toLower = isJsSpace := funext isJsSpace_toLower
  unfold jsTrim asciiLower List.rdropWhile
  simp only [String.toList_ofList, List.dropWhile_map, ← List.map_reverse, hspace]

/-- A library for texts in ASCII. -/
def library : CredentialLibrary where
  toLowerCase := asciiLower
  toLowerCase_idem s := by
    simp only [asciiLower, String.toList_ofList, List.map_map, Function.comp_def, toLower_idem]
  trim_toLowerCase := jsTrim_asciiLower
  hash password salt := salt ++ (":" ++ password)
  compare password passwordHash := decide ((":" ++ password).toList <:+ passwordHash.toList)
  compare_hash password salt := by simp
  sign userId email _ := userId.text ++ ("." ++ email)

def aliceDto : RegisterDto := ⟨" Alice@Example.org", "correct horse", "alice "⟩
def bobDto : RegisterDto := ⟨"bob@example.org", "battery staple", "email"⟩

def impostor : Uuid := ⟨"00000000-0000-4000-8000-000000000061", by decide⟩

/-- The email of alice, in another spelling. -/
def impostorDto : RegisterDto := ⟨"alice@example.ORG ", "let me in please", "impostor"⟩

/-- Two registrations side by side, a deposit, and a third registration that fails. -/
def registrations : List (Event AccountCall) :=
  [.begin 0 (.register aliceDto ⟨alice, alice, "salt", 1⟩),
    .begin 1 (.register bobDto ⟨bob, bob, "pepper", 2⟩)] ++
  [0, 1, 1, 0, 1, 0].map .statement ++ [.commit 1, .commit 0] ++
  .begin 0 (.act (.deposit alice
    (depositDto "deposit-once-registered" (by decide) (by decide)) 3)) ::
    List.replicate 4 (.statement 0) ++
  [.commit 0, .begin 1 (.register impostorDto ⟨impostor, impostor, "salt", 4⟩), .abort 1]

/-- `AccountCall.Starts`, as a test. -/
def mayBegin (s : Accounts)
    (_ : List (Option (Session accountStore AccountError Unit AccountCall))) :
    Event AccountCall → Bool
  | .begin _ (.act (.createWalletForUser _ _)) => false
  | .begin _ (.act a) => decide (a.Starts s.db)
  | _ => true

theorem mayBegin_starts {s : Accounts}
    {l : List (Option (Session accountStore AccountError Unit AccountCall))}
    {e : Event AccountCall} (h : mayBegin s l e = true) :
    ∀ i k, e = .begin i k → k.Starts s := by
  rintro i k rfl
  cases k with
  | register dto generated => trivial
  | act a =>
      cases a with
      | createWalletForUser userId walletId => cases h
      | _ => exact ⟨of_decide_eq_true h, fun _ _ => by simp⟩

/-- The registrations played from the empty database. -/
theorem play_registrations (p : Accounts → Bool)
    (h : (Conf.play (AccountCall.prog library) mayBegin registrations Accounts.empty
      [none, none]).any (fun c => p c.1) = true) :
    ∃ c, (accounts library).Run (Conf.idle Accounts.empty) registrations c ∧
      p c.committed = true := by
  obtain ⟨⟨s, l⟩, hc, hp⟩ := (Option.any_eq_true _ _).mp h
  have hrun : ((accounts library).restrict fun _ _ => True).Run
      (Conf.ofList Accounts.empty [none, none]) registrations (Conf.ofList s l) :=
    run_of_play (fun _ _ _ hmay => ⟨trivial, mayBegin_starts hmay⟩) hc
  rw [show Conf.ofList Accounts.empty [none, none] = Conf.idle Accounts.empty from
    Conf.ofList_idle _ 2] at hrun
  exact ⟨_, hrun.of_restrict, hp⟩

end Sample

theorem users_and_wallets_sample : ∃ c, (accounts Sample.library).Reachable c ∧
    c.committed.users.rows.length = 2 ∧ UsersAndWallets Sample.library c.committed := by
  obtain ⟨c, hrun, hp⟩ := Sample.play_registrations (fun s => s.users.rows.length = 2) (by
    decide +kernel)
  have h : (accounts Sample.library).Reachable c := hrun.reachable (.init ⟨rfl, fun _ => rfl⟩)
  exact ⟨c, h, of_decide_eq_true hp, users_and_wallets h⟩

end OutcomeExchange
