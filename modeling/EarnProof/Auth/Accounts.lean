/-
  EarnProof.Auth.Accounts — the two writers of a `User` row's wallet: the upsert of a
  login (`src/auth/auth.service.ts`) and the transaction that completes a wallet
  rotation (`src/auth/wallet-rotation.service.ts`). Sessions and rotation rows, which
  nothing modelled reads, are left out; a rotation reaches its transaction with both
  signatures checked.

  Proved: an account's wallet hash changes only when a rotation of that account
  completes (`walletHash_run`).
-/
import EarnProof.Lib.Result
import EarnProof.Lib.Table
import EarnProof.Common.Crypto
import EarnProof.Database.Rows

namespace EarnProof.Auth

open Lib Lib.Table Lib.Result Database Common.Crypto

def walletHash (walletAddress : String) : String := sha256Tagged walletAddress

inductive AccountFailure where
  | replacementUnavailable | identityChanged | uniqueViolation
  deriving DecidableEq

variable (db : Db)

/-- `user.updateMany({ where, data })`. -/
def updateUsers (sel : User → Bool) (data : User → User) : Db :=
  { db with users := db.users.map fun u => if sel u then data u else u }

/-- The unique index on `walletHash` admits the hash for the selected rows. -/
def hashFree (sel : User → Bool) (hash : String) : Prop := ∀ u ∈ db.users, u.walletHash = hash → sel u
  deriving Decidable

/-- `user.upsert({ where: { walletAddress }, … })`; `freshId` is the id a new row gets. -/
def login (freshId walletAddress : String) : Except AccountFailure Db :=
  let sel (u : User) : Bool := u.walletAddress = walletAddress
  if db.users.any sel then do
    require (hashFree db sel (walletHash walletAddress)) .uniqueViolation
    pure (updateUsers db sel fun u => { u with walletHash := walletHash walletAddress })
  else do
    require (∀ u ∈ db.users, u.id ≠ freshId ∧ u.walletHash ≠ walletHash walletAddress) .uniqueViolation
    pure { db with users := db.users ++ [⟨freshId, walletAddress, walletHash walletAddress⟩] }

/-- The transaction of `complete`: the replacement must be unbound, the account must
    still hold the address the rotation was issued for, and the audit row is written
    through the transaction client, which can store only one. -/
def completeRotation (userId currentWalletAddress newWalletAddress : String) : Except AccountFailure Db := do
  let sel (u : User) : Bool := u.id = userId ∧ u.walletAddress = currentWalletAddress
  require (∀ u ∈ db.users, u.walletAddress ≠ newWalletAddress) .replacementUnavailable
  require (hashFree db sel (walletHash newWalletAddress)) .uniqueViolation
  require (db.users.any sel) .identityChanged
  require (db.auditDefaultRow = false) .uniqueViolation
  let db := updateUsers db sel fun u =>
    { u with walletAddress := newWalletAddress, walletHash := walletHash newWalletAddress }
  pure { db with auditDefaultRow := true }

/-! ## Runs -/

inductive AccountOp where
  | login (freshId walletAddress : String)
  | completeRotation (userId currentWalletAddress newWalletAddress : String)
  /-- The retention sweep of the audit log takes the row with the default chain columns. -/
  | sweepAudit
  deriving DecidableEq

def AccountOp.run : AccountOp → Except AccountFailure Db
  | .login freshId address => Auth.login db freshId address
  | .completeRotation userId current new => Auth.completeRotation db userId current new
  | .sweepAudit => .ok { db with auditDefaultRow := false }

def AccountOp.apply (op : AccountOp) : Db := commit db (op.run db)

def AccountOp.rotates (op : AccountOp) (id : String) : Prop :=
  ∃ current new, op = .completeRotation id current new

def HashesAddresses : Prop := ∀ u ∈ db.users, u.walletHash = walletHash u.walletAddress

variable {db db' : Db} {sel : User → Bool} {data : User → User} {id userId current new : String} {owner : User}

theorem user?_updateUsers (hid : ∀ u, (data u).id = u.id) :
    (updateUsers db sel data).user? id = (db.user? id).map fun u => if sel u then data u else u :=
  find?_update fun u => by rw [hid]

theorem login_eq_ok {freshId address : String} (h : login db freshId address = .ok db') :
    db' = updateUsers db (fun u => u.walletAddress = address) (fun u => { u with walletHash := walletHash address }) ∨
      ((∀ u ∈ db.users, u.id ≠ freshId) ∧
        db' = { db with users := db.users ++ [⟨freshId, address, walletHash address⟩] }) := by
  unfold login at h
  dsimp only at h
  split at h
  · obtain ⟨_, _, h⟩ := bind_eq_ok.mp h
    exact .inl (pure_eq_ok.mp h).symm
  · obtain ⟨_, hfree, h⟩ := bind_eq_ok.mp h
    exact .inr ⟨fun u hu => (require_eq_ok.mp hfree u hu).1, (pure_eq_ok.mp h).symm⟩

theorem completeRotation_eq_ok (h : completeRotation db userId current new = .ok db') :
    db'.users = (updateUsers db (fun u => u.id = userId ∧ u.walletAddress = current)
      (fun u => { u with walletAddress := new, walletHash := walletHash new })).users ∧ db'.proofs = db.proofs := by
  obtain ⟨_, _, h⟩ := bind_eq_ok.mp h
  obtain ⟨_, _, h⟩ := bind_eq_ok.mp h
  obtain ⟨_, _, h⟩ := bind_eq_ok.mp h
  obtain ⟨_, _, h⟩ := bind_eq_ok.mp h
  rw [← pure_eq_ok.mp h]
  exact ⟨rfl, rfl⟩

theorem hashesAddresses_apply (hinv : HashesAddresses db) (op : AccountOp) : HashesAddresses (op.apply db) := by
  refine commit_rule hinv fun db' h => ?_
  cases op with
  | login =>
    rcases login_eq_ok h with rfl | ⟨_, rfl⟩
    · exact forall_update hinv fun u _ hs => congrArg walletHash (of_decide_eq_true hs).symm
    · exact forall_append_row hinv rfl
  | completeRotation =>
    unfold HashesAddresses
    rw [(completeRotation_eq_ok h).1]
    exact forall_update hinv fun _ _ _ => rfl
  | sweepAudit =>
    cases h
    exact hinv

/-- One operation leaves an account's row as it is, unless it rotates that account. -/
theorem user?_apply (hinv : HashesAddresses db) (ho : db.user? id = some owner)
    {op : AccountOp} (hop : ¬ op.rotates id) : (op.apply db).user? id = some owner := by
  refine commit_rule (P := fun d : Db => d.user? id = some owner) ho fun db' h => ?_
  cases op with
  | login freshId address =>
    rcases login_eq_ok h with rfl | ⟨_, rfl⟩
    · rw [user?_updateUsers (by intro u; rfl), ho, Option.map_some]
      split
      · -- the upsert writes the hash the row already has
        rename_i hs
        rw [← of_decide_eq_true hs, ← hinv owner (List.mem_of_find?_eq_some ho)]
      · rfl
    · show (db.users ++ [_]).find? _ = some owner
      rw [List.find?_append]
      exact congrArg (Option.or · _) ho
  | completeRotation userId current new =>
    show db'.users.find? _ = some owner
    rw [(completeRotation_eq_ok h).1]
    refine (user?_updateUsers (by intro u; rfl)).trans ?_
    rw [ho, Option.map_some, if_neg ?_]
    intro hs
    have hfound := List.find?_some ho
    exact hop ⟨current, new, by rw [← of_decide_eq_true hfound, (of_decide_eq_true hs).1]⟩
  | sweepAudit =>
    cases h
    exact ho

/-- Over a run in which no rotation of the account completes, its wallet hash stays. -/
theorem walletHash_run (hinv : HashesAddresses db)
    (ho : db.user? id = some owner) (ops : List AccountOp) (hops : ∀ op ∈ ops, ¬ op.rotates id) :
    (ops.foldl AccountOp.apply db).user? id = some owner := by
  induction ops generalizing db with
  | nil => exact ho
  | cons op ops ih =>
    refine ih (hashesAddresses_apply hinv op) (user?_apply hinv ho (hops op List.mem_cons_self)) ?_
    exact fun o h => hops o (List.mem_cons_of_mem op h)

theorem walletHash_run_other : ([.login "u2" "G2", .completeRotation "u2" "G2" "G3", .sweepAudit,
    .completeRotation "u2" "G3" "G4"].foldl AccountOp.apply
    ⟨[⟨"u1", "G1", walletHash "G1"⟩], [], [], [], [], [], [], [], [], [], [], false⟩).user? "u1" =
      some ⟨"u1", "G1", walletHash "G1"⟩ :=
  walletHash_run (by simp [HashesAddresses]) rfl _ (by simp [AccountOp.rotates])

end EarnProof.Auth
