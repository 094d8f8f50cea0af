/-
  EarnProof.Audit.Writers — any number of business transactions writing audit records at
  the same time, access by access, under the row locks and the unique index of the database.

  A transaction makes a list of audit writes. A chained one is `appendAuditLog`, which is
  also what the patched `PrismaService.auditLog.create` runs in a transaction of its own:
  the cursor row is ensured, locked with `FOR UPDATE`, the record is inserted behind it and
  the cursor is moved. A plain one is `auditLog.create` on the transaction's own client,
  which stores the column defaults. What a transaction has written shows to the others at
  its commit, and until then an access to the same cursor row, or of the same index entry,
  waits. A cycle of waiting transactions is found by the database, which ends one of them.

  Proved: if every write is chained and each transaction writes to one chain, then in every
  reachable state every chain counts 1..n, verifies, and no transaction was ended for an
  audit write (`chains_kept`). One plain write already breaks the system chain, and the second
  one is refused by the index (`plain_create_breaks`).
-/
import EarnProof.Audit.Verification
import EarnProof.Lib.Run
import Mathlib.Data.Fintype.Basic
import Mathlib.Logic.Function.Basic

namespace EarnProof.Audit.Writers

open Lib Lib.Calendar Lib.Result Common.Crypto List Function

/-! ## Transactions -/

inductive AuditWrite where
  | chained (data : AuditData)
  | plain (data : AuditData)
  deriving DecidableEq

inductive Stage where
  | next
  | ensured (data : AuditData)
  | locked (data : AuditData) (cursor : AuditChainCursor)
  | inserted (record : AuditLog)
  deriving DecidableEq

inductive Phase where
  | running
  | committed
  | rolledBack
  | failed (error : AuditError)
  deriving DecidableEq

structure Tx where
  todo : List AuditWrite
  stage : Stage
  /-- The records it has inserted. -/
  rows : List AuditLog
  /-- The cursor rows it has inserted or locked, as it sees them. -/
  cursors : List AuditChainCursor
  phase : Phase
  deriving DecidableEq

structure Store (n : Nat) where
  db : AuditTables
  txs : Fin n → Tx

def start {n : Nat} (writes : Fin n → List AuditWrite) : Store n :=
  ⟨⟨[], []⟩, fun p => ⟨writes p, .next, [], [], .running⟩⟩

/-! ## Waiting -/

/-- What an access needs that another transaction may still keep. -/
inductive Need where
  | cursorRow (key : String)
  | cursorLock (key : String)
  | indexEntry (key : String) (sequence : Int)
  | nothing
  deriving DecidableEq

def Tx.need (x : Tx) : Need :=
  match x.stage with
  | .next =>
    match x.todo with
    | [] => .nothing
    | .chained d :: _ => .cursorRow d.chainKey
    | .plain _ :: _ => .indexEntry SYSTEM_CHAIN_KEY 0
  | .ensured d => .cursorLock d.chainKey
  | .locked d c => .indexEntry d.chainKey (c.lastSequence + 1)
  | .inserted _ => .nothing

variable (db : AuditTables)

/-- An insert waits for an uncommitted row with its key, a lock for the lock. -/
def Need.keptBy (x : Tx) : Need → Bool
  | .cursorRow key => x.cursors.any (·.chainKey = key) && !db.cursors.any (·.chainKey = key)
  | .cursorLock key => x.cursors.any (·.chainKey = key)
  | .indexEntry key sequence => x.rows.any fun r => decide (r.chainKey = key ∧ r.sequence = sequence)
  | .nothing => false

variable {n : Nat} (w : Store n) (p : Fin n)

def waitsFor (q : Fin n) : Prop :=
  p ≠ q ∧ (w.txs p).phase = .running ∧ (w.txs q).phase = .running ∧ (w.txs p).need.keptBy w.db (w.txs q)
  deriving Decidable

/-! ## Accesses -/

/-- The next access of a transaction, over its own rows and the committed ones. -/
def Tx.access (s : Stamp) (x : Tx) : Except AuditError Tx :=
  match x.stage with
  | .next =>
    match x.todo with
    | [] => .ok x
    | .chained d :: rest =>
      let cursors := if (x.cursors ++ db.cursors).any (·.chainKey = d.chainKey) then x.cursors
        else x.cursors ++ [genesis d.chainKey]
      .ok { x with todo := rest, stage := .ensured d, cursors }
    | .plain d :: rest => do
      let _ ← insertLog (db.logs ++ x.rows) (defaultRecord d s)
      pure { x with todo := rest, rows := x.rows ++ [defaultRecord d s] }
  | .ensured d => do
    let c ← findCursor (x.cursors ++ db.cursors) d.chainKey
    let cursors := if x.cursors.any (·.chainKey = d.chainKey) then x.cursors else x.cursors ++ [c]
    pure { x with stage := .locked d c, cursors }
  | .locked d c => do
    let _ ← insertLog (db.logs ++ x.rows) (nextRecord c d s)
    pure { x with stage := .inserted (nextRecord c d s), rows := x.rows ++ [nextRecord c d s] }
  | .inserted r => .ok { x with stage := .next, cursors := advanceCursor x.cursors r }

/-- A row version replaces the committed one, or is new. -/
def publish (cursors : List AuditChainCursor) (c : AuditChainCursor) : List AuditChainCursor :=
  if cursors.any (·.chainKey = c.chainKey) then setCursor cursors c else cursors ++ [c]

def Tx.commit (x : Tx) : AuditTables := ⟨db.logs ++ x.rows, x.cursors.foldl publish db.cursors⟩

inductive Event (n : Nat) where
  | access (p : Fin n) (s : Stamp)
  /-- The business code throws. -/
  | rollback (p : Fin n)
  /-- The database has found a cycle and ends its first transaction. -/
  | deadlock (cycle : List (Fin n))
  deriving DecidableEq

def Store.set (x : Tx) : Store n := { w with txs := Function.update w.txs p x }

def Store.fail (e : AuditError) : Store n := w.set p { w.txs p with phase := .failed e }

def step : Event n → Option (Store n)
  | .access p s =>
    let x := w.txs p
    if x.phase ≠ .running ∨ ∃ q, waitsFor w p q then none
    else if x.stage = .next ∧ x.todo = [] then
      some ({ w with db := x.commit w.db }.set p { x with phase := .committed })
    else
      match x.access w.db s with
      | .ok x' => some (w.set p x')
      | .error e => some (w.fail p e)
  | .rollback p => if (w.txs p).phase = .running then some (w.set p { w.txs p with phase := .rolledBack }) else none
  | .deadlock [] => none
  | .deadlock (p :: rest) =>
    if (p :: rest ++ [p]).IsChain (waitsFor w) then some (w.fail p .deadlockDetected) else none

/-! ## One transaction -/

def OneChain (key : String) (writes : List AuditWrite) : Prop := ∀ w ∈ writes, ∃ d, w = .chained d ∧ d.chainKey = key

/-- The data in hand belongs to the chain, and the cursor in hand is the one held. -/
def Stage.Of (key : String) (c : AuditChainCursor) : Stage → Prop
  | .next => True
  | .ensured d => d.chainKey = key
  | .locked d c' => d.chainKey = key ∧ c' = c
  | .inserted r => r.chainKey = key

/-- Where the chain stands for the transaction: the record it has just inserted is not yet
    in the cursor. -/
def Stage.tip (c : AuditChainCursor) : Stage → AuditChainCursor
  | .inserted r => cursorAfter r
  | _ => c

/-- What a transaction has of its chain: nothing yet, or the cursor and what it has put behind it. -/
inductive Holding (db : AuditTables) (key : String) (x : Tx) : Prop
  | nothing (hrows : x.rows = []) (hcursors : x.cursors = []) (hnext : x.stage = .next)
  | ensured d (hrows : x.rows = []) (hcursors : x.cursors = []) (hstage : x.stage = .ensured d)
      (hkey : d.chainKey = key) (hany : db.cursors.any (·.chainKey = key))
  | cursor c (hcursors : x.cursors = [c]) (hkey : c.chainKey = key) (hstage : x.stage.Of key c)
      (hlinked : Linked key (db.cursor key) x.rows (x.stage.tip c))

structure TxInv (db : AuditTables) (key : String) (x : Tx) : Prop where
  todo : OneChain key x.todo
  holding : Holding db key x

variable {db : AuditTables} {key : String} {x : Tx} {r : AuditLog}

/-- A transaction's share in its chain depends on the committed cursor only while it holds it. -/
theorem TxInv.transfer {db db' : AuditTables} (h : TxInv db key x)
    (hany : db.cursors.any (·.chainKey = key) → db'.cursors.any (·.chainKey = key))
    (hcursor : x.cursors ≠ [] → db'.cursor key = db.cursor key) : TxInv db' key x := by
  refine ⟨h.todo, ?_⟩
  cases h.holding with
  | nothing hrows hcursors hnext => exact .nothing hrows hcursors hnext
  | ensured d hrows hcursors hstage hkey hcommitted => exact .ensured d hrows hcursors hstage hkey (hany hcommitted)
  | cursor c hcursors hkey hstage hlinked =>
    refine .cursor c hcursors hkey hstage ?_
    rw [hcursor (by simp [hcursors])]
    exact hlinked

theorem TxInv.chainKey_of_row (h : TxInv db key x) (hr : r ∈ x.rows) : r.chainKey = key ∧ x.cursors ≠ [] := by
  cases h.holding with
  | nothing hrows | ensured d hrows => exact absurd (hrows ▸ hr) not_mem_nil
  | cursor c hcursors hkey hstage hlinked => exact ⟨chainKey_of_linked hlinked r hr, by simp [hcursors]⟩

theorem TxInv.chainKey_of_cursor (h : TxInv db key x) {c : AuditChainCursor}
    (hc : c ∈ x.cursors) : c.chainKey = key := by
  cases h.holding with
  | nothing _ hcursors | ensured d _ hcursors => exact absurd (hcursors ▸ hc) not_mem_nil
  | cursor c' hcursors hkey =>
    rw [hcursors, mem_singleton] at hc
    exact hc ▸ hkey

/-- The chain a need is about. -/
def Need.Of (key : String) : Need → Prop
  | .cursorRow k => k = key
  | .cursorLock k => k = key
  | .indexEntry k _ => k = key
  | .nothing => True

theorem TxInv.need_of (h : TxInv db key x) : x.need.Of key := by
  have hholding := h.holding
  unfold Tx.need
  split
  · split
    · trivial
    · rename_i d rest htodo
      obtain ⟨d', hd', hkey⟩ := h.todo (.chained d) (by simp [htodo])
      exact (AuditWrite.chained.inj hd') ▸ hkey
    · rename_i d rest htodo
      obtain ⟨d', hd', -⟩ := h.todo (.plain d) (by simp [htodo])
      cases hd'
  · rename_i hd
    cases hholding with
    | nothing _ _ hnext => exact nomatch hnext.symm.trans hd
    | ensured d' _ _ hstage hkey => exact Stage.ensured.inj (hstage.symm.trans hd) ▸ hkey
    | cursor c _ _ hstage => rw [hd] at hstage; exact hstage
  · rename_i hd
    cases hholding with
    | nothing _ _ hnext => exact nomatch hnext.symm.trans hd
    | ensured d' _ _ hstage => exact nomatch hstage.symm.trans hd
    | cursor c _ _ hstage => rw [hd] at hstage; exact hstage.1
  · trivial

/-- Whoever keeps something of a chain from another transaction has that chain's cursor. -/
theorem holds_of_keptBy {key key' : String} {need : Need} (h : TxInv db key' x)
    (hneed : need.Of key) (hkept : need.keptBy db x) : key' = key ∧ x.cursors ≠ [] := by
  have hcursor : ∀ k, x.cursors.any (·.chainKey = k) → key' = k ∧ x.cursors ≠ [] := by
    intro k hk
    obtain ⟨c, hc, hck⟩ := any_eq_true.mp hk
    exact ⟨(h.chainKey_of_cursor hc).symm.trans (of_decide_eq_true hck), ne_nil_of_mem hc⟩
  cases need with
  | cursorRow k =>
    obtain rfl : k = key := hneed
    exact hcursor k (Bool.and_eq_true_iff.mp hkept).1
  | cursorLock k =>
    obtain rfl : k = key := hneed
    exact hcursor k hkept
  | indexEntry k =>
    obtain rfl : k = key := hneed
    obtain ⟨r, hr, hrk⟩ := any_eq_true.mp hkept
    obtain ⟨hkey, hne⟩ := h.chainKey_of_row hr
    exact ⟨hkey.symm.trans (of_decide_eq_true hrk).1, hne⟩
  | nothing => cases hkept

/-! ## One access -/

/-- The access succeeds, and a cursor it is the first to hold was free. -/
structure Proceeds (db : AuditTables) (key : String) (x x' : Tx) : Prop where
  inv : TxInv db key x'
  phase : x'.phase = x.phase
  taken : x.cursors = [] → x'.cursors ≠ [] →
    x.need = .cursorLock key ∨ x.need = .cursorRow key ∧ db.cursors.any (·.chainKey = key) = false

theorem cursor_of_not_any (h : db.cursors.any (·.chainKey = key) = false) : db.cursor key = genesis key := by
  have hnone : db.cursors.find? (·.chainKey = key) = none := by simpa using h
  unfold AuditTables.cursor standing
  rw [hnone]
  rfl

theorem findCursor_of_any (h : db.cursors.any (·.chainKey = key)) :
    findCursor db.cursors key = .ok (db.cursor key) ∧ (db.cursor key).chainKey = key := by
  obtain ⟨c, hc⟩ := Option.ne_none_iff_exists'.mp (any_iff_find?.mp h)
  have hcursor : db.cursor key = c := by
    unfold AuditTables.cursor standing
    rw [hc]
    rfl
  rw [hcursor]
  exact ⟨by unfold findCursor; rw [hc], (Table.of_find? hc).2⟩

section
variable (h : TxInv db key x)
include h

variable {d : AuditData}

theorem access_chained (s : Stamp) (hstage : x.stage = .next) {rest : List AuditWrite}
    (htodo : x.todo = .chained d :: rest) : ∃ x', x.access db s = .ok x' ∧ Proceeds db key x x' := by
  have hd : d.chainKey = key := by
    obtain ⟨d', hd', hkey⟩ := h.todo (.chained d) (by simp [htodo])
    exact AuditWrite.chained.inj hd' ▸ hkey
  have hrest : OneChain key rest := fun w hw => h.todo w (by simp [htodo, hw])
  have haccess : x.access db s = .ok { x with
      todo := rest, stage := .ensured d
      cursors := if (x.cursors ++ db.cursors).any (·.chainKey = key) then x.cursors
        else x.cursors ++ [genesis key] } := by
    simp only [Tx.access, hstage, htodo, hd]
  refine ⟨_, haccess, ⟨hrest, ?_⟩, rfl, ?_⟩
  · cases h.holding with
    | nothing hrows hcursors =>
      by_cases hany : db.cursors.any (·.chainKey = key)
      · exact .ensured d hrows (by simp [hcursors, hany]) rfl hd hany
      · refine .cursor (genesis key) (by simp [hcursors, hany]) rfl hd ?_
        show Linked key (db.cursor key) x.rows (genesis key)
        rw [hrows, cursor_of_not_any (Bool.eq_false_iff.mpr hany)]
        rfl
    | ensured d' _ _ hensured => exact nomatch hstage.symm.trans hensured
    | cursor c hcursors hkey _ hlinked =>
      rw [hstage] at hlinked
      exact .cursor c (by simp [hcursors, hkey]) hkey hd hlinked
  · intro hnone htaken
    right
    refine ⟨by simp [Tx.need, hstage, htodo, hd], ?_⟩
    by_contra hany
    simp [hnone, Bool.eq_true_of_not_eq_false hany] at htaken

theorem access_ensured (s : Stamp) (hstage : x.stage = .ensured d) :
    ∃ x', x.access db s = .ok x' ∧ Proceeds db key x x' := by
  have hlock : d.chainKey = key → x.need = .cursorLock key := fun hd => by simp [Tx.need, hstage, hd]
  cases h.holding with
  | nothing _ _ hnext => exact nomatch hnext.symm.trans hstage
  | ensured d' hrows hcursors hensured hd hany =>
    obtain rfl := Stage.ensured.inj (hensured.symm.trans hstage)
    obtain ⟨hfind, hkey⟩ := findCursor_of_any hany
    have haccess : x.access db s =
        .ok { x with stage := .locked d' (db.cursor key), cursors := [db.cursor key] } := by
      simp only [Tx.access, hstage, hcursors, hd, nil_append, hfind]
      rfl
    refine ⟨_, haccess, ⟨h.todo, .cursor (db.cursor key) rfl hkey ⟨hd, rfl⟩ ?_⟩, rfl, fun _ _ => .inl (hlock hd)⟩
    show Linked key (db.cursor key) x.rows (db.cursor key)
    rw [hrows]
    rfl
  | cursor c hcursors hkey hof hlinked =>
    rw [hstage] at hof hlinked
    have hd : d.chainKey = key := hof
    have haccess : x.access db s = .ok { x with stage := .locked d c, cursors := [c] } := by
      have hfind : findCursor (x.cursors ++ db.cursors) key = .ok c := by simp [findCursor, hcursors, hkey]
      simp only [Tx.access, hstage, hd, hfind]
      simp [hcursors, hkey, bind, Except.bind, pure, Except.pure]
    exact ⟨_, haccess, ⟨h.todo, .cursor c rfl hkey ⟨hd, rfl⟩ hlinked⟩, rfl,
      fun hnone => absurd hnone (by simp [hcursors])⟩

theorem access_locked (hdb : Linked key (genesis key) (chainRows db.logs key) (db.cursor key)) (s : Stamp)
    {c' : AuditChainCursor} (hstage : x.stage = .locked d c') :
    ∃ x', x.access db s = .ok x' ∧ Proceeds db key x x' := by
  cases h.holding with
  | nothing _ _ hnext => exact nomatch hnext.symm.trans hstage
  | ensured d' _ _ hensured => exact nomatch hensured.symm.trans hstage
  | cursor c hcursors hkey hof hlinked =>
    rw [hstage] at hof hlinked
    obtain ⟨rfl, rfl⟩ := hof
    have hrows : chainRows (db.logs ++ x.rows) d.chainKey = chainRows db.logs d.chainKey ++ x.rows := by
      rw [chainRows_append_of (chainKey_of_linked hlinked), if_pos rfl]
    have hseen : Linked d.chainKey (genesis d.chainKey) (chainRows (db.logs ++ x.rows) d.chainKey) c' :=
      hrows ▸ hdb.trans hlinked
    have haccess : x.access db s = .ok { x with
        stage := .inserted (nextRecord c' d s), rows := x.rows ++ [nextRecord c' d s] } := by
      have hinsert := insertLog_eq_ok.mpr ⟨no_clash_of_linked (s := s) hseen, rfl⟩
      simp only [Tx.access, hstage, hinsert]
      rfl
    refine ⟨_, haccess, ⟨h.todo, .cursor c' hcursors hkey rfl ?_⟩, rfl, fun hnone => absurd hnone (by simp [hcursors])⟩
    exact hlinked.trans ⟨follows_nextRecord c' d s, rfl⟩

theorem access_inserted (s : Stamp) (hstage : x.stage = .inserted r) :
    ∃ x', x.access db s = .ok x' ∧ Proceeds db key x x' := by
  cases h.holding with
  | nothing _ _ hnext => exact nomatch hnext.symm.trans hstage
  | ensured d' _ _ hensured => exact nomatch hensured.symm.trans hstage
  | cursor c hcursors hkey hof hlinked =>
    rw [hstage] at hof hlinked
    have hr : r.chainKey = key := hof
    have haccess : x.access db s = .ok { x with stage := .next, cursors := [cursorAfter r] } := by
      simp [Tx.access, hstage, hcursors, advanceCursor, setCursor, Table.update, hkey, hr, cursorAfter]
    exact ⟨_, haccess, ⟨h.todo, .cursor (cursorAfter r) rfl hr trivial hlinked⟩, rfl,
      fun hnone => absurd hnone (by simp [hcursors])⟩

theorem access_proceeds (hdb : Linked key (genesis key) (chainRows db.logs key) (db.cursor key)) (s : Stamp)
    (hmore : ¬ (x.stage = .next ∧ x.todo = [])) : ∃ x', x.access db s = .ok x' ∧ Proceeds db key x x' := by
  cases hstage : x.stage with
  | next =>
    cases htodo : x.todo with
    | nil => exact absurd ⟨hstage, htodo⟩ hmore
    | cons w =>
      obtain ⟨d, rfl, -⟩ := h.todo w (by simp [htodo])
      exact access_chained h s hstage htodo
  | ensured => exact access_ensured h s hstage
  | locked => exact access_locked h hdb s hstage
  | inserted => exact access_inserted h s hstage

end

/-! ## Commit -/

theorem find?_publish (cursors : List AuditChainCursor) (c : AuditChainCursor) (key : String) :
    (publish cursors c).find? (·.chainKey = key) =
      if key = c.chainKey then some c else cursors.find? (·.chainKey = key) := by
  unfold publish
  split
  · rename_i hany
    rw [find?_setCursor]
    by_cases hk : key = c.chainKey
    · subst hk
      obtain ⟨c', hc'⟩ := Option.ne_none_iff_exists'.mp (any_iff_find?.mp hany)
      rw [hc', if_pos rfl]
      simp
    · simp [hk]
  · rename_i hnone
    by_cases hk : key = c.chainKey
    · subst hk
      have hfind : cursors.find? (·.chainKey = c.chainKey) = none := find?_eq_none.mpr (by simpa using hnone)
      simp [hfind]
    · simp [hk, Ne.symm hk]

variable {cursors : List AuditChainCursor} {q : Fin n} {x' : Tx}

/-- A commit keeps every chain linked; only the cursor the transaction held moves. -/
theorem commit_honest (h : TxInv db key x) (hdb : Honest db) (hstage : x.stage = .next) : Honest (x.commit db) ∧
      (∀ k, db.cursors.any (·.chainKey = k) → (x.commit db).cursors.any (·.chainKey = k)) ∧
      ∀ k, (x.cursors ≠ [] → k ≠ key) → (x.commit db).cursor k = db.cursor k := by
  cases h.holding with
  | nothing hrows hcursors =>
    have hcommit : x.commit db = db := by simp [Tx.commit, hrows, hcursors]
    rw [hcommit]
    exact ⟨hdb, fun _ hk => hk, fun _ _ => rfl⟩
  | ensured d _ _ hensured => exact nomatch hstage.symm.trans hensured
  | cursor c hcursors hkey _ hlinked =>
    rw [hstage] at hlinked
    have hcommit : x.commit db = ⟨db.logs ++ x.rows, publish db.cursors c⟩ := by simp [Tx.commit, hcursors]
    have hcursor : ∀ k, (x.commit db).cursor k = if k = key then c else db.cursor k := by
      intro k
      rw [hcommit]
      unfold AuditTables.cursor standing
      rw [find?_publish, hkey]
      split <;> rfl
    refine ⟨fun k => ?_, fun k hk => ?_, fun k hk => ?_⟩
    · rw [hcursor k, hcommit, chainRows_append_of (chainKey_of_linked hlinked)]
      split
      · rename_i hk
        subst hk
        exact (hdb k).trans hlinked
      · exact hdb k
    · rw [hcommit, any_iff_find?, find?_publish]
      split
      · exact Option.some_ne_none c
      · exact any_iff_find?.mp hk
    · rw [hcursor k, if_neg (hk (by simp [hcursors]))]

/-! ## Any interleaving -/

structure Inv (keys : Fin n → String) (w : Store n) : Prop where
  honest : Honest w.db
  txs : ∀ p, (w.txs p).phase = .running → TxInv w.db (keys p) (w.txs p)
  exclusive : ∀ p q, p ≠ q → keys p = keys q → (w.txs p).phase = .running → (w.txs q).phase = .running →
    (w.txs p).cursors = [] ∨ (w.txs q).cursors = []
  unfailed : ∀ p e, (w.txs p).phase ≠ .failed e

variable {keys : Fin n → String} {w : Store n} {p : Fin n}

theorem inv_start {writes : Fin n → List AuditWrite} (h : ∀ p, OneChain (keys p) (writes p)) :
    Inv keys (start writes) where
  honest := honest_empty
  txs p _ := ⟨h p, .nothing rfl rfl rfl⟩
  exclusive _ _ _ _ _ _ := .inl rfl
  unfailed _ _ := nofun

section

variable (h : Inv keys w)

include h

/-- A transaction waits only for one that has the cursor of its own chain. -/
theorem Inv.holder_of_waits (hw : waitsFor w p q) : keys q = keys p ∧ (w.txs q).cursors ≠ [] := by
  obtain ⟨_, hp, hq, hkept⟩ := hw
  exact holds_of_keptBy (h.txs q hq) (h.txs p hp).need_of hkept

/-- So nobody waits for one that waits: there is no cycle to find. -/
theorem Inv.not_waits_twice {q r : Fin n} (hpq : waitsFor w p q) : ¬ waitsFor w q r := by
  intro hqr
  obtain ⟨_, hq⟩ := h.holder_of_waits hpq
  obtain ⟨hkey, hr⟩ := h.holder_of_waits hqr
  rcases h.exclusive q r hqr.1 hkey.symm hqr.2.1 hqr.2.2.1 with hnone | hnone
  · exact hq hnone
  · exact hr hnone

/-- Replacing one transaction's state, over the same tables. -/
theorem Inv.set
    (htx : x'.phase = .running → TxInv w.db (keys p) x') (hunfailed : ∀ e, x'.phase ≠ .failed e)
    (hfree : x'.phase = .running → x'.cursors ≠ [] → ∀ q, q ≠ p → keys q = keys p → (w.txs q).phase = .running →
      (w.txs q).cursors = []) : Inv keys (w.set p x') := by
  refine ⟨h.honest, (forall_update_iff w.txs fun q x => x.phase = .running → TxInv w.db (keys q) x).mpr
      ⟨htx, fun q _ => h.txs q⟩, forall_pairs_moved w.txs (fun q r x y => keys q = keys r → x.phase = .running →
      y.phase = .running → x.cursors = [] ∨ y.cursors = []) h.exclusive fun q hq =>
        ⟨fun hkey hx hy => ?_, fun hkey hy hx => ?_⟩,
    (forall_update_iff w.txs fun _ x => ∀ e, x.phase ≠ .failed e).mpr ⟨hunfailed, fun q _ => h.unfailed q⟩⟩
  · exact or_iff_not_imp_left.mpr fun hne => hfree hx hne q hq hkey.symm hy
  · exact or_iff_not_imp_right.mpr fun hne => hfree hx hne q hq hkey hy

theorem Inv.commit (hp : (w.txs p).phase = .running) (hstage : (w.txs p).stage = .next) :
    Inv keys ({ w with db := (w.txs p).commit w.db }.set p { w.txs p with phase := .committed }) := by
  obtain ⟨hhonest, hany, hcursor⟩ := commit_honest (h.txs p hp) h.honest hstage
  have hended : Inv keys (w.set p { w.txs p with phase := .committed }) := h.set nofun (fun _ => nofun) nofun
  refine ⟨hhonest, fun q hq => (hended.txs q hq).transfer (hany _) fun hheld => hcursor (keys q) fun hpheld hkey => ?_,
    hended.exclusive, hended.unfailed⟩
  by_cases hqp : q = p
  · subst hqp
    simp only [Store.set, update_self] at hq
    cases hq
  · simp only [Store.set, update_of_ne hqp] at hq hheld
    rcases h.exclusive q p hqp hkey hq hp with hnone | hnone
    · exact hheld hnone
    · exact hpheld hnone

/-- A transaction that does not wait and takes a cursor is the only one that has it. -/
theorem Inv.free_of_taken
    (hp : (w.txs p).phase = .running) (hwait : ∀ q, ¬ waitsFor w p q) (hx' : Proceeds w.db (keys p) (w.txs p) x')
    (htaken : x'.cursors ≠ []) (hqp : q ≠ p) (hkey : keys q = keys p) (hq : (w.txs q).phase = .running) :
    (w.txs q).cursors = [] := by
  by_contra hheld
  by_cases hown : (w.txs p).cursors = []
  · obtain ⟨c, hc⟩ := exists_mem_of_ne_nil _ hheld
    have hany : (w.txs q).cursors.any (·.chainKey = keys p) :=
      any_eq_true.mpr ⟨c, hc, decide_eq_true (((h.txs q hq).chainKey_of_cursor hc).trans hkey)⟩
    refine hwait q ⟨hqp.symm, hp, hq, ?_⟩
    rcases hx'.taken hown htaken with hneed | ⟨hneed, hnew⟩
    · rw [hneed]
      exact hany
    · rw [hneed]
      exact Bool.and_eq_true_iff.mpr ⟨hany, by rw [hnew]; rfl⟩
  · rcases h.exclusive q p hqp hkey hq hp with hnone | hnone
    · exact hheld hnone
    · exact hown hnone

theorem step_inv {w' : Store n} {e : Event n} (hstep : step w e = some w') : Inv keys w' := by
  cases e with
  | access p s =>
    simp only [step] at hstep
    split at hstep
    · cases hstep
    · rename_i hready
      obtain ⟨hp, hwait⟩ := not_or.mp hready
      have hp : (w.txs p).phase = .running := not_not.mp hp
      split at hstep
      · rename_i hend
        cases hstep
        exact h.commit hp hend.1
      · rename_i hmore
        obtain ⟨x', haccess, hx'⟩ := access_proceeds (h.txs p hp) (h.honest _) s hmore
        rw [haccess] at hstep
        cases hstep
        have hrunning : x'.phase = .running := hx'.phase.trans hp
        refine h.set (fun _ => hx'.inv) (fun e he => nomatch hrunning.symm.trans he) fun _ htaken q hqp hkey hq => ?_
        exact h.free_of_taken hp (not_exists.mp hwait) hx' htaken hqp hkey hq
  | rollback =>
    obtain ⟨-, rfl⟩ := enabled hstep
    exact h.set nofun (fun _ => nofun) nofun
  | deadlock cycle =>
    cases cycle with
    | nil => cases hstep
    | cons p rest =>
      obtain ⟨hcycle, -⟩ := enabled hstep
      exfalso
      cases rest with
      | nil => exact (isChain_cons_cons.mp hcycle).1.1 rfl
      | cons q rest =>
        obtain ⟨hpq, hrest⟩ := isChain_cons_cons.mp hcycle
        cases rest with
        | nil | cons => exact h.not_waits_twice hpq (isChain_cons_cons.mp hrest).1

end

/-! ## The chains -/

/-- Every chain counts 1..n and verifies, and no transaction was ended for an audit write. -/
structure ChainsKept (w : Store n) : Prop where
  sequences : ∀ key, (chainRows w.db.logs key).map AuditLog.sequence =
    (List.range (chainRows w.db.logs key).length).map fun i : Nat => 1 + (i : Int)
  verified : ∀ organizationId, Verifies w.db.logs organizationId
  unfailed : ∀ p e, (w.txs p).phase ≠ .failed e

/-- Chained writes to one chain per transaction keep every chain, however they interleave. -/
theorem chains_kept (writes : Fin n → List AuditWrite) (hone : ∀ p, ∃ key, OneChain key (writes p)) (w : Store n)
    (hrun : Run step anyStep (start writes) w) : ChainsKept w := by
  obtain ⟨keys, hkeys⟩ := Classical.skolem.mp hone
  have hinv : Inv keys w := hrun.invariant (inv_start hkeys) fun _ _ _ hi _ hs => step_inv hi hs
  exact ⟨fun key => sequence_of_linked (hinv.honest key), fun _ => verifies_of_linked (hinv.honest _), hinv.unfailed⟩

/-! ## Two transactions -/

def redriven : AuditData :=
  ⟨"User", some "user-1", "WEBHOOK_DELIVERY_REDRIVEN", "WebhookDelivery", some "delivery-1", none, some "org-1", none⟩

def stampAt (id : String) : Stamp := ⟨id, .epoch⟩

/-- Both append to the chain of one organization, the second when the first has committed. -/
theorem two_appends_kept : ∃ w, Run step anyStep (start fun _ : Fin 2 => [.chained redriven]) w ∧
    w.db.logs.length = 2 ∧ ChainsKept w := by
  refine Run.exists_and (P := fun w => w.db.logs.length = 2)
    ([0, 0, 0, 0, 0, 1, 1, 1, 1, 1].map fun p => .access p (stampAt "log")) fun w hrun hlength => ?_
  have hone : ∀ p : Fin 2, ∃ key, OneChain key [.chained redriven] := fun _ => ⟨"org-1", by
    intro write hwrite
    exact ⟨redriven, mem_singleton.mp hwrite, rfl⟩⟩
  exact ⟨hlength, chains_kept _ hone w hrun⟩

/-- `redrive` records the operator's decision with `tx.auditLog.create`: the first record breaks the
    system chain, the second one ends its transaction. -/
theorem plain_create_breaks : ∃ w : Store 2, Run step anyStep (start fun _ : Fin 2 => [.plain redriven]) w ∧
    (w.txs 0).phase = .committed ∧ ¬ Verifies w.db.logs none ∧
    (w.txs 1).phase = .failed (.uniqueViolation ["chainKey", "sequence"]) := by
  refine Run.exists_and (P := fun w => w.db.logs = [defaultRecord redriven (stampAt "log")] ∧
      (w.txs 0).phase = .committed ∧ (w.txs 1).phase = .failed (.uniqueViolation ["chainKey", "sequence"]))
    ([0, 0, 1].map fun p => .access p (stampAt "log")) fun w _ hw => ?_
  obtain ⟨hlogs, hfirst, hsecond⟩ := hw
  refine ⟨hfirst, ?_, hsecond⟩
  have hunique : UniqueSequences w.db.logs SYSTEM_CHAIN_KEY := by
    rw [hlogs]
    exact nodup_singleton _
  intro hverified
  -- the stored hash is empty, and no digest is
  have hsealed : Sealed SYSTEM_CHAIN_KEY (defaultRecord redriven (stampAt "log")) := by
    have hintact := (@verifyChain_ok_iff _ none hunique).mp hverified
    rw [hlogs] at hintact
    exact hintact.1 _ mem_cons_self
  have hlength : ("" : String).toList.length = 64 := by
    conv_lhs => rw [show ("" : String) = _ from (computeAuditHash_eq_ok hsealed).2]
    exact Sha256.length_hex _
  exact absurd hlength (by decide)

end EarnProof.Audit.Writers
