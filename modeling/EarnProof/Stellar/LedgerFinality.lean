/-
  EarnProof.Stellar.LedgerFinality — `src/stellar/ledger-finality.ts`: the pure rules by
  which a payment sync re-proves its checkpoint, judges the order of a read and decides
  how far a reconciliation read covered the ledger.

  A paging token is its number: a text that is not a decimal of at most twenty digits
  below `2^64` never gets past `normalizeRecord`, and the rules compare tokens as
  integers. `Number.MAX_SAFE_INTEGER`, which the coverage rule returns for "nothing", is
  kept as it is.
-/
import EarnProof.Lib.Calendar

namespace EarnProof.Stellar

open Lib.Calendar

/-! ## What Horizon reports -/

structure NormalizedPayment where
  operationId : String
  /-- Absent on some synthetic records. -/
  pagingToken : Option Nat
  stellarTransactionHash : String
  sourceAddress : String
  destinationAddress : String
  assetCode : String
  assetIssuer : Option String
  amount : String
  occurredAt : Date
  deriving DecidableEq

structure HorizonLedgerSummary where
  sequence : Nat
  hash : String
  deriving DecidableEq

structure HorizonOperationSummary where
  id : String
  pagingToken : Nat
  transactionHash : String
  deriving DecidableEq

inductive HorizonReadOrder where
  | asc | desc
  deriving DecidableEq

inductive StopReason where
  | exhausted | pageBound | recordBound | timeBound | repeatedCursor | ledgerBound
  deriving DecidableEq

structure HorizonReadResult where
  payments : List NormalizedPayment
  stopReason : StopReason
  lastCursor : Option Nat
  deriving DecidableEq

inductive DivergenceReason where
  | ledgerHashMismatch | ledgerMissing | checkpointRecordMissing | checkpointRecordReplaced | outOfOrder
  | recordReplaced
  deriving DecidableEq

structure CheckpointClaim where
  pagingToken : Nat
  operationId : String
  transactionHash : String
  ledgerSequence : Nat
  ledgerHash : String
  deriving DecidableEq

/-! ## Tokens and ledgers -/

def LEDGER_SHIFT : Nat := 32

def ledgerOf (token : Nat) : Option Nat :=
  let sequence := token / 2 ^ LEDGER_SHIFT
  if 0 < sequence ∧ sequence ≤ 0x7fffffff then some sequence else none

def ledgerSequenceFromPagingToken (token : Option Nat) : Option Nat := token.bind ledgerOf

def pagingTokenFloorForLedger (ledgerSequence : Nat) : Nat := max 1 ledgerSequence * 2 ^ LEDGER_SHIFT

def reconciliationFloorLedger (checkpointLedger historyLedgers : Nat) : Nat :=
  max 1 (checkpointLedger - historyLedgers)

theorem ledgerOf_eq_some {token ledger : Nat} (h : ledgerOf token = some ledger) :
    token / 2 ^ LEDGER_SHIFT = ledger ∧ 0 < ledger := by
  obtain ⟨hpos, h⟩ := Option.ite_none_right_eq_some.mp h
  cases h
  exact ⟨rfl, hpos.1⟩

/-- A later ledger has the larger tokens. -/
theorem token_lt_of_ledger_lt {a b la lb : Nat} (ha : ledgerOf a = some la) (hb : ledgerOf b = some lb) (h : la < lb) :
    a < b := by
  obtain ⟨rfl, -⟩ := ledgerOf_eq_some ha
  obtain ⟨rfl, -⟩ := ledgerOf_eq_some hb
  exact lt_of_not_ge fun hle => absurd (Nat.div_le_div_right (c := 2 ^ LEDGER_SHIFT) hle) (not_le.mpr h)

theorem floor_le_token {token ledger floor : Nat} (h : ledgerOf token = some ledger) (hfloor : floor ≤ ledger) :
    pagingTokenFloorForLedger floor ≤ token := by
  obtain ⟨rfl, hpos⟩ := ledgerOf_eq_some h
  calc max 1 floor * 2 ^ LEDGER_SHIFT
      ≤ token / 2 ^ LEDGER_SHIFT * 2 ^ LEDGER_SHIFT := Nat.mul_le_mul_right _ (max_le hpos hfloor)
    _ ≤ token := Nat.div_mul_le_self token _

/-! ## Divergence -/

/-- `checkpointDivergence`; `lower` is `toLowerCase`. -/
def checkpointDivergence (lower : String → String) (checkpoint : CheckpointClaim)
    (ledger : Option HorizonLedgerSummary) (operation : Option HorizonOperationSummary) : Option DivergenceReason :=
  match ledger with
  | none => some .ledgerMissing
  | some l =>
    if l.sequence ≠ checkpoint.ledgerSequence then some .ledgerMissing
    else if lower l.hash ≠ lower checkpoint.ledgerHash then some .ledgerHashMismatch
    else
      match operation with
      | none => some .checkpointRecordMissing
      | some o =>
        if o.id ≠ checkpoint.operationId ∨ o.transactionHash ≠ checkpoint.transactionHash ∨
            o.pagingToken ≠ checkpoint.pagingToken then some .checkpointRecordReplaced
        else none

def HorizonReadOrder.follows : HorizonReadOrder → Nat → Nat → Bool
  | .asc, previous, current => previous < current
  | .desc, previous, current => current < previous

/-- The loop of `isReadOrdered`. -/
def orderedFrom (order : HorizonReadOrder) : Option Nat → List NormalizedPayment → Bool
  | _, [] => true
  | previous, p :: ps =>
    match p.pagingToken with
    | none => false
    | some current => (previous.all fun q => order.follows q current) && orderedFrom order (some current) ps

variable (payments : List NormalizedPayment)

def isReadOrdered (order : HorizonReadOrder) (afterPagingToken : Option Nat) : Bool :=
  orderedFrom order (if order = .asc then afterPagingToken else none) payments

structure StoredOperation where
  operationId : String
  transactionHash : String
  userId : String
  deriving DecidableEq

/-- `replacedOperationIds`, in the order of the read: its callers use the length and
    membership. -/
def replacedOperationIds (incoming : List NormalizedPayment) (stored : List StoredOperation) (ownerId : String) :
    List String :=
  (incoming.filter fun p =>
    (stored.find? fun row => row.operationId = p.operationId).any fun row =>
      row.transactionHash ≠ p.stellarTransactionHash ∨ row.userId ≠ ownerId).map (·.operationId)

/-! ## Anchors and coverage -/

/-- `newestAnchor`, with its token. -/
def newestAnchor : Option (NormalizedPayment × Nat) :=
  payments.foldl (fun best p =>
    match ledgerSequenceFromPagingToken p.pagingToken, p.pagingToken with
    | some _, some token => if best.all fun b => b.2 < token then some (p, token) else best
    | _, _ => best) none

def MAX_SAFE_INTEGER : Nat := 9007199254740991

def oldestLedger : Option Nat :=
  (payments.filterMap fun p => ledgerSequenceFromPagingToken p.pagingToken).min?

def reconciliationCoverageLedger (stopReason : StopReason) (floorLedger : Nat) : Nat :=
  if stopReason = .exhausted ∨ stopReason = .ledgerBound then floorLedger
  else
    match oldestLedger payments with
    | none => MAX_SAFE_INTEGER
    | some oldest => max floorLedger (oldest + 1)

theorem floor_le_coverage {payments : List NormalizedPayment} {stopReason : StopReason} {floorLedger : Nat}
    (h : reconciliationCoverageLedger payments stopReason floorLedger ≠ MAX_SAFE_INTEGER) :
    floorLedger ≤ reconciliationCoverageLedger payments stopReason floorLedger := by
  unfold reconciliationCoverageLedger at h ⊢
  split
  · exact le_refl _
  · rename_i hstop
    rw [if_neg hstop] at h
    cases ho : oldestLedger payments with
    | none => rw [ho] at h; exact absurd rfl h
    | some => exact le_max_left _ _

end EarnProof.Stellar
