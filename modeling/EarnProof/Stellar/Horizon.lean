/-
  EarnProof.Stellar.Horizon — the bounded walk of `src/stellar/horizon-client.ts` over an
  account's payments feed: `normalizeRecord`, and `read` with its page, record, time and
  ledger bounds.

  The client sees the feed through the pages it is served. `Feed` is the feed as Horizon
  keeps it, and serves a page as Horizon does: the records past the cursor, at most
  `limit` of them, with the last one's token as the next cursor. A page that cannot be
  fetched ends the read with an error and is not modelled; a record that does not have the
  declared shape is skipped like every malformed one.

  Proved: a read of a feed returns what a prefix of the records past its cursor contains,
  the whole of it unless a bound stopped it, and resumes behind that prefix; only the
  record bound can leave records of its last page out, and it cannot where the record
  bound is at least as large as all pages together (`read_walks`).
-/
import EarnProof.Lib.Pages
import EarnProof.Lib.Table
import EarnProof.Stellar.LedgerFinality
import Mathlib.Data.List.Basic

namespace EarnProof.Stellar

open Lib.Calendar List

/-! ## Records -/

structure HorizonPaymentRecord where
  id : String
  paging_token : Option String
  type : String
  transaction_hash : String
  created_at : String
  «from» : Option String
  «to» : Option String
  asset_type : Option String
  asset_code : Option String
  asset_issuer : Option String
  amount : Option String
  deriving DecidableEq

def MAX_PAGING_TOKEN : Nat := 18446744073709551615

/-- `/^\d{1,20}$/`, and an unsigned 64-bit number. -/
def isPagingToken (value : String) : Bool :=
  value.toList ≠ [] ∧ value.toList.length ≤ 20 ∧ value.toList.all Char.isDigit ∧
    Nat.ofDigitChars 10 value.toList 0 ≤ MAX_PAGING_TOKEN

def parsePagingToken (value : String) : Option Nat :=
  if isPagingToken value then some (Nat.ofDigitChars 10 value.toList 0) else none

/-- `/^\d+(\.\d+)?$/`. -/
def isDecimalAmount (value : String) : Bool :=
  match value.toList.splitOn '.' with
  | [w] => w ≠ [] ∧ w.all Char.isDigit
  | [w, d] => w ≠ [] ∧ w.all Char.isDigit ∧ d ≠ [] ∧ d.all Char.isDigit
  | _ => false

inductive RecordOutcome where
  | malformed
  | notIncoming
  | incoming (payment : NormalizedPayment)
  deriving DecidableEq

/-- `normalizeRecord`; `parseDate` is `new Date(text)`, `none` for an invalid date. -/
def normalizeRecord (parseDate : String → Option Date) (record : HorizonPaymentRecord) (address : String) :
    RecordOutcome :=
  if record.id = "" then .malformed
  else if record.type ≠ "payment" then .notIncoming
  else if record.«to» ≠ some address then .notIncoming
  else if record.transaction_hash = "" then .malformed
  else
    match record.«from», record.amount, parseDate record.created_at with
    | some source, some amount, some occurredAt =>
      if source = "" then .malformed
      else if !isDecimalAmount amount then .malformed
      else if record.asset_type ≠ some "native" ∧ record.asset_code.isNone then .malformed
      else if record.paging_token.any fun t => !isPagingToken t then .malformed
      else
        .incoming
          { operationId := record.id, pagingToken := record.paging_token.bind parsePagingToken
            stellarTransactionHash := record.transaction_hash, sourceAddress := source, destinationAddress := address
            assetCode := if record.asset_type = some "native" then "XLM" else record.asset_code.getD ""
            assetIssuer := if record.asset_type = some "native" then none else record.asset_issuer
            amount, occurredAt }
    | _, _, _ => .malformed

variable {p : NormalizedPayment} {payments : List NormalizedPayment} {feed : Feed} {cursor : Option Nat}

/-- A check that a payment has passed. -/
theorem incoming_of_check {failed : Prop} [Decidable failed] {refused rest : RecordOutcome}
    (h : (if failed then refused else rest) = .incoming p) (hrefused : refused ≠ .incoming p) : rest = .incoming p := by
  by_cases hfailed : failed
  · rw [if_pos hfailed] at h
    exact absurd h hrefused
  · rw [if_neg hfailed] at h
    exact h

variable {parseDate : String → Option Date} {address : String}

theorem normalizeRecord_incoming {record : HorizonPaymentRecord}
    (h : normalizeRecord parseDate record address = .incoming p) :
    p.operationId = record.id ∧ p.pagingToken = record.paging_token.bind parsePagingToken ∧
      p.destinationAddress = address := by
  have hmalformed : RecordOutcome.malformed ≠ .incoming p := nofun
  have hother : RecordOutcome.notIncoming ≠ .incoming p := nofun
  have h := incoming_of_check (incoming_of_check h hmalformed) hother
  have h := incoming_of_check (incoming_of_check h hother) hmalformed
  split at h
  · have h := incoming_of_check (incoming_of_check h hmalformed) hmalformed
    have h := incoming_of_check (incoming_of_check h hmalformed) hmalformed
    obtain rfl := RecordOutcome.incoming.inj h
    exact ⟨rfl, rfl, rfl⟩
  · exact absurd h hmalformed

/-! ## The read -/

structure HorizonReadOptions where
  notBefore : Option Date
  cursor : Option Nat
  order : HorizonReadOrder
  minPagingToken : Option Nat
  pageLimit : Nat
  maxPages : Nat
  maxRecords : Nat
  deriving DecidableEq

def DEFAULT_PAGE_LIMIT : Nat := 200

def DEFAULT_MAX_PAGES : Nat := 10

def DEFAULT_MAX_RECORDS : Nat := 2000

structure ParsedPage where
  records : List HorizonPaymentRecord
  nextCursor : Option Nat
  deriving DecidableEq

variable (opts : HorizonReadOptions)

/-- The lower bound is for newest-first reads only. -/
def HorizonReadOptions.isBelow (p : NormalizedPayment) : Bool :=
  opts.order = .desc && opts.minPagingToken.any fun least => p.pagingToken.any fun token => token < least

def HorizonReadOptions.isEarlier (p : NormalizedPayment) : Bool :=
  opts.notBefore.any fun bound => p.occurredAt.ms < bound.ms

/-- The payments of a read, with the ids already accepted. -/
structure Accepted where
  payments : List NormalizedPayment
  seenOperationIds : List String
  tracked : ∀ id, id ∈ seenOperationIds ↔ id ∈ payments.map (·.operationId)

def Accepted.empty : Accepted := ⟨[], [], fun _ => Iff.rfl⟩

def Accepted.push (acc : Accepted) (p : NormalizedPayment) : Accepted where
  payments := acc.payments ++ [p]
  seenOperationIds := p.operationId :: acc.seenOperationIds
  tracked id := by rw [map_append, mem_append, mem_cons, acc.tracked, or_comm, map_singleton, mem_singleton]

/-- What a page has added to a read. -/
structure Scan extends Accepted where
  crossedTimeBound : Bool
  crossedLedgerBound : Bool

/-- The loop over the records of a page. -/
def scanPage (opts : HorizonReadOptions) (normalize : HorizonPaymentRecord → RecordOutcome) :
    Scan → List HorizonPaymentRecord → Scan
  | s, [] => s
  | s, r :: rs =>
    match normalize r with
    | .malformed => scanPage opts normalize s rs
    | .notIncoming => scanPage opts normalize s rs
    | .incoming p =>
      if opts.isEarlier p then
        scanPage opts normalize { s with crossedTimeBound := s.crossedTimeBound || opts.order = .desc } rs
      else if opts.isBelow p then scanPage opts normalize { s with crossedLedgerBound := true } rs
      else if p.operationId ∈ s.seenOperationIds then scanPage opts normalize s rs
      else if opts.maxRecords ≤ s.payments.length + 1 then { s with toAccepted := s.push p }
      else scanPage opts normalize { s with toAccepted := s.push p } rs

/-- The loop over the pages, by the pages it may still fetch. What a fetch is answered may
    change from one to the next, also for the same cursor. -/
def readFrom (opts : HorizonReadOptions) (normalize : HorizonPaymentRecord → RecordOutcome)
    (serve : Nat → Option Nat → ParsedPage) :
    Nat → Option Nat → Option Nat → List Nat → Accepted → HorizonReadResult
  | 0, _, lastCursor, _, acc => ⟨acc.payments, .pageBound, lastCursor⟩
  | pages + 1, cursor, lastCursor, seenCursors, acc =>
    let page := serve pages cursor
    if page.records = [] then ⟨acc.payments, .exhausted, page.nextCursor.or lastCursor⟩
    else
      let s := scanPage opts normalize ⟨acc, false, false⟩ page.records
      if opts.maxRecords ≤ s.payments.length then ⟨s.payments, .recordBound, page.nextCursor.or lastCursor⟩
      else if s.crossedTimeBound then ⟨s.payments, .timeBound, page.nextCursor.or lastCursor⟩
      else if s.crossedLedgerBound then ⟨s.payments, .ledgerBound, page.nextCursor.or lastCursor⟩
      else
        match page.nextCursor with
        | none => ⟨s.payments, .exhausted, none⟩
        | some next =>
          if next ∈ seenCursors ∨ cursor = some next then ⟨s.payments, .repeatedCursor, some next⟩
          else readFrom opts normalize serve pages (some next) (some next) (next :: seenCursors) s.toAccepted

def HorizonReadOptions.read (normalize : HorizonPaymentRecord → RecordOutcome)
    (serve : Nat → Option Nat → ParsedPage) : HorizonReadResult :=
  readFrom opts normalize serve opts.maxPages opts.cursor opts.cursor [] .empty

/-! ## A feed -/

structure FeedRecord where
  token : Nat
  record : HorizonPaymentRecord
  deriving DecidableEq

/-- The records of an account, newest first. -/
abbrev Feed := List FeedRecord

def HorizonReadOrder.walk (order : HorizonReadOrder) (feed : Feed) : Feed :=
  match order with
  | .desc => feed
  | .asc => feed.reverse

/-- The records past a cursor, in the order they are walked. -/
def Feed.past (feed : Feed) (order : HorizonReadOrder) (cursor : Option Nat) : List FeedRecord :=
  (order.walk feed).filter fun r => cursor.all fun k => order.follows k r.token

/-- The page Horizon serves. The next link of an empty page repeats the cursor. -/
def Feed.serve (feed : Feed) (order : HorizonReadOrder) (limit : Nat) (cursor : Option Nat) : ParsedPage :=
  let page := (feed.past order cursor).take limit
  ⟨page.map (·.record), (page.getLast?.map (·.token)).or cursor⟩

/-! ## What a page adds -/

/-- A record's effect on the payments of a read, whatever their number. -/
def HorizonReadOptions.accept (payments : List NormalizedPayment) : RecordOutcome → List NormalizedPayment
  | .incoming p =>
    if opts.isEarlier p ∨ opts.isBelow p ∨ p.operationId ∈ payments.map (·.operationId) then payments
    else payments ++ [p]
  | _ => payments

def HorizonReadOptions.accepted (payments : List NormalizedPayment) (outcomes : List RecordOutcome) :
    List NormalizedPayment :=
  outcomes.foldl opts.accept payments

/-- The record shows that the walk is below the ledger bound. -/
def HorizonReadOptions.crosses : RecordOutcome → Bool
  | .incoming p => opts.isBelow p
  | _ => false

section Accept

variable (opts : HorizonReadOptions) (payments : List NormalizedPayment)

theorem accept_sublist (o : RecordOutcome) : payments.Sublist (opts.accept payments o) := by
  unfold HorizonReadOptions.accept
  split
  · split
    · exact Sublist.refl _
    · exact sublist_append_left _ _
  · exact Sublist.refl _

theorem accepted_sublist (os : List RecordOutcome) : payments.Sublist (opts.accepted payments os) := by
  induction os generalizing payments with
  | nil => exact Sublist.refl _
  | cons o os ih => exact (accept_sublist opts payments o).trans (ih _)

theorem length_accept_le (o : RecordOutcome) : (opts.accept payments o).length ≤ payments.length + 1 := by
  unfold HorizonReadOptions.accept
  split
  · split
    · omega
    · rw [length_append]; rfl
  · omega

theorem length_accepted_le (os : List RecordOutcome) :
    (opts.accepted payments os).length ≤ payments.length + os.length := by
  induction os generalizing payments with
  | nil => exact le_refl _
  | cons o os ih =>
    have hone := length_accept_le opts payments o
    have hrest := ih (opts.accept payments o)
    show (opts.accepted (opts.accept payments o) os).length ≤ _
    rw [length_cons]
    omega

end Accept

variable {opts : HorizonReadOptions} {os : List RecordOutcome} {q : NormalizedPayment}

/-- What is accepted was there, or came in. -/
theorem mem_accepted (h : q ∈ opts.accepted payments os) : q ∈ payments ∨ .incoming q ∈ os := by
  induction os generalizing payments with
  | nil => exact .inl h
  | cons o os ih =>
    rcases ih h with h | h
    · unfold HorizonReadOptions.accept at h
      split at h
      · split at h
        · exact .inl h
        · rcases Lib.Table.mem_append_row.mp h with h | rfl
          · exact .inl h
          · exact .inr mem_cons_self
      · exact .inl h
    · exact .inr (mem_cons_of_mem _ h)

/-- What comes in between the bounds is accepted. -/
theorem operationId_mem_accepted (hearlier : opts.isEarlier p = false)
    (hbelow : opts.isBelow p = false) (h : .incoming p ∈ os)
    (payments : List NormalizedPayment) : p.operationId ∈ (opts.accepted payments os).map (·.operationId) := by
  induction os generalizing payments with
  | nil => cases h
  | cons o os ih =>
    rcases mem_cons.mp h with rfl | h
    · have hnow : p.operationId ∈ (opts.accept payments (.incoming p)).map (·.operationId) := by
        unfold HorizonReadOptions.accept
        by_cases hseen : p.operationId ∈ payments.map (·.operationId)
        · simp only [hearlier, hbelow, hseen, or_true, if_true]
        · simp [hearlier, hbelow, hseen]
      exact ((accepted_sublist opts _ os).map _).subset hnow
    · exact ih h _

/-- A page whose records `used` were looked at and `cut` were not. -/
structure Taken (opts : HorizonReadOptions) (normalize : HorizonPaymentRecord → RecordOutcome) (s : Scan)
    (rs : List HorizonPaymentRecord) (t : Scan) (used cut : List HorizonPaymentRecord) : Prop where
  split : rs = used ++ cut
  payments : t.payments = opts.accepted s.payments (used.map normalize)
  crossed : t.crossedLedgerBound →
    s.crossedLedgerBound ∨ ∃ r ∈ used, opts.crosses (normalize r)
  full : cut ≠ [] → opts.maxRecords ≤ t.payments.length
  room : s.payments.length + rs.length ≤ opts.maxRecords → cut = []

variable {opts : HorizonReadOptions} {normalize : HorizonPaymentRecord → RecordOutcome}

theorem Taken.cons {s s' t : Scan} {r : HorizonPaymentRecord} {rs used cut : List HorizonPaymentRecord}
    (h : Taken opts normalize s' rs t used cut) (hpayments : s'.payments = opts.accept s.payments (normalize r))
    (hcrossed : s'.crossedLedgerBound → s.crossedLedgerBound ∨ opts.crosses (normalize r)) :
    Taken opts normalize s (r :: rs) t (r :: used) cut where
  split := congrArg (r :: ·) h.split
  payments := by rw [h.payments, hpayments]; rfl
  crossed := by
    intro ht
    rcases h.crossed ht with hs | ⟨x, hx, hbelow⟩
    · rcases hcrossed hs with hs | hr
      · exact .inl hs
      · exact .inr ⟨r, mem_cons_self, hr⟩
    · exact .inr ⟨x, mem_cons_of_mem _ hx, hbelow⟩
  full := h.full
  room := by
    intro hroom
    have hone := length_accept_le opts s.payments (normalize r)
    rw [length_cons] at hroom
    exact h.room (by rw [hpayments]; omega)

section

variable (opts : HorizonReadOptions) (normalize : HorizonPaymentRecord → RecordOutcome)

/-- The loop goes on behind a record, or has reached the record bound with it. -/
theorem scanPage_cons (s : Scan) (r : HorizonPaymentRecord) (rs : List HorizonPaymentRecord) :
    ∃ s' : Scan, s'.payments = opts.accept s.payments (normalize r) ∧
      (s'.crossedLedgerBound → s.crossedLedgerBound ∨ opts.crosses (normalize r)) ∧
      (scanPage opts normalize s (r :: rs) = scanPage opts normalize s' rs ∨
        (scanPage opts normalize s (r :: rs) = s' ∧ opts.maxRecords ≤ s'.payments.length)) := by
  rw [scanPage]
  cases normalize r with
  | malformed | notIncoming => exact ⟨s, rfl, .inl, .inl rfl⟩
  | incoming p =>
    dsimp only
    split
    · rename_i hearlier
      refine ⟨{ s with crossedTimeBound := s.crossedTimeBound || opts.order = .desc }, ?_, .inl, .inl rfl⟩
      exact (if_pos (.inl hearlier)).symm
    · rename_i hearlier
      split
      · rename_i hbelow
        refine ⟨{ s with crossedLedgerBound := true }, ?_, fun _ => .inr hbelow, .inl rfl⟩
        exact (if_pos (.inr (.inl hbelow))).symm
      · rename_i hbelow
        split
        · rename_i hseen
          refine ⟨s, ?_, .inl, .inl rfl⟩
          exact (if_pos (.inr (.inr ((s.tracked _).mp hseen)))).symm
        · rename_i hseen
          have haccept : s.payments ++ [p] = opts.accept s.payments (.incoming p) :=
            (if_neg (not_or.mpr ⟨hearlier, not_or.mpr ⟨hbelow, mt (s.tracked _).mpr hseen⟩⟩)).symm
          split
          · rename_i hfull
            refine ⟨{ s with toAccepted := s.push p }, haccept, .inl, .inr ⟨rfl, ?_⟩⟩
            simpa [Accepted.push] using hfull
          · exact ⟨{ s with toAccepted := s.push p }, haccept, .inl, .inl rfl⟩

/-- The loop over a page takes its records in order and stops early only at the record
    bound. -/
theorem scanPage_takes (rs : List HorizonPaymentRecord) (s : Scan) :
    ∃ used cut, Taken opts normalize s rs (scanPage opts normalize s rs) used cut := by
  induction rs generalizing s with
  | nil => exact ⟨[], [], rfl, rfl, .inl, fun h => absurd rfl h, fun _ => rfl⟩
  | cons r rs ih =>
    obtain ⟨s', hpayments, hcrossed, heq | ⟨heq, hfull⟩⟩ := scanPage_cons opts normalize s r rs
    · obtain ⟨used, cut, htaken⟩ := ih s'
      rw [heq]
      exact ⟨r :: used, cut, htaken.cons hpayments hcrossed⟩
    · rw [heq]
      refine ⟨[r], rs, rfl, hpayments, fun h => ?_, fun _ => hfull, fun hroom => ?_⟩
      · exact (hcrossed h).imp id fun hr => ⟨r, mem_cons_self, hr⟩
      · have hone := length_accept_le opts s.payments (normalize r)
        rw [← hpayments] at hone
        rw [length_cons] at hroom
        exact eq_nil_of_length_eq_zero (by omega)

end

/-! ## No operation twice -/

theorem accept_distinct (h : (payments.map (·.operationId)).Nodup) (o : RecordOutcome) :
    ((opts.accept payments o).map (·.operationId)).Nodup := by
  unfold HorizonReadOptions.accept
  split
  · split
    · exact h
    · rename_i hnew
      refine Lib.Table.nodup_append_row h fun r hr hkey => hnew (.inr (.inr ?_))
      exact mem_map.mpr ⟨r, hr, hkey⟩
  · exact h

theorem accepted_distinct (h : (payments.map (·.operationId)).Nodup)
    (os : List RecordOutcome) : ((opts.accepted payments os).map (·.operationId)).Nodup := by
  induction os generalizing payments with
  | nil => exact h
  | cons o os ih => exact ih (accept_distinct h o)

variable {serve : Nat → Option Nat → ParsedPage} {before : Accepted}

theorem readFrom_distinct (pages : Nat) (cursor lastCursor : Option Nat) (seen : List Nat)
    (h : (before.payments.map (·.operationId)).Nodup) :
    ((readFrom opts normalize serve pages cursor lastCursor seen before).payments.map (·.operationId)).Nodup := by
  induction pages generalizing cursor lastCursor seen before with
  | zero => exact h
  | succ pages ih =>
    have hpage : ((scanPage opts normalize ⟨before, false, false⟩ (serve pages cursor).records).payments.map
        (·.operationId)).Nodup := by
      obtain ⟨used, cut, htaken⟩ :=
        scanPage_takes opts normalize (serve pages cursor).records ⟨before, false, false⟩
      rw [htaken.payments]
      exact accepted_distinct h _
    rw [readFrom]
    dsimp only
    split
    · exact h
    · repeat' split
      all_goals first | exact hpage | exact ih _ _ _ hpage

/-- A read has no operation twice, whatever pages it is served. -/
theorem read_distinct : ((opts.read normalize serve).payments.map (·.operationId)).Nodup :=
  readFrom_distinct _ _ _ _ nodup_nil

/-! ## The pages of a feed -/

variable {order : HorizonReadOrder}

theorem HorizonReadOrder.follows_trans {a b c : Nat} (hab : order.follows a b)
    (hbc : order.follows b c) : order.follows a c := by
  cases order
  · exact decide_eq_true (lt_trans (of_decide_eq_true hab) (of_decide_eq_true hbc))
  · exact decide_eq_true (lt_trans (of_decide_eq_true hbc) (of_decide_eq_true hab))

theorem HorizonReadOrder.follows_asymm (a b : Nat) (hab : order.follows a b) : order.follows b a = false := by
  cases order
  · exact decide_eq_false (lt_asymm (of_decide_eq_true hab))
  · exact decide_eq_false (lt_asymm (of_decide_eq_true hab))

/-- The records stand in the order of their positions. -/
def Feed.Sorted (feed : Feed) : Prop := feed.Pairwise fun a b => b.token < a.token

theorem Feed.Sorted.walk (h : feed.Sorted) (order : HorizonReadOrder) :
    (order.walk feed).Pairwise fun a b => order.follows a.token b.token := by
  cases order
  · exact pairwise_reverse.mpr (h.imp decide_eq_true)
  · exact h.imp decide_eq_true

theorem Feed.Sorted.past (h : feed.Sorted) (order : HorizonReadOrder) (cursor : Option Nat) :
    (feed.past order cursor).Pairwise fun a b => order.follows a.token b.token :=
  (h.walk order).filter _

/-- The records past the last one of a page are those behind the page. -/
theorem Feed.Sorted.past_last (h : feed.Sorted)
    {page rest : List FeedRecord} {last : FeedRecord} (hsplit : feed.past order cursor = page ++ rest)
    (hlast : page.getLast? = some last) : feed.past order (some last.token) = rest := by
  have hlater : ∀ r ∈ order.walk feed, order.follows last.token r.token →
      (cursor.all fun k => order.follows k r.token) := by
    intro r _ hr
    have hl : last ∈ feed.past order cursor := hsplit ▸ mem_append_left rest (mem_of_getLast? hlast)
    have hcursor := (mem_filter.mp hl).2
    cases cursor with
    | none => rfl
    | some => exact HorizonReadOrder.follows_trans hcursor hr
  have hinner : feed.past order (some last.token) =
      (feed.past order cursor).filter fun r => order.follows last.token r.token := by
    unfold Feed.past
    rw [filter_filter]
    refine filter_congr fun r hr => ?_
    show order.follows last.token r.token = _
    cases hf : order.follows last.token r.token with
    | false => rfl
    | true => rw [hlater r hr hf]; rfl
  rw [hinner, hsplit]
  exact Lib.Pages.filter_after_last (fun a b => HorizonReadOrder.follows_asymm a.token b.token)
    (hsplit ▸ h.past order cursor) hlast

/-! ## The walk -/

def outcomes (normalize : HorizonPaymentRecord → RecordOutcome) (records : List FeedRecord) : List RecordOutcome :=
  records.map fun r => normalize r.record

/-- A read of the records `due` from `cursor`: it looked at `used`, its record bound left
    out `cut` from the last page, and `rest` was never fetched. -/
structure Walked (opts : HorizonReadOptions) (normalize : HorizonPaymentRecord → RecordOutcome) (due : List FeedRecord)
    (cursor : Option Nat) (before : List NormalizedPayment) (result : HorizonReadResult)
    (used cut rest : List FeedRecord) : Prop where
  split : due = used ++ (cut ++ rest)
  payments : result.payments = opts.accepted before (outcomes normalize used)
  lastCursor : result.lastCursor = ((used ++ cut).getLast?.map (·.token)).or cursor
  exhausted : result.stopReason = .exhausted → cut = [] ∧ rest = []
  ledgerBound : result.stopReason = .ledgerBound → cut = [] ∧ ∃ r ∈ used, opts.crosses (normalize r.record)

variable {payments : List NormalizedPayment} {result : HorizonReadResult}

/-- A page in front of a walk. -/
theorem Walked.page {page due used cut rest : List FeedRecord} {last : FeedRecord} (hlast : page.getLast? = some last)
    (h : Walked opts normalize due (some last.token)
      (opts.accepted payments (outcomes normalize page)) result used cut rest) :
    Walked opts normalize (page ++ due) cursor payments result (page ++ used) cut rest where
  split := by rw [h.split, append_assoc]
  payments := by
    rw [h.payments]
    unfold outcomes HorizonReadOptions.accepted
    rw [map_append, foldl_append]
  lastCursor := by
    rw [h.lastCursor, append_assoc]
    generalize used ++ cut = walked
    rw [getLast?_append, hlast]
    cases walked.getLast? <;> rfl
  exhausted := h.exhausted
  ledgerBound := fun hstop =>
    (h.ledgerBound hstop).imp id fun ⟨r, hr, hcross⟩ => ⟨r, mem_append_right _ hr, hcross⟩

/-- A walk that ends with its first page. -/
theorem Walked.last {page rest pageUsed pageCut : List FeedRecord} (hpage : page = pageUsed ++ pageCut)
    (hpayments : result.payments = opts.accepted payments (outcomes normalize pageUsed))
    (hcursor : result.lastCursor = (page.getLast?.map (·.token)).or cursor)
    (hexhausted : result.stopReason ≠ .exhausted)
    (hbound : result.stopReason = .ledgerBound → pageCut = [] ∧ ∃ r ∈ pageUsed, opts.crosses (normalize r.record)) :
    Walked opts normalize (page ++ rest) cursor payments result pageUsed pageCut rest where
  split := by rw [hpage, append_assoc]
  payments := hpayments
  lastCursor := by rw [hcursor, hpage]
  exhausted := fun hstop => absurd hstop hexhausted
  ledgerBound := hbound

/-- A page with records ends the loop with what the page added, or the loop goes on behind
    it. -/
theorem readFrom_page (opts : HorizonReadOptions) (normalize : HorizonPaymentRecord → RecordOutcome)
    (serve : Nat → Option Nat → ParsedPage) (pages : Nat) (lastCursor : Option Nat) (seen : List Nat)
    {records : List HorizonPaymentRecord} {next : Nat}
    (hserve : serve pages cursor = ⟨records, some next⟩) (hne : records ≠ []) {scan : Scan}
    (hscan : scanPage opts normalize ⟨before, false, false⟩ records = scan) :
    (∃ reason, readFrom opts normalize serve (pages + 1) cursor lastCursor seen before =
      ⟨scan.payments, reason, some next⟩ ∧
      reason ≠ .exhausted ∧ (reason ≠ .recordBound → scan.payments.length < opts.maxRecords) ∧
      (reason = .ledgerBound → scan.crossedLedgerBound)) ∨
    (scan.payments.length < opts.maxRecords ∧
      readFrom opts normalize serve (pages + 1) cursor lastCursor seen before =
        readFrom opts normalize serve pages (some next) (some next) (next :: seen) scan.toAccepted) := by
  rw [readFrom, hserve]
  dsimp only
  rw [if_neg hne, hscan]
  by_cases hfull : opts.maxRecords ≤ scan.payments.length
  · rw [if_pos hfull]
    exact .inl ⟨_, rfl, by decide, fun h => absurd rfl h, nofun⟩
  rw [if_neg hfull]
  have hopen : scan.payments.length < opts.maxRecords := not_le.mp hfull
  by_cases htime : scan.crossedTimeBound
  · rw [if_pos htime]
    exact .inl ⟨_, rfl, by decide, fun _ => hopen, nofun⟩
  rw [if_neg htime]
  by_cases hledger : scan.crossedLedgerBound
  · rw [if_pos hledger]
    exact .inl ⟨_, rfl, by decide, fun _ => hopen, fun _ => hledger⟩
  rw [if_neg hledger]
  by_cases hrepeated : next ∈ seen ∨ cursor = some next
  · rw [if_pos hrepeated]
    exact .inl ⟨_, rfl, by decide, fun _ => hopen, nofun⟩
  rw [if_neg hrepeated]
  exact .inr ⟨hopen, rfl⟩

/-- The walk from any point of a read: by induction on the pages it may still fetch. -/
theorem readFrom_walks (hsorted : feed.Sorted) (hlimit : 0 < opts.pageLimit) (pages : Nat)
    (cursor : Option Nat) (seen : List Nat) (before : Accepted) :
    ∃ used cut rest, Walked opts normalize (feed.past opts.order cursor) cursor before.payments
        (readFrom opts normalize (fun _ => feed.serve opts.order opts.pageLimit) pages cursor cursor seen before)
        used cut rest ∧
      (before.payments.length + opts.pageLimit * pages ≤ opts.maxRecords → cut = []) := by
  induction pages generalizing cursor seen before with
  | zero =>
    refine ⟨[], [], feed.past opts.order cursor, ⟨rfl, rfl, rfl, fun h => ?_, fun h => ?_⟩, fun _ => rfl⟩ <;> cases h
  | succ pages ih =>
    obtain ⟨page, hpage⟩ : ∃ page, page = (feed.past opts.order cursor).take opts.pageLimit := ⟨_, rfl⟩
    have hsplit : feed.past opts.order cursor = page ++ (feed.past opts.order cursor).drop opts.pageLimit := by
      rw [hpage, take_append_drop]
    have hserve : feed.serve opts.order opts.pageLimit cursor =
        ⟨page.map (·.record), (page.getLast?.map (·.token)).or cursor⟩ := by
      rw [hpage]
      rfl
    generalize (feed.past opts.order cursor).drop opts.pageLimit = behind at hsplit
    cases hlast : page.getLast? with
    | none =>
      -- An empty page: nothing is past the cursor.
      obtain rfl := getLast?_eq_none_iff.mp hlast
      have hnil : feed.past opts.order cursor = [] := by
        rcases take_eq_nil_iff.mp hpage.symm with hzero | hnil
        · omega
        · exact hnil
      rw [readFrom, hserve]
      refine ⟨[], [], [], ⟨hnil, rfl, ?_, fun _ => ⟨rfl, rfl⟩, nofun⟩, fun _ => rfl⟩
      cases cursor <;> rfl
    | some last =>
      rw [hlast] at hserve
      have hne : page.map (·.record) ≠ [] := by
        intro hnil
        rw [map_eq_nil_iff.mp hnil] at hlast
        cases hlast
      obtain ⟨used, cut, htaken⟩ := scanPage_takes opts normalize (page.map (·.record)) ⟨before, false, false⟩
      obtain ⟨pageUsed, pageCut, rfl, rfl, rfl⟩ := map_eq_append_iff.mp htaken.split
      have hlength : (pageUsed ++ pageCut).length ≤ opts.pageLimit := by
        rw [hpage]
        exact length_take_le _ _
      generalize hscan : scanPage opts normalize ⟨before, false, false⟩ ((pageUsed ++ pageCut).map (·.record)) = scan
        at htaken
      have hpayments : scan.payments = opts.accepted before.payments (outcomes normalize pageUsed) := by
        rw [htaken.payments, map_map]
        rfl
      have hcut : scan.payments.length < opts.maxRecords → pageCut = [] := by
        intro h
        by_contra hne
        exact absurd (htaken.full fun hnil => hne (map_eq_nil_iff.mp hnil)) (not_le.mpr h)
      have hpages : before.payments.length + opts.pageLimit * (pages + 1) ≤ opts.maxRecords →
          before.payments.length + opts.pageLimit + opts.pageLimit * pages ≤ opts.maxRecords := by
        intro h
        rw [Nat.mul_add, Nat.mul_one] at h
        omega
      rw [hsplit]
      rcases readFrom_page opts normalize (fun _ => feed.serve opts.order opts.pageLimit) pages cursor seen
          hserve hne hscan with
        ⟨reason, heq, hexhausted, hopen, hledger⟩ | ⟨hopen, heq⟩
      · rw [heq]
        refine ⟨pageUsed, pageCut, behind, .last rfl hpayments (by rw [hlast]; rfl) hexhausted fun hreason =>
          ?_, fun h => ?_⟩
        · -- Below the ledger bound some record was, and no record was left out.
          refine ⟨hcut (hopen ?_), ?_⟩
          · rw [show reason = .ledgerBound from hreason]
            decide
          · rcases htaken.crossed (hledger hreason) with h | ⟨x, hx, hbelow⟩
            · cases h
            · obtain ⟨r, hr, rfl⟩ := mem_map.mp hx
              exact ⟨r, hr, hbelow⟩
        · refine map_eq_nil_iff.mp (htaken.room ?_)
          rw [length_map]
          show before.payments.length + _ ≤ _
          omega
      · rw [heq]
        obtain rfl := hcut hopen
        rw [append_nil] at hsplit hlast hlength ⊢
        rw [← hsorted.past_last hsplit hlast]
        obtain ⟨used, cut, rest, hwalked, hfits⟩ := ih (some last.token) (last.token :: seen) scan.toAccepted
        rw [hpayments] at hwalked hfits
        refine ⟨pageUsed ++ used, cut, rest, hwalked.page hlast, fun h => hfits ?_⟩
        have hgrown := length_accepted_le opts before.payments (outcomes normalize pageUsed)
        have hone : (outcomes normalize pageUsed).length = pageUsed.length := length_map _
        omega

/-- A read of a feed returns what a prefix of the records past its cursor contains. -/
theorem read_walks (normalize : HorizonPaymentRecord → RecordOutcome) (hsorted : feed.Sorted)
    (hlimit : 0 < opts.pageLimit) :
    ∃ used cut rest, Walked opts normalize (feed.past opts.order opts.cursor) opts.cursor []
        (opts.read normalize fun _ => feed.serve opts.order opts.pageLimit) used cut rest ∧
      (opts.pageLimit * opts.maxPages ≤ opts.maxRecords → cut = []) := by
  obtain ⟨used, cut, rest, hwalked, hfits⟩ := readFrom_walks hsorted hlimit opts.maxPages opts.cursor [] .empty
  exact ⟨used, cut, rest, hwalked, fun h => hfits ((Nat.zero_add _).trans_le h)⟩

/-- Every payment of a read is in the feed. -/
theorem read_mem (hsorted : feed.Sorted) (hlimit : 0 < opts.pageLimit)
    (hq : q ∈ (opts.read normalize fun _ => feed.serve opts.order opts.pageLimit).payments) :
    ∃ r ∈ feed, normalize r.record = .incoming q := by
  obtain ⟨used, cut, rest, hwalked, -⟩ := read_walks normalize hsorted hlimit
  rw [hwalked.payments] at hq
  rcases mem_accepted hq with hq | hq
  · cases hq
  · obtain ⟨r, hr, hn⟩ := mem_map.mp hq
    have hpast : r ∈ feed.past opts.order opts.cursor := hwalked.split ▸ mem_append_left _ hr
    have hwalk := (mem_filter.mp hpast).1
    refine ⟨r, ?_, hn⟩
    cases horder : opts.order with
    | asc => rw [horder] at hwalk; exact mem_reverse.mp hwalk
    | desc => rw [horder] at hwalk; exact hwalk

/-! ## Coverage of a newest-first read -/

/-- A record that is what Horizon has: its id is its position. -/
structure FeedRecord.WellFormed (parseDate : String → Option Date) (address : String) (r : FeedRecord) : Prop where
  readable : normalizeRecord parseDate r.record address ≠ .malformed
  paging_token : r.record.paging_token = some r.record.id
  position : parsePagingToken r.record.id = some r.token

theorem FeedRecord.WellFormed.payment {r : FeedRecord}
    (h : r.WellFormed parseDate address)
    (hp : normalizeRecord parseDate r.record address = .incoming p) :
    p.pagingToken = some r.token ∧ parsePagingToken p.operationId = some r.token := by
  obtain ⟨hid, htoken, -⟩ := normalizeRecord_incoming hp
  rw [h.paging_token] at htoken
  exact ⟨htoken.trans h.position, hid ▸ h.position⟩

/-- What a read that was not cut has returned, of the records `due` to it: all of them when
    it stopped at the end or at its ledger bound, and else all down to its cursor, or to
    any of its payments. -/
structure Covers (result : HorizonReadResult) (token : Nat) (operationId : String) : Prop where
  whole : result.stopReason = .exhausted ∨ result.stopReason = .ledgerBound →
    operationId ∈ result.payments.map (·.operationId)
  cursor : ∀ k, result.lastCursor = some k → k ≤ token → operationId ∈ result.payments.map (·.operationId)
  payment : ∀ q ∈ result.payments, ∀ t, q.pagingToken = some t → t ≤ token →
    operationId ∈ result.payments.map (·.operationId)

theorem isBelow_iff (horder : opts.order = .desc) {token : Nat} (htoken : p.pagingToken = some token) :
    opts.isBelow p ↔ ∃ least, opts.minPagingToken = some least ∧ token < least := by
  unfold HorizonReadOptions.isBelow
  rw [horder, htoken]
  cases opts.minPagingToken <;> simp

theorem read_covers (opts : HorizonReadOptions)
    (hsorted : feed.Sorted) (hformed : ∀ r ∈ feed, r.WellFormed parseDate address) (horder : opts.order = .desc)
    (htime : opts.notBefore = none) (hlimit : 0 < opts.pageLimit)
    (hbounds : opts.pageLimit * opts.maxPages ≤ opts.maxRecords) {r : FeedRecord} (hr : r ∈ feed)
    (hdue : ∀ k, opts.cursor = some k → r.token < k)
    (hp : normalizeRecord parseDate r.record address = .incoming p)
    (hleast : ∀ least, opts.minPagingToken = some least → least ≤ r.token) :
    Covers (opts.read (normalizeRecord parseDate · address) fun _ => feed.serve opts.order opts.pageLimit) r.token
      p.operationId := by
  obtain ⟨used, cut, rest, hwalked, hfits⟩ := read_walks (normalizeRecord parseDate · address) hsorted hlimit
  obtain rfl := hfits hbounds
  generalize (opts.read (normalizeRecord parseDate · address) fun _ => feed.serve opts.order opts.pageLimit) = result
    at hwalked ⊢
  obtain ⟨hsplit, hpayments, hcursor, hexhausted, hledger⟩ := hwalked
  rw [append_nil] at hcursor
  have hpast : feed.past .desc opts.cursor = used ++ rest := horder ▸ hsplit
  have hfeed : ∀ x ∈ used, x ∈ feed := fun x hx => (mem_filter.mp (hpast ▸ mem_append_left rest hx)).1
  have hmem : r ∈ feed.past .desc opts.cursor := by
    refine mem_filter.mpr ⟨hr, ?_⟩
    cases hk : opts.cursor with
    | none => rfl
    | some k => exact decide_eq_true (hdue k hk)
  rw [hpast] at hmem
  rcases mem_append.mp hmem with hused | hrest
  · -- Looked at, so accepted or seen before.
    have hbelow : opts.isBelow p = false := by
      by_contra hbelow
      obtain ⟨least, hl, hlt⟩ := (isBelow_iff horder ((hformed r hr).payment hp).1).mp (Bool.of_not_eq_false hbelow)
      exact absurd (hleast least hl) (not_le.mpr hlt)
    have hearlier : opts.isEarlier p = false := by
      unfold HorizonReadOptions.isEarlier
      rw [htime]
      rfl
    have hin : p.operationId ∈ result.payments.map (·.operationId) := by
      rw [hpayments]
      exact operationId_mem_accepted hearlier hbelow (mem_map.mpr ⟨r, hused, hp⟩) []
    exact ⟨fun _ => hin, fun _ _ _ => hin, fun _ _ _ _ _ => hin⟩
  · -- Never fetched, so below everything the read has looked at.
    have hlower : ∀ x ∈ used, r.token < x.token := by
      have hwalk := hsorted.past .desc opts.cursor
      rw [hpast] at hwalk
      exact fun x hx => of_decide_eq_true ((pairwise_append.mp hwalk).2.2 x hx r hrest)
    refine ⟨fun hstop => ?_, fun k hk hle => ?_, fun q hq t ht hle => ?_⟩
    · rcases hstop with hstop | hstop
      · rw [(hexhausted hstop).2] at hrest
        cases hrest
      · obtain ⟨-, x, hx, hcrosses⟩ := hledger hstop
        cases hn : normalizeRecord parseDate x.record address with
        | malformed | notIncoming => rw [hn] at hcrosses; cases hcrosses
        | incoming =>
          rw [hn] at hcrosses
          obtain ⟨least, hl, hlt⟩ := (isBelow_iff horder ((hformed x (hfeed x hx)).payment hn).1).mp hcrosses
          exact absurd (hleast least hl) (not_le.mpr ((hlower x hx).trans hlt))
    · rw [hcursor] at hk
      cases hlast : used.getLast? with
      | none =>
        rw [hlast] at hk
        exact absurd hle (not_le.mpr (hdue k hk))
      | some last =>
        rw [hlast] at hk
        cases hk
        exact absurd hle (not_le.mpr (hlower last (mem_of_getLast? hlast)))
    · rw [hpayments] at hq
      rcases mem_accepted hq with hq | hq
      · cases hq
      · obtain ⟨x, hx, hn⟩ := mem_map.mp hq
        obtain rfl := Option.some.inj (((hformed x (hfeed x hx)).payment hn).1.symm.trans ht)
        exact absurd hle (not_le.mpr (hlower x hx))

end EarnProof.Stellar
