/-
  EarnProof.Proofs.FinalityHold — which held payments can back a proof.

  A divergence of the ledger view puts `finalityHoldAt` on the payments of its history
  window (`src/payments/payment-finality.service.ts`), and issuance is meant to refuse
  them. Three of the eight methods look at the hold, when they read their candidates;
  five never do; none looks again in its transaction.

  Proved: the payments of an accepted request are exactly those its own lookups match
  (`mem_payments_iff_selects`), and they are free of holds exactly when the matched
  rows are, at the reads the method leaves unchecked (`unheld_iff_selected_unheld`).
-/
import EarnProof.Proofs.RoundTrip

namespace EarnProof.Proofs

open Lib Lib.Calendar Lib.Result Database Common.Crypto List

/-! ## Holds -/

/-- The range update of `diverge`: every payment of the wallet from the floor ledger
    on that is not held yet. -/
def holdPayments (db : Db) (userId : String) (floorLedger : Nat) (now : Date) : Db :=
  { db with payments := db.payments.map fun p =>
      if p.userId = userId ∧ (p.ledgerSequence.any fun l => floorLedger ≤ l) ∧ p.finalityHoldAt = none then
        { p with finalityHoldAt := some now }
      else p }

def heldIn (db : Db) (paymentId : String) : Prop :=
  ∃ q ∈ db.payments, q.id = paymentId ∧ q.finalityHoldAt ≠ none

/-- The two unique columns of `Payment`. -/
structure PaymentKeys (db : Db) : Prop where
  ids : (db.payments.map Payment.id).Nodup
  operationIds : (db.payments.map Payment.operationId).Nodup

/-! ## What a request selects -/

/-- The methods that refuse a payment held at their candidate read. -/
def checksHold : Request → Bool
  | .paymentReceipt _ | .minimumIncome _ | .recurringIncome _ => true
  | _ => false

def selectedByIds (v : View) (user : AuthenticatedUser) (ids : List String) (p : Payment) : Prop :=
  p ∈ (v.db 0).payments ∧ p.id ∈ ids ∧ p.userId = user.id

/-- The attestations a continuity request counts. -/
def continuityAttested (v : View) (user : AuthenticatedUser) (r : EmployerSource)
    (i : CreateEmploymentContinuityProofDto) (start stop : Date) : List (String × String) :=
  attestedFor (v.db 3) r user.walletHash (continuityPool (v.db 2) user.id r.sourceAddress i start stop) (v.clock 0)

/-- The payments a request's lookups match, in the states it reads. -/
def Selects (E : Env) (v : View) (user : AuthenticatedUser) : Request → Payment → Prop
  | .paymentReceipt i, p => selectedByIds v user [i.paymentId] p
  | .minimumIncome i, p => selectedByIds v user i.selectedPaymentIds p
  | .incomeRange i, p => selectedByIds v user i.selectedPaymentIds p
  | .recurringIncome i, p => selectedByIds v user i.selectedPaymentIds p
  | .invoiceSettlement i, p =>
    ∃ periodStart periodEnd amount, E.periodBound i.periodStart = .ok periodStart ∧
      E.periodBound i.periodEnd = .ok periodEnd ∧ parseAmount i.expectedAmount.text = some amount ∧
      p ∈ invoiceMatches E.reader (v.db 3) user.id ((invoiceSources (v.db 2) user.id i.issuerId).map (·.sourceAddress))
        i periodStart periodEnd amount
  | .aggregateEarnings i, p =>
    ∃ asset period addresses, resolveAsset i.assets = .ok asset ∧
      resolvePeriod E i.periodStart i.periodEnd (v.clock 0) = .ok period ∧
      sourceAddresses (v.db 0) user.id (i.sourceScope.getD .income) i.issuerIds = .ok addresses ∧
      p ∈ (v.db 1).payments ∧ aggregateCandidate user.id asset period addresses p
  | .employerPayment i, p =>
    ∃ start stop r corroboration,
      validateEmployerPaymentPeriod (E.newDate i.periodStart) (E.newDate i.periodEnd) (v.clock 0) = .ok (start, stop) ∧
      resolveTrustedEmployer v user.id i.trustedSourceId = .ok r ∧
      selectEmployerPayment (employerPool (v.db 2) user.id r.sourceAddress i start stop) r.isIssuerAccount
        (attestedFor (v.db 3) r user.walletHash (employerPool (v.db 2) user.id r.sourceAddress i start stop)
          (v.clock 0)) = some (p, corroboration)
  | .employmentContinuity i, p =>
    ∃ w stop r, buildContinuityWindow (E.newDate i.periodStart) i.observedPeriods (v.clock 0) = .ok w ∧
      w.stop = some stop ∧ resolveTrustedEmployer v user.id i.trustedSourceId = .ok r ∧ p ∈ (v.db 2).payments ∧
      employerCandidate user.id r.sourceAddress i.assetCode i.assetIssuer w.start stop p ∧
      (continuityPeriodIndex p.occurredAt w).isSome ∧
      corroborated r (continuityAttested v user r i w.start stop) p ∧
      stillQualifies (v.db 4) user.id (v.clock 0) r (continuityAttested v user r i w.start stop) p

/-! ## Unique operations are each counted once -/

variable {α : Type} {key : String} {m : List (String × α)}

theorem mapSet_of_notMem (h : key ∉ m.map Prod.fst) (value : α) : mapSet key value m = m ++ [(key, value)] := by
  induction m with
  | nil => rfl
  | cons e m ih =>
    have hne : e.1 ≠ key := fun he => h (he ▸ mem_cons_self)
    have htail : key ∉ m.map Prod.fst := fun hm => h (mem_cons_of_mem _ hm)
    rw [mapSet, if_neg hne, ih htail, cons_append]

theorem lookup_of_notMem (h : key ∉ m.map Prod.fst) : m.lookup key = none := by
  rw [lookup_eq_none_iff]
  intro e he
  have hne : key ≠ e.1 := fun hk => h (hk ▸ mem_map_of_mem he)
  simpa using hne

def keyed (ps : List Payment) : List (String × Payment) := ps.map fun p => (p.operationId, p)

theorem keyed_snoc (ps : List Payment) (p : Payment) : keyed (ps ++ [p]) = keyed ps ++ [(p.operationId, p)] := by
  simp [keyed]

variable {ps : List Payment} {p : Payment} {asset : AssetRef} {period : AggregationPeriod} {userId : String}
  {c : ContinuityRecheck}

theorem notMem_keys_of_nodup {qs : List Payment}
    (h : ((ps ++ p :: qs).map Payment.operationId).Nodup) : p.operationId ∉ (keyed ps).map Prod.fst := by
  have hkeys : (keyed ps).map Prod.fst = ps.map Payment.operationId := by simp [keyed]
  rw [map_append, map_cons, nodup_append] at h
  exact fun hm => h.2.2 _ (hkeys ▸ hm) _ mem_cons_self rfl

section Distinct

variable (h : (ps.map Payment.operationId).Nodup)

include h

/-- With unique operation ids the map keeps every payment, in order. -/
theorem earliestByOperation_eq : earliestByOperation ps = keyed ps := by
  -- an operation that is not in the map yet is set, whatever the loop does with the others
  have hfold : ∀ put : List (String × Payment) → Payment → List (String × Payment),
      (∀ m p, m.lookup p.operationId = none → put m p = mapSet p.operationId p m) →
      ∀ qs ps : List Payment, ((ps ++ qs).map Payment.operationId).Nodup →
        qs.foldl put (keyed ps) = keyed (ps ++ qs) := by
    intro put hput qs
    induction qs with
    | nil => intro ps _; rw [foldl_nil, append_nil]
    | cons p qs ih =>
      intro ps hps
      have hp := notMem_keys_of_nodup hps
      rw [foldl_cons, hput _ _ (lookup_of_notMem hp), mapSet_of_notMem hp, ← keyed_snoc,
        ih (ps ++ [p]) (by simpa using hps)]
      simp
  exact hfold _ (fun m p hnone => by simp only [hnone]) ps [] h

theorem snd_earliestByOperation : (earliestByOperation ps).map Prod.snd = ps := by
  rw [earliestByOperation_eq h, keyed, map_map]
  exact map_id ps

theorem mem_includedPayments (w : ContinuityWindow) (p : Payment) : p ∈ (evaluateContinuity ps w).includedPayments ↔
      p ∈ ps ∧ (continuityPeriodIndex p.occurredAt w).isSome := by
  unfold evaluateContinuity
  rw [snd_earliestByOperation h, mem_insertionSort, mem_filter]

theorem nodup_includedPayments (w : ContinuityWindow) :
    ((evaluateContinuity ps w).includedPayments.map Payment.operationId).Nodup := by
  unfold evaluateContinuity
  rw [snd_earliestByOperation h]
  refine (((perm_insertionSort _ _).map _).nodup_iff).mpr ?_
  exact (filter_sublist.map _).nodup h

end Distinct

/-- With unique operation ids every row of the asset and period is a component. -/
theorem length_byOperation {R : Reader} :
    ∀ {qs ps : List Payment} {m : List (String × Payment)}, ((ps ++ qs).map Payment.operationId).Nodup →
      (∀ q ∈ qs, q.assetCode = asset.code ∧ q.assetIssuer = asset.issuer ∧ period.start ≤ q.occurredAt ∧
        q.occurredAt < period.stop) →
      byOperation R asset period qs (keyed ps) = .ok m → m.length = ps.length + qs.length := by
  intro qs
  induction qs with
  | nil =>
    intro ps m _ _ h
    rw [← Except.ok.inj h]
    simp [keyed]
  | cons q qs ih =>
    intro ps m hps hin h
    have hq := notMem_keys_of_nodup hps
    rw [byOperation, if_pos (hin q mem_cons_self)] at h
    obtain ⟨_, _, h⟩ := bind_eq_ok.mp h
    rw [mapSet_of_notMem hq, ← keyed_snoc] at h
    have hlen := ih (by simpa using hps) (fun x hx => hin x (mem_cons_of_mem q hx)) h
    simp only [length_append, length_cons, length_nil] at hlen ⊢
    omega

/-! ## Rows loaded up to a cap -/

variable {db : Db}

theorem nodup_pool (hk : PaymentKeys db) (cand : Payment → Bool) (le : Payment → Payment → Prop) [DecidableRel le]
    (n : Nat) : ((((db.payments.filter cand).insertionSort le).take n).map Payment.operationId).Nodup := by
  refine ((take_sublist _ _).map _).nodup ?_
  refine (((perm_insertionSort _ _).map _).nodup_iff).mpr ?_
  exact (filter_sublist.map _).nodup hk.operationIds

variable {cand : Payment → Bool} {le : Payment → Payment → Prop} {n : Nat}
  {input : CreateEmploymentContinuityProofDto} {addresses : Option (List String)}

/-- A capped load that stayed below its cap holds every candidate. -/
theorem mem_pool [DecidableRel le]
    (h : (((db.payments.filter cand).insertionSort le).take (n + 1)).length ≤ n) (p : Payment) :
    p ∈ ((db.payments.filter cand).insertionSort le).take (n + 1) ↔ p ∈ db.payments ∧ cand p := by
  rw [length_take] at h
  rw [take_of_length_le (by omega), mem_insertionSort, mem_filter]

/-! ## The payments of each draft -/

variable {E : Env} {v : View} {user : AuthenticatedUser} {proofId : String} {d : Draft}

theorem mem_selectPayments {ids : List String} (h : selectPayments db userId ids = .ok ps) (p : Payment) :
    p ∈ ps ↔ p ∈ db.payments ∧ p.id ∈ ids ∧ p.userId = userId := by
  obtain ⟨_, _, h⟩ := bind_eq_ok.mp h
  rw [← pure_eq_ok.mp h, mem_filter]
  simp [mem_eraseDups]

theorem unheld_of_checkAllSelected {s : SelectionDto} {periodStart periodEnd : Option Date} {u : Unit} :
    ∀ {ps : List Payment}, checkAllSelected true s periodStart periodEnd ps = .ok u →
      ∀ p ∈ ps, p.finalityHoldAt = none := by
  intro ps
  induction ps with
  | nil => exact fun _ p hp => absurd hp (by simp)
  | cons q ps ih =>
    intro h p hp
    obtain ⟨_, hq, h⟩ := bind_eq_ok.mp h
    rcases mem_cons.mp hp with rfl | hp
    · obtain ⟨_, _, hq⟩ := bind_eq_ok.mp hq
      obtain ⟨_, hhold, _⟩ := bind_eq_ok.mp hq
      exact require_eq_ok.mp hhold rfl
    · exact ih h p hp

theorem onlyMatch_eq_ok (h : onlyMatch ps = .ok p) : ps = [p] := by
  rcases ps with _ | ⟨q, _ | ⟨q', ps⟩⟩
  · cases h
  · rw [← Except.ok.inj h]
  · cases h

theorem draftInvoiceSettlement_payments {input : CreateInvoiceSettlementProofDto} {s : InvoiceSettlement}
    (h : draftInvoiceSettlement E v proofId user input = .ok (d, s)) (p : Payment) :
    p ∈ d.payments ↔ Selects E v user (.invoiceSettlement input) p := by
  unfold draftInvoiceSettlement at h
  simp only [bind_eq_ok, pure_eq_ok, orThrow_eq_ok, Prod.mk.injEq] at h
  obtain ⟨_, _, _, _, _, _, _, _, _, _, periodStart, hstart, periodEnd, hend, amount, hamount, payment, hmatch, _, _,
    _, _, rfl, _⟩ := h
  have hone := onlyMatch_eq_ok hmatch
  constructor
  · intro hp
    exact ⟨periodStart, periodEnd, amount, hstart, hend, hamount, hone ▸ hp⟩
  · rintro ⟨_, _, _, hstart', hend', hamount', hp⟩
    obtain rfl := Except.ok.inj (hstart.symm.trans hstart')
    obtain rfl := Except.ok.inj (hend.symm.trans hend')
    obtain rfl := Option.some.inj (hamount.symm.trans hamount')
    exact hone ▸ hp

/-- The accepted aggregate was not cut at its cap. -/
theorem length_aggregateRows {increment : RoundingIncrement} {result : AggregationResult} (hk : PaymentKeys db)
    (h : aggregateEarnings E.reader (aggregateRows db userId asset period addresses) asset period increment =
      .ok result) : (aggregateRows db userId asset period addresses).length ≤ MAX_COMPONENT_PAYMENTS := by
  obtain ⟨m, hm, h⟩ := bind_eq_ok.mp h
  obtain ⟨_, _, h⟩ := bind_eq_ok.mp h
  obtain ⟨_, hcap, _⟩ := bind_eq_ok.mp h
  have hnodup : (([] ++ aggregateRows db userId asset period addresses).map Payment.operationId).Nodup :=
    nodup_pool hk _ _ _
  have hlen := length_byOperation hnodup (fun q hq => by
    have hq := mem_of_mem_take hq
    rw [mem_insertionSort, mem_filter] at hq
    obtain ⟨_, _, _, hcode, hissuer, hstart, hstop, _⟩ := of_decide_eq_true hq.2
    exact ⟨hcode, hissuer, hstart, hstop⟩) hm
  have hle := require_eq_ok.mp hcap
  rw [length_nil, Nat.zero_add] at hlen
  exact hlen ▸ hle

theorem draftAggregateEarnings_payments {input : CreateAggregateEarningsProofDto} (hk : PaymentKeys (v.db 1))
    (h : draftAggregateEarnings E v proofId user input = .ok d) (p : Payment) :
    p ∈ d.payments ↔ Selects E v user (.aggregateEarnings input) p := by
  unfold draftAggregateEarnings at h
  simp only [bind_eq_ok, pure_eq_ok] at h
  obtain ⟨_, _, asset, hasset, period, hperiod, addresses, haddresses, _, _, result, hresult, _, _, rfl⟩ := h
  have hmem := mem_pool (length_aggregateRows hk hresult)
  constructor
  · intro hp
    exact ⟨asset, period, addresses, hasset, hperiod, haddresses, (hmem p).mp hp⟩
  · rintro ⟨_, _, _, hasset', hperiod', haddresses', hp⟩
    obtain rfl := Except.ok.inj (hasset.symm.trans hasset')
    obtain rfl := Except.ok.inj (hperiod.symm.trans hperiod')
    obtain rfl := Except.ok.inj (haddresses.symm.trans haddresses')
    exact (hmem p).mpr hp

theorem draftEmployerPayment_payments {input : CreateEmployerPaymentProofDto} {c : EmployerRecheck}
    (h : draftEmployerPayment E v proofId user input = .ok (d, c)) (p : Payment) :
    p ∈ d.payments ↔ Selects E v user (.employerPayment input) p := by
  unfold draftEmployerPayment at h
  simp only [bind_eq_ok, pure_eq_ok, orThrow_eq_ok, mapError_eq_ok, Prod.mk.injEq] at h
  obtain ⟨⟨start, stop⟩, hperiod, r, hr, _, _, ⟨payment, corroboration⟩, hsel, _, _, rfl, _⟩ := h
  constructor
  · intro hp
    obtain rfl := mem_singleton.mp hp
    exact ⟨start, stop, r, corroboration, hperiod, hr, hsel⟩
  · rintro ⟨_, _, _, _, hperiod', hr', hsel'⟩
    obtain ⟨rfl, rfl⟩ := Prod.mk.inj (Except.ok.inj (hperiod.symm.trans hperiod'))
    obtain rfl := Except.ok.inj (hr.symm.trans hr')
    obtain ⟨rfl, _⟩ := Prod.mk.inj (Option.some.inj (hsel.symm.trans hsel'))
    exact mem_singleton_self _

/-- The payments counted under the locks are the matched ones that still qualify. -/
theorem continuity_payments
    (hk : PaymentKeys (v.db 2)) (h : draftEmploymentContinuity E v proofId user input = .ok c) (p : Payment) :
    p ∈ (evaluateContinuity (c.included.filter
      (stillQualifies (v.db 4) user.id (v.clock 0) c.source c.attested)) c.window).includedPayments ↔
      Selects E v user (.employmentContinuity input) p := by
  unfold draftEmploymentContinuity at h
  simp only [bind_eq_ok, pure_eq_ok, orThrow_eq_ok, require_eq_ok, mapError_eq_ok] at h
  obtain ⟨w, hw, r, hr, stop, hstop, _, hcap, _, _, _, _, rfl⟩ := h
  have hpool : ((continuityPool (v.db 2) user.id r.sourceAddress input w.start stop).map Payment.operationId).Nodup :=
    nodup_pool hk _ _ _
  have hfilter : ∀ (ps : List Payment) (keep : Payment → Bool), (ps.map Payment.operationId).Nodup →
      ((ps.filter keep).map Payment.operationId).Nodup :=
    fun ps keep hps => (filter_sublist.map Payment.operationId).nodup hps
  have hmem : p ∈ continuityPool (v.db 2) user.id r.sourceAddress input w.start stop ↔
      p ∈ (v.db 2).payments ∧
        employerCandidate user.id r.sourceAddress input.assetCode input.assetIssuer w.start stop p :=
    mem_pool hcap p
  rw [mem_includedPayments (hfilter _ _ (nodup_includedPayments (hfilter _ _ hpool) w)), mem_filter,
    mem_includedPayments (hfilter _ _ hpool), mem_filter, hmem]
  constructor
  · rintro ⟨⟨⟨⟨⟨hp, hcand⟩, hcorr⟩, hindex⟩, hstill⟩, _⟩
    exact ⟨w, stop, r, hw, hstop, hr, hp, hcand, hindex, hcorr, hstill⟩
  · rintro ⟨_, _, _, hw', hstop', hr', hp, hcand, hindex, hcorr, hstill⟩
    obtain rfl := Except.ok.inj (hw.symm.trans hw')
    obtain rfl := Option.some.inj (hstop.symm.trans hstop')
    obtain rfl := Except.ok.inj (hr.symm.trans hr')
    exact ⟨⟨⟨⟨⟨hp, hcand⟩, hcorr⟩, hindex⟩, hstill⟩, hindex⟩

/-! ## Accepted requests -/

variable {request : Request} {issued : Issued}

/-- An accepted request is computed from exactly the payments its lookups match. -/
theorem mem_payments_iff_selects (hk : ∀ k, PaymentKeys (v.db k)) (h : create E v proofId user request = .ok issued)
    (p : Payment) : p ∈ issued.payments ↔ Selects E v user request p := by
  obtain ⟨d, _, _, _, _, hd, -, -, hsame, -⟩ := create_drafts h
  rw [hsame]
  cases request with
  | paymentReceipt =>
    obtain ⟨-, payment, hfind, -, hp⟩ := draftPaymentReceipt_eq_ok hd
    rw [hp, mem_singleton]
    obtain ⟨hmem, hkey⟩ := Table.of_find? hfind
    constructor
    · rintro rfl
      exact ⟨hmem, mem_singleton.mpr hkey.1, hkey.2⟩
    · rintro ⟨hp, hid, _⟩
      exact inj_on_of_nodup_map (hk 0).ids hp hmem ((mem_singleton.mp hid).trans hkey.1.symm)
  | invoiceSettlement => exact hd.elim fun _ hd => draftInvoiceSettlement_payments hd p
  | minimumIncome => exact mem_selectPayments (draftMinimumIncome_eq_ok hd).2.1 p
  | incomeRange => exact mem_selectPayments (draftIncomeRange_eq_ok hd).2.1 p
  | recurringIncome => exact mem_selectPayments (draftRecurringIncome_eq_ok hd).2.1 p
  | aggregateEarnings => exact draftAggregateEarnings_payments (hk 1) hd p
  | employerPayment => exact hd.elim fun _ hd => draftEmployerPayment_payments hd p
  | employmentContinuity =>
    obtain ⟨c, hc, rfl⟩ := hd
    exact continuity_payments (hk 2) hc p

/-- The three methods that check refuse what is held at their candidate read. -/
theorem unheld_at_read (hc : checksHold request) (h : create E v proofId user request = .ok issued) :
    ∀ p ∈ issued.payments, p.finalityHoldAt = none := by
  obtain ⟨d, _, _, _, _, hd, -, -, hsame, -⟩ := create_drafts h
  rw [hsame]
  cases request with
  | paymentReceipt =>
    obtain ⟨-, payment, -, hhold, hp⟩ := draftPaymentReceipt_eq_ok hd
    rw [hp]
    intro p hmem
    rw [mem_singleton.mp hmem]
    exact hhold
  | minimumIncome =>
    obtain ⟨-, -, _, _, hcheck⟩ := draftMinimumIncome_eq_ok hd
    exact unheld_of_checkAllSelected hcheck
  | recurringIncome =>
    obtain ⟨-, -, _, _, hcheck⟩ := draftRecurringIncome_eq_ok hd
    exact unheld_of_checkAllSelected hcheck
  | _ => cases hc

/-- An accepted request stands on no held payment exactly when no payment its lookups
    match is held in the state it commits to and, for the five methods that never look
    at the hold, in the state it was read from. -/
theorem unheld_iff_selected_unheld (hk : ∀ k, PaymentKeys (v.db k))
    (h : create E v proofId user request = .ok issued) :
    (∀ p ∈ issued.payments, p.finalityHoldAt = none ∧ ¬ heldIn issued.db p.id) ↔
      ∀ p, Selects E v user request p →
        (checksHold request = false → p.finalityHoldAt = none) ∧ ¬ heldIn (v.db (commitAccess request)) p.id := by
  have hcommit : ∀ id, heldIn issued.db id ↔ heldIn (v.db (commitAccess request)) id := by
    intro id
    obtain ⟨_, _, _, _, _, -, -, -, -, hissue⟩ := create_drafts h
    obtain ⟨-, _, hdb⟩ := issueProof_eq_ok hissue
    unfold heldIn
    rw [hdb]
  constructor
  · intro hall p hp
    obtain ⟨hread, hheld⟩ := hall p ((mem_payments_iff_selects hk h p).mpr hp)
    exact ⟨fun _ => hread, fun hh => hheld ((hcommit p.id).mpr hh)⟩
  · intro hall p hp
    obtain ⟨hread, hheld⟩ := hall p ((mem_payments_iff_selects hk h p).mp hp)
    refine ⟨?_, fun hh => hheld ((hcommit p.id).mp hh)⟩
    by_cases hc : checksHold request
    · exact unheld_at_read hc h p hp
    · exact hread (Bool.eq_false_iff.mpr hc)

/-! ## A held payment backs an income range -/

def sampleRange : Request :=
  .incomeRange {
    selectedPaymentIds := ["payment-1"], selected_nonempty := by decide
    assetCode := "XLM", assetIssuer := none
    periodStart := "2023-11-01T00:00:00.000Z", periodEnd := "2023-11-30T00:00:00.000Z", expiresInDays := none
    lowerBound := ⟨"1", by decide⟩, upperBound := ⟨"1000", by decide⟩ }

/-- The whole history window is on hold before the request starts, and the range proof
    is issued on a held payment all the same. -/
theorem incomeRange_on_held_payment :
    ∃ issued, create sampleEnv ⟨fun _ => holdPayments sampleDb "user-1" 10 sampleNow, fun _ => sampleNow⟩ "proof-1"
        sampleUser sampleRange = .ok issued ∧
      ∃ p ∈ issued.payments, p.finalityHoldAt ≠ none ∧ heldIn issued.db p.id := by
  have hheld : (create sampleEnv ⟨fun _ => holdPayments sampleDb "user-1" 10 sampleNow, fun _ => sampleNow⟩ "proof-1"
      sampleUser sampleRange).map (fun i => decide (∃ p ∈ i.payments,
        p.finalityHoldAt ≠ none ∧ ∃ q ∈ i.db.payments, q.id = p.id ∧ q.finalityHoldAt ≠ none)) = .ok true := by
    decide +kernel
  obtain ⟨issued, h, hboth⟩ := map_eq_ok.mp hheld
  have hboth := of_decide_eq_true hboth
  exact ⟨issued, h, hboth⟩

/-- Without holds the receipt of the sample account is accepted and stands on no held payment. -/
theorem receipt_on_unheld_payment :
    ∃ issued, create sampleEnv sampleView "proof-1" sampleUser sampleReceipt = .ok issued ∧
      ∀ p ∈ issued.payments, p.finalityHoldAt = none ∧ ¬ heldIn issued.db p.id := by
  have hok : (create sampleEnv sampleView "proof-1" sampleUser sampleReceipt).map (fun _ => ()) = .ok () := by
    decide +kernel
  have hkeys : PaymentKeys sampleDb := ⟨by decide, by decide⟩
  obtain ⟨issued, h, _⟩ := map_eq_ok.mp hok
  refine ⟨issued, h, (unheld_iff_selected_unheld (fun _ => hkeys) h).mpr ?_⟩
  rintro p ⟨_, _, _⟩
  refine ⟨fun hc => absurd hc (by decide), ?_⟩
  rintro ⟨q, hq, _, hheld⟩
  obtain rfl := mem_singleton.mp hq
  exact hheld rfl

end EarnProof.Proofs
