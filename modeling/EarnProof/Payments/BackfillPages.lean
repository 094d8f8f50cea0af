/-
  EarnProof.Payments.BackfillPages — what one page of a backfill takes from the feed.

  The account's feed is fixed, and Horizon serves it in ascending pages (`Horizon.page`).
  A record whose id is a TOID stands at that position; other records only take up room.
  `due account lo hi` are the incoming payments of the feed strictly between two TOIDs.

  What `planBackfillPage` takes from a served page is exactly what is due between the
  checkpoint and the one it commits, and when it says it is done nothing is due from there
  to the end of the range (`plan_spec`). The plan is inverted once, by the way it was
  reached (`planBackfillPage_planned`).
-/
import EarnProof.Payments.Backfill
import EarnProof.Lib.Windows

namespace EarnProof.Payments.Backfill

open Lib Lib.Calendar Lib.Windows Database Stellar List Option

/-! ## The feed -/

/-- What Horizon has for each account. -/
structure Horizon where
  parseDate : String → Option Date
  feed : String → Feed
  sorted : ∀ account, (feed account).Sorted
  /-- A record whose id reads as a TOID stands at that position. -/
  position : ∀ account, ∀ r ∈ feed account, ∀ t, parseToid r.record.id = some t → t = r.token
  /-- The transactions of a ledger are counted from one, so no operation has the TOID of the
      ledger itself (`ledgerStartCursor` is strictly before every operation). -/
  inside : ∀ account, ∀ r ∈ feed account, ∀ t, parseToid r.record.id = some t → t % 2 ^ LEDGER_SHIFT ≠ 0

namespace Horizon

variable (H : Horizon) (account : String)

def page (cursor : Nat) : AscendingPaymentsPage :=
  ascendingPage H.parseDate account ((H.feed account).serve .asc BACKFILL_PAGE_LIMIT (some cursor))

def reads (r : FeedRecord) : AscendingPaymentRecord := ascendingRecord H.parseDate account r.record

def records : List AscendingPaymentRecord := (HorizonReadOrder.asc.walk (H.feed account)).map (H.reads account)

def Receives (p : NormalizedPayment) : Prop :=
  ∃ r ∈ H.feed account, normalizeRecord H.parseDate r.record account = .incoming p

/-- The incoming payments of the feed strictly between two TOIDs. -/
def due (lo hi : Nat) : List NormalizedPayment := window (·.toid) (·.payment) lo hi (H.records account)

end Horizon

section Feed

variable {H : Horizon} {account : String} {r : FeedRecord} {t : Nat} {p : NormalizedPayment}

theorem toid_eq_token (hr : r ∈ H.feed account) (h : (H.reads account r).toid = some t) : t = r.token :=
  H.position account r hr t h

theorem mem_walk {order : HorizonReadOrder} {feed : Feed} : r ∈ order.walk feed ↔ r ∈ feed := by
  cases order with
  | asc => exact mem_reverse
  | desc => exact Iff.rfl

/-- Records of the feed in the order of their tokens ascend in their TOIDs. -/
theorem ascending_of_tokens {rs : List FeedRecord} (hfeed : ∀ r ∈ rs, r ∈ H.feed account)
    (h : rs.Pairwise fun a b => HorizonReadOrder.asc.follows a.token b.token) :
    Ascending (·.toid) (rs.map (H.reads account)) := by
  unfold Ascending
  rw [pairwise_map]
  refine h.imp_of_mem fun {a b} ha hb hab s t hs ht => ?_
  rw [toid_eq_token (hfeed a ha) hs, toid_eq_token (hfeed b hb) ht]
  exact of_decide_eq_true hab

theorem ascending_records : Ascending (·.toid) (H.records account) :=
  ascending_of_tokens (fun _ => mem_walk.mp) ((H.sorted account).walk .asc)

/-- What is due behind a cursor is due of the records behind it. -/
theorem due_eq_past (lo hi : Nat) : H.due account lo hi =
      window (·.toid) (·.payment) lo hi (((H.feed account).past .asc (some lo)).map (H.reads account)) := by
  unfold Horizon.due Horizon.records window Feed.past
  rw [filterMap_map, filterMap_map, filterMap_filter]
  refine filterMap_congr fun r hr => ?_
  split
  · rfl
  · rename_i hbehind
    cases htoid : (H.reads account r).toid with
    | none => exact pick_of_none htoid
    | some =>
      have htoken := toid_eq_token (mem_walk.mp hr) htoid
      have hle : ¬ lo < r.token := fun hlt => hbehind (decide_eq_true hlt)
      exact pick_of_not_mem htoid (by omega)

/-- An incoming payment tells its TOID. -/
theorem toid_of_payment (h : (H.reads account r).payment = some p) :
    parseToid p.operationId = (H.reads account r).toid := by
  unfold Horizon.reads ascendingRecord at h ⊢
  split at h
  · rename_i q hq
    cases h
    rw [(normalizeRecord_incoming hq).1]
  · cases h

theorem nodup_due (lo hi : Nat) : ((H.due account lo hi).map (·.operationId)).Nodup := by
  refine ascending_records.nodup_window _ parseToid fun a ha p hp => ?_
  obtain ⟨r, -, rfl⟩ := mem_map.mp ha
  exact toid_of_payment hp

theorem due_split (H : Horizon) (account : String) {lo mid hi : Nat} (hlo : lo ≤ mid) (hhi : mid < hi) :
    H.due account lo hi = H.due account lo (mid + 1) ++ H.due account mid hi :=
  ascending_records.window_split hlo hhi

/-- Every incoming payment of a range of ledgers is due. -/
theorem mem_due {range : LedgerRange} (h : H.Receives account p)
    (ht : parseToid p.operationId = some t) (hfirst : range.first ≤ t) (hstop : t < range.stop) :
    p ∈ H.due account range.first range.stop := by
  obtain ⟨r, hr, hincoming⟩ := h
  have hreads : (H.reads account r).payment = some p := by simp [Horizon.reads, ascendingRecord, hincoming]
  have hposition : (H.reads account r).toid = some t := (toid_of_payment hreads).symm.trans ht
  have hinside := H.inside account r hr t hposition
  have hne : range.first ≠ t := by
    rintro rfl
    exact hinside (Nat.mul_mod_left _ _)
  exact mem_window.mpr ⟨_, mem_map_of_mem (mem_walk.mpr hr), t, hposition, by omega, hstop, hreads⟩

theorem due_empty (lo : Nat) : H.due account lo (lo + 1) = [] := window_eq_nil fun _ _ t _ => by omega

end Feed

/-! ## One page -/

/-- The loop over the records of a page, all behind the checkpoint. The records behind the
    one it stops at are beyond the end too, so it loses nothing. -/
theorem scanRecords_spec {checkpoint : Nat} {records : List AscendingPaymentRecord} (stop : Nat) (s : PageScan)
    (hascending : Ascending (·.toid) records) (hbehind : ∀ r ∈ records, ∀ t, r.toid = some t → checkpoint < t) :
    let scan := scanRecords checkpoint stop records s
    scan.payments = s.payments ++ window (·.toid) (·.payment) checkpoint stop records ∧
      scan.lastToid = (positions (·.toid) stop records).getLast?.or s.lastToid ∧
      (scan.reachedEnd ↔ s.reachedEnd ∨ ∃ r ∈ records, ∃ t, r.toid = some t ∧ stop ≤ t) := by
  induction records generalizing s with
  | nil => simp [scanRecords, window, positions]
  | cons r records ih =>
    have hbehind' : ∀ r ∈ records, ∀ t, r.toid = some t → checkpoint < t :=
      fun r' hr' => hbehind r' (mem_cons_of_mem r hr')
    cases htoid : r.toid with
    | none =>
      have ih := ih s hascending.tail hbehind'
      simp only [scanRecords, htoid] at ih ⊢
      rw [window_cons_none htoid]
      simpa [positions, htoid] using ih
    | some t =>
      have hlater := hascending.head htoid
      by_cases hend : stop ≤ t
      · have hbeyond : ∀ r' ∈ r :: records, ∀ u, r'.toid = some u → stop ≤ u := by
          intro r' hr' u hu
          rcases mem_cons.mp hr' with rfl | hr'
          · have := some.inj (htoid.symm.trans hu)
            omega
          · have := hlater r' hr' u hu
            omega
        have hnone : positions (·.toid) stop (r :: records) = [] := by
          refine eq_nil_iff_forall_not_mem.mpr fun u hu => ?_
          obtain ⟨⟨r', hr', hu⟩, hlt⟩ := mem_positions.mp hu
          have := hbeyond r' hr' u hu
          omega
        have hscan : scanRecords checkpoint stop (r :: records) s = { s with reachedEnd := true } := by
          simp [scanRecords, htoid, hend]
        rw [hscan, window_eq_nil fun r' hr' u hu => .inr (hbeyond r' hr' u hu), hnone]
        exact ⟨by simp, by simp, fun _ => .inr ⟨r, mem_cons_self, t, htoid, hend⟩, fun _ => rfl⟩
      · have hcheckpoint := hbehind r mem_cons_self t htoid
        have ih := ih ⟨s.payments ++ r.payment.toList, s.recordsSeen + 1, some t, s.reachedEnd⟩ hascending.tail hbehind'
        have hscan : scanRecords checkpoint stop (r :: records) s =
            scanRecords checkpoint stop records
              ⟨s.payments ++ r.payment.toList, s.recordsSeen + 1, some t, s.reachedEnd⟩ := by
          simp [scanRecords, htoid, hend, Nat.not_le.mpr hcheckpoint]
        rw [hscan]
        refine ⟨?_, ?_, ?_⟩
        · rw [ih.1, window_cons_mem htoid ⟨hcheckpoint, by omega⟩, append_assoc]
        · rw [ih.2.1]
          have hcons : positions (·.toid) stop (r :: records) = t :: positions (·.toid) stop records := by
            unfold positions
            rw [filterMap_cons_some htoid, filter_cons_of_pos (by simpa using hend)]
          rw [hcons]
          cases hpos : positions (·.toid) stop records with
          | nil => rfl
          | cons u us =>
            rw [getLast?_cons_cons]
            cases hlast : (u :: us).getLast? with
            | none => simp at hlast
            | some => rfl
        · rw [ih.2.2]
          constructor
          · rintro (h | ⟨r', hr', h⟩)
            · exact .inl h
            · exact .inr ⟨r', mem_cons_of_mem r hr', h⟩
          · rintro (h | ⟨r', hr', u, hu, hge⟩)
            · exact .inl h
            · rcases mem_cons.mp hr' with rfl | hr'
              · have := some.inj (htoid.symm.trans hu)
                omega
              · exact .inr ⟨r', hr', u, hu, hge⟩

theorem parseToid_repr {n m : Nat} (h : parseToid n.repr = some m) : m = n := by
  unfold parseToid at h
  split at h
  · rw [Nat.toList_repr, Nat.ofDigitChars_ten_toDigits] at h
    exact (some.inj h).symm
  · cases h

/-- A number of at most twenty digits is read back. -/
theorem parseToid_repr_of_lt {n : Nat} (h : n < 10 ^ 20) : parseToid n.repr = some n := by
  have hdigits : ∀ c ∈ Nat.toDigits 10 n, c.isDigit :=
    fun c hc => Nat.isDigit_of_mem_toDigits (by decide) (by decide) hc
  have hlength : (Nat.toDigits 10 n).length ≤ 20 := (Nat.length_toDigits_le_iff (by decide) (by decide)).mpr h
  unfold parseToid
  rw [Nat.toList_repr, if_pos ⟨Nat.toDigits_ne_nil, hlength, all_eq_true.mpr hdigits⟩, Nat.ofDigitChars_ten_toDigits]

section Page

variable {H : Horizon} {account : String} {cp stop : Nat}

/-- The records past a checkpoint, the first of them on the page. -/
structure Served (H : Horizon) (account : String) (cp : Nat) (served rest : List FeedRecord) : Prop where
  split : (H.feed account).past .asc (some cp) = served ++ rest
  full : served = [] → rest = []

theorem served_page (H : Horizon) (account : String) (cp : Nat) : ∃ served rest, Served H account cp served rest ∧
      (H.page account cp).records = served.map (H.reads account) ∧
      (H.page account cp).nextCursor = some ((served.getLast?.map (·.token)).getD cp).repr := by
  refine ⟨((H.feed account).past .asc (some cp)).take BACKFILL_PAGE_LIMIT,
    ((H.feed account).past .asc (some cp)).drop BACKFILL_PAGE_LIMIT, ⟨(List.take_append_drop ..).symm, ?_⟩, ?_, ?_⟩
  · intro h
    rcases List.take_eq_nil_iff.mp h with h | h
    · cases h
    · rw [h, List.drop_nil]
  · simp only [Horizon.page, ascendingPage, Feed.serve, List.map_map]
    rfl
  · simp only [Horizon.page, ascendingPage, Feed.serve]
    cases (((H.feed account).past .asc (some cp)).take BACKFILL_PAGE_LIMIT).getLast? <;> rfl

variable {served rest : List FeedRecord}

section Served

variable (h : Served H account cp served rest)

include h

theorem Served.mem {r : FeedRecord} (hr : r ∈ served ++ rest) : r ∈ H.feed account ∧ cp < r.token := by
  rw [← h.split] at hr
  obtain ⟨hwalk, hpast⟩ := mem_filter.mp hr
  exact ⟨mem_walk.mp hwalk, of_decide_eq_true hpast⟩

theorem Served.behind : ∀ a ∈ served.map (H.reads account), ∀ t, a.toid = some t → cp < t := by
  intro a ha t ht
  obtain ⟨r, hr, rfl⟩ := mem_map.mp ha
  obtain ⟨hfeed, hcp⟩ := h.mem (mem_append_left rest hr)
  rw [toid_eq_token hfeed ht]
  exact hcp

theorem Served.ascending : Ascending (·.toid) (served.map (H.reads account)) := by
  refine ascending_of_tokens (fun r hr => (h.mem (mem_append_left rest hr)).1) ?_
  have hsorted := (H.sorted account).past .asc (some cp)
  rw [h.split] at hsorted
  exact (pairwise_append.mp hsorted).1

/-- What the page leaves out stands behind it. -/
theorem Served.later {a b : FeedRecord} (ha : a ∈ served) (hb : b ∈ rest) : a.token < b.token := by
  have hsorted := (H.sorted account).past .asc (some cp)
  rw [h.split] at hsorted
  exact of_decide_eq_true ((pairwise_append.mp hsorted).2.2 a ha b hb)

/-- A window that ends before the rest is a window of the page. -/
theorem Served.due_eq {hi : Nat} (hrest : ∀ b ∈ rest, hi ≤ b.token) :
    H.due account cp hi = window (·.toid) (·.payment) cp hi (served.map (H.reads account)) := by
  rw [due_eq_past, h.split, map_append, window_append]
  have hnil : window (·.toid) (·.payment) cp hi (rest.map (H.reads account)) = [] := by
    refine window_eq_nil fun a ha t ht => .inr ?_
    obtain ⟨b, hb, rfl⟩ := mem_map.mp ha
    rw [toid_eq_token (h.mem (mem_append_right served hb)).1 ht]
    exact hrest b hb
  rw [hnil, append_nil]

variable {next : Nat}

/-- The last TOID of the page inside the range, or the checkpoint. -/
theorem Served.next_spec (hcp : cp < stop)
    (hnext : next = (positions (·.toid) stop (served.map (H.reads account))).getLast?.getD cp) :
    cp ≤ next ∧ next < stop ∧ ∀ a ∈ served.map (H.reads account), ∀ t, a.toid = some t → t < stop → t ≤ next := by
  cases hlast : (positions (·.toid) stop (served.map (H.reads account))).getLast? with
  | none =>
    rw [hlast, getD_none] at hnext
    subst hnext
    refine ⟨le_refl _, hcp, fun a ha t ht hlt => ?_⟩
    have hmem : t ∈ positions (·.toid) stop (served.map (H.reads account)) := mem_positions.mpr ⟨⟨a, ha, ht⟩, hlt⟩
    rw [getLast?_eq_none_iff.mp hlast] at hmem
    cases hmem
  | some =>
    rw [hlast, getD_some] at hnext
    subst hnext
    obtain ⟨⟨a, ha, ht⟩, hlt⟩ := mem_positions.mp (mem_of_getLast? hlast)
    refine ⟨le_of_lt (h.behind a ha next ht), hlt, fun b hb t hbt hlt => ?_⟩
    exact h.ascending.le_last hlast (mem_positions.mpr ⟨⟨b, hb, hbt⟩, hlt⟩)

/-- What a page that is not refused adds. -/
structure PageSpec (H : Horizon) (account : String) (cp stop : Nat) (plan : BackfillPagePlan) : Prop where
  payments : plan.payments = H.due account cp (plan.nextCheckpoint + 1)
  forward : cp ≤ plan.nextCheckpoint
  within : plan.nextCheckpoint < stop
  rest : plan.done → H.due account plan.nextCheckpoint stop = []

/-- A plan that ends at the last TOID of the page, where everything below the end of the
    range is on the page. -/
theorem Served.ended (hcp : cp < stop) (hrest : ∀ b ∈ rest, stop ≤ b.token)
    (hnext : next = (positions (·.toid) stop (served.map (H.reads account))).getLast?.getD cp)
    (recordsSeen : Nat) (done : Bool) :
    PageSpec H account cp stop
      ⟨window (·.toid) (·.payment) cp stop (served.map (H.reads account)), recordsSeen, next, done, false⟩ := by
  obtain ⟨hle, hlt, hlast⟩ := h.next_spec hcp hnext
  have hnone : H.due account next stop = [] := by
    refine window_eq_nil fun a ha t ht => ?_
    obtain ⟨r, hr, rfl⟩ := mem_map.mp ha
    by_cases hbehind : cp < r.token
    · have hmem : r ∈ served ++ rest := by
        rw [← h.split]
        exact mem_filter.mpr ⟨hr, decide_eq_true hbehind⟩
      rcases mem_append.mp hmem with hr | hr
      · by_cases hend : t < stop
        · exact .inl (hlast _ (mem_map_of_mem hr) t ht hend)
        · exact .inr (by omega)
      · have htoken := toid_eq_token (h.mem (mem_append_right served hr)).1 ht
        have := hrest r hr
        exact .inr (by omega)
    · have htoken := toid_eq_token (mem_walk.mp hr) ht
      exact .inl (by omega)
  refine ⟨?_, hle, hlt, fun _ => hnone⟩
  have hsplit := due_split H account hle hlt
  rw [hnone, append_nil] at hsplit
  rw [← hsplit]
  exact (h.due_eq hrest).symm

/-- A plan that ends inside the range, with every TOID of the page behind it. -/
theorem Served.partway (hle : cp ≤ next) (hlt : next < stop)
    (hpage : ∀ a ∈ served.map (H.reads account), ∀ t, a.toid = some t → t ≤ next) (hrest : ∀ b ∈ rest, next < b.token)
    (recordsSeen : Nat) :
    PageSpec H account cp stop
      ⟨window (·.toid) (·.payment) cp stop (served.map (H.reads account)), recordsSeen, next, false, false⟩ := by
  refine ⟨?_, hle, hlt, nofun⟩
  rw [h.due_eq hrest]
  refine window_congr fun a ha t ht => ?_
  have := hpage a ha t ht
  omega

end Served

/-- A plan that is not stalled, by the way it was reached. -/
inductive Planned (page : AscendingPaymentsPage) (cp stop : Nat) (scan : PageScan) : BackfillPagePlan → Prop
  | reached (h : scan.reachedEnd) :
    Planned page cp stop scan ⟨scan.payments, scan.recordsSeen, scan.lastToid.getD cp, true, false⟩
  | exhausted (h : page.records = [] ∨ page.nextCursor = none) :
    Planned page cp stop scan ⟨scan.payments, scan.recordsSeen, scan.lastToid.getD cp, true, false⟩
  | last (hreached : scan.reachedEnd = false) (next : Nat) (h : scan.lastToid = some next) :
    Planned page cp stop scan ⟨scan.payments, scan.recordsSeen, next, false, false⟩
  /-- No TOID on the page: Horizon's cursor, inside the range -/
  | cursor (hreached : scan.reachedEnd = false) (hrecords : page.records ≠ [])
      (hlast : scan.lastToid = none) (next : Nat)
      (h : page.nextCursor.bind parseToid = some next) (hle : cp < next) (hlt : next < stop) :
    Planned page cp stop scan ⟨scan.payments, scan.recordsSeen, next, false, false⟩
  /-- or beyond it. -/
  | beyond (hreached : scan.reachedEnd = false) (hrecords : page.records ≠ [])
      (hlast : scan.lastToid = none) (next : Nat) (h : page.nextCursor.bind parseToid = some next) (hge : stop ≤ next) :
    Planned page cp stop scan ⟨scan.payments, scan.recordsSeen, scan.lastToid.getD cp, true, false⟩

theorem planBackfillPage_planned {page : AscendingPaymentsPage}
    (h : (planBackfillPage page cp stop).stalled = false) :
    Planned page cp stop (scanRecords cp stop page.records ⟨[], 0, none, false⟩) (planBackfillPage page cp stop) := by
  unfold planBackfillPage at h ⊢
  generalize scanRecords cp stop page.records ⟨[], 0, none, false⟩ = scan at h ⊢
  dsimp only at h ⊢
  cases hreached : scan.reachedEnd with
  | true => exact .reached hreached
  | false =>
    rw [hreached] at h
    cases hcursor : page.nextCursor with
    | none =>
      rw [isNone_none, Bool.or_true]
      exact .exhausted (.inr hcursor)
    | some text =>
      cases hrecords : page.records with
      | nil => exact .exhausted (.inl hrecords)
      | cons =>
        have hne : page.records ≠ [] := by simp [hrecords]
        rw [hcursor, hrecords] at h
        cases hlast : scan.lastToid with
        | some next => exact .last hreached next hlast
        | none =>
          rw [hlast] at h
          simp only [isEmpty_cons, isNone_some, isSome_none, Bool.or_self, Bool.false_eq_true, if_false,
            getD_some] at h ⊢
          cases hparse : parseToid text with
          | none =>
            rw [hparse] at h
            cases h
          | some next =>
            have hnext : page.nextCursor.bind parseToid = some next := by rw [hcursor, bind_some, hparse]
            rw [hparse] at h
            dsimp only at h ⊢
            by_cases hinside : cp < next ∧ next < stop
            · rw [if_pos hinside]
              exact .cursor hreached hne hlast next hnext hinside.1 hinside.2
            · rw [if_neg hinside] at h ⊢
              by_cases hend : stop ≤ next
              · rw [if_pos hend, ← hlast]
                exact .beyond hreached hne hlast next hnext hend
              · rw [if_neg hend] at h
                cases h

theorem plan_spec (H : Horizon) (account : String) (hcp : cp < stop)
    (hstalled : (planBackfillPage (H.page account cp) cp stop).stalled = false) :
    PageSpec H account cp stop (planBackfillPage (H.page account cp) cp stop) := by
  obtain ⟨served, rest, h, hrecords, hcursor⟩ := served_page H account cp
  obtain ⟨hpayments, hlast, hreached⟩ := scanRecords_spec stop ⟨[], 0, none, false⟩ h.ascending h.behind
  have hplanned := planBackfillPage_planned hstalled
  rw [hrecords] at hplanned
  generalize scanRecords cp stop (served.map (H.reads account)) ⟨[], 0, none, false⟩ = scan at *
  rw [or_none] at hlast
  have hnext : scan.lastToid.getD cp = (positions (·.toid) stop (served.map (H.reads account))).getLast?.getD cp := by
    rw [hlast]
  have htoken : ∀ r ∈ served, ∀ t, (H.reads account r).toid = some t → t = r.token :=
    fun r hr t ht => toid_eq_token (h.mem (mem_append_left rest hr)).1 ht
  -- The page ends at its last record, and what it leaves out stands behind that.
  have hcursor_spec : ∀ next, (H.page account cp).records ≠ [] →
      (H.page account cp).nextCursor.bind parseToid = some next → ∀ b ∈ rest, next < b.token := by
    intro next hne hparse b hb
    rw [hcursor, bind_some] at hparse
    obtain rfl := parseToid_repr hparse
    cases hserved : served.getLast? with
    | none =>
      rw [hrecords, getLast?_eq_none_iff.mp hserved] at hne
      exact absurd rfl hne
    | some => exact h.later (mem_of_getLast? hserved) hb
  have hbelow : scan.reachedEnd = false → ∀ a ∈ served.map (H.reads account), ∀ t, a.toid = some t → t < stop := by
    intro hfalse a ha t ht
    by_contra hge
    have htrue := hreached.mpr (.inr ⟨a, ha, t, ht, by omega⟩)
    exact absurd (hfalse.symm.trans htrue) (by simp)
  generalize planBackfillPage (H.page account cp) cp stop = plan at hplanned ⊢
  cases hplanned with
  | reached hend =>
    obtain hfalse | ⟨a, ha, t, ht, hge⟩ := hreached.mp hend
    · cases hfalse
    · obtain ⟨r, hr, rfl⟩ := mem_map.mp ha
      have hr_token := htoken r hr t ht
      rw [hpayments]
      exact h.ended hcp (fun b hb => by have := h.later hr hb; omega) hnext _ true
  | exhausted hnone =>
    have hempty : served = [] := by
      rcases hnone with hnone | hnone
      · exact map_eq_nil_iff.mp (hrecords.symm.trans hnone)
      · rw [hcursor] at hnone
        cases hnone
    have hrest := h.full hempty
    rw [hpayments]
    exact h.ended hcp (fun b hb => by rw [hrest] at hb; cases hb) hnext _ true
  | last hfalse next hsome =>
    obtain ⟨hle, hlt, hpage⟩ := h.next_spec hcp hnext
    rw [hsome, getD_some] at hle hlt hpage
    obtain ⟨⟨a, ha, ht⟩, -⟩ := mem_positions.mp (mem_of_getLast? (hlast.symm.trans hsome))
    obtain ⟨r, hr, rfl⟩ := mem_map.mp ha
    have hr_token := htoken r hr next ht
    rw [hpayments]
    exact h.partway hle hlt (fun a ha t ht => hpage a ha t ht (hbelow hfalse a ha t ht))
      (fun b hb => by have := h.later hr hb; omega) _
  | cursor hfalse hne hnone next hparse hle hlt =>
    rw [hpayments]
    refine h.partway (le_of_lt hle) hlt (fun a ha t ht => ?_) (hcursor_spec next hne hparse) _
    have hpos : t ∈ positions (·.toid) stop (served.map (H.reads account)) :=
      mem_positions.mpr ⟨⟨a, ha, ht⟩, hbelow hfalse a ha t ht⟩
    rw [getLast?_eq_none_iff.mp (hlast.symm.trans hnone)] at hpos
    cases hpos
  | beyond hfalse hne hnone next hparse =>
    rw [hpayments]
    exact h.ended hcp (fun b hb => by have := hcursor_spec next hne hparse b hb; omega) hnext _ true

end Page

end EarnProof.Payments.Backfill
