/-
  EarnProof.Payments.ClassificationHistory — the history of a payment's classification, over
  every interleaving of the writers (`Payments.Writers`).

  A payment starts at revision 1, and the row of its first change has revision 2. An update
  takes the previous classification and the revision from the row as it read it before its
  transaction, so two that overlap write the same revision (`overlapping_updates`). Where each
  transaction finds the row as it was read (`Undisturbed`), the changes of a payment chain
  (`history_chained`): revisions count up from 2, each row starts from the classification the
  row before it left, and the payment has that of the last. A sync that finds another payment
  under the operation id sets UNKNOWN without a row, and the chain goes on from there.
-/
import EarnProof.Payments.Decisions

namespace EarnProof.Payments.Writers

open Lib Lib.Table Lib.Calendar Database Stellar List

/-! ## Chains -/

abbrev Label := PaymentClassification × Nat

def Entry.after : Label → Entry → Label
  | _, .update row => (row.newClassification, row.classificationRevision)
  | label, .reset => (.unknown, label.2)

/-- What the entries leave, from the defaults of the columns. -/
def settled (entries : List Entry) : Label := entries.foldl Entry.after (.unknown, 1)

/-- An entry fits the label it finds. -/
def Entry.fits (label : Label) : Entry → Prop
  | .update row => row.previousClassification = label.1 ∧ row.classificationRevision = label.2 + 1
  | .reset => True

def Chained (label : Label) : List Entry → Prop
  | [] => True
  | e :: rest => e.fits label ∧ Chained (e.after label) rest

variable {label : Label} {entries : List Entry}

theorem chained_append {e : Entry} :
    Chained label (entries ++ [e]) ↔ Chained label entries ∧ e.fits (entries.foldl Entry.after label) := by
  induction entries generalizing label with
  | nil => simp [Chained]
  | cons x entries ih => simp [Chained, ih, and_assoc]

def Entry.row? : Entry → Option PaymentClassificationHistory
  | .update row => some row
  | .reset => none

def updatesOf (entries : List Entry) : List PaymentClassificationHistory := entries.filterMap Entry.row?

@[simp] theorem updatesOf_update (row : PaymentClassificationHistory) (entries : List Entry) :
    updatesOf (.update row :: entries) = row :: updatesOf entries := rfl

/-- The revisions of a chain count up. -/
theorem chained_revisions (h : Chained label entries) :
    (updatesOf entries).map (·.classificationRevision) = List.range' (label.2 + 1) (updatesOf entries).length := by
  induction entries generalizing label with
  | nil => rfl
  | cons e entries ih =>
    obtain ⟨hfits, hrest⟩ := h
    have ih := ih hrest
    cases e with
    | reset => exact ih
    | update =>
      simp only [Entry.after] at ih
      rw [updatesOf_update, map_cons, length_cons, range'_succ, ih, hfits.2]

def Linked (start : PaymentClassification) : List PaymentClassificationHistory → Prop
  | [] => True
  | row :: rest => row.previousClassification = start ∧ Linked row.newClassification rest

/-- Without a reset the rows are linked, and the last one tells the classification. -/
theorem chained_linked (h : Chained label entries) (hkept : Entry.reset ∉ entries) :
    Linked label.1 (updatesOf entries) ∧
      (entries.foldl Entry.after label).1 = ((updatesOf entries).getLast?.map (·.newClassification)).getD label.1 := by
  induction entries generalizing label with
  | nil => exact ⟨trivial, rfl⟩
  | cons e entries ih =>
    obtain ⟨hfits, hrest⟩ := h
    cases e with
    | reset => exact absurd mem_cons_self hkept
    | update =>
      obtain ⟨hlinked, hlast⟩ := ih hrest fun hmem => hkept (mem_cons_of_mem _ hmem)
      rw [updatesOf_update]
      refine ⟨⟨hfits.1, hlinked⟩, ?_⟩
      rw [foldl_cons, hlast]
      cases hrows : updatesOf entries with
      | nil => rfl
      | cons x rows =>
        rw [getLast?_cons_cons]
        cases hsome : (x :: rows).getLast? with
        | none => simp at hsome
        | some => rfl

/-! ### Resets -/

section Resets

variable {more : List Entry}

/-- A reset fits anywhere. -/
theorem chained_resets (h : Chained label entries) (hmore : ∀ e ∈ more, e = .reset) :
    Chained label (entries ++ more) := by
  induction more generalizing entries with
  | nil =>
    rw [append_nil]
    exact h
  | cons e more ih =>
    obtain rfl := hmore e mem_cons_self
    rw [append_cons]
    exact ih (chained_append.mpr ⟨h, trivial⟩) fun e he => hmore e (mem_cons_of_mem _ he)

theorem updatesOf_resets (hmore : ∀ e ∈ more, e = .reset) : updatesOf more = [] := by
  refine filterMap_eq_nil_iff.mpr fun e he => ?_
  rw [hmore e he]
  rfl

theorem foldl_resets (hmore : ∀ e ∈ more, e = .reset) (hne : more ≠ []) :
    more.foldl Entry.after label = (.unknown, label.2) := by
  induction more generalizing label with
  | nil => exact absurd rfl hne
  | cons e more ih =>
    obtain rfl := hmore e mem_cons_self
    rw [foldl_cons]
    by_cases hnil : more = []
    · subst hnil
      rfl
    · rw [ih (fun e he => hmore e (mem_cons_of_mem _ he)) hnil]
      rfl

end Resets

/-! ## The entries of a payment -/

def entriesOf (id : String) (trail : List (String × Entry)) : List Entry := (trail.filter fun x => x.1 = id).map (·.2)

def historyOf (id : String) (history : List PaymentClassificationHistory) : List PaymentClassificationHistory :=
  history.filter fun row => row.paymentId = id

theorem entriesOf_append (id : String) (trail more : List (String × Entry)) :
    entriesOf id (trail ++ more) = entriesOf id trail ++ entriesOf id more := by
  simp [entriesOf]

/-- The row an update is about to write is as the update read it. -/
def World.asRead (w : World) (committed : Bool) : Task → Bool
  | .reclassify _ payment _ _ =>
    committed → w.payments.all fun r => r.id = payment.id → r.classification = payment.classification ∧
      w.revision r.id = payment.classificationRevision
  | _ => true

/-- No update commits on a row that changed since it was read. -/
def Undisturbed (w : World) : Event → Prop
  | .access p a => (w.tasks p).all (w.asRead a.committed)
  | _ => True

instance (w : World) (e : Event) : Decidable (Undisturbed w e) := by
  induction e using Event.casesOn <;> dsimp only [Undisturbed] <;> infer_instance

structure Chain (w : World) : Prop where
  keyed : (w.payments.map (·.id)).Nodup
  history : ∀ id, historyOf id w.history = updatesOf (entriesOf id w.trail)
  chained : ∀ id, Chained (.unknown, 1) (entriesOf id w.trail)
  current : ∀ r ∈ w.payments, (r.classification, w.revision r.id) = settled (entriesOf r.id w.trail)
  fresh : ∀ id, id ∉ w.payments.map (·.id) → entriesOf id w.trail = [] ∧ w.revision id = 1

/-! ## The resets of a sync -/

variable {rows : List SyncedPayment} {cfg : Config} {w w' : World}

theorem mem_resetsOf {s : Option Sync} {x : String × Entry} (hx : x ∈ resetsOf rows s) :
    ∃ r ∈ rows, x = (r.id, .reset) := by
  unfold resetsOf at hx
  split at hx
  · split at hx
    · obtain ⟨r, hr, rfl⟩ := mem_map.mp hx
      exact ⟨r, (mem_filter.mp hr).1, rfl⟩
    · cases hx
  · cases hx

theorem resets_only (rows : List SyncedPayment) (s : Option Sync) (id : String) :
    ∀ e ∈ entriesOf id (resetsOf rows s), e = .reset := by
  intro e he
  obtain ⟨x, hx, rfl⟩ := mem_map.mp he
  obtain ⟨r, -, rfl⟩ := mem_resetsOf (mem_filter.mp hx).1
  rfl

theorem resets_stored (s : Option Sync) {id : String} (h : id ∉ rows.map (·.id)) :
    entriesOf id (resetsOf rows s) = [] := by
  refine map_eq_nil_iff.mpr (filter_eq_nil_iff.mpr fun x hx hid => h ?_)
  obtain ⟨r, hr, rfl⟩ := mem_resetsOf hx
  exact mem_map.mpr ⟨r, hr, of_decide_eq_true hid⟩

/-- The write of a replaced payment resets its row and no other. -/
theorem resetsOf_write (hkeyed : (rows.map (·.id)).Nodup) {s : Sync} {plan : SyncPlan}
    {read : HorizonReadResult} {replaced : List String} {p : NormalizedPayment} {rest : List NormalizedPayment}
    (hstage : s.stage = .write plan read replaced (p :: rest)) {r : SyncedPayment} (hr : r ∈ rows) :
    entriesOf r.id (resetsOf rows (some s)) ≠ [] ↔ p.operationId ∈ replaced ∧ r.operationId = p.operationId := by
  obtain ⟨account, reads, supported, stage⟩ := s
  obtain rfl : stage = _ := hstage
  unfold entriesOf resetsOf
  dsimp only
  by_cases hreplaced : p.operationId ∈ replaced
  · rw [if_pos hreplaced, ne_eq, map_eq_nil_iff, filter_eq_nil_iff, not_forall]
    constructor
    · rintro ⟨x, hx⟩
      obtain ⟨hx, hid⟩ := Classical.not_imp.mp hx
      obtain ⟨r', hr', rfl⟩ := mem_map.mp hx
      obtain ⟨hr', hop⟩ := mem_filter.mp hr'
      have hid : r'.id = r.id := by simpa using hid
      obtain rfl := eq_of_key hkeyed hr' hr hid
      exact ⟨hreplaced, of_decide_eq_true hop⟩
    · rintro ⟨-, hop⟩
      refine ⟨(r.id, .reset), Classical.not_imp.mpr ⟨?_, by simp⟩⟩
      exact mem_map.mpr ⟨r, mem_filter.mpr ⟨hr, decide_eq_true hop⟩, rfl⟩
  · simp [hreplaced]

/-- What an access of a sync does to the classification of a row: nothing, or a reset. -/
theorem access_labels (cfg : Payments.Config) (a : Answer) (db : Store) (s : Sync)
    (hkeyed : (db.payments.map (·.id)).Nodup) {r' : SyncedPayment} (hr' : r' ∈ (s.access cfg a db).db.payments) :
    (∃ r ∈ db.payments, r'.id = r.id ∧
      ((r'.classification = r.classification ∧ entriesOf r.id (resetsOf db.payments (some s)) = []) ∨
        (r'.classification = .unknown ∧ entriesOf r.id (resetsOf db.payments (some s)) ≠ []))) ∨
    (r'.classification = .unknown ∧ ∀ r ∈ db.payments, r.operationId ≠ r'.operationId) := by
  by_cases hwrite : ∃ plan read replaced p rest, s.stage = .write plan read replaced (p :: rest)
  · obtain ⟨plan, read, replaced, p, rest, hstage⟩ := hwrite
    have hresets := fun {r} (hr : r ∈ db.payments) => resetsOf_write hkeyed hstage hr
    unfold Sync.access at hr'
    rw [hstage] at hr'
    rcases mem_upsert hr' with ⟨r, hr, hop, rfl⟩ | ⟨hr, hop⟩ | ⟨rfl, hother⟩
    · by_cases hreplaced : p.operationId ∈ replaced
      · rw [if_pos (decide_eq_true hreplaced)]
        exact .inl ⟨r, hr, rfl, .inr ⟨rfl, (hresets hr).mpr ⟨hreplaced, hop⟩⟩⟩
      · rw [if_neg (by simpa using hreplaced)]
        exact .inl ⟨r, hr, rfl, .inl ⟨rfl, not_not.mp fun h => hreplaced ((hresets hr).mp h).1⟩⟩
    · exact .inl ⟨r', hr, rfl, .inl ⟨rfl, not_not.mp fun h => hop ((hresets hr).mp h).2⟩⟩
    · exact .inr ⟨rfl, hother⟩
  · have hnone : resetsOf db.payments (some s) = [] := by
      unfold resetsOf
      split
      · rename_i heq
        cases heq
        exact absurd ⟨_, _, _, _, _, rfl⟩ hwrite
      · rfl
    have hempty : ∀ id, entriesOf id (resetsOf db.payments (some s)) = [] := by
      intro id
      rw [hnone]
      rfl
    rcases (access_payments cfg a db s).mem hr' with ⟨r, hr, -, heffect⟩ | ⟨hnew, hother⟩
    · refine .inl ⟨r, hr, rowEffect_id heffect, .inl ⟨?_, hempty _⟩⟩
      cases heffect with
      | rebuild plan read replaced p rest hstage => exact absurd ⟨plan, read, replaced, p, rest, hstage⟩ hwrite
      | _ => rfl
    · refine .inr ⟨?_, hother⟩
      cases hnew <;> rfl

/-! ## Runs -/

/-- The step of a sync: where it resets, the chain goes on from UNKNOWN. -/
theorem Chain.sync {e : Payments.Event} (h : Chain w) (hstep : step cfg w (.sync e) = some w') :
    ∀ r' ∈ w'.payments, (r'.classification, w.revision r'.id) =
      settled (entriesOf r'.id (w.trail ++ resetsOf w.payments (w.syncOf e))) := by
  intro r' hr'
  have hfresh := step_fresh h.keyed hstep hr'
  obtain ⟨s', hs, hw⟩ := Option.bind_eq_some_iff.mp hstep
  obtain ⟨-, rfl⟩ := keyed_eq hw
  have hnone : w.sync.db.payments = s'.db.payments → resetsOf w.payments (w.syncOf e) = [] →
      (r'.classification, w.revision r'.id) = settled
        (entriesOf r'.id (w.trail ++ resetsOf w.payments (w.syncOf e))) := by
    intro hsame hresets
    have hmem : r' ∈ s'.db.payments := hr'
    rw [← hsame] at hmem
    rw [hresets, append_nil]
    exact h.current r' hmem
  rcases step_cases hs with ⟨p, account, rfl, -, rfl⟩ | ⟨p, a, s, rfl, hsync, -, rfl⟩ | ⟨p, rfl, rfl⟩
  · exact hnone rfl rfl
  · have hof : w.syncOf (.access p a) = some s := hsync
    rw [hof, entriesOf_append]
    rcases access_labels cfg.sync a w.sync.db s h.keyed hr' with
      ⟨r, hr, hid, ⟨hclass, hresets⟩ | ⟨hclass, hresets⟩⟩ | ⟨hclass, hother⟩
    · have hresets : entriesOf r.id (resetsOf w.payments (some s)) = [] := hresets
      rw [hclass, hid, hresets, append_nil]
      exact h.current r hr
    · have hresets : entriesOf r.id (resetsOf w.payments (some s)) ≠ [] := hresets
      have hlabel := h.current r hr
      rw [hclass, hid, settled, foldl_append, foldl_resets (resets_only _ _ _) hresets, ← settled, ← hlabel]
    · have hid := hfresh hother
      obtain ⟨hentries, hrevision⟩ := h.fresh r'.id hid
      rw [hclass, hrevision, hentries, resets_stored (some s) hid]
      rfl
  · exact hnone rfl rfl

theorem step_chain {e : Event} (h : Chain w) (hundisturbed : Undisturbed w e)
    (hstep : step cfg w e = some w') : Chain w' := by
  have hkeyed := step_keyed h.keyed hstep
  have hmissing : ∀ id, id ∉ w'.payments.map (·.id) → id ∉ w.payments.map (·.id) :=
    fun _ hid hold => hid (step_ids hstep hold)
  cases step_effect hstep with
  | sync e' he =>
    subst he
    have hresets := fun id => resets_only w.payments (w.syncOf e') id
    refine ⟨hkeyed, fun id => ?_, fun id => ?_, h.sync hstep, fun id hid => ?_⟩
    · show historyOf id w.history = updatesOf (entriesOf id (w.trail ++ _))
      rw [entriesOf_append, updatesOf, filterMap_append, ← updatesOf, ← updatesOf,
        updatesOf_resets (hresets id), append_nil]
      exact h.history id
    · show Chained _ (entriesOf id (w.trail ++ _))
      rw [entriesOf_append]
      exact chained_resets (h.chained id) (hresets id)
    · have hold := hmissing id hid
      obtain ⟨hentries, hrevision⟩ := h.fresh id hold
      refine ⟨?_, hrevision⟩
      show entriesOf id (w.trail ++ _) = []
      rw [entriesOf_append, hentries, resets_stored _ hold]
      rfl
  | page userId eligibleAssets payments rows hrows hnodup =>
    refine ⟨hkeyed, h.history, h.chained, fun r hr => ?_, fun id hid => h.fresh id (hmissing id hid)⟩
    subst hrows
    rcases page_rows hnodup hr with hold | ⟨hnew, hid⟩
    · exact h.current r hold
    · obtain ⟨hentries, hrevision⟩ := h.fresh r.id hid
      obtain ⟨q, -, rfl⟩ := mem_map.mp hnew
      show (_, w.revision _) = settled (entriesOf _ w.trail)
      rw [hentries, hrevision]
      rfl
  | task => exact { h with }
  | record =>
    refine ⟨hkeyed, h.history, h.chained, forall_update h.current ?_, fun id hid => h.fresh id (hmissing id hid)⟩
    exact fun r hr _ => h.current r hr
  | reclassify p a he userId payment classification reasonCode hcall hcommitted hrow =>
    subst he
    simp only [Undisturbed, hcall, Option.all_some, World.asRead, decide_eq_true_eq, all_eq_true] at hundisturbed
    have hfound := hundisturbed hcommitted
    obtain ⟨found, hin, hid⟩ := hrow
    have hsettled : settled (entriesOf payment.id w.trail) =
        (payment.classification, payment.classificationRevision) := by
      obtain ⟨hclass, hrevision⟩ := hfound found hin hid
      rw [← hid, ← h.current found hin, hclass, hrevision]
    -- The update of a payment adds an entry of its own, and none to the others.
    have hown : entriesOf payment.id (w.reclassify userId payment classification reasonCode).trail =
        entriesOf payment.id w.trail ++ [.update (historyRow userId payment classification reasonCode)] :=
      (entriesOf_append _ w.trail _).trans (by simp [entriesOf])
    have hothers : ∀ id, id ≠ payment.id →
        entriesOf id (w.reclassify userId payment classification reasonCode).trail = entriesOf id w.trail :=
      fun id hne => (entriesOf_append id w.trail _).trans (by simp [entriesOf, hne.symm])
    suffices hwritten : Chain (w.reclassify userId payment classification reasonCode) from { hwritten with }
    refine ⟨hkeyed, fun id => ?_, fun id => ?_, fun r' hr' => ?_, fun id hmiss => ?_⟩
    · show historyOf id (w.history ++ [historyRow userId payment classification reasonCode]) =
        updatesOf (entriesOf id _)
      by_cases hsame : id = payment.id
      · subst hsame
        rw [hown, updatesOf, filterMap_append, ← updatesOf, ← h.history]
        simp [historyOf, historyRow, Entry.row?]
      · rw [hothers id hsame, ← h.history]
        simp [historyOf, historyRow, Ne.symm hsame]
    · by_cases hsame : id = payment.id
      · subst hsame
        rw [hown, chained_append]
        refine ⟨h.chained _, ?_⟩
        show Entry.fits (settled (entriesOf payment.id w.trail)) _
        rw [hsettled]
        exact ⟨rfl, rfl⟩
      · rw [hothers id hsame]
        exact h.chained id
    · show (r'.classification, Function.update w.revision payment.id (payment.classificationRevision + 1) r'.id) =
        settled (entriesOf r'.id _)
      obtain ⟨r, hr, ⟨hsel, rfl⟩ | ⟨hsel, rfl⟩⟩ := mem_update_cases hr'
      · have hsame : r.id = payment.id := of_decide_eq_true hsel
        show (classification, Function.update w.revision payment.id _ r.id) = settled (entriesOf r.id _)
        rw [hsame, Function.update_self, hown, settled, foldl_append]
        rfl
      · have hother : r'.id ≠ payment.id := of_decide_eq_false hsel
        rw [Function.update_of_ne hother, hothers _ hother]
        exact h.current _ hr
    · have hold := hmissing id hmiss
      have hother : id ≠ payment.id := by
        rintro rfl
        exact hold (mem_map.mpr ⟨found, hin, hid⟩)
      obtain ⟨hnone, hrevision⟩ := h.fresh id hold
      exact ⟨(hothers id hother).trans hnone, (Function.update_of_ne hother _ _).trans hrevision⟩

/-- In every run whose updates find the row as they read it, the history of each payment is a
    chain: its revisions are 2, 3, …, each once; every row starts from the classification
    that was left by the row before, or by a reset since; and the payment has what the last
    of these left. Without a reset, that is the new classification of the last row. -/
theorem history_chained (cfg : Config) (db : Store) (hkeyed : (db.payments.map (·.id)).Nodup)
    (hunknown : ∀ r ∈ db.payments, r.classification = .unknown) {w : World}
    (hrun : Run (step cfg) Undisturbed (World.start db) w) (id : String) :
    (historyOf id w.history).map (·.classificationRevision) = List.range' 2 (historyOf id w.history).length ∧
      historyOf id w.history = updatesOf (entriesOf id w.trail) ∧ Chained (.unknown, 1) (entriesOf id w.trail) ∧
      (∀ r ∈ w.payments, r.id = id → r.classification = (settled (entriesOf id w.trail)).1) ∧
      (Entry.reset ∉ entriesOf id w.trail → Linked .unknown (historyOf id w.history) ∧
        ∀ r ∈ w.payments, r.id = id →
          r.classification = ((historyOf id w.history).getLast?.map (·.newClassification)).getD .unknown) := by
  have h := hrun.invariant
    ⟨hkeyed, fun _ => rfl, fun _ => trivial, fun r hr => Prod.ext (hunknown r hr) rfl, fun _ _ => ⟨rfl, rfl⟩⟩
      fun _ _ _ => step_chain
  have hcurrent : ∀ r ∈ w.payments, r.id = id → r.classification = (settled (entriesOf id w.trail)).1 := by
    rintro r hr rfl
    rw [← h.current r hr]
  refine ⟨?_, h.history id, h.chained id, hcurrent, fun hkept => ?_⟩
  · rw [h.history]
    exact chained_revisions (h.chained id)
  · obtain ⟨hlinked, hlast⟩ := chained_linked (h.chained id) hkept
    rw [h.history]
    exact ⟨hlinked, fun r hr hid => (hcurrent r hr hid).trans hlast⟩

/-! ## Traces -/

/-- The read and the transaction of an update; the call then ends. -/
def classifying (p : Nat) (classification : PaymentClassification) : List Event :=
  [.call p (.classify "usr_1" "" classification "USER_RECLASSIFICATION"), .access p taskAnswer]

def classified (p : Nat) : List Event := [.access p taskAnswer, .crash p]

/-- A sync that reads the checkpoint's ledger as gone, and under the same operation id the payment
    of another transaction. -/
def replacingSync : List Event :=
  (syncing 1 "GWALLET" (List.replicate 4 silence ++
    [answersRead [{ demoPayment "429496729600" "GWALLET" 100 with stellarTransactionHash := "tx_other" }],
      silence, silence])).map .sync

/-- The first change of a payment has revision 2, not 1; and a payment that a sync replaces is
    UNKNOWN again, without a row that leads there. -/
theorem first_change_is_revision_two :
    (∃ w, Run (step demoWriters) Undisturbed (World.start ⟨none, []⟩) w ∧ ∃ r ∈ w.payments,
      (historyOf r.id w.history).map (·.classificationRevision) = [2] ∧
        (historyOf r.id w.history).map (·.classificationRevision) ≠ List.range' 1 (historyOf r.id w.history).length) ∧
    ∃ w, Run (step demoWriters) Undisturbed (World.start ⟨none, []⟩) w ∧ ∃ r ∈ w.payments,
      r.classification = .unknown ∧ (historyOf r.id w.history).map (·.newClassification) = [.income] :=
  ⟨Run.exists_of_replay (eligibleSync ++ classifying 0 .income ++ classified 0),
    Run.exists_of_replay (eligibleSync ++ classifying 0 .income ++ classified 0 ++ replacingSync)⟩

/-- Two updates read the payment before either writes: both rows have revision 2 and start from
    UNKNOWN, and the second one's write is the one that stays. -/
theorem overlapping_updates : ∃ w, Run (step demoWriters) anyStep (World.start ⟨none, []⟩) w ∧
      w.history.map (fun row => (row.classificationRevision, row.previousClassification, row.newClassification)) =
        [(2, .unknown, .income), (2, .unknown, .excluded)] :=
  Run.exists_of_replay
    (eligibleSync ++ classifying 0 .income ++ classifying 1 .excluded ++ classified 0 ++ classified 1)

/-- One update after the other. -/
theorem history_chained_twice :
    ∃ w, Run (step demoWriters) Undisturbed (World.start ⟨none, []⟩) w ∧ (historyOf "" w.history).length = 2 ∧
      (historyOf "" w.history).map (·.classificationRevision) = List.range' 2 (historyOf "" w.history).length :=
  Run.exists_and
    (eligibleSync ++ classifying 0 .income ++ classified 0 ++ classifying 1 .excluded ++ classified 1)
    fun _ hrun hlength =>
      ⟨hlength, (history_chained demoWriters ⟨none, []⟩ nodup_nil (fun _ hr => nomatch hr) hrun "").1⟩

end EarnProof.Payments.Writers
