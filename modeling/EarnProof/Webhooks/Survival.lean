/-
  EarnProof.Webhooks.Survival — what becomes of an attempt at a delivery: it succeeds, is
  dead-lettered, fails because its organization is archived, or is PENDING with a task that will
  send it. In every undisturbed run this is so of the last attempt at every event for every
  endpoint, except for the moment in which a call under way has created its row and not scheduled
  it, or has failed it and not created its retry (`no_delivery_lost`).

  A run is disturbed where the schedule, which is in memory only, parts from the rows:
  - a worker finds the circuit of its endpoint open,
  - a call that holds a delivery throws,
  - the process dies between the update that fails an attempt and the creation of its retry;
    after the restart no row is PENDING, so nothing is scheduled (`failed_and_forgotten`).
-/
import Mathlib.Data.Option.Basic
import EarnProof.Webhooks.Deliveries

namespace EarnProof.Webhooks

open Lib Lib.Table Database List Option

/-! ## What survives -/

/-- What a call under way is about to do with the delivery it holds. -/
inductive Hold where
  | schedule | send | retry
  deriving DecidableEq

def Call.hold : Call → Option (Hold × String)
  | .enqueueing .. | .replaying .. | .replayCreating .. | .succeeded _ | .exhausted _ => none
  | .enqueued id .. | .created id _ | .retried id .. => some (.schedule, id)
  | .waiting id .. | .checking id _ | .reading id _ | .archiving id _ | .deadLettering id .. | .succeeding id _ =>
    some (.send, id)
  | .sending d | .failing d .. => some (.send, d.id)
  | .retrying d _ => some (.retry, d.id)

/-- The attempt is over and needs nothing more. -/
def Delivery.Settled (r : Delivery) : Prop :=
  r.status = .success ∨ (r.status = .failed ∧ r.deadLetteredAt.isSome)
    ∨ (r.status = .failed ∧ r.failureReason = some archivedBeforeDelivery)
  deriving Decidable

namespace World

variable (w : World)

/-- A call holds the delivery; what is scheduled will be sent. -/
def Holds (k : Hold) (id : String) : Prop :=
  (k = .send ∧ ∃ t ∈ w.queue, t.deliveryId = id) ∨ ∃ c ∈ w.calls, c.hold = some (k, id)
  deriving Decidable

def Survives (r : Delivery) : Prop := r.Settled ∨ (r.status = .pending ∧ w.Holds .send r.id)
  deriving Decidable

/-- A call under way has created the row and will schedule it, or has failed it and will create
    its retry. -/
def InHand (r : Delivery) : Prop := (r.status = .pending ∧ w.Holds .schedule r.id) ∨ w.Holds .retry r.id
  deriving Decidable

def Initial : Prop := w.deliveries = [] ∧ w.queue = [] ∧ w.calls = []

end World

/-- The last row created for an endpoint and an event. -/
def latestAttempt (rows : List Delivery) (webhookId eventId : String) : Option Delivery :=
  (rows.filter fun d => d.webhookId = webhookId && d.eventId = eventId).getLast?

/-- A step that does not part the schedule from the rows. -/
def Undisturbed (w : World) : Event → Prop
  | .proceed (.checking _ webhookId) _ => (canAttemptDelivery w.circuits webhookId w.clock).1
  | .breaks x => x.hold = none
  | .restart _ => ∀ c ∈ w.calls, c.hold.map Prod.fst ≠ some .retry
  | _ => True

instance (w : World) (e : Event) : Decidable (Undisturbed w e) := by
  unfold Undisturbed
  split <;> infer_instance

/-! ## Latest attempts -/

/-- What no update of a row changes. -/
def Delivery.key (d : Delivery) : String × String × String := (d.id, d.webhookId, d.eventId)

section Latest

variable {rows : List Delivery} {r row : Delivery} {webhookId eventId : String}

theorem latestAttempt_mem (h : latestAttempt rows webhookId eventId = some r) :
    r ∈ rows ∧ r.webhookId = webhookId ∧ r.eventId = eventId := by
  obtain ⟨hr, hsel⟩ := mem_filter.mp (mem_of_getLast? h)
  simp only [Bool.and_eq_true, decide_eq_true_eq] at hsel
  exact ⟨hr, hsel⟩

theorem latestAttempt_map {f : Delivery → Delivery} (hkey : ∀ r, (f r).key = r.key) :
    latestAttempt (rows.map f) webhookId eventId = (latestAttempt rows webhookId eventId).map f := by
  have hsel : (fun d => decide (d.webhookId = webhookId) && decide (d.eventId = eventId)) ∘ f
      = fun d => decide (d.webhookId = webhookId) && decide (d.eventId = eventId) := by
    funext r
    simp only [Function.comp_apply, show (f r).webhookId = r.webhookId from congrArg (·.2.1) (hkey r),
      show (f r).eventId = r.eventId from congrArg (·.2.2) (hkey r)]
  unfold latestAttempt
  rw [List.filter_map, List.getLast?_map, hsel]

/-- A new row is the latest for its own endpoint and event, and for no other. -/
theorem latestAttempt_append (h : latestAttempt (rows ++ [row]) webhookId eventId = some r) :
    r = row ∨ (latestAttempt rows webhookId eventId = some r ∧
      (row.webhookId ≠ webhookId ∨ row.eventId ≠ eventId)) := by
  unfold latestAttempt at h ⊢
  rw [filter_append] at h
  by_cases hin : row.webhookId = webhookId ∧ row.eventId = eventId
  · exact .inl (by simpa [hin.1, hin.2] using h.symm)
  · have hout : row.webhookId ≠ webhookId ∨ row.eventId ≠ eventId := by tauto
    rw [filter_cons_of_neg (by simpa using hin), filter_nil, append_nil] at h
    exact .inr ⟨h, hout⟩

end Latest

/-! ## The invariant -/

def Covered (w : World) (r : Delivery) : Prop := w.Survives r ∨ w.InHand r

/-- The row a call has read and goes on with is stored. -/
def Copied (rows : List Delivery) : Call → Prop
  | .sending d | .failing d .. | .retrying d _ => d.key ∈ rows.map Delivery.key
  | _ => True

structure Inv (w : World) : Prop where
  ids : (w.deliveries.map Delivery.id).Nodup
  hooked : ∀ d ∈ w.deliveries, d.webhookId ∈ w.webhooks.map Webhook.id
  copied : ∀ c ∈ w.calls, Copied w.deliveries c
  covered : ∀ webhookId eventId r, latestAttempt w.deliveries webhookId eventId = some r → Covered w r

variable {k : Hold} {t : Scheduled}

section Rules

variable {w w' : World} {r row : Delivery} {x y : Call} {id : String} {data : Delivery → Delivery}

theorem Copied.mono {rows rows' : List Delivery} (h : Copied rows x)
    (hsub : rows.map Delivery.key ⊆ rows'.map Delivery.key) : Copied rows' x := by
  cases x with
  | sending | failing | retrying => exact hsub h
  | _ => trivial

/-- What becomes of a call that is taken off the list: the schedule and the other calls stay. -/
structure Passes (x : Call) (w w' : World) : Prop where
  hooks : w.webhooks.map Webhook.id ⊆ w'.webhooks.map Webhook.id
  queue : w.queue ⊆ w'.queue
  calls : w.calls.erase x ⊆ w'.calls
  copied : ∀ c ∈ w'.calls, c ∈ w.calls ∨ Copied w.deliveries c

theorem Passes.all_copied (hp : Passes x w w') (h : ∀ c ∈ w.calls, Copied w.deliveries c) :
    ∀ c ∈ w'.calls, Copied w.deliveries c := by
  intro c hc
  rcases hp.copied c hc with hold | hnew
  · exact h c hold
  · exact hnew

theorem Passes.ends (hhooks : w'.webhooks = w.webhooks) (hqueue : w.queue ⊆ w'.queue)
    (hcalls : w'.calls = w.calls.erase x) : Passes x w w' := by
  refine ⟨by rw [hhooks]; exact Subset.refl _, hqueue, by rw [hcalls]; exact Subset.refl _, fun c hc => ?_⟩
  rw [hcalls] at hc
  exact .inl (mem_of_mem_erase hc)

/-- No call ends, and one may begin. -/
theorem Passes.begins (hhooks : w.webhooks.map Webhook.id ⊆ w'.webhooks.map Webhook.id) (hqueue : w.queue ⊆ w'.queue)
    (hcalls : w'.calls = w.calls ∨ ∃ y, w'.calls = y :: w.calls ∧ Copied w.deliveries y) : Passes x w w' := by
  rcases hcalls with hsame | ⟨y, hnew, hy⟩
  · exact ⟨hhooks, hqueue, by rw [hsame]; exact erase_subset, fun c hc => .inl (hsame ▸ hc)⟩
  · refine ⟨hhooks, hqueue, by rw [hnew]; exact List.Subset.trans erase_subset (subset_cons_self _ _), ?_⟩
    rw [hnew]
    exact forall_mem_cons.mpr ⟨.inr hy, fun c hc => .inl hc⟩

theorem Passes.goes_on (hhooks : w'.webhooks = w.webhooks) (hqueue : w.queue ⊆ w'.queue)
    (hcalls : w'.calls = y :: w.calls.erase x) (hy : Copied w.deliveries y) : Passes x w w' := by
  refine ⟨by rw [hhooks]; exact Subset.refl _, hqueue, by rw [hcalls]; exact subset_cons_self _ _, ?_⟩
  rw [hcalls]
  exact forall_mem_cons.mpr ⟨.inr hy, fun c hc => .inl (mem_of_mem_erase hc)⟩

theorem covered_iff : Covered w r ↔ r.Settled ∨ ∃ k, w.Holds k r.id ∧ (k = .retry ∨ r.status = .pending) := by
  constructor
  · rintro ((hsettled | ⟨hpending, hsend⟩) | (⟨hpending, hschedule⟩ | hretry))
    · exact .inl hsettled
    · exact .inr ⟨_, hsend, .inr hpending⟩
    · exact .inr ⟨_, hschedule, .inr hpending⟩
    · exact .inr ⟨_, hretry, .inl rfl⟩
  · rintro (hsettled | ⟨k, hk, hopen⟩)
    · exact .inl (.inl hsettled)
    · cases k with
      | retry => exact .inr (.inr hk)
      | send => exact .inl (.inr ⟨hopen.resolve_left nofun, hk⟩)
      | schedule => exact .inr (.inl ⟨hopen.resolve_left nofun, hk⟩)

/-- A row stays covered unless it was the call that is taken off that covered it. -/
theorem Covered.passes (h : Covered w r) (hp : Passes x w w')
    (hx : ∀ k, x.hold = some (k, r.id) → k = .retry ∨ r.status = .pending → Covered w' r) : Covered w' r := by
  have hholds : ∀ k, w.Holds k r.id → w'.Holds k r.id ∨ x.hold = some (k, r.id) := by
    rintro k (⟨hk, t, ht, hid⟩ | ⟨c, hc, hhold⟩)
    · exact .inl (.inl ⟨hk, t, hp.queue ht, hid⟩)
    · by_cases hcx : c = x
      · exact .inr (hcx ▸ hhold)
      · exact .inl (.inr ⟨c, hp.calls ((mem_erase_of_ne hcx).mpr hc), hhold⟩)
  rcases covered_iff.mp h with hsettled | ⟨k, hk, hopen⟩
  · exact .inl (.inl hsettled)
  · rcases hholds k hk with hk | hcall
    · exact covered_iff.mpr (.inr ⟨k, hk, hopen⟩)
    · exact hx k hcall hopen

/-- Rows are changed in place, and none of their keys. -/
theorem Inv.revise (h : Inv w) (f : Delivery → Delivery) (hrows : w'.deliveries = w.deliveries.map f)
    (hkey : ∀ r, (f r).key = r.key) (hp : Passes x w w')
    (hcovered : ∀ r ∈ w.deliveries, Covered w r → Covered w' (f r)) : Inv w' := by
  have hkeys : w'.deliveries.map Delivery.key = w.deliveries.map Delivery.key := by
    rw [hrows, List.map_map]
    exact map_congr_left fun r _ => hkey r
  constructor
  · have hids : ∀ rows : List Delivery, rows.map Delivery.id = (rows.map Delivery.key).map Prod.fst := by
      intro rows
      rw [List.map_map]
      rfl
    rw [hids, hkeys, ← hids]
    exact h.ids
  · intro d hd
    rw [hrows] at hd
    obtain ⟨r, hr, rfl⟩ := List.mem_map.mp hd
    rw [show (f r).webhookId = r.webhookId from congrArg (·.2.1) (hkey r)]
    exact hp.hooks (h.hooked r hr)
  · intro c hc
    refine (hp.all_copied h.copied c hc).mono ?_
    rw [hkeys]
    exact Subset.refl _
  · intro webhookId eventId d hd
    rw [hrows, latestAttempt_map hkey] at hd
    obtain ⟨r, hr, rfl⟩ := map_eq_some_iff.mp hd
    exact hcovered r (latestAttempt_mem hr).1 (h.covered _ _ r hr)

theorem Inv.pass (h : Inv w) (hrows : w'.deliveries = w.deliveries) (hp : Passes x w w')
    (hx : ∀ k, ∀ r ∈ w.deliveries, x.hold = some (k, r.id) → k = .retry ∨ r.status = .pending → Covered w' r) :
    Inv w' := by
  refine h.revise (fun r => r) (by rw [hrows, List.map_id']) (fun _ => rfl) hp fun r hr hcovered => ?_
  exact hcovered.passes hp fun k hk hpending => hx k r hr hk hpending

/-- The row of a delivery a call holds changes, and is covered afterwards. -/
theorem Inv.update (h : Inv w) (hrows : w'.deliveries = Table.update (fun d => d.id = id) data w.deliveries)
    (hkey : ∀ r, (data r).key = r.key) (hp : Passes x w w') (hx : ∀ k id', x.hold = some (k, id') → id' = id)
    (hcovered : ∀ r, r.id = id → Covered w r → Covered w' (data r)) : Inv w' := by
  refine h.revise (fun d => if decide (d.id = id) then data d else d) hrows ?_ hp ?_
  · intro r
    split
    · exact hkey r
    · rfl
  · intro r _ hr
    split
    · rename_i hid
      exact hcovered r (of_decide_eq_true hid) hr
    · rename_i hid
      exact hr.passes hp fun k hk _ => absurd (hx k _ hk) (by simpa using hid)

/-- A row is created. What the call held is of the same endpoint and event, and no longer the
    latest. -/
theorem Inv.create (h : Inv w) (hrows : w'.deliveries = w.deliveries ++ [row]) (haccepts : w.accepts row)
    (hp : Passes x w w') (hrow : Covered w' row)
    (hx : ∀ k, ∀ r ∈ w.deliveries, x.hold = some (k, r.id) → r.webhookId = row.webhookId ∧ r.eventId = row.eventId) :
    Inv w' := by
  obtain ⟨hhook, hfresh⟩ := Bool.and_eq_true_iff.mp haccepts
  constructor
  · rw [hrows]
    refine nodup_append_row h.ids fun d hd => ?_
    simpa using (Bool.and_eq_true_iff.mp (List.all_eq_true.mp hfresh d hd)).1
  · intro d hd
    rw [hrows] at hd
    rcases mem_append_row.mp hd with hd | rfl
    · exact hp.hooks (h.hooked d hd)
    · obtain ⟨hook, hfind⟩ := isSome_iff_exists.mp hhook
      exact hp.hooks (List.mem_map.mpr ⟨hook, of_find? hfind⟩)
  · intro c hc
    refine (hp.all_copied h.copied c hc).mono ?_
    rw [hrows, map_append]
    exact subset_append_left _ _
  · intro webhookId eventId r hr
    rw [hrows] at hr
    rcases latestAttempt_append hr with rfl | ⟨hr, hother⟩
    · exact hrow
    · obtain ⟨hmem, rfl, rfl⟩ := latestAttempt_mem hr
      refine (h.covered _ _ r hr).passes hp fun k hk _ => ?_
      obtain ⟨hwebhook, hevent⟩ := hx k r hmem hk
      rcases hother with hother | hother
      · exact absurd hwebhook.symm hother
      · exact absurd hevent.symm hother

/-- A call goes on and holds what it held; a call that begins holds what it will. -/
theorem Covered.held (hy : y.hold = some (k, r.id)) (hmem : y ∈ w.calls)
    (h : k = .retry ∨ r.status = .pending) : Covered w r :=
  covered_iff.mpr (.inr ⟨k, .inr ⟨y, hmem, hy⟩, h⟩)

theorem Inv.goes_on (h : Inv w) (hrows : w'.deliveries = w.deliveries) (hhooks : w'.webhooks = w.webhooks)
    (hqueue : w'.queue = w.queue) (hcalls : w'.calls = y :: w.calls.erase x) (hhold : y.hold = x.hold)
    (hy : Copied w.deliveries y) : Inv w' := by
  refine h.pass hrows (.goes_on hhooks (by rw [hqueue]; exact Subset.refl _) hcalls hy) fun k r _ hk => ?_
  exact Covered.held (hhold.trans hk) (by rw [hcalls]; exact mem_cons_self)

theorem Inv.ends (h : Inv w) (hhold : x.hold = none) : Inv (w.done x) :=
  h.pass rfl (.ends rfl (Subset.refl _) rfl) fun _ _ _ hk => nomatch hhold.symm.trans hk

/-- A call begins, or what no row depends on changes. -/
theorem Inv.begins (h : Inv w) (hrows : w'.deliveries = w.deliveries)
    (hhooks : w.webhooks.map Webhook.id ⊆ w'.webhooks.map Webhook.id) (hqueue : w.queue ⊆ w'.queue)
    (hcalls : w'.calls = w.calls ∨ ∃ y, w'.calls = y :: w.calls ∧ Copied w.deliveries y) : Inv w' :=
  h.pass (x := .succeeded "") hrows (.begins hhooks hqueue hcalls) fun _ _ _ hk => nomatch hk

theorem Inv.schedules (h : Inv w) (hrows : w'.deliveries = w.deliveries)
    (hqueue : w'.queue = w.queue ++ [t]) (hx : x.hold = some (.schedule, t.deliveryId)) (hp : Passes x w w') :
    Inv w' := by
  refine h.pass hrows hp fun k r _ hk hpending => ?_
  obtain ⟨rfl, hid⟩ := Prod.mk.inj (some.inj (hx.symm.trans hk))
  refine .inl (.inr ⟨hpending.resolve_left nofun, .inl ⟨rfl, t, ?_, hid⟩⟩)
  rw [hqueue]
  exact mem_append_right _ (mem_singleton_self t)

end Rules

/-! ## Every step keeps it -/

section Steps

variable {w w' : World} {deliveryId webhookId id : String} {delivery : Delivery}

theorem Inv.findWebhook_ne_none (h : Inv w) {d : Delivery} (hd : d ∈ w.deliveries) :
    w.findWebhook d.webhookId ≠ none := by
  intro hnone
  obtain ⟨hook, hmem, hid⟩ := List.mem_map.mp (h.hooked d hd)
  exact find?_eq_none.mp hnone hook hmem (by simp [hid])

/-- A worker with no PENDING row to send is done. -/
theorem idle_inv (h : Inv w) (hidle : ∀ r ∈ w.deliveries, r.id = deliveryId → r.status ≠ .pending) :
    Inv (w.done (.reading deliveryId webhookId)) := by
  refine h.pass rfl (.ends rfl (Subset.refl _) rfl) fun k r hr hk hpending => ?_
  obtain ⟨rfl, hid⟩ := Prod.mk.inj (some.inj hk)
  exact absurd (hpending.resolve_left nofun) (hidle r hr hid.symm)

/-- What a worker does with the row it has read. -/
theorem dispatch_inv (h : Inv w) {hook : Webhook} (hfind : w.findDelivery deliveryId = some delivery) :
    Inv ((w.done (.reading deliveryId webhookId)).dispatch delivery hook) := by
  obtain ⟨hmem, rfl⟩ := of_find? hfind
  unfold World.dispatch
  split
  · exact h.goes_on rfl rfl rfl rfl rfl trivial
  · split
    · rename_i hstatus
      refine idle_inv h fun r hr hid => ?_
      -- the row that was read is the only one with its id
      obtain rfl := eq_of_key h.ids hr hmem hid
      exact hstatus
    · split
      · exact h.goes_on rfl rfl rfl rfl rfl trivial
      · split
        · exact h.goes_on rfl rfl rfl rfl rfl trivial
        · exact h.goes_on rfl rfl rfl rfl rfl (List.mem_map_of_mem hmem)

theorem conclude_inv (h : Inv w) (hmem : .sending delivery ∈ w.calls) (outcome : Outcome) :
    Inv ((w.done (.sending delivery)).conclude delivery outcome) := by
  have hcopied : delivery.key ∈ w.deliveries.map Delivery.key := h.copied _ hmem
  cases outcome with
  | failed =>
    rw [World.conclude]
    split
    · exact h.goes_on rfl rfl rfl rfl rfl trivial
    · exact h.goes_on rfl rfl rfl rfl rfl hcopied
  | _ => exact h.goes_on rfl rfl rfl rfl rfl trivial

variable {x y : Call}

/-- The row of a first attempt is created, by a call that held none. -/
theorem starts_inv (h : Inv w) {row : Delivery} (haccepts : w.accepts row)
    (hpending : row.status = .pending) (hx : x.hold = none) (hy : y.hold = some (.schedule, row.id))
    (hcopied : Copied w.deliveries y) : Inv (((w.done x).create row).call y) := by
  refine h.create rfl haccepts (.goes_on rfl (Subset.refl _) rfl hcopied) ?_ fun _ _ _ hk => nomatch hx.symm.trans hk
  exact Covered.held hy mem_cons_self (.inr hpending)

/-- The retry takes the place of the attempt that failed. -/
theorem retry_inv (h : Inv w) {nextRetryAt : Int} (hmem : .retrying delivery nextRetryAt ∈ w.calls)
    (hfresh : ∀ d ∈ w.deliveries, d.id ≠ id) :
    Inv ((w.done (.retrying delivery nextRetryAt)).next id (.retrying delivery nextRetryAt)) := by
  obtain ⟨r, hr, hkey⟩ := List.mem_map.mp (h.copied _ hmem)
  obtain ⟨hid, hwebhook, hevent⟩ : r.id = delivery.id ∧ r.webhookId = delivery.webhookId ∧
      r.eventId = delivery.eventId :=
    ⟨congrArg (·.1) hkey, congrArg (·.2.1) hkey, congrArg (·.2.2) hkey⟩
  have haccepts : w.accepts (delivery.retry id nextRetryAt) := by
    refine Bool.and_eq_true_iff.mpr ⟨?_, List.all_eq_true.mpr fun d hd => ?_⟩
    · exact isSome_iff_ne_none.mpr (hwebhook ▸ h.findWebhook_ne_none hr)
    · simp [Delivery.retry, Delivery.pending, hfresh d hd]
  rw [World.next]
  show Inv (if w.accepts (delivery.retry id nextRetryAt) then _ else _)
  rw [if_pos haccepts]
  refine h.create rfl haccepts (.goes_on rfl (Subset.refl _) rfl trivial) ?_ fun k r' hr' hk => ?_
  · exact Covered.held rfl mem_cons_self (.inr rfl)
  · obtain ⟨-, hid'⟩ := Prod.mk.inj (some.inj hk)
    obtain rfl := eq_of_key h.ids hr' hr (hid'.symm.trans hid.symm)
    exact ⟨hwebhook, hevent⟩

theorem hold_inj (hx : x.hold = some (k, id)) : ∀ k' id', x.hold = some (k', id') → id' = id := by
  intro k' id' hk
  exact (Prod.mk.inj (some.inj (hk.symm.trans hx))).2

theorem next_inv (h : Inv w) (hmem : x ∈ w.calls) (hready : x.isReady w.clock)
    (hfresh : ∀ d ∈ w.deliveries, d.id ≠ id) (hok : Undisturbed w (.proceed x id)) : Inv ((w.done x).next id x) := by
  cases x with
  | enqueueing eventId hooks =>
    cases hooks with
    | nil => exact h.ends rfl
    | cons =>
      rw [World.next]
      split
      · exact starts_inv h ‹_› rfl rfl rfl trivial
      · exact h.ends rfl
  | enqueued =>
    exact h.schedules rfl rfl rfl (.goes_on rfl (subset_append_left _ _) rfl trivial)
  | replaying =>
    rw [World.next]
    split
    · exact h.ends rfl
    · split
      · exact h.goes_on rfl rfl rfl rfl rfl trivial
      · exact h.ends rfl
  | replayCreating =>
    rw [World.next]
    split
    · exact starts_inv h ‹_› rfl rfl rfl trivial
    · exact h.ends rfl
  | created | retried => exact h.schedules rfl rfl rfl (.ends rfl (subset_append_left _ _) rfl)
  | waiting => exact h.goes_on rfl rfl rfl rfl rfl trivial
  | checking deliveryId webhookId =>
    have hallowed : (canAttemptDelivery w.circuits webhookId w.clock).1 := hok
    rw [World.next]
    simp only [World.done, hallowed, if_true]
    exact h.goes_on rfl rfl rfl rfl rfl trivial
  | reading deliveryId webhookId =>
    rw [World.next]
    split
    · rename_i hfind
      refine idle_inv h fun r hr hid => ?_
      exact absurd hid (by simpa using find?_eq_none.mp hfind r hr)
    · rename_i delivery hfind
      split
      · rename_i hhook
        exact absurd hhook (h.findWebhook_ne_none (mem_of_find?_eq_some hfind))
      · exact dispatch_inv h hfind
  | archiving =>
    refine h.update rfl (fun _ => rfl) (.ends rfl (Subset.refl _) rfl) (hold_inj rfl) fun r _ _ => ?_
    exact .inl (.inl (.inr (.inr ⟨rfl, rfl⟩)))
  | deadLettering deliveryId webhookId reason failureReason =>
    have hsettled : ∀ r : Delivery, (r.deadLetter reason failureReason w.clock).Settled :=
      fun r => .inr (.inl ⟨rfl, rfl⟩)
    rw [World.next]
    split
    · exact h.update rfl (fun _ => rfl) (.goes_on rfl (Subset.refl _) rfl trivial) (hold_inj rfl)
        fun r _ _ => .inl (.inl (hsettled r))
    · exact h.update rfl (fun _ => rfl) (.ends rfl (Subset.refl _) rfl) (hold_inj rfl)
        fun r _ _ => .inl (.inl (hsettled r))
  | sending => cases hready
  | succeeding =>
    refine h.update rfl (fun _ => rfl) (.goes_on rfl (Subset.refl _) rfl trivial) (hold_inj rfl) fun r _ _ => ?_
    exact .inl (.inl (.inl rfl))
  | succeeded | exhausted =>
    exact h.pass rfl (.ends rfl (Subset.refl _) rfl) fun _ _ _ hk => nomatch hk
  | failing delivery =>
    have hcopied : delivery.key ∈ w.deliveries.map Delivery.key := h.copied _ hmem
    refine h.update rfl (fun _ => rfl) (.goes_on rfl (Subset.refl _) rfl hcopied) (hold_inj rfl) fun r hid _ => ?_
    refine Covered.held (k := .retry) ?_ mem_cons_self (.inl rfl)
    exact congrArg (fun i => some (Hold.retry, i)) hid.symm
  | retrying => exact retry_inv h hmem hfresh

theorem start_inv (h : Inv w) (hy : y.hold = some (.send, t.deliveryId))
    (hcopied : Copied w.deliveries y) : Inv ({ w with queue := w.queue.erase t }.call y) := by
  -- the call that takes the task over covers what the task covered
  have hlater : Inv (w.call y) := by
    refine h.pass (x := y) rfl (.begins (Subset.refl _) (Subset.refl _) (.inr ⟨y, rfl, hcopied⟩)) fun k r _ hk => ?_
    exact Covered.held hk mem_cons_self
  refine { hlater with covered := fun webhookId eventId r hr => ?_ }
  have hholds : ∀ k, (w.call y).Holds k r.id → ({ w with queue := w.queue.erase t }.call y).Holds k r.id := by
    rintro k (⟨rfl, t', ht', hid⟩ | hcall)
    · by_cases htt : t' = t
      · exact .inr ⟨y, mem_cons_self, by rw [hy, ← htt, hid]⟩
      · exact .inl ⟨rfl, t', (mem_erase_of_ne htt).mpr ht', hid⟩
    · exact .inr hcall
  rcases covered_iff.mp (hlater.covered webhookId eventId r hr) with hsettled | ⟨k, hk, hopen⟩
  · exact .inl (.inl hsettled)
  · exact covered_iff.mpr (.inr ⟨k, hholds k hk, hopen⟩)

/-- A restart schedules what is PENDING; everything else must have been settled or retried. -/
theorem restart_inv (h : Inv w) (maxAttempts : Nat) (hok : Undisturbed w (.restart maxAttempts)) :
    Inv { w with queue := w.pendingTasks, calls := [], maxAttempts } := by
  refine ⟨h.ids, h.hooked, fun c hc => absurd hc not_mem_nil, fun webhookId eventId r hr => ?_⟩
  have hpending : r.status = .pending → ∃ t ∈ w.pendingTasks, t.deliveryId = r.id := by
    intro hstatus
    exact ⟨_, List.mem_map_of_mem (mem_filter.mpr ⟨(latestAttempt_mem hr).1, by simp [hstatus]⟩), rfl⟩
  rcases h.covered webhookId eventId r hr with (hsettled | ⟨hstatus, -⟩) | (⟨hstatus, -⟩ | ⟨hsend, -⟩ | ⟨c, hc, hhold⟩)
  · exact .inl (.inl hsettled)
  · exact .inl (.inr ⟨hstatus, .inl ⟨rfl, hpending hstatus⟩⟩)
  · exact .inl (.inr ⟨hstatus, .inl ⟨rfl, hpending hstatus⟩⟩)
  · cases hsend
  · exact absurd (by rw [hhold]; rfl) (hok c hc)

theorem redrive_inv (h : Inv w) {organizationId : String} (hstep : w.redrive organizationId deliveryId id = some w') :
    Inv w' := by
  obtain ⟨deadLetter, -, hstep⟩ := bind_eq_some_iff.mp hstep
  obtain ⟨_, -, hstep⟩ := bind_eq_some_iff.mp hstep
  obtain ⟨_, hguard, hstep⟩ := bind_eq_some_iff.mp hstep
  cases hstep
  obtain ⟨haccepts, -⟩ := (guard_eq_some' _).mp hguard
  let claimed : World := { w with auditDefaultRow := true }.update deadLetter.id (.redriven w.clock)
  -- the claim changes nothing a row is covered by, and nothing the new row has to differ in
  have hclaimed : Inv claimed := by
    refine h.revise (x := .succeeded "") _ rfl (fun r => ?_)
      (.begins (Subset.refl _) (Subset.refl _) (.inl rfl)) fun r _ hr => ?_
    · split <;> rfl
    · split <;> exact hr
  have haccepted : claimed.accepts (deadLetter.again id (redriveKey deadLetter.id)) := by
    obtain ⟨hhook, hrows⟩ := Bool.and_eq_true_iff.mp haccepts
    refine Bool.and_eq_true_iff.mpr ⟨hhook, List.all_eq_true.mpr ?_⟩
    have hrows := List.all_eq_true.mp hrows
    exact forall_update hrows fun d hd _ => hrows d hd
  refine hclaimed.create (x := .succeeded "") rfl haccepted
    (.begins (Subset.refl _) (Subset.refl _) (.inr ⟨_, rfl, trivial⟩)) ?_ fun _ _ _ hk => nomatch hk
  exact Covered.held rfl mem_cons_self (.inr rfl)

theorem step_inv (h : Inv w) {e : Event} (hok : Undisturbed w e) (hstep : step w e = some w') : Inv w' := by
  cases e with
  | addWebhook =>
    obtain ⟨-, rfl⟩ := enabled hstep
    refine h.begins rfl ?_ (Subset.refl _) (.inl rfl)
    exact map_subset _ (subset_append_left _ _)
  | setStatus | deleteWebhook =>
    cases hstep
    refine h.begins rfl ?_ (Subset.refl _) (.inl rfl)
    rw [map_update Webhook.id (by intro x; rfl)]
    exact Subset.refl _
  | enqueue =>
    cases hstep
    exact h.begins rfl (Subset.refl _) (Subset.refl _) (.inr ⟨_, rfl, trivial⟩)
  | replay =>
    obtain ⟨_, -, hstep⟩ := bind_eq_some_iff.mp hstep
    cases hstep
    exact h.begins rfl (Subset.refl _) (Subset.refl _) (.inr ⟨_, rfl, trivial⟩)
  | redrive => exact redrive_inv h hstep
  | start =>
    obtain ⟨-, rfl⟩ := enabled hstep
    exact start_inv h rfl trivial
  | proceed =>
    obtain ⟨⟨hmem, hready, hfresh⟩, rfl⟩ := enabled hstep
    exact next_inv h hmem hready hfresh hok
  | respond delivery outcome =>
    obtain ⟨hmem, rfl⟩ := enabled hstep
    exact conclude_inv h hmem outcome
  | breaks =>
    obtain ⟨-, rfl⟩ := enabled hstep
    exact h.ends hok
  | restart maxAttempts =>
    cases hstep
    exact restart_inv h maxAttempts hok
  | _ =>
    cases hstep
    exact h.begins rfl (Subset.refl _) (Subset.refl _) (.inl rfl)

theorem initial_inv (h : w.Initial) : Inv w := by
  obtain ⟨hrows, -, hcalls⟩ := h
  constructor
  · simp [hrows]
  · simp [hrows]
  · simp [hcalls]
  · simp [hrows, latestAttempt]

end Steps

/-! ## No delivery is lost -/

/-- In every undisturbed run the last attempt at every event for every endpoint has survived, or
    a call under way has it in hand. -/
theorem no_delivery_lost {w₀ w : World} (hinitial : w₀.Initial) (hrun : Run step Undisturbed w₀ w)
    {webhookId eventId : String} {r : Delivery} (hlatest : latestAttempt w.deliveries webhookId eventId = some r) :
    w.Survives r ∨ w.InHand r := by
  have hinv : Inv w := hrun.invariant (initial_inv hinitial) fun _ _ _ h => step_inv h
  exact hinv.covered webhookId eventId r hlatest

/-! ## One endpoint, one event -/

def oneEndpoint : World where
  webhooks := [⟨"hook-1", "org-1", ["proof.created"], .active⟩]
  archived := []
  deliveries := []
  circuits := []
  auditDefaultRow := false
  queue := []
  calls := []
  clock := 0
  maxAttempts := 5

def delivery₁ : Delivery := .pending "delivery-1" "hook-1" "event-1" 1 none none

/-- The event is enqueued, sent and answered with an error. -/
def refused : List Event :=
  [.enqueue ["org-1"] "proof.created" "event-1" ["hook-1"], .proceed (.enqueueing "event-1" ["hook-1"]) "delivery-1",
    .proceed (.enqueued "delivery-1" "hook-1" "event-1" []) "unused", .start ⟨"delivery-1", "hook-1", 0⟩,
    .proceed (.waiting "delivery-1" "hook-1" 0) "unused", .proceed (.checking "delivery-1" "hook-1") "unused",
    .proceed (.reading "delivery-1" "hook-1") "unused", .respond delivery₁ (.failed "HTTP 503"),
    .proceed (.failing delivery₁ "HTTP 503" 1000) "unused"]

/-- The retry is created and scheduled, and the process restarts before it is due. -/
def recovered : List Event :=
  refused ++ [.proceed (.retrying delivery₁ 1000) "delivery-2", .proceed (.retried "delivery-2" "hook-1" 1000) "unused",
    .restart 5]

theorem no_delivery_lost_recovered : ∃ w r, oneEndpoint.Initial ∧ Run step Undisturbed oneEndpoint w
    ∧ latestAttempt w.deliveries "hook-1" "event-1" = some r ∧ r.attempt = 2 ∧ (w.Survives r ∨ w.InHand r) := by
  have hreplay : ∃ w ∈ Run.replay step Undisturbed oneEndpoint recovered,
      ∃ r ∈ latestAttempt w.deliveries "hook-1" "event-1", r.attempt = 2 := by decide +kernel
  obtain ⟨w, hw, r, hr, hattempt⟩ := hreplay
  have hinitial : oneEndpoint.Initial := ⟨rfl, rfl, rfl⟩
  have hrun := Run.of_replay _ hw
  exact ⟨w, r, hinitial, hrun, hr, hattempt, no_delivery_lost hinitial hrun hr⟩

/-- The process dies when the attempt is marked FAILED and its retry is not created: the event is
    neither delivered nor dead-lettered, its organization is not archived, and nothing is scheduled
    or under way. -/
theorem failed_and_forgotten : ∃ w r, oneEndpoint.Initial ∧ Run step anyStep oneEndpoint w
    ∧ latestAttempt w.deliveries "hook-1" "event-1" = some r ∧ r.status = .failed ∧ r.deadLetteredAt = none
    ∧ w.archived = [] ∧ w.queue = [] ∧ w.calls = [] ∧ ¬ (w.Survives r ∨ w.InHand r) := by
  have hreplay : ∃ w ∈ Run.replay step anyStep oneEndpoint (refused ++ [.restart 5]),
      ∃ r ∈ latestAttempt w.deliveries "hook-1" "event-1", r.status = .failed ∧ r.deadLetteredAt = none
        ∧ w.archived = [] ∧ w.queue = [] ∧ w.calls = [] ∧ ¬ (w.Survives r ∨ w.InHand r) := by decide +kernel
  obtain ⟨w, hw, r, hr, hfacts⟩ := hreplay
  exact ⟨w, r, ⟨rfl, rfl, rfl⟩, Run.of_replay _ hw, hr, hfacts⟩

end EarnProof.Webhooks
