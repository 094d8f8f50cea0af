/-
  EarnProof.Idempotency.Replies — what a request is answered from a stored record.

  Stored is the response less its sensitive fields, so a proof comes back without the
  signature of its credential, and a failed or cancelled record has no response and is
  answered 200 with `null` (`untruthful`). Proved: a request answered from a completed record
  gets the status and the stripped body with which a handler run for its key and fingerprint
  completed (`completed_reply_truthful`).

  `success` and `failure` write by key. A record that is removed under a request still being
  handled may be followed by one of another request, and the first one's outcome then lands
  there; so a record goes only when no request beyond its lookup is under way for its key.
-/
import EarnProof.Idempotency.Records

namespace EarnProof.Idempotency

open Lib Lib.Table List

def Completed (runs : List HandlerRun) (c : Call) (body : Json) (code : Nat) : Prop :=
  ∃ r ∈ runs, r.call = c ∧ r.outcome = some (.succeeded body code)
  deriving Decidable

/-- Every success that was answered from a record is what a handler run for the call answered. -/
def Truthful (w : World) : Prop :=
  ∀ a ∈ w.replies, 200 ≤ a.reply.statusCode → a.reply.statusCode < 300 →
    Completed w.runs a.call a.reply.body a.reply.statusCode
  deriving Decidable

/-- A record is removed only while no request for its key is beyond its lookup. -/
def Undisturbed (w : World) : Event → Prop
  | .remove id => ∀ r ∈ w.records, r.id = id → ∀ x ∈ w.tasks, x.call.key = r.key → x.stage = .checked
  | _ => True

instance (w : World) (e : Event) : Decidable (Undisturbed w e) := by
  induction e using Event.casesOn <;> dsimp only [Undisturbed] <;> infer_instance

/-! ## The record of a request that is being handled -/

def World.calls (w : World) : List Call := w.records.map IdempotencyRecord.call

/-- The request has found or inserted the record of its call. -/
def Stage.holds : Stage → Bool
  | .counting _ _ | .running _ | .ended _ => true
  | .checked | .conflicted => false

/-- What the stage of a task says of the stored calls. -/
def Stage.Fits (calls : List Call) (c : Call) : Stage → Prop
  | .checked => True
  | .conflicted => ∃ d ∈ calls, d.key = c.key
  | .counting _ _ | .running _ | .ended _ => c ∈ calls

structure Held (w : World) : Prop where
  keys : (w.calls.map Call.key).Nodup
  fits : ∀ x ∈ w.tasks, x.stage.Fits w.calls x.call

variable {stage : Stage} {w w' : World} {calls : List Call} {c : Call} {sel : IdempotencyRecord → Bool}
  {data : IdempotencyRecord → IdempotencyRecord} {e : Event} {x : Task} {r r' : IdempotencyRecord} {outcome : Outcome}
  {runs runs' : List HandlerRun} {run : Nat} {records : List IdempotencyRecord}

theorem Stage.Fits.mono {calls calls' : List Call} (h : stage.Fits calls c)
    (hsub : ∀ d ∈ calls, d ∈ calls') : stage.Fits calls' c := by
  cases stage with
  | checked => exact trivial
  | conflicted =>
    obtain ⟨d, hd, hkey⟩ := h
    exact ⟨d, hsub d hd, hkey⟩
  | _ => exact hsub c h

theorem Stage.fits_of_holds (hs : stage.holds) : stage.Fits calls c ↔ c ∈ calls := by
  cases stage with
  | checked | conflicted => cases hs
  | _ => exact Iff.rfl

/-- The calls stay, and every task is an old one or fits. -/
theorem Held.frame (h : Held w) (hcalls : w'.calls = w.calls)
    (htasks : ∀ y ∈ w'.tasks, y ∈ w.tasks ∨ y.stage.Fits w.calls y.call) : Held w' := by
  refine ⟨hcalls ▸ h.keys, ?_⟩
  intro y hy
  rw [hcalls]
  rcases htasks y hy with hold | hnew
  · exact h.fits y hold
  · exact hnew

/-- A task is moved to a stage that fits. -/
theorem fits_advance (x : Task) (hfits : stage.Fits w.calls x.call) :
    ∀ y ∈ (w.advance x stage).tasks, y ∈ w.tasks ∨ y.stage.Fits w.calls y.call := by
  intro y hy
  rcases mem_advance hy with hold | rfl
  · exact .inl hold
  · exact .inr hfits

theorem Held.inserted (h : Held w) (x : Task) (hnew : findRecord w.records x.call.key = none) :
    Held { w.startHandler x (some w.nextId) with
      records := w.records ++ [reserved w.nextId x.call], nextId := w.nextId + 1 } := by
  have hcalls : (w.records ++ [reserved w.nextId x.call]).map IdempotencyRecord.call = w.calls ++ [x.call] := by
    rw [map_append]
    rfl
  refine ⟨?_, ?_⟩
  · show (List.map Call.key (List.map _ _)).Nodup
    rw [hcalls, map_append]
    refine List.Nodup.append h.keys (nodup_singleton _) ?_
    intro key hold hkey
    obtain ⟨c, hc, rfl⟩ := mem_map.mp hold
    obtain ⟨r, hr, rfl⟩ := mem_map.mp hc
    exact findRecord_eq_none hnew hr (mem_singleton.mp hkey)
  · intro y hy
    show y.stage.Fits (List.map _ _) y.call
    rw [hcalls]
    rcases mem_advance hy with hold | rfl
    · exact (h.fits y hold).mono fun d hd => mem_append_left _ hd
    · exact mem_append_right _ (mem_singleton_self _)

theorem Held.removed (h : Held w) {id : Nat} (hok : Undisturbed w (.remove id)) :
    Held { w with records := w.records.filter fun r => r.id ≠ id } := by
  have hstays : ∀ x ∈ w.tasks, x.stage ≠ .checked → ∀ c ∈ w.calls, c.key = x.call.key →
      c ∈ (w.records.filter fun r => r.id ≠ id).map IdempotencyRecord.call := by
    intro x hx hstage c hc hkey
    obtain ⟨r, hr, rfl⟩ := mem_map.mp hc
    refine mem_map_of_mem (mem_filter.mpr ⟨hr, decide_eq_true ?_⟩)
    intro hid
    exact hstage (hok r hr hid x hx hkey.symm)
  refine ⟨?_, ?_⟩
  · exact ((filter_sublist.map IdempotencyRecord.call).map Call.key).nodup h.keys
  · intro x hx
    have hfits := h.fits x hx
    show x.stage.Fits (List.map _ _) x.call
    have hstay := hstays x hx
    cases hstage : x.stage with
    | checked => exact trivial
    | conflicted =>
      rw [hstage] at hfits hstay
      obtain ⟨d, hd, hkey⟩ := hfits
      exact ⟨d, hstay (by simp) d hd hkey, hkey⟩
    | _ =>
      rw [hstage] at hfits hstay
      exact hstay (by simp) x.call hfits rfl

theorem Held.step (h : Held w) (hok : Undisturbed w e) (hstep : step w e = some w') : Held w' := by
  cases step_effect hstep with
  | idle => exact h
  | checked =>
    exact h.frame rfl (forall_append_row (fun y hy => .inl hy) (.inr trivial))
  | answered | cancelling => exact h.frame rfl fun y hy => .inl hy
  | inserted x hx hnew => exact h.inserted x hnew
  | refused x hx r hfind =>
    obtain ⟨hr, hkey⟩ := findRecord_eq_some hfind
    exact h.frame rfl (fits_advance x ⟨r.call, mem_map_of_mem hr, hkey⟩)
  | unrecorded x hx hstage hnone =>
    -- the record that refused the insert is still there
    have hfits := h.fits x hx
    rw [hstage] at hfits
    obtain ⟨d, hd, hkey⟩ := hfits
    obtain ⟨r, hr, rfl⟩ := mem_map.mp hd
    exact absurd hkey (findRecord_eq_none hnone hr)
  | counting x hx hstage r hfind hcall =>
    have hmem : x.call ∈ w.calls := hcall ▸ mem_map_of_mem (findRecord_eq_some hfind).1
    exact h.frame rfl (fits_advance x hmem)
  | counted x hx id attemptCount hstage =>
    have hmem : x.call ∈ w.calls := (Stage.fits_of_holds (by rw [hstage]; rfl)).mp (h.fits x hx)
    exact h.frame (map_update IdempotencyRecord.call (by intro r; rfl)) (fits_advance x hmem)
  | ended _ x hx run hstage =>
    have hmem : x.call ∈ w.calls := (Stage.fits_of_holds (by rw [hstage]; rfl)).mp (h.fits x hx)
    exact h.frame rfl (fits_advance x hmem)
  | stored x hx run hstage outcome =>
    cases outcome with
    | succeeded | failed =>
      exact h.frame (map_update IdempotencyRecord.call (by intro r; rfl)) fun y hy => .inl (mem_of_mem_erase hy)
  | left => exact h.frame rfl fun y hy => .inl (mem_of_mem_erase hy)
  | cancelled => exact h.frame (map_update IdempotencyRecord.call (by intro r; rfl)) fun y hy => .inl hy
  | removed => exact h.removed hok

/-! ## The runs behind the completed records -/

def Stored (runs : List HandlerRun) (r : IdempotencyRecord) : Prop :=
  ∃ body code, Completed runs r.call body code ∧ code ≠ 0 ∧
    r.responseBody = some (stripSensitiveFields body) ∧ r.responseStatusCode = some code

structure Backed (w : World) : Prop where
  ids : w.runs.map HandlerRun.id = List.range w.runs.length
  codes : ∀ r ∈ w.runs, ∀ body code, r.outcome = some (.succeeded body code) → code ≠ 0
  own : ∀ x ∈ w.tasks, ∀ run, x.stage = .running run ∨ x.stage = .ended run → ∃ r ∈ w.runs, r.id = run ∧ r.call = x.call
  completed : ∀ r ∈ w.records, r.status = .completed → Stored w.runs r
  replies : ∀ a ∈ w.replies, a.status = .completed →
    ∃ body code, Completed w.runs a.call body code ∧ a.reply = ⟨code, stripSensitiveFields body⟩

/-- What a step may do to the runs: old ones stay, up to a first outcome. -/
structure Extends (runs runs' : List HandlerRun) : Prop where
  ids : runs'.map HandlerRun.id = List.range runs'.length
  codes : ∀ r ∈ runs', ∀ body code, r.outcome = some (.succeeded body code) → code ≠ 0
  calls : ∀ r ∈ runs, ∃ r' ∈ runs', r'.id = r.id ∧ r'.call = r.call
  completed : ∀ c body code, Completed runs c body code → Completed runs' c body code

theorem Backed.same (h : Backed w) : Extends w.runs w.runs :=
  ⟨h.ids, h.codes, fun r hr => ⟨r, hr, rfl, rfl⟩, fun _ _ _ hc => hc⟩

theorem Backed.started (h : Backed w) (c : Call) (record : Option Nat) :
    Extends w.runs (w.runs ++ [⟨w.runs.length, c, record, none⟩]) := by
  refine ⟨?_, ?_, ?_, ?_⟩
  · rw [map_append, h.ids, length_append, length_singleton, range_succ]
    rfl
  · exact forall_append_row h.codes nofun
  · exact fun r hr => ⟨r, mem_append_left _ hr, rfl, rfl⟩
  · rintro c body code ⟨r, hr, hfacts⟩
    exact ⟨r, mem_append_left _ hr, hfacts⟩

theorem Backed.finished (h : Backed w) (run : Nat)
    (hcode : ∀ body code, outcome = .succeeded body code → code ≠ 0) : Extends w.runs (endRun w.runs run outcome) := by
  refine ⟨?_, ?_, ?_, ?_⟩
  · have hids : (endRun w.runs run outcome).map HandlerRun.id = w.runs.map HandlerRun.id :=
      map_update HandlerRun.id fun _ => rfl
    rw [hids, h.ids, endRun, Table.update, length_map]
  · intro r' hr' body code hout
    obtain ⟨r, hr, ⟨-, rfl⟩ | ⟨-, rfl⟩⟩ := mem_update_cases hr'
    · exact hcode body code (Option.some.inj hout)
    · exact h.codes _ hr body code hout
  · intro r hr
    by_cases hsel : (r.id = run && r.outcome.isNone)
    · exact ⟨_, mem_update_of_sel hr hsel, rfl, rfl⟩
    · exact ⟨r, mem_update_of_not hr (Bool.eq_false_iff.mpr hsel), rfl, rfl⟩
  · rintro c body code ⟨r, hr, hcall, hout⟩
    -- a run that has an outcome keeps it
    exact ⟨r, mem_update_of_not hr (by rw [hout]; simp), hcall, hout⟩

theorem Stored.mono (h : Stored runs r)
    (hext : ∀ c body code, Completed runs c body code → Completed runs' c body code) : Stored runs' r := by
  obtain ⟨body, code, hrun, hrest⟩ := h
  exact ⟨body, code, hext _ _ _ hrun, hrest⟩

/-- A step in its parts: the runs, the tasks, the records and the replies. -/
theorem Backed.frame (h : Backed w) (hruns : Extends w.runs w'.runs) (htasks : ∀ y ∈ w'.tasks, y ∈ w.tasks ∨
      ∀ run, y.stage = .running run ∨ y.stage = .ended run → ∃ r ∈ w'.runs, r.id = run ∧ r.call = y.call)
    (hrecords : ∀ r' ∈ w'.records, r'.status = .completed → Stored w'.runs r' ∨ ∃ r ∈ w.records, r.status = .completed ∧
      r'.call = r.call ∧ r'.responseBody = r.responseBody ∧ r'.responseStatusCode = r.responseStatusCode)
    (hreplies : ∀ a ∈ w'.replies, a ∈ w.replies ∨ (a.status = .completed →
      ∃ body code, Completed w'.runs a.call body code ∧ a.reply = ⟨code, stripSensitiveFields body⟩)) : Backed w' := by
  refine ⟨hruns.ids, hruns.codes, ?_, ?_, ?_⟩
  · intro y hy run hstage
    rcases htasks y hy with hold | hnew
    · obtain ⟨r, hr, hid, hcall⟩ := h.own y hold run hstage
      obtain ⟨r', hr', hid', hcall'⟩ := hruns.calls r hr
      exact ⟨r', hr', hid'.trans hid, hcall'.trans hcall⟩
    · exact hnew run hstage
  · intro r' hr' hstatus
    rcases hrecords r' hr' hstatus with hnew | ⟨r, hr, hdone, hcall, hbody, hcode⟩
    · exact hnew
    · have hstored := (h.completed r hr hdone).mono hruns.completed
      unfold Stored at hstored ⊢
      rw [hcall, hbody, hcode]
      exact hstored
  · intro a ha hstatus
    rcases hreplies a ha with hold | hnew
    · obtain ⟨body, code, hrun, hreply⟩ := h.replies a hold hstatus
      exact ⟨body, code, hruns.completed _ _ _ hrun, hreply⟩
    · exact hnew hstatus

/-- The reply a completed record gives. -/
theorem Stored.replay (h : Stored runs r) (hstatus : r.status = .completed) (requestId : Option String) :
    ∃ body code, Completed runs r.call body code ∧ replay requestId r = ⟨code, stripSensitiveFields body⟩ := by
  obtain ⟨body, code, hrun, hcode, hbody, hstored⟩ := h
  refine ⟨body, code, hrun, ?_⟩
  simp [Idempotency.replay, hstatus, hbody, hstored, codeOr, hcode]

/-- The outcome that is about to be written is that of a run of the task's call. -/
theorem Backed.run_of_ended (h : Backed w) (hx : x ∈ w.tasks)
    (hstage : x.stage = .ended run) (hrun : outcomeOf w.runs run = some outcome) :
    ∃ r ∈ w.runs, r.call = x.call ∧ r.outcome = some outcome := by
  obtain ⟨r, hr, hid, hcall⟩ := h.own x hx run (.inr hstage)
  obtain ⟨s, hs, hout⟩ := Option.bind_eq_some_iff.mp hrun
  have hnodup : (w.runs.map HandlerRun.id).Nodup := h.ids ▸ nodup_range
  obtain ⟨hmem, hrunId⟩ := of_find? hs
  have hsame : s = r := eq_of_key hnodup hmem hr (hrunId.trans hid.symm)
  exact ⟨r, hr, hcall, hsame ▸ hout⟩

theorem Backed.stored (hheld : Held w) (h : Backed w) (hx : x ∈ w.tasks)
    (hstage : x.stage = .ended run) (hrun : outcomeOf w.runs run = some outcome) :
    Backed (w.store x outcome) := by
  cases outcome with
  | succeeded body code =>
    refine h.frame h.same (fun y hy => .inl (mem_of_mem_erase hy)) ?_ fun a ha => .inl ha
    intro r' hr' hstatus
    obtain ⟨r, hr, ⟨hsel, rfl⟩ | ⟨-, rfl⟩⟩ := mem_update_cases hr'
    · obtain ⟨s, hs, hscall, hout⟩ := h.run_of_ended hx hstage hrun
      -- while a request is handled, the record of its key is its own
      have hmem : x.call ∈ w.calls := (Stage.fits_of_holds (by rw [hstage]; rfl)).mp (hheld.fits x hx)
      have hmine : r.call = x.call := eq_of_key hheld.keys (mem_map_of_mem hr) hmem (of_decide_eq_true hsel)
      exact .inl ⟨body, code, ⟨s, hs, hscall.trans hmine.symm, hout⟩, h.codes s hs body code hout, rfl, rfl⟩
    · exact .inr ⟨r', hr, hstatus, rfl, rfl, rfl⟩
  | failed =>
    refine h.frame h.same (fun y hy => .inl (mem_of_mem_erase hy)) ?_ fun a ha => .inl ha
    intro r' hr' hstatus
    obtain ⟨r, hr, ⟨-, rfl⟩ | ⟨-, rfl⟩⟩ := mem_update_cases hr'
    · cases hstatus
    · exact .inr ⟨_, hr, hstatus, rfl, rfl, rfl⟩

/-- A task that moves on with the run it has, or with none. -/
theorem Backed.advance (x : Task)
    (hrun : ∀ run, stage = .running run ∨ stage = .ended run → ∃ r ∈ runs', r.id = run ∧ r.call = x.call) :
    ∀ y ∈ (w.advance x stage).tasks, y ∈ w.tasks ∨
      ∀ run, y.stage = .running run ∨ y.stage = .ended run → ∃ r ∈ runs', r.id = run ∧ r.call = y.call := by
  intro y hy
  rcases mem_advance hy with hold | rfl
  · exact .inl hold
  · exact .inr hrun

/-- The handler that has just been started is the last run. -/
theorem started_run (runs : List HandlerRun) (c : Call) (record : Option Nat) :
    ∀ run, Stage.running runs.length = .running run ∨ Stage.running runs.length = .ended run →
      ∃ r ∈ runs ++ [⟨runs.length, c, record, none⟩], r.id = run ∧ r.call = c := by
  intro run hstage
  have hrun : runs.length = run := by
    rcases hstage with h | h
    · exact Stage.running.inj h
    · cases h
  exact ⟨_, mem_append_right _ (mem_singleton_self _), hrun, rfl⟩

/-- A completed row of an updated table that keeps the responses was completed before. -/
theorem completed_update (hdata : ∀ r, (data r).status = .completed → r.status = .completed ∧
      (data r).call = r.call ∧ (data r).responseBody = r.responseBody ∧
        (data r).responseStatusCode = r.responseStatusCode)
    (h : r' ∈ Table.update sel data records) (hstatus : r'.status = .completed) :
    ∃ r ∈ records, r.status = .completed ∧ r'.call = r.call ∧ r'.responseBody = r.responseBody ∧
      r'.responseStatusCode = r.responseStatusCode := by
  obtain ⟨r, hr, ⟨-, rfl⟩ | ⟨-, rfl⟩⟩ := mem_update_cases h
  · exact ⟨r, hr, hdata r hstatus⟩
  · exact ⟨_, hr, hstatus, rfl, rfl, rfl⟩

theorem Backed.step (hheld : Held w) (h : Backed w) (hstep : step w e = some w') : Backed w' := by
  have hrecords : ∀ r ∈ w.records, r.status = .completed → Stored w.runs r ∨ ∃ s ∈ w.records, s.status = .completed ∧
      r.call = s.call ∧ r.responseBody = s.responseBody ∧ r.responseStatusCode = s.responseStatusCode :=
    fun r hr hstatus => .inr ⟨r, hr, hstatus, rfl, rfl, rfl⟩
  cases step_effect hstep with
  | idle => exact h
  | checked =>
    refine h.frame h.same ?_ hrecords fun a ha => .inl ha
    exact forall_append_row (fun y hy => .inl hy) (.inr (by simp))
  | answered r record hrecord =>
    refine h.frame h.same (fun y hy => .inl hy) hrecords ?_
    refine forall_append_row (fun a ha => .inl ha) ?_
    exact .inr fun hstatus => (h.completed record hrecord hstatus).replay hstatus r.requestId
  | inserted x =>
    refine h.frame (h.started x.call _) (Backed.advance x (started_run _ _ _)) ?_ fun a ha => .inl ha
    exact forall_append_row (fun r hr hstatus => .inr ⟨r, hr, hstatus, rfl, rfl, rfl⟩) nofun
  | refused x | counting x => exact h.frame h.same (Backed.advance x (by simp)) hrecords fun a ha => .inl ha
  | unrecorded x =>
    refine h.frame (h.started x.call _) (Backed.advance x (started_run _ _ _)) ?_ fun a ha => .inl ha
    exact fun r hr hstatus => .inr ⟨r, hr, hstatus, rfl, rfl, rfl⟩
  | counted x =>
    refine h.frame (h.started x.call _) (Backed.advance x (started_run _ _ _)) ?_ fun a ha => .inl ha
    intro r hr hstatus
    exact .inr (completed_update (by intro r hs; exact ⟨hs, rfl, rfl, rfl⟩) hr hstatus)
  | ended _ x hx run hstage outcome hcode =>
    have hext := h.finished run hcode
    refine h.frame hext (Backed.advance x ?_) ?_ fun a ha => .inl ha
    · intro run' hrun'
      obtain rfl : run = run' := by
        rcases hrun' with hr | hr
        · cases hr
        · exact Stage.ended.inj hr
      obtain ⟨r, hr, hid, hcall⟩ := h.own x hx run (.inl hstage)
      obtain ⟨r', hr', hid', hcall'⟩ := hext.calls r hr
      exact ⟨r', hr', hid'.trans hid, hcall'.trans hcall⟩
    · exact fun r hr hstatus => .inr ⟨r, hr, hstatus, rfl, rfl, rfl⟩
  | stored x hx run hstage outcome hrun => exact Backed.stored hheld h hx hstage hrun
  | left => exact h.frame h.same (fun y hy => .inl (mem_of_mem_erase hy)) hrecords fun a ha => .inl ha
  | cancelling => exact h.frame h.same (fun y hy => .inl hy) hrecords fun a ha => .inl ha
  | cancelled =>
    refine h.frame h.same (fun y hy => .inl hy) ?_ fun a ha => .inl ha
    intro r hr hstatus
    exact .inr (completed_update (by intro r hs; cases hs) hr hstatus)
  | removed =>
    refine h.frame h.same (fun y hy => .inl hy) ?_ fun a ha => .inl ha
    exact fun r hr hstatus => .inr ⟨r, (mem_filter.mp hr).1, hstatus, rfl, rfl, rfl⟩

/-- A request that is answered from a completed record gets the status, and the body less
    sensitive fields, with which a handler run for its key and fingerprint completed. -/
theorem completed_reply_truthful {w : World} (h : Run step Undisturbed World.start w) :
    ∀ a ∈ w.replies, a.status = .completed →
      ∃ body code, Completed w.runs a.call body code ∧ a.reply = ⟨code, stripSensitiveFields body⟩ := by
  have hboth : Held w ∧ Backed w := by
    refine h.invariant (I := fun w => Held w ∧ Backed w) ?_ fun a e b ha hok hs =>
      ⟨ha.1.step hok hs, Backed.step ha.1 ha.2 hs⟩
    constructor <;> constructor <;> simp [World.start, World.calls]
  exact hboth.2.replies

/-! ## A proof that is asked for twice -/

def proofRequest : Request :=
  ⟨none, some "org_1", some "proof-1", "POST", "/proofs/minimum-income", some (.obj [("thresholdAmount", .str "100")])⟩

def proofCall : Call := ⟨"org_1", "proof-1", computeFingerprint proofRequest.method proofRequest.path proofRequest.body⟩

def proofCreated (proof : List (String × Json)) : Json :=
  .obj [("proofId", .str "prf_1"), ("status", .str "VALID"), ("credential", .obj [("proof", .obj proof)])]

def signedProof : Json := proofCreated [("type", .str "HMAC-SHA256"), ("signature", .str "hmac-sha256:c2lnbmVk")]

/-- A first request whose outcome is stored, and a second one. -/
def askedTwice (outcome : Event) : List Event :=
  [.check proofRequest, .insert ⟨proofCall, .checked⟩, outcome, .store ⟨proofCall, .ended 0⟩, .check proofRequest]

def otherRequest : Request := { proofRequest with body := some (.obj [("thresholdAmount", .str "200")]) }

def otherCall : Call := ⟨"org_1", "proof-1", computeFingerprint otherRequest.method otherRequest.path otherRequest.body⟩

/-- The second request gets the proof without its signature; where the first has failed or was
    cancelled, a success without a body; and where the first one's record is removed while it is
    handled, another request under the key is answered with the first one's proof, although no
    run of its own has ended. -/
theorem untruthful : (∃ w, Run step Undisturbed World.start w ∧ ¬ Truthful w ∧
      ∃ a ∈ w.replies, a.status = .completed ∧ a.reply = ⟨201, proofCreated [("type", .str "HMAC-SHA256")]⟩ ∧
        Completed w.runs a.call signedProof 201) ∧
    (∃ w, Run step Undisturbed World.start w ∧ ¬ Truthful w ∧
      ∃ a ∈ w.replies, a.status = .failed ∧ a.reply = ⟨200, .null⟩) ∧
    ∃ w, Run step anyStep World.start w ∧ ∃ a ∈ w.replies, a.status = .completed ∧
      a.reply = ⟨201, proofCreated [("type", .str "HMAC-SHA256")]⟩ ∧ ∀ r ∈ w.runs, r.call = a.call → r.outcome = none :=
  ⟨Run.exists_of_replay (askedTwice (.handlerReturns ⟨proofCall, .running 0⟩ signedProof 201)),
    Run.exists_of_replay (askedTwice (.handlerThrows ⟨proofCall, .running 0⟩)),
    Run.exists_of_replay [.check proofRequest, .insert ⟨proofCall, .checked⟩, .remove 0, .check otherRequest,
      .insert ⟨otherCall, .checked⟩, .handlerReturns ⟨proofCall, .running 0⟩ signedProof 201,
      .store ⟨proofCall, .ended 0⟩, .check otherRequest]⟩

/-- Two requests race and both run the handler; the later result is stored, and answers a third. -/
theorem completed_reply_truthful_raced :
    ∃ w, Run step Undisturbed World.start w ∧ w.runs.length = 2 ∧ ∃ a ∈ w.replies, a.status = .completed ∧
      ∃ body code, Completed w.runs a.call body code ∧ a.reply = ⟨code, stripSensitiveFields body⟩ := by
  refine Run.exists_and (P := fun w => w.runs.length = 2 ∧ ∃ a ∈ w.replies, a.status = .completed)
    ([.check proofRequest, .check proofRequest, .insert ⟨proofCall, .checked⟩, .insert ⟨proofCall, .checked⟩,
      .handlerThrows ⟨proofCall, .running 0⟩, .reread ⟨proofCall, .conflicted⟩, .count ⟨proofCall, .counting 0 1⟩,
      .handlerReturns ⟨proofCall, .running 1⟩ signedProof 201, .store ⟨proofCall, .ended 0⟩,
      .store ⟨proofCall, .ended 1⟩, .check proofRequest]) fun w hrun ⟨hruns, a, ha, hstatus⟩ => ?_
  exact ⟨hruns, a, ha, hstatus, completed_reply_truthful hrun a ha hstatus⟩

end EarnProof.Idempotency
