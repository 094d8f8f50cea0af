/-
  EarnProof.Encryption.RewrapInvariant — the runs in which a rewrap is left alone (`Quiet`), and
  what holds in them of every intent and every execution (`Sound`, `step_sound`).

  An intent is completed when as many payments have been processed as were counted at its
  first run, or when no payment of the source version lies behind its cursor. So the invariant
  bounds, for each count in play (`World.Limit`), what an execution has processed together
  with what is left under the source version, and keeps what is left ahead of every cursor
  (`Within`).
-/
import EarnProof.Encryption.Rewrap

namespace EarnProof.Encryption

open Lib Lib.Table Common.Crypto List Option

variable (cfg : Config) (w : World)

/-! ## Quiet steps -/

def World.executes (id : String) : Bool :=
  (List.range cfg.workers).any fun p => (w.workers p).any fun s => s.id = id

/-- The intent has its count and is open, or it is being executed. -/
def World.underWay (i : EncryptionKeyRewrapIntent) : Bool :=
  (i.totalCount.isSome && (i.status = .pending || i.status = .processing)) || w.executes cfg i.id

/-- No rewrap from this version is under way. -/
def World.spares (version : Nat) : Bool :=
  w.db.intents.all fun i => i.sourceKeyVersion = version → w.underWay cfg i = false

def Stage.holds (id : String) : Stage → Bool
  | .write _ rewrapped => rewrapped.any fun x => x.id = id
  | _ => false

/-- An execution counts only while no count is stored, takes a batch only while every payment
    of the source version can be rewrapped, and writes under a version no rewrap moves away
    from. -/
def World.stageQuiet : Stage → Bool
  | .count i => w.db.intents.all fun j => j.id = i.id → j.totalCount = none
  | .fetch i => w.db.payments.all fun r => r.under i.sourceKeyVersion → r.rewraps cfg.keyring i.targetKeyVersion
  | .write i _ => w.spares cfg i.targetKeyVersion
  | _ => true

/-- An amount is stored under a version no rewrap moves away from, and not while an execution
    is about to write the payment. -/
def Quiet : Event → Prop
  | .store id version _ _ =>
    w.spares cfg version ∧ ∀ p < cfg.workers, (w.workers p).all (fun s => !s.holds id)
  | .access p _ => (w.workers p).all (w.stageQuiet cfg)
  | _ => True

instance (e : Event) : Decidable (Quiet cfg w e) := by
  unfold Quiet
  split <;> infer_instance

/-! ## The intents and their executions -/

def Stage.isLate : Stage → Bool
  | .fetch _ | .write _ _ | .progress _ _ | .complete _ _ => true
  | .load _ | .count _ | .total _ _ | .fail _ _ => false

variable {s stage : Stage} {intents : List EncryptionKeyRewrapIntent} {id : String} {p : Nat}
  {i : EncryptionKeyRewrapIntent} {payments : List AmountRow}
  {data : EncryptionKeyRewrapIntent → EncryptionKeyRewrapIntent} {e : Event}

theorem Stage.id_of_intent (h : s.intent? = some i) : s.id = i.id := by
  cases s with
  | load => cases h
  | _ =>
    cases h
    rfl

/-- The execution is of a stored intent. -/
def KnownIn (intents : List EncryptionKeyRewrapIntent) (s : Stage) : Prop :=
  ∃ j ∈ intents, j.id = s.id ∧
    ∀ i, s.intent? = some i → j.sourceKeyVersion = i.sourceKeyVersion ∧ j.targetKeyVersion = i.targetKeyVersion

def CountedIn (intents : List EncryptionKeyRewrapIntent) (s : Stage) : Prop :=
  s.isLate → ∀ j ∈ intents, j.id = s.id → j.totalCount ≠ none

structure Standing (cfg : Config) (w : World) : Prop where
  keyed : (w.db.payments.map (·.id)).Nodup
  named : (w.db.intents.map (·.id)).Nodup
  distinct : ∀ i ∈ w.db.intents, i.sourceKeyVersion ≠ i.targetKeyVersion
  /-- Nothing is processed before the count. -/
  fresh : ∀ i ∈ w.db.intents, i.totalCount = none → i.processedCount = 0 ∧ i.cursor = none
  bounded : ∀ p s, w.workers p = some s → p < cfg.workers
  known : ∀ p s, w.workers p = some s → KnownIn w.db.intents s
  counted : ∀ p s, w.workers p = some s → CountedIn w.db.intents s

structure Follows (i i' : EncryptionKeyRewrapIntent) : Prop where
  id : i'.id = i.id
  source : i'.sourceKeyVersion = i.sourceKeyVersion
  target : i'.targetKeyVersion = i.targetKeyVersion
  total : i'.totalCount = none → i.totalCount = none ∧ i'.processedCount = i.processedCount ∧ i'.cursor = i.cursor

theorem Follows.refl (i : EncryptionKeyRewrapIntent) : Follows i i := ⟨rfl, rfl, rfl, fun h => ⟨h, rfl, rfl⟩⟩

section Standing

variable {cfg : Config} {w w' : World} {intents' : List EncryptionKeyRewrapIntent} {t : Stage}

theorem KnownIn.follows (h : Forall₂ Follows intents intents')
    (hknown : KnownIn intents s) : KnownIn intents' s := by
  obtain ⟨j, hj, hid, hversions⟩ := hknown
  obtain ⟨j', hj', hfollows⟩ := exists_of_forall₂ h hj
  refine ⟨j', hj', hfollows.id.trans hid, fun i hi => ?_⟩
  rw [hfollows.source, hfollows.target]
  exact hversions i hi

theorem CountedIn.follows (h : Forall₂ Follows intents intents')
    (hcounted : CountedIn intents s) : CountedIn intents' s := by
  intro hlate j' hj' hid hnone
  obtain ⟨j, hj, hfollows⟩ := exists_of_forall₂_right h hj'
  exact hcounted hlate j hj (hfollows.id.symm.trans hid) (hfollows.total hnone).1

/-- Intents follow, and a worker is where it was, or at a stage of a known intent. -/
theorem Standing.frame (h : Standing cfg w) (hkeyed : (w'.db.payments.map (·.id)).Nodup)
    (hintents : Forall₂ Follows w.db.intents w'.db.intents)
    (hworkers : ∀ q s, w'.workers q = some s →
      w.workers q = some s ∨ (q < cfg.workers ∧ KnownIn w'.db.intents s ∧ CountedIn w'.db.intents s)) :
      Standing cfg w' where
  keyed := hkeyed
  named := by
    have hids : w'.db.intents.map (·.id) = w.db.intents.map (·.id) := map_of_forall₂ hintents _ fun _ _ hf => hf.id
    rw [hids]
    exact h.named
  distinct := by
    intro i' hi'
    obtain ⟨i, hi, hfollows⟩ := exists_of_forall₂_right hintents hi'
    rw [hfollows.source, hfollows.target]
    exact h.distinct i hi
  fresh := by
    intro i' hi' hnone
    obtain ⟨i, hi, hfollows⟩ := exists_of_forall₂_right hintents hi'
    obtain ⟨htotal, hprocessed, hcursor⟩ := hfollows.total hnone
    rw [hprocessed, hcursor]
    exact h.fresh i hi htotal
  bounded := by
    intro q s hs
    rcases hworkers q s hs with hold | ⟨hq, -⟩
    · exact h.bounded q s hold
    · exact hq
  known := by
    intro q s hs
    rcases hworkers q s hs with hold | ⟨-, hknown, -⟩
    · exact (h.known q s hold).follows hintents
    · exact hknown
  counted := by
    intro q s hs
    rcases hworkers q s hs with hold | ⟨-, -, hcounted⟩
    · exact (h.counted q s hold).follows hintents
    · exact hcounted

/-- A stage of the same intent is known where the one before it was. -/
theorem KnownIn.next (h : KnownIn intents s) (hid : t.id = s.id)
    (hintent : t.intent? = s.intent?) : KnownIn intents t := by
  obtain ⟨j, hj, hjid, hversions⟩ := h
  exact ⟨j, hj, hjid.trans hid.symm, fun i hi => hversions i (hintent.symm.trans hi)⟩

@[simp] theorem afterTotal_id (i : EncryptionKeyRewrapIntent) (total : Nat) : (afterTotal i total).id = i.id := by
  unfold afterTotal
  split <;> rfl

@[simp] theorem afterTotal_intent (i : EncryptionKeyRewrapIntent) (total : Nat) :
    (afterTotal i total).intent? = some i := by
  unfold afterTotal
  split <;> rfl

/-- A stored count leads to no new one, and not straight to a write. -/
theorem afterTotal_ne (i j : EncryptionKeyRewrapIntent) (total n : Nat) (rewrapped : List AmountRow) :
    afterTotal i total ≠ .total j n ∧ afterTotal i total ≠ .write j rewrapped := by
  unfold afterTotal
  split <;> exact ⟨nofun, nofun⟩

section

variable (k : PaymentEncryptionKeyring)

/-- Where an execution starts: the intent's versions are missing, or it has to be counted, or
    it has been. -/
theorem begin_cases (i : EncryptionKeyRewrapIntent) :
    (∃ permanent, begin k i = .fail i permanent) ∨ (i.totalCount = none ∧ begin k i = .count i) ∨
      ∃ total, i.totalCount = some total ∧ begin k i = afterTotal i total := by
  unfold begin
  split
  · exact .inl ⟨_, rfl⟩
  · cases i.totalCount with
    | none => exact .inr (.inl ⟨rfl, rfl⟩)
    | some total => exact .inr (.inr ⟨total, rfl, rfl⟩)

theorem begin_id (i : EncryptionKeyRewrapIntent) : (begin k i).id = i.id ∧ (begin k i).intent? = some i := by
  rcases begin_cases k i with ⟨permanent, h⟩ | ⟨-, h⟩ | ⟨total, -, h⟩ <;> rw [h]
  · exact ⟨rfl, rfl⟩
  · exact ⟨rfl, rfl⟩
  · exact ⟨afterTotal_id i total, afterTotal_intent i total⟩

theorem begin_ne (i j : EncryptionKeyRewrapIntent) (n : Nat) (rewrapped : List AmountRow) :
    begin k i ≠ .total j n ∧ begin k i ≠ .write j rewrapped := by
  rcases begin_cases k i with ⟨permanent, h⟩ | ⟨-, h⟩ | ⟨total, -, h⟩ <;> rw [h]
  · exact ⟨nofun, nofun⟩
  · exact ⟨nofun, nofun⟩
  · exact afterTotal_ne i j total n rewrapped

end

theorem thrown_cases {matched : Bool} (h : stage.thrown matched = some s) :
    ∃ i permanent, stage.intent? = some i ∧ stage.id = i.id ∧ s = .fail i permanent := by
  cases stage with
  | load | fail => cases h
  | count i | total i | fetch i | write i | progress i | complete i =>
    cases h
    exact ⟨i, _, rfl, rfl, rfl⟩

theorem storeAmount_keyed (h : (payments.map (·.id)).Nodup) (id value : String) :
    ((storeAmount id value payments).map (·.id)).Nodup := by
  unfold storeAmount
  split
  · exact nodup_update AmountRow.id (fun _ => rfl) h
  · rename_i hnone
    refine nodup_append_row h fun r hr hid => hnone ?_
    exact List.any_eq_true.mpr ⟨r, hr, decide_eq_true hid⟩

/-- An update of one intent, each of whose rows follows. -/
theorem follows_update (h : ∀ j ∈ intents, j.id = id → Follows j (data j)) :
    Forall₂ Follows intents (Table.update (fun i => i.id = id) data intents) :=
  forall₂_update Follows.refl fun j hj hid => h j hj (of_decide_eq_true hid)

theorem follows_same (intents : List EncryptionKeyRewrapIntent) : Forall₂ Follows intents intents :=
  forall₂_same.mpr fun i _ => Follows.refl i

/-- The stage of a worker after an access of one of them. -/
theorem Standing.access (h : Standing cfg w) (hstage : w.workers p = some stage) (db : Db)
    (hkeyed : (db.payments.map (·.id)).Nodup) (hintents : Forall₂ Follows w.db.intents db.intents)
    {next : Option Stage} (hnext : ∀ s, next = some s → KnownIn db.intents s ∧ CountedIn db.intents s) :
    Standing cfg ({ w with db }.withWorker p next) := by
  refine h.frame hkeyed hintents (forall_moved (fun s hnew => ?_) fun _ _ => .inl)
  exact .inr ⟨h.bounded _ _ hstage, hnext s hnew⟩

theorem Standing.closes (h : Standing cfg w) (hstage : w.workers p = some stage)
    {data : EncryptionKeyRewrapIntent → EncryptionKeyRewrapIntent}
    (hdata : ∀ j ∈ w.db.intents, j.id = stage.id → Follows j (data j)) :
    Standing cfg ({ w with db := w.db.updateIntent stage.id data }.withWorker p none) :=
  h.access hstage (w.db.updateIntent stage.id data) h.keyed (follows_update hdata) fun _ hs => nomatch hs

theorem CountedIn.next (h : CountedIn intents s) (hlate : s.isLate) (hid : t.id = s.id) : CountedIn intents t := by
  intro _ j hj hjid
  exact h hlate j hj (hjid.trans hid)

theorem CountedIn.early (h : s.isLate = false) : CountedIn intents s := by
  intro hlate
  rw [h] at hlate
  cases hlate

theorem step_standing (h : Standing cfg w) (hstep : step cfg w e = some w') : Standing cfg w' := by
  have hsame := follows_same w.db.intents
  cases step_effect hstep with
  | create id source target hne hfresh =>
    refine ⟨h.keyed, nodup_append_row h.named fun i hi hid => hfresh (List.mem_map.mpr ⟨i, hi, hid⟩),
      forall_append_row h.distinct hne, forall_append_row h.fresh fun _ => ⟨rfl, rfl⟩, h.bounded,
      fun q s hs => ?_, fun q s hs hlate i hi hid => ?_⟩
    · obtain ⟨j, hj, hknown⟩ := h.known q s hs
      exact ⟨j, mem_append_left _ hj, hknown⟩
    · rcases mem_append.mp hi with hi | hi
      · exact h.counted q s hs hlate i hi hid
      · -- The new id is not one of a running execution.
        obtain rfl := mem_singleton.mp hi
        obtain ⟨j, hj, hjid, -⟩ := h.known q s hs
        exact absurd (List.mem_map.mpr ⟨j, hj, hjid.trans hid.symm⟩) hfresh
  | store id version iv amount value =>
    exact h.frame (storeAmount_keyed h.keyed id value) hsame fun q s hs => .inl hs
  | resetStale =>
    exact h.frame h.keyed (forall₂_update Follows.refl fun j _ _ => ⟨rfl, rfl, rfl, fun hnone => ⟨hnone, rfl, rfl⟩⟩)
      fun q s hs => .inl hs
  | claim p i now hp hi =>
    have hfollows : Forall₂ Follows w.db.intents (w.db.updateIntent i.id (·.claimed now)).intents :=
      follows_update fun j _ _ => ⟨rfl, rfl, rfl, fun hnone => ⟨hnone, rfl, rfl⟩⟩
    refine h.frame h.keyed hfollows (forall_moved (fun s hnew => ?_) fun _ _ => .inl)
    cases hnew
    have hknown : KnownIn w.db.intents (.load i.id) := ⟨i, hi, rfl, nofun⟩
    exact .inr ⟨hp, hknown.follows hfollows, .early rfl⟩
  | closed | crash =>
    exact h.frame h.keyed hsame (forall_gone fun _ _ => .inl)
  | begin p a i hstage hi =>
    refine h.access hstage w.db h.keyed hsame fun s hs => ?_
    cases hs
    obtain ⟨hid, hintent⟩ := begin_id cfg.keyring i
    refine ⟨⟨i, hi, hid.symm, fun j hj => ?_⟩, fun hlate j hj hjid => ?_⟩
    · obtain rfl := some.inj (hintent.symm.trans hj)
      exact ⟨rfl, rfl⟩
    · obtain rfl := eq_of_key h.named hj hi (hjid.trans hid)
      rcases begin_cases cfg.keyring j with ⟨permanent, heq⟩ | ⟨-, heq⟩ | ⟨total, htotal, -⟩
      · rw [heq] at hlate
        cases hlate
      · rw [heq] at hlate
        cases hlate
      · rw [htotal]
        exact nofun
  | count p a i hstage =>
    refine h.access hstage w.db h.keyed hsame fun s hs => ?_
    cases hs
    exact ⟨(h.known p _ hstage).next rfl rfl, .early rfl⟩
  | total p a i found hstage =>
    have hfollows : Forall₂ Follows w.db.intents (w.db.updateIntent i.id (·.counted found a.now)).intents :=
      follows_update fun j _ _ => ⟨rfl, rfl, rfl, nofun⟩
    refine h.access hstage (w.db.updateIntent i.id _) h.keyed hfollows fun s hs => ?_
    cases hs
    refine ⟨((h.known p _ hstage).next (afterTotal_id i found) (afterTotal_intent i found)).follows hfollows,
      fun _ j' hj' hid => ?_⟩
    obtain ⟨j, -, ⟨-, rfl⟩ | ⟨hother, rfl⟩⟩ := mem_update_cases hj'
    · exact nofun
    · exact absurd (hid.trans (afterTotal_id i found)) (of_decide_eq_false hother)
  | empty p a i hstage | batch p a i hstage =>
    refine h.access hstage w.db h.keyed hsame fun s hs => ?_
    cases hs
    exact ⟨(h.known p _ hstage).next rfl rfl, (h.counted p _ hstage).next rfl rfl⟩
  | write p a i rewrapped hstage =>
    have hkeyed : ((writeBatch rewrapped w.db.payments).map (·.id)).Nodup := by
      rw [writeBatch_ids]
      exact h.keyed
    refine h.access hstage { w.db with payments := _ } hkeyed hsame fun s hs => ?_
    cases hs
    exact ⟨(h.known p _ hstage).next rfl rfl, (h.counted p _ hstage).next rfl rfl⟩
  | progress p a i _ hstage | complete p a i _ hstage =>
    -- An execution that reports progress or completes has its count stored.
    exact h.closes hstage fun j hj hid =>
      ⟨rfl, rfl, rfl, fun hnone => absurd hnone (h.counted p _ hstage rfl j hj hid)⟩
  | fail p a i permanent hstage =>
    refine h.closes hstage fun j _ _ => ?_
    cases permanent <;> exact ⟨rfl, rfl, rfl, fun hnone => ⟨hnone, rfl, rfl⟩⟩
  | fault p matched stage hstage =>
    refine h.access hstage w.db h.keyed hsame fun s hs => ?_
    obtain ⟨i, permanent, hintent, hid, rfl⟩ := thrown_cases hs
    exact ⟨(h.known p _ hstage).next hid.symm hintent.symm, .early rfl⟩

end Standing

/-! ## What is processed, and what is left -/

/-- A count that decides when the intent is completed: the stored one, or one an execution is
    about to store. -/
def World.Limit (w : World) (id : String) (n : Nat) : Prop :=
  (∃ i ∈ w.db.intents, i.id = id ∧ i.totalCount = some n) ∨ ∃ p i, w.workers p = some (.total i n) ∧ i.id = id

section

variable (left : List String) (limit : Nat → Prop)

/-- What is left lies ahead of the cursor, and with what is processed is within each count. -/
structure Within (processed : Nat) (cursor : Option String) : Prop where
  ahead : ∀ id ∈ left, cursor.all (fun c => c < id)
  fits : ∀ n, limit n → processed + left.length ≤ n

/-- A batch that is about to be written: what is left up to its last payment is in it. -/
structure Batched (i : EncryptionKeyRewrapIntent) (rewrapped : List AmountRow) :
    Prop where
  taken : ∀ id ∈ left, ∀ x, rewrapped.getLast? = some x → id ≤ x.id → id ∈ rewrapped.map (·.id)
  fits : ∀ n, limit n →
    i.processedCount + rewrapped.length + (left.filter fun id => id ∉ rewrapped.map (·.id)).length ≤ n
  moved : ∀ x ∈ rewrapped, ∀ v, v ≠ i.targetKeyVersion → x.under v = false

def Stage.Sound : Stage → Prop
  | .load _ | .fail _ _ => True
  | .count i => i.processedCount = 0 ∧ i.cursor = none
  | .total i _ => i.processedCount = 0 ∧ i.cursor = none ∧ ∀ n, limit n → left.length ≤ n
  | .fetch i => Within left limit i.processedCount i.cursor
  | .write i rewrapped => Batched left limit i rewrapped
  | .progress i rewrapped =>
    Within left limit (i.processedCount + rewrapped.length) ((rewrapped.getLast?.map AmountRow.id).filter (· ≠ ""))
  | .complete _ processed => left = [] ∧ ∀ m, processed = some m → ∀ n, limit n → m ≤ n

end

section Mono

variable {left left' : List String} {limit limit' : Nat → Prop} {cursor : Option String} {rewrapped : List AmountRow}
  {total : Nat}

section Sublist

variable (hsub : left'.Sublist left)

include hsub

/-- Once the batch is written, its payments are processed and not left. -/
theorem Batched.written (h : Batched left limit i rewrapped)
    (hout : ∀ id ∈ left', id ∉ rewrapped.map (·.id)) :
    Within left' limit (i.processedCount + rewrapped.length)
      ((rewrapped.getLast?.map AmountRow.id).filter (· ≠ "")) where
  ahead := by
    intro id hid
    cases hlast : rewrapped.getLast? with
    | none => rfl
    | some x =>
      have hlt : x.id < id := not_le.mp fun hle => hout id hid (h.taken id (hsub.subset hid) x hlast hle)
      rw [map_some, filter_some]
      split
      · exact decide_eq_true hlt
      · rfl
  fits := by
    intro n hn
    have hfits := h.fits n hn
    have hleft : left'.filter (fun id => id ∉ rewrapped.map (·.id)) = left' :=
      filter_eq_self.mpr fun id hid => decide_eq_true (hout id hid)
    have hlength := (hsub.filter fun id => id ∉ rewrapped.map (·.id)).length_le
    rw [hleft] at hlength
    omega

variable (hlimit : ∀ n, limit' n → limit n)

include hlimit

theorem Within.mono {processed : Nat} (h : Within left limit processed cursor) :
    Within left' limit' processed cursor where
  ahead id hid := h.ahead id (hsub.subset hid)
  fits n hn := by
    have := h.fits n (hlimit n hn)
    have := hsub.length_le
    omega

theorem Batched.mono (h : Batched left limit i rewrapped) : Batched left' limit' i rewrapped where
  taken id hid := h.taken id (hsub.subset hid)
  fits n hn := by
    have := h.fits n (hlimit n hn)
    have := (hsub.filter fun id => id ∉ rewrapped.map (·.id)).length_le
    omega
  moved := h.moved

theorem Stage.Sound.mono (h : s.Sound left limit) : s.Sound left' limit' := by
  cases s with
  | load | fail => exact trivial
  | count => exact h
  | total => exact ⟨h.1, h.2.1, fun n hn => hsub.length_le.trans (h.2.2 n (hlimit n hn))⟩
  | fetch | progress => exact Within.mono hsub hlimit h
  | write => exact Batched.mono hsub hlimit h
  | complete =>
    refine ⟨?_, fun m hm n hn => h.2 m hm n (hlimit n hn)⟩
    have hnil : left = [] := h.1
    rw [hnil] at hsub
    exact sublist_nil.mp hsub

end Sublist

/-- A count that has been reached leaves nothing. -/
theorem Within.reached (h : Within left limit i.processedCount cursor)
    (hlimit : limit total) (hle : total ≤ i.processedCount) : left = [] := by
  have hfits := h.fits total hlimit
  exact eq_nil_of_length_eq_zero (by omega)

theorem afterTotal_sound (h : Within left limit i.processedCount i.cursor) (hlimit : limit total) :
    (afterTotal i total).Sound left limit := by
  unfold afterTotal
  split
  · rename_i hle
    exact ⟨h.reached hlimit hle, nofun⟩
  · exact h

end Mono

/-! ### A batch -/

section Batch

variable {limit : Nat → Prop}

theorem mem_batchOf {r : AmountRow} (h : r ∈ batchOf i payments) : r ∈ payments ∧ r.under i.sourceKeyVersion := by
  have hmem := Pages.mem_inOrder.mp (mem_of_mem_take h)
  exact mem_filter.mp (mem_filter.mp hmem).1

/-- A payment that is left is one the batch is taken from. -/
theorem mem_behind (hid : id ∈ underIds i.sourceKeyVersion payments) (hahead : i.cursor.all (fun c => c < id)) :
    ∃ r ∈ (payments.filter (·.under i.sourceKeyVersion)).filter (Pages.behind AmountRow.id i.cursor), r.id = id := by
  obtain ⟨r, hr, hunder, rfl⟩ := mem_underIds.mp hid
  exact ⟨r, mem_filter.mpr ⟨mem_filter.mpr ⟨hr, hunder⟩, hahead⟩, rfl⟩

theorem left_of_empty (h : Within (underIds i.sourceKeyVersion payments) limit i.processedCount i.cursor)
    (hbatch : batchOf i payments = []) : underIds i.sourceKeyVersion payments = [] := by
  refine eq_nil_iff_forall_not_mem.mpr fun id hid => ?_
  obtain ⟨r, hr, -⟩ := mem_behind hid (h.ahead id hid)
  rcases take_eq_nil_iff.mp hbatch with hsize | hnil
  · cases hsize
  · have hmem : r ∈ Pages.inOrder AmountRow.id
        ((payments.filter (·.under i.sourceKeyVersion)).filter (Pages.behind AmountRow.id i.cursor)) :=
      Pages.mem_inOrder.mpr hr
    rw [hnil] at hmem
    cases hmem

/-- The batch is within what is left. -/
theorem batch_length {left ids : List String} (hleft : left.Nodup) (hids : ids.Nodup) (hsub : ids ⊆ left) :
    ids.length + (left.filter fun id => id ∉ ids).length = left.length := by
  have hin : ids.Perm (left.filter fun id => id ∈ ids) := by
    refine (perm_ext_iff_of_nodup hids (hleft.filter _)).mpr fun id => ?_
    rw [mem_filter, decide_eq_true_eq]
    exact ⟨fun hid => ⟨hsub hid, hid⟩, And.right⟩
  have hout : (left.filter fun id => id ∉ ids) = left.filter fun id => !decide (id ∈ ids) :=
    filter_congr fun id _ => by simp
  have hsplit := length_eq_length_filter_add (l := left) fun id => decide (id ∈ ids)
  rw [hsplit, hin.length_eq, hout]

theorem batched (hkeyed : (payments.map (·.id)).Nodup) {k : PaymentEncryptionKeyring} {iv : String → Nonce}
    (hrewraps : ∀ r ∈ payments, r.under i.sourceKeyVersion → r.rewraps k i.targetKeyVersion)
    (h : Within (underIds i.sourceKeyVersion payments) limit i.processedCount i.cursor) :
    Batched (underIds i.sourceKeyVersion payments) limit i
      ((batchOf i payments).map fun r => rewrapPayment k (iv r.id) i.targetKeyVersion r) := by
  have hids : ((batchOf i payments).map fun r => rewrapPayment k (iv r.id) i.targetKeyVersion r).map (·.id) =
      (batchOf i payments).map (·.id) := by
    rw [List.map_map]
    exact map_congr_left fun r _ => rewrapPayment_id k (iv r.id) i.targetKeyVersion r
  have hrows :
      (((payments.filter (·.under i.sourceKeyVersion)).filter (Pages.behind AmountRow.id i.cursor)).map (·.id)).Nodup :=
    ((filter_sublist.trans filter_sublist).map _).nodup hkeyed
  refine ⟨fun id hid x hx hle => ?_, fun n hn => ?_, fun x hx v hv => ?_⟩
  · obtain ⟨r, hr, rfl⟩ := mem_behind hid (h.ahead id hid)
    rw [getLast?_map] at hx
    obtain ⟨last, hlast, rfl⟩ := map_eq_some_iff.mp hx
    rw [rewrapPayment_id] at hle
    rw [hids]
    have hmem : last ∈ batchOf i payments := mem_of_getLast? hlast
    rcases lt_or_eq_of_le hle with hlt | heq
    · exact List.mem_map_of_mem (Pages.mem_take_of_lt hrows hr hmem hlt)
    · exact heq ▸ List.mem_map_of_mem hmem
  · have hnodup : ((batchOf i payments).map (·.id)).Nodup := by
      have horder := (Pages.inOrder_strict hrows).imp ne_of_lt
      exact ((take_sublist _ _).map _).nodup (pairwise_map.mpr horder)
    have hsub : (batchOf i payments).map (·.id) ⊆ underIds i.sourceKeyVersion payments := by
      intro id hid
      obtain ⟨r, hr, rfl⟩ := List.mem_map.mp hid
      obtain ⟨hmem, hunder⟩ := mem_batchOf hr
      exact mem_underIds.mpr ⟨r, hmem, hunder, rfl⟩
    have hunder : (underIds i.sourceKeyVersion payments).Nodup := (filter_sublist.map _).nodup hkeyed
    have hlength := batch_length hunder hnodup hsub
    have hfits := h.fits n hn
    rw [hids, length_map]
    rw [length_map] at hlength
    omega
  · obtain ⟨r, hr, rfl⟩ := List.mem_map.mp hx
    obtain ⟨hmem, hunder⟩ := mem_batchOf hr
    rw [(rewrapPayment_spec (hrewraps r hmem hunder) (iv r.id)).2]
    exact decide_eq_false hv

end Batch

/-! ### The invariant -/

structure Sound (cfg : Config) (w : World) : Prop extends Standing cfg w where
  stored : ∀ i ∈ w.db.intents, w.underWay cfg i →
    Within (underIds i.sourceKeyVersion w.db.payments) (w.Limit i.id) i.processedCount i.cursor
  running : ∀ p s i, w.workers p = some s → s.intent? = some i →
    s.Sound (underIds i.sourceKeyVersion w.db.payments) (w.Limit i.id)

/-- An intent as it is stored is within what is left and each count. -/
def World.Fits (w : World) (i : EncryptionKeyRewrapIntent) : Prop :=
  Within (underIds i.sourceKeyVersion w.db.payments) (w.Limit i.id) i.processedCount i.cursor

/-- A stage is sound for its intent. -/
def World.Runs (w : World) (s : Stage) : Prop :=
  ∀ i, s.intent? = some i → s.Sound (underIds i.sourceKeyVersion w.db.payments) (w.Limit i.id)

section Sound

variable {cfg : Config} {w w' : World}

theorem executes_iff : w.executes cfg id ↔ ∃ p < cfg.workers, ∃ s, w.workers p = some s ∧ s.id = id := by
  simp only [World.executes, List.any_eq_true, List.mem_range, Option.any_eq_true, decide_eq_true_eq]

theorem Standing.underWay_of_worker (h : Standing cfg w) (hs : w.workers p = some s)
    (hid : i.id = s.id) : w.underWay cfg i := by
  rw [World.underWay, Bool.or_eq_true]
  exact .inr (executes_iff.mpr ⟨p, h.bounded p s hs, s, hs, hid.symm⟩)

/-- An intent is under way after a step if it was, with its count and as far as it was open. -/
theorem underWay_mono {i i' : EncryptionKeyRewrapIntent} (h : w'.underWay cfg i')
    (htotal : i'.totalCount = i.totalCount)
    (hopen : i'.status = .pending ∨ i'.status = .processing → i.status = .pending ∨ i.status = .processing)
    (hexecutes : w'.executes cfg i'.id → w.executes cfg i.id) : w.underWay cfg i := by
  simp only [World.underWay, Bool.or_eq_true, Bool.and_eq_true, decide_eq_true_eq] at h ⊢
  rcases h with ⟨hsome, hstatus⟩ | hrunning
  · exact .inl ⟨htotal ▸ hsome, hopen hstatus⟩
  · exact .inr (hexecutes hrunning)

/-- The sources of running executions are those of intents under way. -/
theorem Standing.underWay_source (h : Standing cfg w) (hs : w.workers p = some s) (hi : s.intent? = some i) :
    ∃ j ∈ w.db.intents, w.underWay cfg j ∧ j.id = i.id ∧ j.sourceKeyVersion = i.sourceKeyVersion := by
  obtain ⟨j, hj, hid, hversions⟩ := h.known p s hs
  exact ⟨j, hj, h.underWay_of_worker hs hid, hid.trans (Stage.id_of_intent hi), (hversions i hi).1⟩

theorem Standing.source_of_worker (h : Standing cfg w) {i j : EncryptionKeyRewrapIntent}
    (hs : w.workers p = some s) (hi : s.intent? = some i) (hj : j ∈ w.db.intents) (hid : j.id = i.id) :
    j.sourceKeyVersion = i.sourceKeyVersion := by
  obtain ⟨stored, hstored, -, hstoredId, hsource⟩ := h.underWay_source hs hi
  obtain rfl := eq_of_key h.named hj hstored (hid.trans hstoredId.symm)
  exact hsource

/-- What a step may do: leave less under the sources of the intents under way, and no new
    count; an intent and a worker are as they were, or sound anew. -/
theorem Sound.frame (h : Sound cfg w) (hstanding : Standing cfg w')
    (hshrink : ∀ i ∈ w.db.intents, w.underWay cfg i →
      (underIds i.sourceKeyVersion w'.db.payments).Sublist (underIds i.sourceKeyVersion w.db.payments))
    (hlimit : ∀ id n, w'.Limit id n → w.Limit id n)
    (hstored : ∀ i' ∈ w'.db.intents, w'.underWay cfg i' →
      (∃ i ∈ w.db.intents, w.underWay cfg i ∧ i'.id = i.id ∧ i'.sourceKeyVersion = i.sourceKeyVersion ∧
        i'.processedCount = i.processedCount ∧ i'.cursor = i.cursor) ∨
      w'.Fits i')
    (hrunning : ∀ q s, w'.workers q = some s → w.workers q = some s ∨ w'.Runs s) : Sound cfg w' where
  toStanding := hstanding
  stored := by
    intro i' hi' hway
    rcases hstored i' hi' hway with ⟨i, hi, hbefore, hid, hsource, hprocessed, hcursor⟩ | hwithin
    · rw [hid, hsource, hprocessed, hcursor]
      exact (h.stored i hi hbefore).mono (hshrink i hi hbefore) (hlimit i.id)
    · exact hwithin
  running := by
    intro q s i hs hi
    rcases hrunning q s hs with hold | hsound
    · obtain ⟨j, hj, hway, hid, hsource⟩ := h.underWay_source hold hi
      have hsub := hshrink j hj hway
      rw [hsource] at hsub
      exact (h.running q s i hold hi).mono hsub (hlimit i.id)
    · exact hsound i hi

/-- A version no rewrap moves away from is none of the sources. -/
theorem spares_ne {version : Nat} (h : w.spares cfg version) (hi : i ∈ w.db.intents)
    (hway : w.underWay cfg i) : i.sourceKeyVersion ≠ version := by
  intro heq
  have hidle := of_decide_eq_true (List.all_eq_true.mp h i hi) heq
  rw [hidle] at hway
  cases hway

/-- No count is new where no intent gets one, and no worker. -/
theorem limit_mono (hintents : ∀ i' ∈ w'.db.intents, ∀ n, i'.totalCount = some n → w.Limit i'.id n)
    (hworkers : ∀ q i n, w'.workers q = some (.total i n) → w.workers q = some (.total i n)) (id : String) (n : Nat)
    (h : w'.Limit id n) : w.Limit id n := by
  rcases h with ⟨i', hi', rfl, htotal⟩ | ⟨q, i, hq, rfl⟩
  · exact hintents i' hi' n htotal
  · exact .inr ⟨q, i, hworkers q i n hq, rfl⟩

theorem limit_stored (hi : i ∈ w.db.intents) (n : Nat) (htotal : i.totalCount = some n) : w.Limit i.id n :=
  .inl ⟨i, hi, rfl, htotal⟩

/-- An update that keeps every count makes none. -/
theorem limit_update {sel : EncryptionKeyRewrapIntent → Bool}
    {data : EncryptionKeyRewrapIntent → EncryptionKeyRewrapIntent}
    (hdata : ∀ j, (data j).id = j.id ∧ (data j).totalCount = j.totalCount) (hi : i ∈ Table.update sel data w.db.intents)
    (n : Nat) (htotal : i.totalCount = some n) : w.Limit i.id n := by
  refine forall_update (fun j hj => limit_stored hj) (fun j hj _ n htotal => ?_) i hi n htotal
  rw [(hdata j).2] at htotal
  rw [(hdata j).1]
  exact limit_stored hj n htotal

variable {next : Option Stage}

/-- A worker that goes on with its intent, or stops, executes no other. -/
theorem executes_access {db : Db} (hnext : ∀ s, next = some s → ∃ stage, w.workers p = some stage ∧ s.id = stage.id)
    (h : ({ w with db }.withWorker p next).executes cfg id) : w.executes cfg id := by
  obtain ⟨q, hq, s, hs, rfl⟩ := executes_iff.mp h
  rcases update_eq_some hs with ⟨rfl, hnew⟩ | ⟨-, hold⟩
  · obtain ⟨stage, hstage, hid⟩ := hnext s hnew
    exact executes_iff.mpr ⟨q, hq, stage, hstage, hid.symm⟩
  · exact executes_iff.mpr ⟨q, hq, s, hold, rfl⟩

section

variable (h : Sound cfg w)

include h

/-- A worker goes on with its intent, or stops: no count is new, and each intent is as it was,
    or within what was there. -/
theorem Sound.worker (db : Db) (hpayments : db.payments = w.db.payments)
    (hstanding : Standing cfg ({ w with db }.withWorker p next))
    (hid : ∀ s, next = some s → ∃ stage, w.workers p = some stage ∧ s.id = stage.id)
    (hcount : ∀ i n, next ≠ some (.total i n))
    (hintents : ∀ i ∈ db.intents, i ∈ w.db.intents ∨ (∀ n, i.totalCount = some n → w.Limit i.id n) ∧ w.Fits i)
    (hnext : ∀ s, next = some s → w.Runs s) :
    Sound cfg ({ w with db }.withWorker p next) := by
  have hlimit : ∀ id n, ({ w with db }.withWorker p next).Limit id n → w.Limit id n := by
    refine limit_mono (fun i hi n htotal => ?_) fun q i n hq => ?_
    · rcases hintents i hi with hold | ⟨htotals, -⟩
      · exact limit_stored hold n htotal
      · exact htotals n htotal
    · rcases update_eq_some hq with ⟨-, hnew⟩ | ⟨-, hold⟩
      · exact absurd hnew (hcount i n)
      · exact hold
  have hleft : ∀ version, (underIds version db.payments).Sublist (underIds version w.db.payments) := by
    intro version
    rw [hpayments]
  refine h.frame hstanding (fun i _ _ => hleft i.sourceKeyVersion) hlimit (fun i hi hway => ?_)
    (forall_moved (fun s hnew => ?_) fun _ _ => .inl)
  · rcases hintents i hi with hold | ⟨-, hwithin⟩
    · exact .inl ⟨i, hold, underWay_mono hway rfl id (executes_access hid), rfl, rfl, rfl, rfl⟩
    · exact .inr (hwithin.mono (hleft _) (hlimit i.id))
  · exact .inr fun i hi => (hnext s hnew i hi).mono (hleft _) (hlimit i.id)

/-- A worker goes on with its intent, at a stage other than a count. -/
theorem Sound.goes (hstage : w.workers p = some stage) (hstanding : Standing cfg (w.withWorker p (some s)))
    (hid : s.id = stage.id) (hcount : ∀ i n, s ≠ .total i n)
    (hsound : w.Runs s) : Sound cfg (w.withWorker p (some s)) := by
  refine h.worker w.db rfl hstanding (fun t ht => ?_) (fun i n hs => hcount i n (some.inj hs)) (fun _ hi => .inl hi)
    fun t ht => ?_
  · cases ht
    exact ⟨stage, hstage, hid⟩
  · cases ht
    exact hsound

theorem Sound.stops (hstanding : Standing cfg (w.withWorker p none)) : Sound cfg (w.withWorker p none) :=
  h.worker w.db rfl hstanding (fun _ hs => nomatch hs) (fun _ _ hs => nomatch hs) (fun _ hi => .inl hi)
    fun _ hs => nomatch hs

/-- A worker updates its intent and goes on, or stops. -/
theorem Sound.updates (hstage : w.workers p = some stage)
    (hstanding : Standing cfg ({ w with db := w.db.updateIntent stage.id data }.withWorker p next))
    (hid : ∀ s, next = some s → s.id = stage.id) (hcount : ∀ i n, next ≠ some (.total i n))
    (hdata : ∀ j ∈ w.db.intents, j.id = stage.id →
      (∀ n, (data j).totalCount = some n → w.Limit (data j).id n) ∧ w.Fits (data j))
    (hnext : ∀ s, next = some s → w.Runs s) :
    Sound cfg ({ w with db := w.db.updateIntent stage.id data }.withWorker p next) := by
  refine h.worker (w.db.updateIntent stage.id data) rfl hstanding (fun s hs => ⟨stage, hstage, hid s hs⟩) hcount
    (fun i' hi' => ?_) hnext
  obtain ⟨j, hj, ⟨hsel, rfl⟩ | ⟨-, rfl⟩⟩ := mem_update_cases hi'
  · exact .inr (hdata j hj (of_decide_eq_true hsel))
  · exact .inl hj

theorem Sound.closes (hstage : w.workers p = some stage)
    (hstanding : Standing cfg ({ w with db := w.db.updateIntent stage.id data }.withWorker p none))
    (hdata : ∀ j ∈ w.db.intents, j.id = stage.id →
      (∀ n, (data j).totalCount = some n → w.Limit (data j).id n) ∧ w.Fits (data j)) :
    Sound cfg ({ w with db := w.db.updateIntent stage.id data }.withWorker p none) :=
  h.updates hstage hstanding (fun _ hs => nomatch hs) (fun _ _ hs => nomatch hs) hdata fun _ hs => nomatch hs

/-- The payments change, to less under the sources of the intents under way. -/
theorem Sound.pays (hkeyed : (payments.map (·.id)).Nodup) (hshrink : ∀ i ∈ w.db.intents, w.underWay cfg i →
      (underIds i.sourceKeyVersion payments).Sublist (underIds i.sourceKeyVersion w.db.payments)) :
    Sound cfg { w with db := { w.db with payments } } := by
  have hstanding : Standing cfg { w with db := { w.db with payments } } :=
    h.toStanding.frame hkeyed (follows_same w.db.intents) fun q s hs => .inl hs
  refine h.frame hstanding hshrink (fun _ _ hlimit => hlimit) (fun i hi hway => ?_) fun _ _ hs => .inl hs
  exact .inl ⟨i, hi, hway, rfl, rfl, rfl, rfl⟩

end

/-- Without a stored count, no execution is past its own. -/
theorem Standing.early (h : Standing cfg w) (hs : w.workers p = some s)
    (hnone : ∀ j ∈ w.db.intents, j.id = s.id → j.totalCount = none) : s.isLate = false := by
  obtain ⟨j, hj, hid, -⟩ := h.known p s hs
  cases hlate : s.isLate with
  | false => rfl
  | true => exact absurd (hnone j hj hid) (h.counted p s hs hlate j hj hid)

/-- A worker counts, while no count is stored: nothing is processed yet, by any execution. -/
theorem Sound.counts (h : Sound cfg w) (hstage : w.workers p = some (.count i))
    {n : Nat} (hn : n = (underIds i.sourceKeyVersion w.db.payments).length)
    (hnone : ∀ j ∈ w.db.intents, j.id = i.id → j.totalCount = none)
    (hstanding : Standing cfg (w.withWorker p (some (.total i n)))) :
    Sound cfg (w.withWorker p (some (.total i n))) := by
  have hlimit : ∀ id m, (w.withWorker p (some (.total i n))).Limit id m → w.Limit id m ∨ (id = i.id ∧ m = n) := by
    rintro id m (⟨j, hj, rfl, htotal⟩ | ⟨q, j, hq, rfl⟩)
    · exact .inl (limit_stored (w := w) hj m htotal)
    · rcases update_eq_some hq with ⟨-, hnew⟩ | ⟨-, hold⟩
      · obtain ⟨rfl, rfl⟩ := Stage.total.inj (some.inj hnew)
        exact .inr ⟨rfl, rfl⟩
      · exact .inl (.inr ⟨q, j, hold, rfl⟩)
  refine ⟨hstanding, fun j hj hwayAfter => ?_, fun q s j hs hj => ?_⟩
  · have hid : ∀ s, some (Stage.total i n) = some s → ∃ stage, w.workers p = some stage ∧ s.id = stage.id := by
      intro s hs
      cases hs
      exact ⟨_, hstage, rfl⟩
    have hwithin := h.stored j hj (underWay_mono hwayAfter rfl id (executes_access hid))
    refine ⟨hwithin.ahead, fun m hm => ?_⟩
    rcases hlimit j.id m hm with hold | ⟨hsame, rfl⟩
    · exact hwithin.fits m hold
    · rw [(h.fresh j hj (hnone j hj hsame)).1, h.source_of_worker hstage rfl hj hsame, hn, Nat.zero_add]
      exact le_refl _
  · rcases update_eq_some hs with ⟨-, hnew⟩ | ⟨-, hold⟩
    · cases hnew
      cases hj
      obtain ⟨hprocessed, hcursor⟩ := h.running p _ i hstage rfl
      refine ⟨hprocessed, hcursor, fun m hm => ?_⟩
      rcases hlimit i.id m hm with hbefore | ⟨-, rfl⟩
      · obtain ⟨stored, hin, hway, hid, hsource⟩ := h.underWay_source hstage rfl
        have hfits := (h.stored stored hin hway).fits m (hid ▸ hbefore)
        rw [hsource] at hfits
        exact le_trans (Nat.le_add_left _ _) hfits
      · exact le_of_eq hn.symm
    · have hsound := h.running q s j hold hj
      by_cases hid : j.id = i.id
      · -- An execution of the same intent has not counted either, or is about to store its count.
        have hlate : s.isLate = false :=
          h.early hold fun k hk hkid => hnone k hk (hkid.trans ((Stage.id_of_intent hj).trans hid))
        cases s with
        | load | fail => exact trivial
        | count => exact hsound
        | total =>
          cases hj
          refine ⟨hsound.1, hsound.2.1, fun m hm => ?_⟩
          rcases hlimit _ m hm with hbefore | ⟨-, rfl⟩
          · exact hsound.2.2 m hbefore
          · obtain ⟨stored, hin, -, hstoredId, hsource⟩ := h.underWay_source hold rfl
            rw [← hsource, h.source_of_worker hstage rfl hin (hstoredId.trans hid)]
            exact le_of_eq hn.symm
        | _ => cases hlate
      · refine hsound.mono (Sublist.refl _) fun m hm => ?_
        rcases hlimit j.id m hm with hbefore | ⟨hsame, -⟩
        · exact hbefore
        · exact absurd hsame hid

/-- A pending intent that has no execution and no count has processed nothing, and there is no
    count to exceed. -/
theorem Sound.pending (h : Sound cfg w) (hi : i ∈ w.db.intents) (hpending : i.status = .pending) : w.Fits i := by
  by_cases hway : w.underWay cfg i
  · exact h.stored i hi hway
  · simp only [World.underWay, hpending, Bool.or_eq_true, Bool.and_eq_true, decide_true, Bool.true_or,
      and_true, not_or] at hway
    obtain ⟨htotal, hidle⟩ := hway
    have hnone : i.totalCount = none := not_isSome_iff_eq_none.mp htotal
    obtain ⟨hprocessed, hcursor⟩ := h.fresh i hi hnone
    rw [World.Fits, hcursor]
    refine ⟨fun _ _ => rfl, fun n hn => ?_⟩
    rcases hn with ⟨j, hj, hid, hcount⟩ | ⟨p, j, hp, hid⟩
    · obtain rfl := eq_of_key h.named hj hi hid
      rw [hnone] at hcount
      cases hcount
    · exact absurd (executes_iff.mpr ⟨p, h.bounded p _ hp, _, hp, hid⟩) hidle

theorem quiet_stage {a : Answer} (h : Quiet cfg w (.access p a)) (hstage : w.workers p = some stage) :
    w.stageQuiet cfg stage := by
  have hall : (w.workers p).all (w.stageQuiet cfg) := h
  rw [hstage] at hall
  exact hall

/-- The intent of a worker that executes it is under way. -/
theorem Sound.stored_of_worker (h : Sound cfg w) (hstage : w.workers p = some stage)
    (hi : i ∈ w.db.intents) (hid : i.id = stage.id) : w.Fits i :=
  h.stored i hi (h.underWay_of_worker hstage hid)

theorem begin_sound (h : Sound cfg w) (hstage : w.workers p = some (.load i.id)) (hi : i ∈ w.db.intents) :
    (begin cfg.keyring i).Sound (underIds i.sourceKeyVersion w.db.payments) (w.Limit i.id) := by
  rcases begin_cases cfg.keyring i with ⟨permanent, heq⟩ | ⟨hnone, heq⟩ | ⟨total, htotal, heq⟩
  · rw [heq]
    exact trivial
  · rw [heq]
    exact h.fresh i hi hnone
  · rw [heq]
    exact afterTotal_sound (h.stored_of_worker hstage hi rfl) (limit_stored hi total htotal)

theorem step_sound (h : Sound cfg w) (hquiet : Quiet cfg w e) (hstep : step cfg w e = some w') : Sound cfg w' := by
  have hstanding := step_standing h.toStanding hstep
  cases step_effect hstep with
  | create key source target hne hfresh =>
    have hlimit : ∀ id n, World.Limit { w with
        db := { w.db with intents := w.db.intents ++ [.newIntent key source target] } } id n → w.Limit id n := by
      refine limit_mono ?_ fun _ _ _ hq => hq
      exact forall_append_row (fun _ => limit_stored) nofun
    refine h.frame hstanding (fun _ _ _ => Sublist.refl _) hlimit (fun i' hi' hway => ?_) fun _ _ hs => .inl hs
    rcases mem_append.mp hi' with hold | hnew
    · exact .inl ⟨i', hold, underWay_mono hway rfl id id, rfl, rfl, rfl, rfl⟩
    · -- Nothing executes the new intent: every execution is of a stored one.
      obtain rfl := mem_singleton.mp hnew
      have hrunning : w.executes cfg key := hway
      obtain ⟨q, -, s, hs, hid⟩ := executes_iff.mp hrunning
      obtain ⟨j, hj, hjid, -⟩ := h.known q s hs
      exact absurd (List.mem_map.mpr ⟨j, hj, hjid.trans hid⟩) hfresh
  | store id version iv amount value hvalue =>
    refine h.pays hstanding.keyed fun i hi hway => underIds_storeAmount ?_ w.db.payments
    rw [PaymentEncryptionKeyring.isUnder_encryptProtectedAmount hvalue]
    exact decide_eq_false (spares_ne hquiet.1 hi hway)
  | resetStale =>
    refine h.frame hstanding (fun _ _ _ => Sublist.refl _) ?_ (fun i' hi' hway => ?_) fun _ _ hs => .inl hs
    · exact limit_mono (fun i' => limit_update fun _ => ⟨rfl, rfl⟩) fun _ _ _ hq => hq
    · obtain ⟨j, hj, ⟨hstale, rfl⟩ | ⟨-, rfl⟩⟩ := mem_update_cases hi'
      · exact .inl ⟨j, hj, underWay_mono hway rfl (fun _ => .inr (of_decide_eq_true hstale).1) id, rfl, rfl, rfl, rfl⟩
      · exact .inl ⟨_, hj, underWay_mono hway rfl id id, rfl, rfl, rfl, rfl⟩
  | claim p i now hp hi hpending =>
    have hlimit : ∀ id n,
        ({ w with db := w.db.updateIntent i.id (·.claimed now) }.withWorker p (some (.load i.id))).Limit id n →
          w.Limit id n := by
      refine limit_mono (fun i' => limit_update fun _ => ⟨rfl, rfl⟩) fun q j n hq => ?_
      rcases update_eq_some hq with ⟨-, hnew⟩ | ⟨-, hold⟩
      · cases hnew
      · exact hold
    refine h.frame hstanding (fun _ _ _ => Sublist.refl _) hlimit (fun i' hi' hway => ?_)
      (forall_moved (fun s hnew => ?_) fun _ _ => .inl)
    · obtain ⟨j, hj, ⟨hsel, rfl⟩ | ⟨hother, rfl⟩⟩ := mem_update_cases hi'
      · obtain rfl := eq_of_key h.named hj hi (of_decide_eq_true hsel)
        exact .inr ((h.pending hj hpending).mono (Sublist.refl _) (hlimit j.id))
      · refine .inl ⟨_, hj, underWay_mono hway rfl id fun hrunning => ?_, rfl, rfl, rfl, rfl⟩
        obtain ⟨q, hq, s, hs, hid⟩ := executes_iff.mp hrunning
        rcases update_eq_some hs with ⟨-, hnew⟩ | ⟨-, hold⟩
        · cases hnew
          exact absurd hid.symm (of_decide_eq_false hother)
        · exact executes_iff.mpr ⟨q, hq, s, hold, hid⟩
    · cases hnew
      exact .inr nofun
  | closed | crash => exact h.stops hstanding
  | begin p a i hstage hi =>
    obtain ⟨hid, hintent⟩ := begin_id cfg.keyring i
    refine h.goes hstage hstanding hid (fun j n => (begin_ne _ i j n []).1) fun j hj => ?_
    obtain rfl := some.inj (hintent.symm.trans hj)
    exact begin_sound h hstage hi
  | count p a i hstage =>
    refine h.counts hstage ?_ (fun j hj hid => ?_) hstanding
    · unfold countPaymentsWithKeyVersion underIds
      rw [countP_eq_length_filter, length_map]
    · exact of_decide_eq_true (List.all_eq_true.mp (quiet_stage hquiet hstage) j hj) hid
  | total p a i found hstage =>
    obtain ⟨hprocessed, hcursor, hleft⟩ := h.running p _ i hstage rfl
    have hlimit : w.Limit i.id found := .inr ⟨p, i, hstage, rfl⟩
    refine h.updates hstage hstanding (fun s hs => ?_) (fun j n hs => (afterTotal_ne i j found n []).1 (some.inj hs))
      (fun j hj hid => ⟨fun n hn => ?_, show w.Fits j from h.stored_of_worker hstage hj hid⟩) fun s hs j hj => ?_
    · cases hs
      exact afterTotal_id i found
    · cases hn
      show w.Limit j.id found
      rw [hid]
      exact hlimit
    · cases hs
      obtain rfl := some.inj ((afterTotal_intent i found).symm.trans hj)
      refine afterTotal_sound ⟨fun _ _ => ?_, fun n hn => ?_⟩ hlimit
      · rw [hcursor]
        rfl
      · have := hleft n hn
        omega
  | empty p a i hstage hbatch =>
    have hwithin : Within _ _ i.processedCount i.cursor := h.running p _ i hstage rfl
    refine h.goes hstage hstanding rfl nofun fun j hj => ?_
    cases hj
    refine ⟨left_of_empty hwithin hbatch, fun m hm n hn => ?_⟩
    cases hm
    exact le_trans (Nat.le_add_right _ _) (hwithin.fits n hn)
  | batch p a i hstage =>
    have hrewraps : ∀ r ∈ w.db.payments, r.under i.sourceKeyVersion →
        r.rewraps cfg.keyring i.targetKeyVersion :=
      fun r hr => of_decide_eq_true (List.all_eq_true.mp (quiet_stage hquiet hstage) r hr)
    refine h.goes hstage hstanding rfl nofun fun j hj => ?_
    cases hj
    exact batched h.keyed hrewraps (h.running p _ _ hstage rfl)
  | write p a i rewrapped hstage =>
    have hbatched : Batched _ _ i rewrapped := h.running p _ i hstage rfl
    have hmoved : ∀ j ∈ w.db.intents, w.underWay cfg j → ∀ x ∈ rewrapped, x.under j.sourceKeyVersion = false :=
      fun j hj hway x hx => hbatched.moved x hx _ (spares_ne (quiet_stage hquiet hstage) hj hway)
    have hpays := h.pays hstanding.keyed fun j hj hway => (underIds_writeBatch (hmoved j hj hway) w.db.payments).1
    refine hpays.goes hstage hstanding rfl nofun fun j hj => ?_
    cases hj
    obtain ⟨stored, hin, hway, -, hsource⟩ := h.underWay_source hstage rfl
    have hout := hmoved stored hin hway
    rw [hsource] at hout
    obtain ⟨hsub, hgone⟩ := underIds_writeBatch hout w.db.payments
    exact hbatched.written hsub hgone
  | progress p a i rewrapped hstage =>
    have hwithin : Within _ _ (i.processedCount + rewrapped.length) _ := h.running p _ i hstage rfl
    refine h.closes hstage hstanding fun j hj hid => ⟨fun n hn => limit_stored hj n hn, ?_⟩
    show Within (underIds j.sourceKeyVersion _) (w.Limit j.id) _ _
    rw [h.source_of_worker hstage rfl hj hid, show j.id = i.id from hid]
    exact hwithin
  | complete p a i processed hstage =>
    obtain ⟨hleft, hprocessed⟩ := h.running p _ i hstage rfl
    refine h.closes hstage hstanding fun j hj hid => ⟨fun n hn => limit_stored hj n hn, ?_⟩
    cases processed with
    | none => exact show w.Fits j from h.stored_of_worker hstage hj hid
    | some m =>
      show Within (underIds j.sourceKeyVersion _) (w.Limit j.id) _ _
      rw [h.source_of_worker hstage rfl hj hid, show j.id = i.id from hid, hleft]
      exact ⟨fun _ hmem => absurd hmem not_mem_nil, hprocessed m rfl⟩
  | fail p a i permanent hstage =>
    refine h.closes hstage hstanding fun j hj hid => ?_
    have hwithin := h.stored_of_worker hstage hj hid
    cases permanent with
    | false | true => exact ⟨fun n hn => limit_stored hj n hn, hwithin⟩
  | fault p matched stage hstage =>
    cases hthrown : stage.thrown matched with
    | none => exact h.stops (hthrown ▸ hstanding)
    | some s =>
      obtain ⟨i, permanent, -, hid, rfl⟩ := thrown_cases hthrown
      exact h.goes hstage (hthrown ▸ hstanding) hid.symm nofun fun _ _ => trivial

theorem start_sound (cfg : Config) (hkeyed : (payments.map (·.id)).Nodup) : Sound cfg (World.start payments) where
  keyed := hkeyed
  named := nodup_nil
  distinct := fun _ hi => nomatch hi
  fresh := fun _ hi => nomatch hi
  bounded := fun _ _ hs => nomatch hs
  known := fun _ _ hs => nomatch hs
  counted := fun _ _ hs => nomatch hs
  stored := fun _ hi => nomatch hi
  running := fun _ _ _ hs => nomatch hs

end Sound

end EarnProof.Encryption
