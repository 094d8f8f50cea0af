/-
  EarnProof.Audit.Verification — `verifyChain` of `src/audit/audit-verification.service.ts`,
  over the log as one read of it finds it, and what a clean answer says about a log that was
  edited behind the application's back.

  Proved: with the index on `(chainKey, sequence)` in force, the answer is `ok` exactly when
  every record of the chain has the hash of its content and each but the first takes up
  the hash and the sequence of the record before it (`verifyChain_ok_iff`). The cursor of
  the chain is not consulted.

  The honest log is whatever a list of appends writes; the tampered one is any list of
  rows the index admits. Digests of different texts are assumed to differ, over the texts
  the two logs hash. If the verifier is content and the newest record left carries the stored
  hash of the honest record `r`, then the records left are the honest ones up to `r` from some
  record on, with every hashed field unchanged (`left_of_verified`). Behind `r` nothing is
  said: a log whose newest records are gone verifies (`newest_removed_verifies`).
-/
import EarnProof.Audit.Chain
import EarnProof.Lib.Pages
import Mathlib.Data.List.Chain
import Mathlib.Data.List.Induction

namespace EarnProof.Audit

open Lib Lib.Calendar Lib.Result Common.Crypto List

def WALK_PAGE_SIZE : Nat := 500

inductive ChainVerificationReason where
  | hashMismatch | prevHashMismatch | sequenceGap
  deriving DecidableEq

structure ChainBreak where
  recordId : String
  sequence : String
  reason : ChainVerificationReason
  detail : String
  deriving DecidableEq

structure ChainVerificationResult where
  chainKey : String
  ok : Bool
  recordsChecked : Nat
  firstSequenceChecked : Option String
  lastSequenceChecked : Option String
  retentionTruncated : Bool
  chainBreak : Option ChainBreak
  deriving DecidableEq

structure Walk where
  previousHash : Option String
  previousSequence : Option Int
  recordsChecked : Nat
  firstSequenceChecked : Option Int
  lastSequenceChecked : Option Int
  retentionTruncated : Bool
  deriving DecidableEq

def Walk.start : Walk := ⟨none, none, 0, none, none, false⟩

inductive WalkEnd where
  | found (result : ChainVerificationResult)
  | thrown (message : String)
  deriving DecidableEq

variable (w : Walk)

/-- The variables once the first of the walk's records is known. -/
def Walk.sees (r : AuditLog) : Walk :=
  if w.firstSequenceChecked = none then
    { w with
      firstSequenceChecked := some r.sequence
      retentionTruncated := decide (1 < r.sequence) || w.retentionTruncated }
  else w

def Walk.breaks (chainKey : String) (r : AuditLog) (reason : ChainVerificationReason) (detail : String) : WalkEnd :=
  .found
    { chainKey
      ok := false
      recordsChecked := w.recordsChecked + 1
      firstSequenceChecked := w.firstSequenceChecked.map decimal
      lastSequenceChecked := some (decimal r.sequence)
      retentionTruncated := w.retentionTruncated
      chainBreak := some ⟨r.id, decimal r.sequence, reason, detail⟩ }

def Walk.passes (r : AuditLog) : Walk :=
  { w with
    previousHash := some r.hash
    previousSequence := some r.sequence
    recordsChecked := w.recordsChecked + 1
    lastSequenceChecked := some r.sequence }

/-- The body of the loop over the records. -/
def checkRecord (chainKey : String) (w : Walk) (r : AuditLog) : Except WalkEnd Walk :=
  let w := w.sees r
  match computeAuditHash r.prevHash (r.hashInput chainKey) r.hashVersion with
  | .error message => .error (.thrown message)
  | .ok recomputed =>
    if recomputed ≠ r.hash then
      .error (w.breaks chainKey r .hashMismatch "Recomputed hash does not match the stored hash for this record.")
    else if w.previousHash ≠ none ∨ w.previousSequence ≠ none then
      if r.prevHash ≠ w.previousHash then
        .error (w.breaks chainKey r .prevHashMismatch
          ("Record's prevHash does not match the previous record's hash (previous sequence " ++
            (w.previousSequence.map decimal).getD "undefined" ++ ")."))
      else if r.sequence ≠ w.previousSequence.getD 0 + 1 then
        .error (w.breaks chainKey r .sequenceGap
          ("Expected sequence " ++ decimal (w.previousSequence.getD 0 + 1) ++ " but found " ++ decimal r.sequence ++
            ", with no intervening retention explanation."))
      else .ok (w.passes r)
    else .ok (w.passes r)

/-- `verifyChain`; the error is an exception of `computeAuditHash`. -/
def verifyChain (logs : List AuditLog) (organizationId : Option String) : Except String ChainVerificationResult :=
  let chainKey := resolveChainKey organizationId
  let rows := chainRows logs chainKey
  match Pages.foldPages AuditLog.sequence (checkRecord chainKey) WALK_PAGE_SIZE rows
    (rows.length + 1) none Walk.start with
  | .ok w => .ok
    { chainKey
      ok := true
      recordsChecked := w.recordsChecked
      firstSequenceChecked := w.firstSequenceChecked.map decimal
      lastSequenceChecked := w.lastSequenceChecked.map decimal
      retentionTruncated := w.retentionTruncated
      chainBreak := none }
  | .error (.found result) => .ok result
  | .error (.thrown message) => .error message

def Verifies (logs : List AuditLog) (organizationId : Option String) : Prop :=
  ∃ result, verifyChain logs organizationId = .ok result ∧ result.ok

/-! ## What the walk accepts -/

/-- The record has the hash of its own content. -/
def Sealed (key : String) (r : AuditLog) : Prop :=
  computeAuditHash r.prevHash (r.hashInput key) r.hashVersion = .ok r.hash

def Joins (r r' : AuditLog) : Prop := r'.prevHash = some r.hash ∧ r'.sequence = r.sequence + 1

def Intact (key : String) (rows : List AuditLog) : Prop := (∀ r ∈ rows, Sealed key r) ∧ rows.IsChain Joins

/-- The walk has just passed this record, or none yet. -/
def Walk.At : Option AuditLog → Prop
  | none => w.previousHash = none ∧ w.previousSequence = none
  | some r => w.previousHash = some r.hash ∧ w.previousSequence = some r.sequence

theorem sees_previous (r : AuditLog) :
    (w.sees r).previousHash = w.previousHash ∧ (w.sees r).previousSequence = w.previousSequence := by
  unfold Walk.sees
  split <;> exact ⟨rfl, rfl⟩

variable {key : String} {w : Walk} {r : AuditLog} {rows logs : List AuditLog} {result : ChainVerificationResult}
  {organizationId : Option String} {c c' : AuditChainCursor}

theorem checkRecord_eq_ok {w w' : Walk} {p : Option AuditLog} (hw : w.At p) :
    checkRecord key w r = .ok w' ↔ Sealed key r ∧ (∀ q, p = some q → Joins q r) ∧ w' = (w.sees r).passes r := by
  obtain ⟨hhash, hseq⟩ := sees_previous w r
  unfold checkRecord Sealed
  cases hc : computeAuditHash r.prevHash (r.hashInput key) r.hashVersion with
  | error => simp
  | ok recomputed =>
    by_cases hr : recomputed = r.hash
    · cases p with
      | none => simp [hr, hhash, hseq, hw.1, hw.2, eq_comm]
      | some q =>
        simp only [hr, hhash, hseq, hw.1, hw.2, Joins]
        by_cases hprev : r.prevHash = some q.hash
        · by_cases hnext : r.sequence = q.sequence + 1
          · simp [hprev, hnext, eq_comm]
          · simp [hprev, hnext]
        · simp [hprev]
    · simp [hr]

theorem foldlM_checkRecord : ∀ {w : Walk} {p : Option AuditLog}, w.At p →
    ((∃ w', rows.foldlM (checkRecord key) w = .ok w') ↔ (∀ r ∈ rows, Sealed key r) ∧
      (p.toList ++ rows).IsChain Joins) := by
  induction rows with
  | nil =>
    intro w p _
    cases p with
    | none | some => simp [pure, Except.pure]
  | cons r rows ih =>
    intro w p hw
    have hstep : (∃ w', (r :: rows).foldlM (checkRecord key) w = .ok w') ↔
        (Sealed key r ∧ ∀ q, p = some q → Joins q r) ∧
          ∃ w', rows.foldlM (checkRecord key) ((w.sees r).passes r) = .ok w' := by
      constructor
      · rintro ⟨w', hfold⟩
        obtain ⟨v, hv, hrest⟩ := bind_eq_ok.mp hfold
        obtain ⟨hsealed, hjoins, rfl⟩ := (checkRecord_eq_ok hw).mp hv
        exact ⟨⟨hsealed, hjoins⟩, w', hrest⟩
      · rintro ⟨⟨hsealed, hjoins⟩, w', hrest⟩
        exact ⟨w', bind_eq_ok.mpr ⟨_, (checkRecord_eq_ok hw).mpr ⟨hsealed, hjoins, rfl⟩, hrest⟩⟩
    rw [hstep, ih (p := some r) ⟨rfl, rfl⟩]
    cases p with
    | none => simp [and_assoc]
    | some => simp [isChain_cons_cons]; tauto

def UniqueSequences (logs : List AuditLog) (key : String) : Prop := ((chainRows logs key).map AuditLog.sequence).Nodup

def chainInOrder (logs : List AuditLog) (key : String) : List AuditLog :=
  Pages.inOrder AuditLog.sequence (chainRows logs key)

theorem checkRecord_found : Fails (fun e => ∀ result, e = .found result → result.ok = false) (checkRecord key w r) := by
  rintro _ h result rfl
  unfold checkRecord at h
  simp only at h
  repeat' split at h
  all_goals cases h
  all_goals rfl

theorem foldlM_found : ∀ {w : Walk},
    Fails (fun e => ∀ result, e = .found result → result.ok = false) (rows.foldlM (checkRecord key) w) := by
  induction rows with
  | nil => exact .ok _
  | cons r rows ih => exact .bind checkRecord_found fun _ => ih

theorem verifyChain_ok_iff
    (hu : UniqueSequences logs (resolveChainKey organizationId)) : Verifies logs organizationId ↔
      Intact (resolveChainKey organizationId) (chainInOrder logs (resolveChainKey organizationId)) := by
  have hpages := Pages.foldPages_eq (checkRecord (resolveChainKey organizationId))
    (show 0 < WALK_PAGE_SIZE by decide) hu Walk.start
  refine Iff.trans ?_ (foldlM_checkRecord (p := none) (w := Walk.start) ⟨rfl, rfl⟩)
  unfold Verifies verifyChain chainInOrder
  simp only [hpages]
  constructor
  · rintro ⟨result, hresult, hok⟩
    split at hresult
    · exact ⟨_, ‹_›⟩
    · rename_i found hfound
      cases hresult
      exact absurd hok (by rw [foldlM_found _ hfound _ rfl]; decide)
    · cases hresult
  · rintro ⟨w, hw⟩
    rw [hw]
    exact ⟨_, rfl, rfl⟩

/-- Linked records verify, from whatever cursor they start. -/
theorem intact_of_linked : ∀ {c c' : AuditChainCursor}, Linked key c rows c' → Intact key rows := by
  induction rows with
  | nil => exact fun _ => ⟨fun _ hr => (nomatch hr), .nil⟩
  | cons r rows ih =>
    intro c c' h
    obtain ⟨hr, hrows⟩ := h
    obtain ⟨hsealed, hchain⟩ := ih hrows
    refine ⟨fun x hx => ?_, ?_⟩
    · rcases mem_cons.mp hx with rfl | hx
      · exact hr.hash
      · exact hsealed x hx
    · cases rows with
      | nil => exact .singleton r
      | cons => exact .cons_cons ⟨hrows.1.prevHash, hrows.1.sequence⟩ hchain

theorem verifies_of_linked
    (h : Linked (resolveChainKey organizationId) c (chainRows logs (resolveChainKey organizationId)) c') :
    Verifies logs organizationId := by
  have hnodup := pairwise_map.mpr ((strict_of_linked h).imp ne_of_lt)
  refine (verifyChain_ok_iff hnodup).mpr ?_
  unfold chainInOrder
  rw [Pages.inOrder, List.Pairwise.insertionSort_eq ((strict_of_linked h).imp le_of_lt)]
  exact intact_of_linked h

def AuditLog.content (key : String) (r : AuditLog) : AuditHashInput := (r.hashInput key).content

def hashedTexts (key : String) (logs : List AuditLog) : Set String :=
  fun text => ∃ r ∈ logs, text = hashText r.prevHash (r.hashInput key)

/-! ## One link back -/

variable {c' : AuditChainCursor} {rs : List AuditLog} {texts : Set String}

theorem Sealed.hash_eq (h : Sealed key r) :
    r.hash = sha256 (hashText r.prevHash (r.hashInput key)) := (computeAuditHash_eq_ok h).2

/-- No record is stored under the text that stands for the hash before the first one. -/
theorem Sealed.hash_ne_genesis (h : Sealed key r) : r.hash ≠ GENESIS_SENTINEL := by
  intro hr
  have hlength : r.hash.toList.length = 64 := by
    rw [h.hash_eq]
    exact Sha256.length_hex _
  rw [hr] at hlength
  exact absurd hlength (by decide)

/-- Two sealed records with one hash have the same content and the same hash before them. -/
theorem same_of_hash (hfree : CollisionFree texts) {r r' : AuditLog}
    (hr : Sealed key r) (hr' : Sealed key r') (hin : hashText r.prevHash (r.hashInput key) ∈ texts)
    (hin' : hashText r'.prevHash (r'.hashInput key) ∈ texts) (h : r.hash = r'.hash) :
    r.prevHash.getD GENESIS_SENTINEL = r'.prevHash.getD GENESIS_SENTINEL ∧ r.content key = r'.content key := by
  rw [hr.hash_eq, hr'.hash_eq] at h
  exact hashText_inj (hfree _ hin _ hin' h)

/-- The last record of a linked chain takes up the record before it, or is the first. -/
theorem prevHash_of_linked
    (h : Linked key (genesis key) (rs ++ [r]) c') : r.prevHash = rs.getLast?.map AuditLog.hash := by
  obtain ⟨d, hrs, hr, -⟩ := linked_append.mp h
  rcases eq_nil_or_concat rs with rfl | ⟨rs₀, r₀, rfl⟩
  · obtain rfl : genesis key = d := hrs
    exact hr.prevHash
  · rw [concat_eq_append] at hrs ⊢
    obtain ⟨d₀, -, -, hd⟩ := linked_append.mp hrs
    obtain rfl : cursorAfter r₀ = d := hd
    rw [hr.prevHash, getLast?_append]
    rfl

/-! ## The walk back -/

/-- From a record with the hash of the honest chain's last one, the verified records are read
    back along both chains at once until the verified ones end. -/
theorem content_of_intact (hfree : CollisionFree texts) {rows : List AuditLog} :
    ∀ {r newest : AuditLog} {honest : List AuditLog} {c' : AuditChainCursor}, Intact key (rows ++ [newest]) →
      Linked key (genesis key) (honest ++ [r]) c' → newest.hash = r.hash →
      (∀ x ∈ rows ++ [newest], hashText x.prevHash (x.hashInput key) ∈ texts) →
      (∀ x ∈ honest ++ [r], hashText x.prevHash (x.hashInput key) ∈ texts) →
      ∃ gone kept, honest ++ [r] = gone ++ kept ∧
        (rows ++ [newest]).map (AuditLog.content key) = kept.map (AuditLog.content key) := by
  induction rows using List.reverseRecOn with
  | nil =>
    intro r newest honest c' hintact hlinked hhash hin hin'
    have hr := (intact_of_linked hlinked).1 r (by simp)
    have hsame := same_of_hash hfree (hintact.1 newest (by simp)) hr (hin newest (by simp)) (hin' r (by simp)) hhash
    exact ⟨honest, [r], rfl, by simp [hsame.2]⟩
  | append_singleton rows earlier ih =>
    intro r newest honest c' hintact hlinked hhash hin hin'
    have hr := (intact_of_linked hlinked).1 r (by simp)
    have hearlier := hintact.1 earlier (by simp)
    have hsame := same_of_hash hfree (hintact.1 newest (by simp)) hr (hin newest (by simp)) (hin' r (by simp)) hhash
    obtain ⟨hbefore, -, hjoin⟩ := isChain_append.mp hintact.2
    have hjoins : Joins earlier newest := hjoin earlier (by simp) newest (by simp)
    have hprev : earlier.hash = r.prevHash.getD GENESIS_SENTINEL := by
      rw [← hsame.1, hjoins.1]
      rfl
    rw [prevHash_of_linked hlinked] at hprev
    rcases eq_nil_or_concat honest with rfl | ⟨honest₀, r₀, rfl⟩
    · exact absurd hprev hearlier.hash_ne_genesis
    · rw [concat_eq_append] at hlinked hin' hprev ⊢
      obtain ⟨d, hlinked₀, -⟩ := linked_append.mp hlinked
      have hprev' : earlier.hash = r₀.hash := by simpa using hprev
      obtain ⟨gone, kept, hsplit, hcontent⟩ :=
        ih ⟨fun x hx => hintact.1 x (mem_append_left _ hx), hbefore⟩ hlinked₀ hprev'
        (fun x hx => hin x (mem_append_left _ hx)) (fun x hx => hin' x (mem_append_left _ hx))
      refine ⟨gone, kept ++ [r], by rw [hsplit, append_assoc], ?_⟩
      rw [map_append, hcontent, map_append]
      simp [hsame.2]

/-- A log the verifier accepts whose newest record carries the hash of an honest one is, up to
    there and from some record on, the honest log. -/
theorem left_of_verified (writes : List (AuditData × Stamp)) (written : AuditTables)
    (hwritten : appendAll ⟨[], []⟩ writes = .ok written) (organizationId : Option String) (tampered : List AuditLog)
    (hunique : UniqueSequences tampered (resolveChainKey organizationId))
    (hfree : CollisionFree (hashedTexts (resolveChainKey organizationId) (written.logs ++ tampered)))
    (hverified : Verifies tampered organizationId) (newest r : AuditLog) (before after : List AuditLog)
    (hnewest : (chainInOrder tampered (resolveChainKey organizationId)).getLast? = some newest)
    (hhonest : chainRows written.logs (resolveChainKey organizationId) = before ++ r :: after)
    (hhash : newest.hash = r.hash) :
    ∃ gone kept, before ++ [r] = gone ++ kept ∧
      (chainInOrder tampered (resolveChainKey organizationId)).map (AuditLog.content (resolveChainKey organizationId)) =
        kept.map (AuditLog.content (resolveChainKey organizationId)) := by
  have hintact := (verifyChain_ok_iff hunique).mp hverified
  have hchain := honest_of_appendAll honest_empty hwritten (resolveChainKey organizationId)
  have hsplit : chainRows written.logs (resolveChainKey organizationId) = (before ++ [r]) ++ after := by simp [hhonest]
  rw [hsplit] at hchain
  obtain ⟨c, hlinked, -⟩ := linked_append.mp hchain
  obtain ⟨rows, hrows⟩ := getLast?_eq_some_iff.mp hnewest
  have hin : ∀ x ∈ rows ++ [newest], hashText x.prevHash (x.hashInput (resolveChainKey organizationId)) ∈
      hashedTexts (resolveChainKey organizationId) (written.logs ++ tampered) := fun x hx =>
    ⟨x, mem_append_right _ (mem_filter.mp (Pages.mem_inOrder.mp (hrows ▸ hx))).1, rfl⟩
  have hin' : ∀ x ∈ before ++ [r], hashText x.prevHash (x.hashInput (resolveChainKey organizationId)) ∈
      hashedTexts (resolveChainKey organizationId) (written.logs ++ tampered) := by
    intro x hx
    have hmem : x ∈ chainRows written.logs (resolveChainKey organizationId) := hsplit ▸ mem_append_left after hx
    exact ⟨x, mem_append_left _ (mem_filter.mp hmem).1, rfl⟩
  rw [hrows] at hintact ⊢
  exact content_of_intact hfree hintact hlinked hhash hin hin'

/-! ## The two ends of a chain of two records -/

def keyCreated : AuditData :=
  ⟨"User", some "user-1", "API_KEY_CREATED", "ApiKey", some "key-1", none, none, none⟩

def keyRevoked : AuditData :=
  ⟨"User", some "user-1", "API_KEY_REVOKED", "ApiKey", some "key-1", none, none, none⟩

def firstStamp : Stamp := ⟨"log-1", .epoch⟩

def secondStamp : Stamp := ⟨"log-2", ⟨60000, by decide, by decide⟩⟩

def createdRecord : AuditLog := nextRecord (genesis SYSTEM_CHAIN_KEY) keyCreated firstStamp

def revokedRecord : AuditLog := nextRecord (cursorAfter createdRecord) keyRevoked secondStamp

def twoRecords : AuditTables := ⟨[createdRecord, revokedRecord], [cursorAfter revokedRecord]⟩

theorem twoRecords_written :
    appendAll ⟨[], []⟩ [(keyCreated, firstStamp), (keyRevoked, secondStamp)] = .ok twoRecords := rfl

theorem linked_twoRecords : Linked SYSTEM_CHAIN_KEY (genesis SYSTEM_CHAIN_KEY) [createdRecord, revokedRecord]
    (cursorAfter revokedRecord) :=
  ⟨follows_nextRecord _ keyCreated firstStamp, follows_nextRecord _ keyRevoked secondStamp, rfl⟩

/-- The digits of the hash of a record, from the characters it is computed of. -/
def hashDigits (before : List Char) (i : AuditHashInput) : List Char :=
  Sha256.hexDigits (Sha256.digest (Encoding.utf8 (before ++ '|' :: Json.render (Json.sortKeys (canonicalRecord i)))))

theorem toList_hash (c : AuditChainCursor) (d : AuditData) (s : Stamp) : (nextRecord c d s).hash.toList =
    hashDigits (c.lastHash.getD GENESIS_SENTINEL).toList ((nextRecord c d s).hashInput d.chainKey) := by
  show (Sha256.hex _).toList = _
  rw [Sha256.toList_hex, toList_hashText]
  rfl

theorem hashes_differ : createdRecord.hash ≠ revokedRecord.hash := by
  intro h
  have hcreated := toList_hash (genesis SYSTEM_CHAIN_KEY) keyCreated firstStamp
  have hrevoked := toList_hash (cursorAfter createdRecord) keyRevoked secondStamp
  have hbefore : ((cursorAfter createdRecord).lastHash.getD GENESIS_SENTINEL).toList = createdRecord.hash.toList := rfl
  rw [hbefore, show createdRecord.hash.toList = _ from hcreated] at hrevoked
  have hlists := congrArg String.toList h
  rw [show createdRecord.hash.toList = _ from hcreated, show revokedRecord.hash.toList = _ from hrevoked] at hlists
  revert hlists
  decide +kernel

/-- The newer of two records is gone and the verifier is content. -/
theorem newest_removed_verifies :
    appendAll ⟨[], []⟩ [(keyCreated, firstStamp), (keyRevoked, secondStamp)] = .ok twoRecords ∧
      Verifies [createdRecord] none ∧ twoRecords.cursor SYSTEM_CHAIN_KEY = cursorAfter revokedRecord ∧
      ¬ ∃ gone kept, chainRows twoRecords.logs SYSTEM_CHAIN_KEY = gone ++ kept ∧
        (chainInOrder [createdRecord] SYSTEM_CHAIN_KEY).map (AuditLog.content SYSTEM_CHAIN_KEY) =
          kept.map (AuditLog.content SYSTEM_CHAIN_KEY) := by
  refine ⟨twoRecords_written, ?_, rfl, ?_⟩
  · exact verifies_of_linked
      (show Linked SYSTEM_CHAIN_KEY _ [createdRecord] (cursorAfter createdRecord) from ⟨linked_twoRecords.1, rfl⟩)
  · rintro ⟨gone, kept, hsplit, hcontent⟩
    have hleft : chainInOrder [createdRecord] SYSTEM_CHAIN_KEY = [createdRecord] := rfl
    rw [hleft] at hcontent
    obtain ⟨x, rfl⟩ := length_eq_one_iff.mp (by simpa using (congrArg List.length hcontent).symm)
    have hlast : some revokedRecord = some x := by
      have hrows : chainRows twoRecords.logs SYSTEM_CHAIN_KEY = [createdRecord, revokedRecord] := rfl
      rw [hrows] at hsplit
      simpa using congrArg List.getLast? hsplit
    cases hlast
    have hsequence : createdRecord.sequence = revokedRecord.sequence :=
      congrArg AuditHashInput.sequence (cons.inj hcontent).1
    exact absurd hsequence (by decide)

/-- The older of two records is gone, as after a retention sweep: the newer one is the honest one. -/
theorem oldest_removed_left : Verifies [revokedRecord] none ∧
    ∃ gone kept, [createdRecord] ++ [revokedRecord] = gone ++ kept ∧
      (chainInOrder [revokedRecord] SYSTEM_CHAIN_KEY).map (AuditLog.content SYSTEM_CHAIN_KEY) =
        kept.map (AuditLog.content SYSTEM_CHAIN_KEY) := by
  have hverified : Verifies [revokedRecord] none :=
    verifies_of_linked
      (show Linked SYSTEM_CHAIN_KEY (cursorAfter createdRecord) [revokedRecord] (cursorAfter revokedRecord) from
        linked_twoRecords.2)
  have hhash := fun r hr => ((intact_of_linked linked_twoRecords).1 r hr).hash_eq
  have hfree : CollisionFree (hashedTexts SYSTEM_CHAIN_KEY (twoRecords.logs ++ [revokedRecord])) := by
    have hstored : ∀ r ∈ twoRecords.logs ++ [revokedRecord], r ∈ [createdRecord, revokedRecord] := by
      intro r hr
      rcases mem_append.mp hr with hr | hr
      · exact hr
      · exact mem_cons_of_mem _ hr
    rintro _ ⟨r, hr, rfl⟩ _ ⟨r', hr', rfl⟩ hsame
    rw [← hhash r (hstored r hr), ← hhash r' (hstored r' hr')] at hsame
    rcases mem_pair.mp (hstored r hr) with rfl | rfl <;> rcases mem_pair.mp (hstored r' hr') with rfl | rfl
    · rfl
    · exact absurd hsame hashes_differ
    · exact absurd hsame.symm hashes_differ
    · rfl
  have hunique : UniqueSequences [revokedRecord] SYSTEM_CHAIN_KEY := nodup_singleton _
  exact ⟨hverified, left_of_verified _ twoRecords twoRecords_written none [revokedRecord] hunique hfree hverified
    revokedRecord revokedRecord [createdRecord] [] rfl rfl rfl⟩

end EarnProof.Audit
