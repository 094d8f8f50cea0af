/-
  EarnProof.Audit.Chain — the tamper-evidence chain of the audit log: the hash of
  `src/audit/audit-chain.ts`, the rows it is stored in, and the append of
  `src/database/prisma.service.ts`.

  A chain is what the cursor of one `chainKey` hands on from record to record: each
  record takes the next sequence and the hash of the one before (`Linked`). The text
  that is hashed determines the hash before it and every hashed field, members of the
  metadata in any order (`hashText_inj`).
-/
import EarnProof.Common.Crypto
import EarnProof.Lib.Calendar
import EarnProof.Lib.Json
import EarnProof.Lib.Result
import EarnProof.Lib.Table

namespace EarnProof.Audit

open Lib Lib.Table Lib.Calendar Lib.Result Common.Crypto List

/-! ## The hash -/

def CURRENT_HASH_VERSION : Int := 1

def SYSTEM_CHAIN_KEY : String := "SYSTEM"

def GENESIS_SENTINEL : String := "GENESIS"

def resolveChainKey (organizationId : Option String) : String :=
  (organizationId.filter (· ≠ "")).getD SYSTEM_CHAIN_KEY

structure AuditHashInput where
  chainKey : String
  sequence : Int
  hashVersion : Int
  actorType : String
  actorId : Option String
  action : String
  resourceType : String
  resourceId : Option String
  metadata : Option Json
  createdAt : Date
  deriving DecidableEq

/-- `toString()` of a `bigint`. -/
def decimal (n : Int) : String := String.ofList (Num.ofInt n).text

/-- `canonicalStringify`; a `Json` value has no `undefined` member to drop. -/
def canonicalStringify (value : Json) : String := Json.stringify (Json.sortKeys value)

def canonicalRecord (i : AuditHashInput) : Json :=
  .obj [("chainKey", .str i.chainKey), ("sequence", .str (decimal i.sequence)),
    ("hashVersion", .num (.ofInt i.hashVersion)), ("actorType", .str i.actorType), ("actorId", orNull i.actorId),
    ("action", .str i.action), ("resourceType", .str i.resourceType), ("resourceId", orNull i.resourceId),
    ("metadata", i.metadata.getD .null), ("createdAt", .str i.createdAt.toISOString)]

def buildCanonicalRecord (i : AuditHashInput) : String := canonicalStringify (canonicalRecord i)

variable (prevHash : Option String)

/-- The text `computeAuditHash` digests. -/
def hashText (i : AuditHashInput) : String :=
  prevHash.getD GENESIS_SENTINEL ++ "|" ++ buildCanonicalRecord i

/-- `computeAuditHash`, where the version decides the algorithm and is itself hashed. -/
def computeAuditHash (i : AuditHashInput) (hashVersion : Int) : Except String String :=
  if hashVersion = 1 then .ok (sha256 (hashText prevHash { i with hashVersion }))
  else .error ("Unsupported audit hash version: " ++ decimal hashVersion)

variable {i j : AuditHashInput} {rs' logs : List AuditLog} {cursors : List AuditChainCursor} {r : AuditLog}
  {t t' : AuditTables} {s : Stamp}

theorem computeAuditHash_eq_ok {prevHash : Option String} {version : Int} {hash : String}
    (h : computeAuditHash prevHash i version = .ok hash) :
    version = 1 ∧ hash = sha256 (hashText prevHash { i with hashVersion := version }) := by
  unfold computeAuditHash at h
  split at h
  · rename_i hversion
    exact ⟨hversion, (Except.ok.inj h).symm⟩
  · cases h

/-! ## What the hash covers -/

/-- The hashed fields, with the members of the metadata in canonical order. -/
def AuditHashInput.content (i : AuditHashInput) : AuditHashInput :=
  { i with metadata := some (Json.sortKeys (i.metadata.getD .null)) }

theorem sortKeys_canonicalRecord (i : AuditHashInput) : Json.sortKeys (canonicalRecord i) =
    .obj [("action", .str i.action), ("actorId", orNull i.actorId), ("actorType", .str i.actorType),
      ("chainKey", .str i.chainKey), ("createdAt", .str i.createdAt.toISOString),
      ("hashVersion", .num (.ofInt i.hashVersion)), ("metadata", Json.sortKeys (i.metadata.getD .null)),
      ("resourceId", orNull i.resourceId), ("resourceType", .str i.resourceType),
      ("sequence", .str (decimal i.sequence))] := by
  simp only [canonicalRecord, Json.sortKeys, Json.sortValues, sortKeys_orNull, Json.sortMembers]
  simp +decide only [insertionSort_cons, insertionSort_nil, List.orderedInsert, if_true, if_false]
  rw [Json.assignAll_of_names (by simp only [List.map]; decide)]

theorem content_of_canonical (h : Json.sortKeys (canonicalRecord i) = Json.sortKeys (canonicalRecord j)) :
    i.content = j.content := by
  rw [sortKeys_canonicalRecord, sortKeys_canonicalRecord] at h
  simp only [Json.obj.injEq, List.cons.injEq, Prod.mk.injEq, Json.str.injEq, Json.num.injEq, true_and, and_true] at h
  obtain ⟨haction, hactor, hactorType, hchain, hcreated, hversion, hmetadata, hresource, hresourceType, hsequence⟩ := h
  unfold AuditHashInput.content
  rw [haction, orNull_inj hactor, hactorType, hchain, Date.toISOString_inj hcreated, hmetadata, orNull_inj hresource,
    hresourceType, Num.ofInt_text_inj (String.ofList_inj.mp hsequence), Num.ofInt_text_inj (congrArg Num.text hversion)]

theorem opensWith_canonicalRecord (i : AuditHashInput) :
    Json.OpensWith 'a' (Json.render (Json.sortKeys (canonicalRecord i))) := by
  rw [sortKeys_canonicalRecord]
  exact ⟨_, rfl⟩

theorem toList_hashText (i : AuditHashInput) : (hashText prevHash i).toList =
    (prevHash.getD GENESIS_SENTINEL).toList ++ '|' :: Json.render (Json.sortKeys (canonicalRecord i)) := by
  simp [hashText, buildCanonicalRecord, canonicalStringify, Json.stringify, String.toList_append]

/-- The hashed text is read back in one way, whatever the hash before it was set to. -/
theorem hashText_inj {p q : Option String} (h : hashText p i = hashText q j) :
    p.getD GENESIS_SENTINEL = q.getD GENESIS_SENTINEL ∧ i.content = j.content := by
  have hlist := congrArg String.toList h
  rw [toList_hashText, toList_hashText] at hlist
  obtain ⟨hprev, hrecord⟩ :=
    Json.bar_object_inj (by decide) (opensWith_canonicalRecord i) (opensWith_canonicalRecord j) hlist
  exact ⟨String.toList_inj.mp hprev, content_of_canonical hrecord⟩

/-! ## Rows -/

structure AuditLog where
  id : String
  actorType : String
  actorId : Option String
  action : String
  resourceType : String
  resourceId : Option String
  metadata : Option Json
  createdAt : Date
  organizationId : Option String
  chainKey : String
  sequence : Int
  hashVersion : Int
  prevHash : Option String
  hash : String
  deriving DecidableEq

structure AuditChainCursor where
  chainKey : String
  lastSequence : Int
  lastHash : Option String
  deriving DecidableEq

structure AuditData where
  actorType : String
  actorId : Option String
  action : String
  resourceType : String
  resourceId : Option String
  metadata : Option Json
  organizationId : Option String
  createdAt : Option Date
  deriving DecidableEq

structure Stamp where
  id : String
  now : Date
  deriving DecidableEq

/-- The fields of a row that its hash covers, in the chain it is read from. -/
def AuditLog.hashInput (r : AuditLog) (chainKey : String) : AuditHashInput :=
  ⟨chainKey, r.sequence, r.hashVersion, r.actorType, r.actorId, r.action, r.resourceType, r.resourceId, r.metadata,
    r.createdAt⟩

def AuditData.chainKey (d : AuditData) : String := resolveChainKey d.organizationId

/-- The row `appendAuditLog` inserts behind the cursor it has locked. -/
def nextRecord (c : AuditChainCursor) (d : AuditData) (s : Stamp) : AuditLog :=
  let createdAt := d.createdAt.getD s.now
  let input : AuditHashInput := ⟨d.chainKey, c.lastSequence + 1, CURRENT_HASH_VERSION, d.actorType, d.actorId, d.action,
    d.resourceType, d.resourceId, d.metadata, createdAt⟩
  { id := s.id
    actorType := d.actorType
    actorId := d.actorId
    action := d.action
    resourceType := d.resourceType
    resourceId := d.resourceId
    metadata := d.metadata
    createdAt
    organizationId := d.organizationId
    chainKey := d.chainKey
    sequence := c.lastSequence + 1
    hashVersion := CURRENT_HASH_VERSION
    prevHash := c.lastHash
    hash := sha256 (hashText c.lastHash input) }

/-- The row the unpatched `auditLog.create` inserts: the chain columns take their defaults. -/
def defaultRecord (d : AuditData) (s : Stamp) : AuditLog where
  id := s.id
  actorType := d.actorType
  actorId := d.actorId
  action := d.action
  resourceType := d.resourceType
  resourceId := d.resourceId
  metadata := d.metadata
  createdAt := d.createdAt.getD s.now
  organizationId := d.organizationId
  chainKey := "SYSTEM"
  sequence := 0
  hashVersion := 1
  prevHash := none
  hash := ""

def cursorAfter (r : AuditLog) : AuditChainCursor := ⟨r.chainKey, r.sequence, some r.hash⟩

/-- The two rows may not both be stored, by the index on `(chainKey, sequence)`. -/
def clashes (r r' : AuditLog) : Bool := r.chainKey = r'.chainKey ∧ r.sequence = r'.sequence

def chainRows (logs : List AuditLog) (key : String) : List AuditLog := logs.filter (·.chainKey = key)

/-! ## The append -/

structure AuditTables where
  logs : List AuditLog
  cursors : List AuditChainCursor
  deriving DecidableEq

inductive AuditError where
  | cursorNotLocked (message : String)
  | uniqueViolation (fields : List String)
  | deadlockDetected
  deriving DecidableEq

def genesis (key : String) : AuditChainCursor := ⟨key, 0, none⟩

section

variable (cursors : List AuditChainCursor) (t : AuditTables)

/-- `INSERT … ON CONFLICT ("chainKey") DO NOTHING`. -/
def ensureCursor (key : String) : List AuditChainCursor :=
  if cursors.any (·.chainKey = key) then cursors else cursors ++ [genesis key]

def findCursor (key : String) : Except AuditError AuditChainCursor :=
  match cursors.find? (·.chainKey = key) with
  | some c => .ok c
  | none => .error (.cursorNotLocked ("Audit chain cursor for \"" ++ key ++ "\" could not be locked"))

def insertLog (logs : List AuditLog) (r : AuditLog) : Except AuditError (List AuditLog) := do
  require (logs.all fun r' => clashes r' r = false) (.uniqueViolation ["chainKey", "sequence"])
  pure (logs ++ [r])

/-- `UPDATE "AuditChainCursor" SET "lastSequence", "lastHash" WHERE "chainKey"`. -/
def setCursor (c : AuditChainCursor) : List AuditChainCursor :=
  Table.update (fun c' => decide (c'.chainKey = c.chainKey))
    (fun c' => { c' with lastSequence := c.lastSequence, lastHash := c.lastHash }) cursors

def advanceCursor (r : AuditLog) : List AuditChainCursor :=
  setCursor cursors (cursorAfter r)

/-- `appendAuditLog`, in a transaction that nothing interrupts. -/
def appendAuditLog (d : AuditData) (s : Stamp) : Except AuditError AuditTables := do
  let cursors := ensureCursor t.cursors d.chainKey
  let c ← findCursor cursors d.chainKey
  let logs ← insertLog t.logs (nextRecord c d s)
  pure ⟨logs, advanceCursor cursors (nextRecord c d s)⟩

def appendAll (writes : List (AuditData × Stamp)) : Except AuditError AuditTables :=
  writes.foldlM (fun t w => appendAuditLog t w.1 w.2) t

/-- Where the chain stands by its cursor; a chain without one has not begun. -/
def standing (key : String) : AuditChainCursor :=
  (cursors.find? (·.chainKey = key)).getD (genesis key)

def AuditTables.cursor (key : String) : AuditChainCursor := standing t.cursors key

end

/-! ## Links -/

/-- The record continues the chain from this cursor. -/
structure Follows (key : String) (c : AuditChainCursor) (r : AuditLog) : Prop where
  chainKey : r.chainKey = key
  sequence : r.sequence = c.lastSequence + 1
  prevHash : r.prevHash = c.lastHash
  hash : computeAuditHash r.prevHash (r.hashInput key) r.hashVersion = .ok r.hash

/-- The records lead from the first cursor to the second. -/
def Linked (key : String) : AuditChainCursor → List AuditLog → AuditChainCursor → Prop
  | c, [], c' => c = c'
  | c, r :: rs, c' => Follows key c r ∧ Linked key (cursorAfter r) rs c'

variable {key : String} {c c' : AuditChainCursor} {rs : List AuditLog} {d : AuditData}

theorem linked_append : Linked key c (rs ++ rs') c' ↔ ∃ d, Linked key c rs d ∧ Linked key d rs' c' := by
  induction rs generalizing c with
  | nil => simp [Linked]
  | cons r rs ih => simp [Linked, ih, and_assoc]

theorem Linked.trans {d : AuditChainCursor} (h : Linked key c rs d)
    (h' : Linked key d rs' c') : Linked key c (rs ++ rs') c' := linked_append.mpr ⟨d, h, h'⟩

theorem follows_nextRecord (c : AuditChainCursor) (d : AuditData) (s : Stamp) :
    Follows d.chainKey c (nextRecord c d s) where
  chainKey := rfl
  sequence := rfl
  prevHash := rfl
  hash := by
    unfold computeAuditHash
    rfl

/-- The sequences of linked records count on from the cursor. -/
theorem sequence_of_linked (h : Linked key c rs c') :
    rs.map AuditLog.sequence = (List.range rs.length).map fun n : Nat => c.lastSequence + 1 + (n : Int) := by
  induction rs generalizing c with
  | nil => rfl
  | cons r rs ih =>
    obtain ⟨hr, hrs⟩ := h
    have hcursor : (cursorAfter r).lastSequence = c.lastSequence + 1 := hr.sequence
    rw [map_cons, ih hrs, hcursor, length_cons, range_succ_eq_map, map_cons, map_map, hr.sequence]
    refine cons_eq_cons.mpr ⟨by simp, map_congr_left fun n _ => ?_⟩
    simp only [Function.comp_apply, Nat.cast_succ]
    omega

theorem strict_of_linked (h : Linked key c rs c') : rs.Pairwise fun a b => a.sequence < b.sequence := by
  have hmap : (rs.map AuditLog.sequence).Pairwise (· < ·) := by
    rw [sequence_of_linked h, pairwise_map]
    exact pairwise_lt_range.imp fun hmn => by omega
  exact pairwise_map.mp hmap

theorem chainKey_of_linked (h : Linked key c rs c') : ∀ r ∈ rs, r.chainKey = key := by
  induction rs generalizing c with
  | nil => exact fun _ hr => nomatch hr
  | cons r rs ih =>
    intro x hx
    rcases mem_cons.mp hx with rfl | hx
    · exact h.1.chainKey
    · exact ih h.2 x hx

/-- No record of a chain lies behind its cursor. -/
theorem sequence_le_of_linked (h : Linked key c rs c') :
    (∀ r ∈ rs, r.sequence ≤ c'.lastSequence) ∧ c.lastSequence ≤ c'.lastSequence := by
  induction rs generalizing c with
  | nil => exact ⟨fun _ hr => (nomatch hr), le_of_eq (congrArg AuditChainCursor.lastSequence h)⟩
  | cons r rs ih =>
    obtain ⟨hr, hrs⟩ := h
    obtain ⟨hle, hlast⟩ := ih hrs
    have hr' : r.sequence ≤ c'.lastSequence := hlast
    refine ⟨fun x hx => ?_, ?_⟩
    · rcases mem_cons.mp hx with rfl | hx
      · exact hr'
      · exact hle x hx
    · have := hr.sequence
      omega

/-! ## What an append does -/

/-- Every chain leads from its genesis to its cursor. -/
def Honest (t : AuditTables) : Prop := ∀ key, Linked key (genesis key) (chainRows t.logs key) (t.cursor key)

theorem honest_empty : Honest ⟨[], []⟩ := fun _ => rfl

theorem any_iff_find? {cursors : List AuditChainCursor} :
    cursors.any (·.chainKey = key) ↔ cursors.find? (·.chainKey = key) ≠ none := by
  simp

section

variable (cursors : List AuditChainCursor)

theorem find?_ensureCursor (k key : String) : (ensureCursor cursors k).find? (·.chainKey = key) =
    if key = k then some (standing cursors k) else cursors.find? (·.chainKey = key) := by
  unfold ensureCursor standing
  split
  · rename_i hany
    obtain ⟨c, hc⟩ := Option.ne_none_iff_exists'.mp (any_iff_find?.mp hany)
    split
    · rename_i hk
      rw [hk, hc, Option.getD_some]
    · rfl
  · rename_i hnone
    have hfind : cursors.find? (·.chainKey = k) = none := find?_eq_none.mpr (by simpa using hnone)
    by_cases hk : key = k
    · simp [find?_append, hk, hfind, genesis]
    · simp [find?_append, hk, Ne.symm hk, genesis]

/-- Once its row is ensured a chain's cursor is found where it stands. -/
theorem findCursor_ensureCursor (key : String) :
    findCursor (ensureCursor cursors key) key = .ok (standing cursors key) := by
  unfold findCursor
  rw [find?_ensureCursor, if_pos rfl]

theorem standing_ensureCursor (k key : String) : standing (ensureCursor cursors k) key = standing cursors key := by
  rw [standing, find?_ensureCursor]
  split
  · rename_i hk
    rw [hk, Option.getD_some]
  · rfl

theorem find?_setCursor (c : AuditChainCursor) (key : String) :
    (setCursor cursors c).find? (·.chainKey = key) =
      (cursors.find? (·.chainKey = key)).map fun c' => if key = c.chainKey then c else c' := by
  have hkept : ∀ c' : AuditChainCursor, decide
      (AuditChainCursor.chainKey { c' with lastSequence := c.lastSequence, lastHash := c.lastHash } = key) =
        decide (c'.chainKey = key) := fun _ => rfl
  unfold setCursor
  rw [find?_update hkept]
  cases hc' : cursors.find? (·.chainKey = key) with
  | none => rfl
  | some =>
    have hkey := (of_find? hc').2
    by_cases hk : key = c.chainKey
    · simp [hkey, hk]
    · simp [hkey, hk]

end

theorem standing_advanceCursor (h : cursors.any (·.chainKey = r.chainKey)) (key : String) :
    standing (advanceCursor cursors r) key = if key = r.chainKey then cursorAfter r else standing cursors key := by
  unfold standing advanceCursor
  rw [find?_setCursor]
  by_cases hk : key = r.chainKey
  · subst hk
    obtain ⟨c, hc⟩ := Option.isSome_iff_exists.mp (find?_isSome.mpr (any_eq_true.mp h))
    rw [hc]
    simp [cursorAfter]
  · cases cursors.find? (·.chainKey = key) with
    | none => simp [hk]
    | some => simp [hk, cursorAfter]

theorem insertLog_eq_ok {logs logs' : List AuditLog} :
    insertLog logs r = .ok logs' ↔ (∀ r' ∈ logs, clashes r' r = false) ∧ logs' = logs ++ [r] := by
  simp only [insertLog, bind_eq_ok, require_eq_ok, pure_eq_ok, all_eq_true, decide_eq_true_eq]
  constructor
  · rintro ⟨_, hall, rfl⟩
    exact ⟨hall, rfl⟩
  · rintro ⟨hall, rfl⟩
    exact ⟨(), hall, rfl⟩

/-- An append that succeeds stores the next record and moves the cursor behind it. -/
theorem appendAuditLog_eq_ok (h : appendAuditLog t d s = .ok t') :
    t'.logs = t.logs ++ [nextRecord (t.cursor d.chainKey) d s] ∧ ∀ key, t'.cursor key =
      if key = d.chainKey then cursorAfter (nextRecord (t.cursor d.chainKey) d s) else t.cursor key := by
  obtain ⟨c, hc, h⟩ := bind_eq_ok.mp h
  rw [findCursor_ensureCursor] at hc
  cases hc
  obtain ⟨logs, hlogs, h⟩ := bind_eq_ok.mp h
  cases h
  refine ⟨(insertLog_eq_ok.mp hlogs).2, fun key => ?_⟩
  have hany : (ensureCursor t.cursors d.chainKey).any (·.chainKey = d.chainKey) := by
    rw [any_iff_find?, find?_ensureCursor, if_pos rfl]
    exact Option.some_ne_none _
  refine (standing_advanceCursor (r := nextRecord (standing t.cursors d.chainKey) d s) hany key).trans ?_
  rw [standing_ensureCursor]
  rfl

theorem chainRows_append_of {logs rows : List AuditLog} (h : ∀ r ∈ rows, r.chainKey = key) (k : String) :
    chainRows (logs ++ rows) k = if k = key then chainRows logs k ++ rows else chainRows logs k := by
  unfold chainRows
  rw [filter_append]
  split
  · rename_i hk
    rw [filter_eq_self.mpr fun r hr => decide_eq_true ((h r hr).trans hk.symm)]
  · rename_i hk
    have hnone : rows.filter (·.chainKey = k) = [] :=
      filter_eq_nil_iff.mpr fun r hr hkey => hk ((of_decide_eq_true hkey).symm.trans (h r hr))
    rw [hnone, append_nil]

/-- A linked chain stays linked from where it begins. -/
theorem linked_of_append (h : appendAuditLog t d s = .ok t')
    (hl : Linked key c (chainRows t.logs key) (t.cursor key)) :
    Linked key c (chainRows t'.logs key) (t'.cursor key) := by
  obtain ⟨hlogs, hcursor⟩ := appendAuditLog_eq_ok h
  have hkey : ∀ r ∈ [nextRecord (t.cursor d.chainKey) d s], r.chainKey = d.chainKey := forall_mem_singleton.mpr rfl
  rw [hlogs, hcursor key, chainRows_append_of hkey]
  split
  · rename_i hk
    subst hk
    exact hl.trans ⟨follows_nextRecord _ d s, rfl⟩
  · exact hl

theorem no_clash_of_linked
    (h : Linked d.chainKey c (chainRows logs d.chainKey) c') : ∀ r ∈ logs, clashes r (nextRecord c' d s) = false := by
  intro r hr
  by_contra hclash
  have hboth : r.chainKey = d.chainKey ∧ r.sequence = c'.lastSequence + 1 :=
    of_decide_eq_true (Bool.eq_true_of_not_eq_false hclash)
  have hmem : r ∈ chainRows logs d.chainKey := mem_filter.mpr ⟨hr, by simp [hboth.1]⟩
  have := (sequence_le_of_linked h).1 r hmem
  omega

theorem exists_append_of_linked (s : Stamp)
    (h : Linked d.chainKey c (chainRows t.logs d.chainKey) (t.cursor d.chainKey)) :
    ∃ t', appendAuditLog t d s = .ok t' :=
  ⟨_, bind_eq_ok.mpr ⟨_, findCursor_ensureCursor _ _,
    bind_eq_ok.mpr ⟨_, insertLog_eq_ok.mpr ⟨no_clash_of_linked h, rfl⟩, rfl⟩⟩⟩

theorem honest_of_appendAll {writes : List (AuditData × Stamp)} : ∀ {t t' : AuditTables}, Honest t →
    appendAll t writes = .ok t' → Honest t' := by
  induction writes with
  | nil =>
    intro t t' ht h
    cases h
    exact ht
  | cons w ws ih =>
    intro t t' ht h
    obtain ⟨t₁, hstep, hrest⟩ := bind_eq_ok.mp h
    exact ih (fun key => linked_of_append hstep (ht key)) hrest

end EarnProof.Audit
