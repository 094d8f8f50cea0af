/-
  EarnProof.ApiKeys.Overlap — what a rotation's overlap lets its two keys do, over every
  sequence of creations, rotations, revocations, cutovers, lookups and sweeps. The lookups are
  those that miss the key cache; what the cache adds to them is in `ApiKeys.KeyCache`.

  Two readings of an overlap fail.
  - It never widens authority: a key in the middle of a chain, replacement in one rotation and
    old key of the next, is judged by the second alone and gets scopes the first key of the
    chain never had (`middle_key_widened`). Proved: a key is let in within the intersection of
    every rotation active at the time exactly when no two active rotations meet in it, or every
    scope it shares with its replacement was its predecessor's too (`overlap_contained_iff`).
  - Revoking the replacement alone undoes the rotation: the aborted rotation stays the latest
    of the old key and refuses it (`aborted_rotation_refuses`). Proved: after no rotation does
    such a revocation restore a key that is still standing (`replacement_revoked_never_restores`).
-/
import Mathlib.Tactic
import EarnProof.Lib.Run
import EarnProof.ApiKeys.Keys

namespace EarnProof.ApiKeys.Overlap

open Lib Lib.Table Lib.Result Database List

/-! ## The system -/

structure World where
  db : Store
  clock : Int
  /-- The rotations whose EXPIRED write has been sent and not yet made. -/
  expiring : List String
  deriving DecidableEq

inductive Event where
  | tick (time : Int)
  | createKey (organizationId : String) (scopes : Option (List ApiKeyScope)) (expiresAt : Option Int) (fresh : Fresh)
  | rotateKey (keyId organizationId : String) (dto : RotateApiKeyDto) (fresh : Fresh)
  | revokeKey (keyId organizationId : String) (reason : Option String) (choice : String)
  | cutoverRotation (keyId organizationId choice : String)
  /-- A lookup that read the time at `dbNow` and evaluates the key's rotations now. -/
  | lookupKey (dbNow : Int) (keyPrefix secret organizationId : String)
  | expireRotation (rotationId : String)
  | sweepKey (keyId : String)
  | archive (organizationId : String)
  | restore (organizationId : String)
  | deleteOrganization (organizationId : String)
  /-- The retention sweep of the audit log takes the row with the default chain columns. -/
  | sweepAudit

/-- A request that throws leaves the database as it was, and is no step. -/
def World.commit (w : World) (result : Except String Store) : Option World :=
  match result with
  | .ok db => some { w with db }
  | .error _ => none

/-- The write a lookup sends off, where it verified a key whose overlap is over. -/
def World.sentBy (w : World) (dbNow : Int) (keyPrefix secret organizationId : String) : List String :=
  match w.db.findKey dbNow keyPrefix organizationId with
  | some k =>
    if verifySecret secret k.keyHash then (expiringRotation w.db w.clock k.id organizationId).toList else []
  | none => []

def step (quotas : Quotas) (w : World) : Event → Option World
  | .tick t => if w.clock ≤ t then some { w with clock := t } else none
  | .createKey organizationId scopes expiresAt fresh =>
    w.commit (createKey quotas w.db w.clock organizationId scopes expiresAt fresh)
  | .rotateKey keyId organizationId dto fresh =>
    w.commit (rotateKey quotas w.db w.clock keyId organizationId dto fresh)
  | .revokeKey keyId organizationId reason choice =>
    w.commit (revokeKey w.db w.clock keyId organizationId reason choice)
  | .cutoverRotation keyId organizationId choice => w.commit (earlyCutover w.db w.clock keyId organizationId choice)
  | .lookupKey dbNow keyPrefix secret organizationId =>
    if dbNow ≤ w.clock then
      some { w with expiring := w.expiring ++ w.sentBy dbNow keyPrefix secret organizationId }
    else none
  | .expireRotation rotationId =>
    if rotationId ∈ w.expiring then
      some { w with db := expireRotation w.db rotationId, expiring := w.expiring.erase rotationId }
    else none
  | .sweepKey keyId =>
    if keyId ∈ sweepCandidates w.db w.clock then some { w with db := sweepKey w.db w.clock keyId } else none
  | .archive organizationId => w.commit (archive w.db w.clock organizationId)
  | .restore organizationId => w.commit (restore w.db organizationId)
  | .deleteOrganization organizationId => w.commit (deleteOrganization w.db w.clock organizationId)
  | .sweepAudit => some { w with db := { w.db with auditDefaultRow := false } }

variable (organizations : List Organization)

def start (clock : Int) : World :=
  ⟨⟨organizations, [], [], false⟩, clock, []⟩

/-! ## What a step does -/

/-- A step revokes keys and closes rotations, or adds a key, or rotates one. -/
inductive Effect (w w' : World) : Prop
  | revised (h : Revises w.clock (fun _ => True) w.db w'.db)
  | created (row : ApiKey) (hnew : ∀ k ∈ w.db.keys, k.id ≠ row.id) (hkeys : w'.db.keys = w.db.keys ++ [row])
      (hrotations : w'.db.rotations = w.db.rotations)
  | rotated (p : RotationPlan) (fresh : Fresh) (h : Rotated w.db w.clock p fresh w'.db)

variable {w w' : World} {quotas : Quotas} {r : ApiKeyRotation} {clock now : Int} {revoked : String → Prop}
  {db db' : Store} {keyId organizationId : String} {k : ApiKey}

theorem commit_eq_some {result : Except String Store} (h : w.commit result = some w') :
    ∃ db, result = .ok db ∧ w' = { w with db } := by
  unfold World.commit at h
  split at h
  · exact ⟨_, rfl, (Option.some.inj h).symm⟩
  · cases h

variable {e : Event} {clock' deadline : Int} {p : RotationPlan} {fresh : Fresh} {s : ApiKeyScope}
  {rotationId oldKeyId newKeyId : String}

/-- `hdue`: every EXPIRED write on its way is for a rotation past its deadline. -/
theorem step_effect (hdue : ∀ id ∈ w.expiring, ∀ r ∈ w.db.rotations, r.id = id → r.overlapExpiresAt ≤ w.clock)
    (h : step quotas w e = some w') : Effect w w' := by
  cases e with
  | tick | lookupKey =>
    obtain ⟨-, rfl⟩ := enabled h
    exact .revised (.same rfl rfl)
  | createKey =>
    obtain ⟨db, hok, rfl⟩ := commit_eq_some h
    obtain ⟨hnew, row, hid, -, -, rfl⟩ := createKey_eq_ok hok
    exact .created row (fun k hk => hid ▸ hnew k hk) rfl rfl
  | rotateKey keyId organizationId dto fresh =>
    obtain ⟨db, hok, rfl⟩ := commit_eq_some h
    obtain ⟨_, -, hok⟩ := bind_eq_ok.mp hok
    obtain ⟨_, -, hok⟩ := bind_eq_ok.mp hok
    exact .rotated _ fresh (commitRotation_eq_ok hok)
  | revokeKey =>
    obtain ⟨db, hok, rfl⟩ := commit_eq_some h
    exact .revised (revokeKey_revises hok)
  | cutoverRotation =>
    obtain ⟨db, hok, rfl⟩ := commit_eq_some h
    obtain ⟨-, r, -, hrev⟩ := earlyCutover_revises hok
    exact .revised (hrev.weaken fun _ _ => trivial)
  | expireRotation rotationId =>
    obtain ⟨hmem, rfl⟩ := enabled h
    exact .revised (expireRotation_revises (hdue rotationId hmem))
  | sweepKey keyId =>
    obtain ⟨-, rfl⟩ := enabled h
    exact .revised ((sweepKey_revises w.db w.clock w.clock keyId).weaken fun _ _ => trivial)
  | archive | restore =>
    obtain ⟨db, hok, rfl⟩ := commit_eq_some h
    obtain ⟨-, -, hok⟩ := bind_eq_ok.mp hok
    obtain rfl := writeAudit_eq_ok hok
    exact .revised (.same rfl rfl)
  | deleteOrganization =>
    obtain ⟨db, hok, rfl⟩ := commit_eq_some h
    exact .revised ((deleteOrganization_revises hok).2.2.weaken fun _ _ => trivial)
  | sweepAudit =>
    cases h
    exact .revised (.same rfl rfl)

theorem Effect.rotation (h : Effect w w') (hr : r ∈ w.db.rotations) :
    ∃ r' ∈ w'.db.rotations, RotationRevised w.clock r r' := by
  cases h with
  | revised h => exact exists_of_forall₂ h.rotations hr
  | created row _ _ hrotations => exact ⟨r, hrotations ▸ hr, .refl r⟩
  | rotated p fresh h =>
    refine ⟨r, ?_, .refl r⟩
    rw [h.after]
    exact mem_append_left _ hr

/-- The clock moves on, and a write on its way was sent before or is sent now for a rotation
    past its deadline. -/
theorem step_time (h : step quotas w e = some w') : w.clock ≤ w'.clock
      ∧ ∀ id ∈ w'.expiring, id ∈ w.expiring ∨ ∃ r ∈ w.db.rotations, r.id = id ∧ r.overlapExpiresAt ≤ w.clock := by
  cases e with
  | tick =>
    obtain ⟨hle, rfl⟩ := enabled h
    exact ⟨hle, fun id hid => .inl hid⟩
  | lookupKey =>
    obtain ⟨-, rfl⟩ := enabled h
    refine ⟨le_rfl, fun id hid => (mem_append.mp hid).imp_right fun hsent => ?_⟩
    unfold World.sentBy at hsent
    split at hsent
    · split at hsent
      · obtain ⟨r, hr, rfl⟩ := Option.map_eq_some_iff.mp (Option.mem_toList.mp hsent)
        obtain ⟨hlatest, hover⟩ := Option.filter_eq_some_iff.mp hr
        simp only [Bool.and_eq_true, decide_eq_true_eq] at hover
        exact ⟨r, (latest_mem hlatest).1, rfl, hover.2⟩
      · cases hsent
    · cases hsent
  | expireRotation =>
    obtain ⟨-, rfl⟩ := enabled h
    exact ⟨le_rfl, fun id hid => .inl (mem_of_mem_erase hid)⟩
  | sweepKey =>
    obtain ⟨-, rfl⟩ := enabled h
    exact ⟨le_rfl, fun id hid => .inl hid⟩
  | sweepAudit =>
    cases h
    exact ⟨le_rfl, fun id hid => .inl hid⟩
  | _ =>
    obtain ⟨db, -, rfl⟩ := commit_eq_some h
    exact ⟨le_rfl, fun id hid => .inl hid⟩

/-! ## The invariant -/

def Known (db : Store) (keyId organizationId : String) : Prop :=
  ∃ k ∈ db.keys, k.id = keyId ∧ k.organizationId = organizationId

/-- The rotations form chains: a key is the replacement in one rotation at most, and an overlap
    is the latest rotation of its old key. -/
structure Chained (db : Store) (clock : Int) : Prop where
  keyIds : (db.keys.map (·.id)).Nodup
  rotationIds : (db.rotations.map (·.id)).Nodup
  newKeyIds : (db.rotations.map (·.newKeyId)).Nodup
  known : ∀ r ∈ db.rotations, Known db r.oldKeyId r.organizationId ∧ Known db r.newKeyId r.organizationId
  latest : ∀ r ∈ db.rotations, r.status = .inOverlap → db.oldKeyRotation r.oldKeyId r.organizationId = some r
  created : ∀ r ∈ db.rotations, r.createdAt ≤ clock
  expired : ∀ r ∈ db.rotations, r.status = .expired → r.overlapExpiresAt ≤ clock

structure Inv (w : World) : Prop where
  chained : Chained w.db w.clock
  overdue : ∀ id ∈ w.expiring, ∃ r ∈ w.db.rotations, r.id = id ∧ r.overlapExpiresAt ≤ w.clock

/-- The latest rotation stays the latest, as it is now. -/
theorem oldKeyRotation_of_revised
    {r' : ApiKeyRotation} (hrev : Forall₂ (RotationRevised now) db.rotations db'.rotations)
    (hids : (db.rotations.map (·.id)).Nodup)
    (hlatest : db.oldKeyRotation keyId organizationId = some r) (hr' : r' ∈ db'.rotations) (hid : r'.id = r.id) :
    db'.oldKeyRotation keyId organizationId = some r' := by
  have hrel : Option.Rel (RotationRevised now) (db.oldKeyRotation keyId organizationId)
      (db'.oldKeyRotation keyId organizationId) := by
    refine latest_rel hrev (fun r r' hr => ?_) fun _ _ hr => hr.createdAt
    rw [hr.oldKeyId, hr.organizationId]
  rw [hlatest] at hrel
  cases hlatest' : db'.oldKeyRotation keyId organizationId with
  | none =>
    rw [hlatest'] at hrel
    cases hrel
  | some =>
    rw [hlatest'] at hrel
    obtain ⟨hrel⟩ := hrel
    have hids' : (db'.rotations.map (·.id)).Nodup := by
      rw [map_of_forall₂ hrev (·.id) fun _ _ hr => hr.id]
      exact hids
    rw [eq_of_key hids' (latest_mem hlatest').1 hr' (hrel.id.trans hid.symm)]

theorem Known.revised
    (h : Known db keyId organizationId) (hrev : Revises now revoked db db') : Known db' keyId organizationId := by
  obtain ⟨k, hk, hid, horg⟩ := h
  obtain ⟨k', hk', hkey⟩ := exists_of_forall₂ hrev.keys hk
  exact ⟨k', hk', hkey.id.trans hid, hkey.organizationId.trans horg⟩

/-- Rotations that are only closed stay chained over keys that stay known. -/
theorem Chained.carry (h : Chained db clock) (hkeys : (db'.keys.map (·.id)).Nodup)
    (hknown : ∀ {keyId organizationId}, Known db keyId organizationId → Known db' keyId organizationId)
    (hrev : Forall₂ (RotationRevised clock) db.rotations db'.rotations) (hle : clock ≤ clock') :
    Chained db' clock' := by
  refine ⟨hkeys, ?_, ?_, ?_, ?_, ?_, ?_⟩
  · rw [map_of_forall₂ hrev (·.id) fun _ _ hr => hr.id]
    exact h.rotationIds
  · rw [map_of_forall₂ hrev (·.newKeyId) fun _ _ hr => hr.newKeyId]
    exact h.newKeyIds
  · intro r' hr'
    obtain ⟨r, hr, hrr⟩ := exists_of_forall₂_right hrev hr'
    rw [hrr.oldKeyId, hrr.newKeyId, hrr.organizationId]
    exact (h.known r hr).imp hknown hknown
  · intro r' hr' hin
    obtain ⟨r, hr, hrr⟩ := exists_of_forall₂_right hrev hr'
    rw [hrr.oldKeyId, hrr.organizationId]
    exact oldKeyRotation_of_revised hrev h.rotationIds (h.latest r hr (hrr.was_inOverlap hin)) hr' hrr.id
  · intro r' hr'
    obtain ⟨r, hr, hrr⟩ := exists_of_forall₂_right hrev hr'
    have hcreated := h.created r hr
    have hsame := hrr.createdAt
    omega
  · intro r' hr' hexp
    obtain ⟨r, hr, hrr⟩ := exists_of_forall₂_right hrev hr'
    have hsame := hrr.overlapExpiresAt
    rcases hrr.status with hs | hs | hs | ⟨-, hdue⟩
    · have hdue := h.expired r hr (hs ▸ hexp)
      omega
    · exact absurd (hs.symm.trans hexp) (by decide)
    · exact absurd (hs.symm.trans hexp) (by decide)
    · omega

theorem Chained.revised (h : Chained db clock)
    (hrev : Revises clock revoked db db') (hle : clock ≤ clock') : Chained db' clock' := by
  refine h.carry ?_ (·.revised hrev) hrev.rotations hle
  rw [map_of_forall₂ hrev.keys (·.id) fun _ _ hk => hk.id]
  exact h.keyIds

theorem Chained.created_key {row : ApiKey} (h : Chained db clock)
    (hnew : ∀ k ∈ db.keys, k.id ≠ row.id) (hkeys : db'.keys = db.keys ++ [row])
    (hrotations : db'.rotations = db.rotations) (hle : clock ≤ clock') : Chained db' clock' := by
  refine h.carry ?_ ?_ (hrotations ▸ forall₂_same.mpr fun r _ => .refl r) hle
  · rw [hkeys]
    exact nodup_append_row h.keyIds hnew
  · rintro keyId organizationId ⟨k, hk, hsame⟩
    exact ⟨k, hkeys ▸ mem_append_left _ hk, hsame⟩

theorem Known.rotated
    (h : Known db keyId organizationId) (hrot : Rotated db clock p fresh db') : Known db' keyId organizationId := by
  obtain ⟨k, hk, hid, horg⟩ := h
  rw [hrot.after]
  by_cases hsel : k.id = p.keyId
  · refine ⟨p.oldRow k, mem_append_left _ ?_, hid, horg⟩
    exact mem_update.mpr ⟨k, hk, if_pos (decide_eq_true hsel)⟩
  · refine ⟨k, mem_append_left _ ?_, hid, horg⟩
    exact mem_update_of_not hk (decide_eq_false hsel)

theorem Chained.rotated (h : Chained db clock)
    (hrot : Rotated db clock p fresh db') (hle : clock ≤ clock') : Chained db' clock' := by
  have hrotations : db'.rotations = db.rotations ++ [p.rotation fresh clock] := by rw [hrot.after]
  have hmem : ∀ {r}, r ∈ db'.rotations → r ∈ db.rotations ∨ r = p.rotation fresh clock := by
    intro r hr
    rw [hrotations] at hr
    simpa using hr
  refine ⟨?_, ?_, ?_, ?_, ?_, ?_, ?_⟩
  · rw [hrot.after]
    refine nodup_append_row (nodup_update ApiKey.id (fun _ => rfl) h.keyIds) ?_
    exact forall_update hrot.freshKey fun k hk _ => hrot.freshKey k hk
  · rw [hrotations]
    exact nodup_append_row h.rotationIds hrot.freshRotation
  · rw [hrotations]
    refine nodup_append_row h.newKeyIds fun r hr hsame => ?_
    obtain ⟨k, hk, hid, -⟩ := (h.known r hr).2
    exact hrot.freshKey k hk (hid.trans hsame)
  · intro r hr
    rcases hmem hr with hr | rfl
    · exact ⟨(h.known r hr).1.rotated hrot, (h.known r hr).2.rotated hrot⟩
    · refine ⟨Known.rotated hrot.known hrot, p.newRow fresh, ?_, rfl, rfl⟩
      rw [hrot.after]
      exact mem_append_right _ mem_cons_self
  · intro r hr hin
    unfold Store.oldKeyRotation
    rw [hrotations]
    rcases hmem hr with hr | rfl
    · -- the new rotation is of another key: this one's would have kept it from starting
      have hother : p.keyId ≠ r.oldKeyId := fun hsame => hrot.closed r hr hsame.symm hin
      rw [latest_append_not (by simp [RotationPlan.rotation, hother])]
      exact h.latest r hr hin
    · exact latest_append_sel (by simp) h.created
  · intro r hr
    rcases hmem hr with hr | rfl
    · exact (h.created r hr).trans hle
    · exact hle
  · intro r hr hexp
    rcases hmem hr with hr | rfl
    · exact (h.expired r hr hexp).trans hle
    · cases hexp

theorem start_inv (clock : Int) : Inv (start organizations clock) := by
  refine ⟨⟨nodup_nil, nodup_nil, nodup_nil, ?_, ?_, ?_, ?_⟩, ?_⟩ <;> intro x hx <;> cases hx

theorem Chained.due {expiring : List String} (h : Chained db clock)
    (hoverdue : ∀ id ∈ expiring, ∃ r ∈ db.rotations, r.id = id ∧ r.overlapExpiresAt ≤ clock) :
    ∀ id ∈ expiring, ∀ r ∈ db.rotations, r.id = id → r.overlapExpiresAt ≤ clock := by
  intro id hid r hr hsame
  obtain ⟨r₀, hr₀, hid₀, hdue⟩ := hoverdue id hid
  rw [eq_of_key h.rotationIds hr hr₀ (hsame.trans hid₀.symm)]
  exact hdue

theorem step_inv (h : Inv w) (hs : step quotas w e = some w') : Inv w' := by
  have heff := step_effect (h.chained.due h.overdue) hs
  obtain ⟨hle, hexpiring⟩ := step_time hs
  constructor
  · cases heff with
    | revised hrev => exact h.chained.revised hrev hle
    | created row hnew hkeys hrotations => exact h.chained.created_key hnew hkeys hrotations hle
    | rotated p fresh hrot => exact h.chained.rotated hrot hle
  · intro id hid
    have hbefore : ∃ r ∈ w.db.rotations, r.id = id ∧ r.overlapExpiresAt ≤ w.clock := by
      rcases hexpiring id hid with hold | hsent
      · exact h.overdue id hold
      · exact hsent
    obtain ⟨r, hr, rfl, hdue⟩ := hbefore
    obtain ⟨r', hr', hrr⟩ := heff.rotation hr
    have hsame := hrr.overlapExpiresAt
    exact ⟨r', hr', hrr.id, by omega⟩

def Reachable (quotas : Quotas) (organizations : List Organization) (clock : Int) (w : World) : Prop :=
  Run (step quotas) anyStep (start organizations clock) w

theorem reachable_inv {organizations : List Organization} (h : Reachable quotas organizations clock w) : Inv w :=
  h.invariant (start_inv organizations clock) fun _ _ _ hi _ hs => step_inv hi hs

/-! ## Scopes within the overlap -/

def ActiveAt (now : Int) (r : ApiKeyRotation) : Prop := r.status = .inOverlap ∧ now < r.overlapExpiresAt
  deriving Decidable

section

variable (db : Store) (now : Int) (k : ApiKey)

/-- The scopes a lookup grants a key: none when it refuses the key. -/
def granted : List ApiKeyScope :=
  (evaluateScopeIntersection db now k.id k.scopes k.organizationId).effectiveScopes

/-- A key is let in within the intersection of every active rotation that has it as a key. -/
def Contained : Prop :=
  ∀ r ∈ db.rotations, ActiveAt now r → r.oldKeyId = k.id ∨ r.newKeyId = k.id →
    ∀ s ∈ granted db now k, s ∈ calculateScopeIntersection (db.scopesOf r.oldKeyId) (db.scopesOf r.newKeyId)

/-- Where two active rotations meet in a key, every scope it shares with its replacement is one of
    its predecessor's. -/
def Nested : Prop :=
  ∀ r₁ ∈ db.rotations, ∀ r₂ ∈ db.rotations,
    ActiveAt now r₁ → r₁.newKeyId = k.id → ActiveAt now r₂ → r₂.oldKeyId = k.id →
    ∀ s ∈ k.scopes, s ∈ db.scopesOf r₂.newKeyId → s ∈ db.scopesOf r₁.oldKeyId
  deriving Decidable

end

/-- What an uncached lookup returns is a stored key, with the scopes it is granted. -/
theorem lookupKey_granted {keyPrefix secret : String} {v : Verified}
    (h : db.lookupKey now keyPrefix secret organizationId = some v) :
    ∃ k ∈ db.keys, k.organizationId = organizationId ∧ v.apiKey = { k with scopes := granted db now k }
      ∧ (evaluateScopeIntersection db now k.id k.scopes organizationId).allowed := by
  obtain ⟨k, hfind, h⟩ := Option.bind_eq_some_iff.mp h
  obtain ⟨_, -, h⟩ := Option.bind_eq_some_iff.mp h
  obtain ⟨_, hallowed, h⟩ := Option.bind_eq_some_iff.mp h
  have hsel := find?_some hfind
  simp only [Bool.and_eq_true, decide_eq_true_eq] at hsel
  obtain rfl := hsel.1.1.1.2
  refine ⟨k, mem_of_find?_eq_some hfind, rfl, ?_, ?_⟩
  · rw [← Option.some.inj h]
    rfl
  · simpa [guard] using hallowed

theorem scopesOf_of_mem (hids : (db.keys.map (·.id)).Nodup) (hk : k ∈ db.keys) : db.scopesOf k.id = k.scopes := by
  unfold Store.scopesOf
  rw [find?_of_mem hids hk]
  rfl

theorem mem_evaluateOldKey {scopes : List ApiKeyScope} : s ∈ (evaluateOldKey db now scopes r).effectiveScopes ↔
      (r.status ≠ .cutover ∧ r.status ≠ .revoked ∧ now < r.overlapExpiresAt)
        ∧ s ∈ scopes ∧ s ∈ db.scopesOf r.newKeyId := by
  unfold evaluateOldKey
  by_cases hclosed : r.status = .cutover ∨ r.status = .revoked
  · rw [if_pos hclosed]
    tauto
  · rw [if_neg hclosed]
    by_cases hdue : r.overlapExpiresAt ≤ now
    · rw [if_pos hdue]
      simp only [not_mem_nil, false_iff]
      omega
    · rw [if_neg hdue]
      simp only [mem_calculateScopeIntersection]
      have hopen : r.status ≠ .cutover ∧ r.status ≠ .revoked ∧ now < r.overlapExpiresAt := by
        refine ⟨fun hs => hclosed (.inl hs), fun hs => hclosed (.inr hs), by omega⟩
      tauto

theorem granted_of_old (h : db.oldKeyRotation k.id k.organizationId = some r) :
    granted db now k = (evaluateOldKey db now k.scopes r).effectiveScopes := by
  unfold granted evaluateScopeIntersection
  rw [h]

theorem Chained.organization (h : Chained db clock) (hk : k ∈ db.keys)
    (hknown : Known db keyId organizationId) (hid : keyId = k.id) :
    organizationId = k.organizationId := by
  obtain ⟨k', hk', hid', rfl⟩ := hknown
  rw [eq_of_key h.keyIds hk' hk (hid'.trans hid)]

theorem newKeyRotation_mem (h : db.newKeyRotation keyId organizationId = some r) :
    r ∈ db.rotations ∧ r.newKeyId = keyId := by
  obtain ⟨hr, hsel⟩ := latest_mem h
  simp only [Bool.and_eq_true, decide_eq_true_eq] at hsel
  exact ⟨hr, hsel.1⟩

/-- A key is the replacement in one rotation at most, so that is the latest one. -/
theorem Chained.newKeyRotation_eq (h : Chained db clock) (hr : r ∈ db.rotations) :
    db.newKeyRotation r.newKeyId r.organizationId = some r := by
  cases hl : db.newKeyRotation r.newKeyId r.organizationId with
  | none => simpa using latest_eq_none.mp hl r hr
  | some =>
    obtain ⟨hr', hkey⟩ := newKeyRotation_mem hl
    rw [eq_of_key h.newKeyIds hr' hr hkey]

/-- As the old key of an active rotation, a key is granted that rotation's intersection. -/
theorem mem_granted_old (h : Chained db clock) (hk : k ∈ db.keys)
    (hr : r ∈ db.rotations) (hactive : ActiveAt now r) (hold : r.oldKeyId = k.id) :
    s ∈ granted db now k ↔ s ∈ k.scopes ∧ s ∈ db.scopesOf r.newKeyId := by
  have horg : r.organizationId = k.organizationId := h.organization hk (h.known r hr).1 hold
  have hlatest := h.latest r hr hactive.1
  rw [hold, horg] at hlatest
  rw [granted_of_old hlatest, mem_evaluateOldKey]
  have hopen : r.status ≠ .cutover ∧ r.status ≠ .revoked ∧ now < r.overlapExpiresAt := by
    rw [hactive.1]
    exact ⟨by decide, by decide, hactive.2⟩
  tauto

/-- As the replacement in an active rotation, and the old key of none, it is granted that one's. -/
theorem mem_granted_new (h : Chained db clock) (hk : k ∈ db.keys)
    (hnone : db.oldKeyRotation k.id k.organizationId = none) (hr : r ∈ db.rotations)
    (hactive : ActiveAt now r) (hnew : r.newKeyId = k.id) :
    s ∈ granted db now k ↔ s ∈ k.scopes ∧ s ∈ db.scopesOf r.oldKeyId := by
  have horg : r.organizationId = k.organizationId := h.organization hk (h.known r hr).2 hnew
  have hbefore : ¬ r.overlapExpiresAt ≤ now := by
    have := hactive.2
    omega
  unfold granted evaluateScopeIntersection
  rw [hnone, ← hnew, ← horg, h.newKeyRotation_eq hr]
  simp [evaluateNewKey, hactive.1, hbefore]

/-- A key is let in within every active rotation's intersection exactly when the rotations that
    meet in it are nested. -/
theorem overlap_contained_iff {quotas : Quotas} {organizations : List Organization} {clock now : Int} {w : World}
    (hrun : Reachable quotas organizations clock w) (hnow : w.clock ≤ now) {k : ApiKey} (hk : k ∈ w.db.keys) :
    Contained w.db now k ↔ Nested w.db now k := by
  have hi := (reachable_inv hrun).chained
  have hown := scopesOf_of_mem hi.keyIds hk
  constructor
  · intro hcontained r₁ hr₁ r₂ hr₂ hactive₁ hnew hactive₂ hold s hs hshared
    have hgranted := (mem_granted_old hi hk hr₂ hactive₂ hold).mpr ⟨hs, hshared⟩
    have hinter := hcontained r₁ hr₁ hactive₁ (.inr hnew) s hgranted
    exact (mem_calculateScopeIntersection.mp hinter).1
  · intro hnested r hr hactive hof s hs
    rw [mem_calculateScopeIntersection]
    rcases hof with hold | hnew
    · rw [hold, hown]
      exact (mem_granted_old hi hk hr hactive hold).mp hs
    · rw [hnew, hown]
      cases hlatest : w.db.oldKeyRotation k.id k.organizationId with
      | none => exact ((mem_granted_new hi hk hlatest hr hactive hnew).mp hs).symm
      | some r₂ =>
        rw [granted_of_old hlatest, mem_evaluateOldKey] at hs
        obtain ⟨⟨hcut, hrevoked, hbefore⟩, hscope, hshared⟩ := hs
        obtain ⟨hr₂, hsel⟩ := latest_mem hlatest
        simp only [Bool.and_eq_true, decide_eq_true_eq] at hsel
        -- neither closed nor past its deadline: the key's own rotation is active as well
        have hactive₂ : ActiveAt now r₂ := by
          refine ⟨?_, hbefore⟩
          cases hstatus : r₂.status with
          | inOverlap => rfl
          | cutover => exact absurd hstatus hcut
          | revoked => exact absurd hstatus hrevoked
          | expired =>
            have hdue := hi.expired r₂ hr₂ hstatus
            omega
        exact ⟨hnested r hr r₂ hr₂ hactive hnew hactive₂ hsel.1 s hscope hshared, hscope⟩

def organization : Organization := ⟨"org-1", none, none⟩

def DAY : Int := 24 * 60 * 60 * 1000

def fresh₁ : Fresh := ⟨"key-1", "", ⟨"AAAAAAAA00000000000000000000000000000000000", by decide +kernel⟩⟩

def fresh₂ : Fresh := ⟨"key-2", "rotation-1", ⟨"BBBBBBBB00000000000000000000000000000000000", by decide +kernel⟩⟩

def fresh₃ : Fresh := ⟨"key-3", "rotation-2", ⟨"CCCCCCCC00000000000000000000000000000000000", by decide +kernel⟩⟩

def longest (scopes : Option (List ApiKeyScope)) : RotateApiKeyDto :=
  ⟨some MAX_ROTATION_OVERLAP_MS, scopes, by simp [MIN_ROTATION_OVERLAP_MS, MAX_ROTATION_OVERLAP_MS]⟩

/-- A key with one scope; by the next rotation the retention sweep has taken the audit row. -/
def created : List Event := [.createKey "org-1" (some [.orgRead]) none fresh₁, .tick (2 * DAY), .sweepAudit]

def replaced : List Event :=
  created ++ [.rotateKey "key-1" "org-1" (longest (some [.orgRead, .orgAdmin])) fresh₂]

/-- The replacement, rotated in its overlap, is let in with the scope its predecessor never had. -/
theorem middle_key_widened : ∃ w, Reachable ⟨25⟩ [organization] 0 w ∧
      (∃ r ∈ w.db.rotations, ActiveAt w.clock r ∧ r.oldKeyId = "key-1" ∧ r.newKeyId = "key-2") ∧
      (∃ v ∈ w.db.lookupKey w.clock "BBBBBBBB" fresh₂.secret.text "org-1",
        v.apiKey.id = "key-2" ∧ v.apiKey.scopes = [.orgRead, .orgAdmin]) ∧
      calculateScopeIntersection (w.db.scopesOf "key-1") (w.db.scopesOf "key-2") = [.orgRead] :=
  Run.exists_of_replay
    (replaced ++ [.tick (4 * DAY), .sweepAudit, .rotateKey "key-2" "org-1" (longest none) fresh₃])

/-- One rotation alone keeps its replacement within the intersection. -/
theorem overlap_contained_iff_replaced : ∃ w, Reachable ⟨25⟩ [organization] 0 w ∧ ∃ k ∈ w.db.keys,
      (∃ r ∈ w.db.rotations, ActiveAt w.clock r ∧ r.newKeyId = k.id) ∧ Contained w.db w.clock k := by
  refine Run.exists_and (P := fun w => ∃ k ∈ w.db.keys, (∃ r ∈ w.db.rotations, ActiveAt w.clock r ∧ r.newKeyId = k.id) ∧
    Nested w.db w.clock k) replaced fun w hrun hw => ?_
  obtain ⟨k, hk, hrotation, hnested⟩ := hw
  exact ⟨k, hk, hrotation, (overlap_contained_iff hrun le_rfl hk).mpr hnested⟩

/-! ## Revoking the replacement -/

def statusOf (db : Store) (keyId : String) : Option ResourceStatus :=
  (db.keys.find? fun k => k.id = keyId).map (·.status)

/-- A step that neither revokes the key nor rotates it. -/
def Spares (quotas : Quotas) (keyId : String) (w : World) (e : Event) : Prop :=
  ∀ w', step quotas w e = some w' →
    statusOf w'.db keyId = statusOf w.db keyId
      ∧ (w'.db.rotations.map (·.oldKeyId)).count keyId = (w.db.rotations.map (·.oldKeyId)).count keyId

def Accepted (w : World) (k : ApiKey) (secret : String) : Prop :=
  ∃ v, w.db.lookupKey w.clock k.keyPrefix secret k.organizationId = some v
    ∧ v.apiKey.id = k.id ∧ v.apiKey.scopes = k.scopes

/-- The key is active and unexpired, in an organization that is not archived. -/
def Standing (w : World) (k : ApiKey) : Prop :=
  statusOf w.db k.id = some .active ∧ k.unexpired w.clock ∧ w.db.live k.organizationId

/-- From here on the key is let in as it was before its rotation wherever it stands, as long as it is
    neither revoked nor rotated. -/
def Restored (quotas : Quotas) (w : World) (k : ApiKey) (secret : String) : Prop :=
  ∀ w', Run (step quotas) (Spares quotas k.id) w w' → Standing w' k → Accepted w' k secret

theorem not_accepted_of_revoked
    (h : w.db.oldKeyRotation k.id k.organizationId = some r) (hstatus : r.status = .revoked) (secret : String) :
    ¬ Accepted w k secret := by
  rintro ⟨v, hv, hid, -⟩
  obtain ⟨k', -, -, heq, hallowed⟩ := lookupKey_granted hv
  have hsame : k'.id = k.id := by
    rw [heq] at hid
    exact hid
  unfold evaluateScopeIntersection at hallowed
  rw [hsame, h] at hallowed
  simp [evaluateOldKey, hstatus] at hallowed

structure Replaces (db : Store) (r : ApiKeyRotation) (keyId organizationId : String) : Prop where
  stored : r ∈ db.rotations
  inOverlap : r.status = .inOverlap
  newKeyId : r.newKeyId = keyId
  organizationId : r.organizationId = organizationId
  notOld : keyId ≠ r.oldKeyId

theorem Replaces.inFamily (h : Replaces db r keyId organizationId) : inFamily keyId organizationId r := by
  simp [ApiKeys.inFamily, h.inOverlap, h.newKeyId, h.organizationId]

/-- Revoking the replacement aborts its rotation, or leaves it where another rotation of the same key
    was found first. -/
theorem revokeKey_replacement {choice : String} {reason : Option String} (hids : (db.rotations.map (·.id)).Nodup)
    (hr : Replaces db r keyId organizationId) (hreason : reason ≠ some COMPROMISE)
    (h : revokeKey db now keyId organizationId reason choice = .ok db') :
    r.close .revoked ∈ db'.rotations ∨ r ∈ db'.rotations := by
  obtain ⟨⟨db₁, res⟩, hfamily, hrest⟩ := bind_eq_ok.mp h
  dsimp only at hrest
  have hrotations : db'.rotations = db₁.rotations := by
    split at hrest
    · rw [← pure_eq_ok.mp hrest]
    · obtain ⟨_, -, hrest⟩ := bind_eq_ok.mp hrest
      rw [← pure_eq_ok.mp hrest]
  rw [hrotations]
  unfold handleFamilyRevocation at hfamily
  split at hfamily
  · obtain ⟨rfl, -⟩ := Prod.mk.inj (pure_eq_ok.mp hfamily)
    exact .inr hr.stored
  · rename_i x hx
    rw [if_neg hreason] at hfamily
    split at hfamily
    · -- the found rotation has the key as its old key, so it is another one
      rename_i hold
      obtain ⟨db₂, haudit, hfamily⟩ := bind_eq_ok.mp hfamily
      obtain ⟨rfl, -⟩ := Prod.mk.inj (pure_eq_ok.mp hfamily)
      obtain rfl := writeAudit_eq_ok haudit
      have hother : r.id ≠ x.id := by
        intro hsame
        rw [eq_of_key hids hr.stored (pick_mem hx).1 hsame] at hr
        exact hr.notOld hold
      exact .inr (mem_update_of_not hr.stored (decide_eq_false hother))
    · obtain ⟨rfl, -⟩ := Prod.mk.inj (pure_eq_ok.mp hfamily)
      by_cases hsame : r.id = x.id
      · exact .inl (mem_update.mpr ⟨r, hr.stored, if_pos (decide_eq_true hsame)⟩)
      · exact .inr (mem_update_of_not hr.stored (decide_eq_false hsame))

def aborted (db : Store) (now : Int) (r : ApiKeyRotation) : Store :=
  { db with
    keys := Table.update (fun k => k.id = r.newKeyId) (ApiKey.revoke now) db.keys
    rotations := Table.update (fun x => x.id = r.id) (ApiKeyRotation.close .revoked) db.rotations }

/-- A revocation of the replacement that finds the rotation aborts it. -/
theorem revokeKey_aborts (now : Int)
    (hids : (db.rotations.map (·.id)).Nodup) (hr : Replaces db r keyId organizationId) :
    revokeKey db now keyId organizationId none r.id = .ok (aborted db now r) := by
  unfold revokeKey handleFamilyRevocation
  rw [pick_choice hids hr.stored hr.inFamily]
  simp only [reduceCtorEq, if_false, if_neg hr.notOld]
  rfl

theorem aborts_spares (hids : (w.db.rotations.map (·.id)).Nodup) (hr : Replaces w.db r keyId organizationId) :
    Spares quotas r.oldKeyId w (.revokeKey keyId organizationId none r.id) := by
  intro w' hw'
  obtain ⟨db, hok, rfl⟩ := commit_eq_some hw'
  rw [revokeKey_aborts w.clock hids hr] at hok
  cases hok
  unfold aborted
  constructor
  · unfold statusOf
    rw [find?_update (by intro k; rfl), Option.map_map]
    cases hf : w.db.keys.find? fun k => k.id = r.oldKeyId with
    | none => rfl
    | some k =>
      have hid : k.id = r.oldKeyId := by simpa using find?_some hf
      have hnot : ¬ k.id = r.newKeyId := fun hsame => hr.notOld (hr.newKeyId.symm.trans (hsame.symm.trans hid))
      simp [hnot]
  · rw [map_update ApiKeyRotation.oldKeyId (by intro r; rfl)]

def Made (db : Store) (rotationId oldKeyId newKeyId organizationId : String) : Prop :=
  ∃ r ∈ db.rotations, r.id = rotationId ∧ r.oldKeyId = oldKeyId ∧ r.newKeyId = newKeyId
    ∧ r.organizationId = organizationId

theorem Effect.made (h : Effect w w') (hmade : Made w.db rotationId oldKeyId newKeyId organizationId) :
    Made w'.db rotationId oldKeyId newKeyId organizationId := by
  obtain ⟨r, hr, rfl, rfl, rfl, rfl⟩ := hmade
  obtain ⟨r', hr', hrr⟩ := h.rotation hr
  exact ⟨r', hr', hrr.id, hrr.oldKeyId, hrr.newKeyId, hrr.organizationId⟩

/-- A rotation is made for its key, in the key's organization. -/
theorem rotateKey_made {dto : RotateApiKeyDto} (hi : Inv w) (hk : k ∈ w.db.keys)
    (h : step quotas w (.rotateKey k.id organizationId dto fresh) = some w') :
    organizationId = k.organizationId ∧ fresh.keyId ≠ k.id ∧
      Made w'.db fresh.rotationId k.id fresh.keyId organizationId := by
  obtain ⟨db, hok, rfl⟩ := commit_eq_some h
  obtain ⟨_, hexisting, hok⟩ := bind_eq_ok.mp hok
  obtain ⟨_, -, hok⟩ := bind_eq_ok.mp hok
  rw [find?_of_mem hi.chained.keyIds hk] at hexisting hok
  obtain ⟨_, horg, -⟩ := bind_eq_ok.mp hexisting
  have hrot := commitRotation_eq_ok hok
  refine ⟨(require_eq_ok.mp horg).symm, fun hsame => hrot.freshKey k hk hsame.symm,
    (rotationPlan k.id organizationId dto (some k) w.clock).rotation fresh w.clock, ?_, rfl, rfl, rfl, rfl⟩
  rw [hrot.after]
  exact mem_append_right _ mem_cons_self

/-- With its latest rotation aborted, or one revocation of the replacement away from it, a key is
    not restored. -/
theorem not_restored (keyId : String) (hi : Inv w) (hlatest : w.db.oldKeyRotation k.id k.organizationId = some r)
    (hr : r.status = .revoked ∨ Replaces w.db r keyId k.organizationId) (hstanding : Standing w k)
    (secret : String) : ¬ Restored quotas w k secret := by
  intro hrestored
  rcases hr with hrevoked | hr
  · exact not_accepted_of_revoked hlatest hrevoked secret (hrestored w .refl hstanding)
  · have hids := hi.chained.rotationIds
    have habort := revokeKey_aborts w.clock hids hr
    have hstep : step quotas w (.revokeKey keyId k.organizationId none r.id)
        = some { w with db := aborted w.db w.clock r } := by
      show w.commit _ = _
      rw [habort]
      rfl
    have hold : r.oldKeyId = k.id := by
      have hsel := (latest_mem hlatest).2
      simp only [Bool.and_eq_true, decide_eq_true_eq] at hsel
      exact hsel.1
    have hspares : Spares quotas k.id w (.revokeKey keyId k.organizationId none r.id) :=
      hold ▸ aborts_spares hids hr
    have hlatest' : (aborted w.db w.clock r).oldKeyRotation k.id k.organizationId = some (r.close .revoked) :=
      oldKeyRotation_of_revised (revokeKey_revises habort).rotations hids hlatest
        (mem_update.mpr ⟨r, hr.stored, if_pos (decide_eq_true rfl)⟩) rfl
    refine not_accepted_of_revoked (w := { w with db := aborted w.db w.clock r }) hlatest' rfl secret ?_
    exact hrestored _ (.snoc _ .refl hspares hstep) ⟨(hspares _ hstep).1.trans hstanding.1, hstanding.2⟩

/-- Whatever rotation is in its overlap, revoking its replacement alone does not restore the old key,
    though the key stands. -/
theorem replacement_revoked_never_restores {quotas : Quotas} {organizations : List Organization} {clock : Int}
    {w₀ w₁ w₂ w₃ : World} {k : ApiKey} {organizationId choice : String} {dto : RotateApiKeyDto} {fresh : Fresh}
    {reason : Option String} (hrun₀ : Reachable quotas organizations clock w₀) (hk : k ∈ w₀.db.keys)
    (hrotate : step quotas w₀ (.rotateKey k.id organizationId dto fresh) = some w₁)
    (hrun : Run (step quotas) anyStep w₁ w₂)
    (hoverlap : ∃ r ∈ w₂.db.rotations, r.id = fresh.rotationId ∧ ActiveAt w₂.clock r)
    (hrevoke : step quotas w₂ (.revokeKey fresh.keyId organizationId reason choice) = some w₃)
    (hreason : reason ≠ some COMPROMISE) (hstanding : Standing w₃ k) (secret : String) :
    ¬ Restored quotas w₃ k secret := by
  have hi₀ := reachable_inv hrun₀
  obtain ⟨rfl, hfresh, hmade⟩ := rotateKey_made hi₀ hk hrotate
  obtain ⟨hi₂, r, hr, hid, hold, hnew, horg⟩ := hrun.invariant
    (I := fun w => Inv w ∧ Made w.db _ _ _ _) ⟨step_inv hi₀ hrotate, hmade⟩
    fun _ _ _ ha _ hs => ⟨step_inv ha.1 hs, (step_effect (ha.1.chained.due ha.1.overdue) hs).made ha.2⟩
  obtain ⟨r', hr', hid', hactive⟩ := hoverlap
  obtain rfl := eq_of_key hi₂.chained.rotationIds hr hr' (hid.trans hid'.symm)
  have hreplaces : Replaces w₂.db r fresh.keyId k.organizationId :=
    ⟨hr, hactive.1, hnew, horg, fun hsame => hfresh (hsame.trans hold)⟩
  have hlatest := hi₂.chained.latest r hr hactive.1
  rw [hold, horg] at hlatest
  have hi₃ := step_inv hi₂ hrevoke
  obtain ⟨db, hok, rfl⟩ := commit_eq_some hrevoke
  have hrev := revokeKey_revises hok
  rcases revokeKey_replacement hi₂.chained.rotationIds hreplaces hreason hok with hclosed | hopen
  · have hlatest' := oldKeyRotation_of_revised hrev.rotations hi₂.chained.rotationIds hlatest hclosed rfl
    exact not_restored fresh.keyId hi₃ hlatest' (.inl rfl) hstanding secret
  · have hlatest' := oldKeyRotation_of_revised hrev.rotations hi₂.chained.rotationIds hlatest hopen rfl
    exact not_restored fresh.keyId hi₃ hlatest' (.inr { hreplaces with stored := hopen }) hstanding secret

theorem replacement_revoked_never_restores_aborted :
    ∃ w k, Reachable ⟨25⟩ [organization] 0 w ∧ k.id = "key-1" ∧ Standing w k ∧
      ¬ Restored ⟨25⟩ w k fresh₁.secret.text := by
  have hreplay : ∃ w₀ ∈ Run.replay (step ⟨25⟩) anyStep (start [organization] 0) created,
      ∃ k ∈ w₀.db.keys, k.id = "key-1" ∧
        ∃ w₁ ∈ step ⟨25⟩ w₀ (.rotateKey k.id "org-1" (longest (some [.orgRead, .orgAdmin])) fresh₂),
          (∃ r ∈ w₁.db.rotations, r.id = fresh₂.rotationId ∧ ActiveAt w₁.clock r) ∧
            ∃ w₂ ∈ step ⟨25⟩ w₁ (.revokeKey fresh₂.keyId "org-1" none ""), Standing w₂ k := by
    unfold Standing
    decide +kernel
  obtain ⟨w₀, hw₀, k, hk, hid, w₁, hw₁, hoverlap, w₂, hw₂, hstanding⟩ := hreplay
  have hrun : Reachable ⟨25⟩ [organization] 0 w₀ := Run.of_replay _ hw₀
  refine ⟨w₂, k, (hrun.snoc _ trivial hw₁).snoc _ trivial hw₂, hid, hstanding, ?_⟩
  exact replacement_revoked_never_restores hrun hk hw₁ .refl hoverlap hw₂ (by simp) hstanding _

/-- A key made without an expiry is rotated and its replacement revoked: active still, it is refused. -/
theorem aborted_rotation_refuses : ∃ w, Reachable ⟨25⟩ [organization] 0 w ∧
      (∃ k ∈ w.db.keys, k.id = "key-1" ∧ k.status = .active ∧ k.unexpired w.clock) ∧
      (∃ r ∈ w.db.rotations, r.oldKeyId = "key-1" ∧ r.status = .revoked ∧ w.clock < r.overlapExpiresAt) ∧
      w.db.lookupKey w.clock "AAAAAAAA" fresh₁.secret.text "org-1" = none :=
  Run.exists_of_replay (replaced ++ [.revokeKey "key-2" "org-1" none ""])

end EarnProof.ApiKeys.Overlap
