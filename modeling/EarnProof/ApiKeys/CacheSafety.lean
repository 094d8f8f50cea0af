/-
  EarnProof.ApiKeys.CacheSafety — the cache of verified keys is invisible in every quiet run:
  whatever is cached, a lookup lets in exactly the raw keys an uncached one would, with the same
  status and scopes (`cache_invisible`). The invariant relates every entry, and every key an
  authentication under way has read, to its row.

  Outside quiet runs it is not: a revocation takes the key's entry away before it writes, an
  authentication in between puts it back, and the revoked key goes on being let in
  (`revoked_key_let_in`).
-/
import EarnProof.ApiKeys.KeyCache
import EarnProof.ApiKeys.Overlap

namespace EarnProof.ApiKeys.KeyCache

open Lib Lib.Table Lib.Result Database List
open ApiKeys.Overlap (Chained Known newKeyRotation_mem scopesOf_of_mem)

/-! ## What is known of a key that was read -/

def NoOld (db : Store) (keyId : String) : Prop := ∀ r ∈ db.rotations, r.oldKeyId ≠ keyId

section

variable (db : Store) (clock : Int)

/-- The row is still the one that was read, or it has expired. -/
structure Current (a : ApiKey) : Prop where
  active : a.status = .active
  live : db.live a.organizationId
  stored : ∃ k ∈ db.keys, k.id = a.id ∧ k.organizationId = a.organizationId ∧ k.keyPrefix = a.keyPrefix
    ∧ k.expiresAt = a.expiresAt ∧ (k = a ∨ a.unexpired clock = false)

/-- No overlap narrows the key's scopes, now or later. -/
def Lifted (a : ApiKey) : Prop :=
  ∀ r ∈ db.rotations, r.newKeyId = a.id → r.status = .inOverlap →
    r.overlapExpiresAt ≤ clock ∨ ∀ s ∈ a.scopes, s ∈ db.scopesOf r.oldKeyId

structure EntryOk (e : Entry) : Prop where
  cacheKey : e.cacheKey = cacheKey e.apiKey.organizationId e.apiKey.keyPrefix
  expiresAt : e.expiresAt = e.apiKey.expiresAt
  prefixLength : e.apiKey.keyPrefix.toList.length = 8
  noOld : NoOld db e.apiKey.id
  current : Current db clock e.apiKey
  lifted : Lifted db clock e.apiKey

/-- What an authentication knows of the key it read. The old key of a rotation may have changed:
    it will not be cached. -/
structure Read (req : Request) (a : ApiKey) : Prop where
  organizationId : a.organizationId = req.organizationId
  keyPrefix : a.keyPrefix = req.keyPrefix
  known : Known db a.id a.organizationId
  current : NoOld db a.id → Current db clock a

def Expired (keyId : String) : Prop :=
  NoOld db keyId → ∃ k ∈ db.keys, k.id = keyId ∧ k.unexpired clock = false

def TaskOk : Task → Prop
  | .found req a => Read db clock req a
  | .evaluating req a now => Read db clock req a ∧ now ≤ clock
  | .notOld req a now => Read db clock req a ∧ NoOld db a.id ∧ now ≤ clock
  | .resolved req a => Read db clock req a ∧ NoOld db a.id ∧ Lifted db clock a
  | .sweeping _ keyIds | .swept _ _ keyIds => ∀ id ∈ keyIds, Expired db clock id
  | _ => True

end

structure Inv (w : World) : Prop where
  chained : Chained w.db w.clock
  overdue : ∀ id ∈ w.expiring, ∃ r ∈ w.db.rotations, r.id = id ∧ r.overlapExpiresAt ≤ w.clock
  prefixes : (w.db.keys.map fun k => (k.organizationId, k.keyPrefix)).Nodup
  organizations : (w.db.organizations.map (·.id)).Nodup
  entries : ∀ e ∈ w.cache, EntryOk w.db w.clock e
  tasks : ∀ x ∈ w.tasks, TaskOk w.db w.clock x

variable {a : ApiKey} {held : List ApiKey} {db db' : Store} {clock clock' : Int} {keyId : String} {e : Entry} {x : Task}
  {w : World} {k : ApiKey} {req : Request} {organizationId choice : String} {revoked : String → Prop}
  {cache : List Entry} {now : Int} {quotas : Quotas} {w' : World}

theorem unexpired_congr (h : k.expiresAt = a.expiresAt) (t : Int) : k.unexpired t = a.unexpired t := by
  unfold ApiKey.unexpired
  rw [h]

theorem expired_mono {t t' : Int} (h : k.unexpired t = false) (hle : t ≤ t') : k.unexpired t' = false := by
  unfold ApiKey.unexpired at h ⊢
  split at h
  · cases h
  · simp only [decide_eq_false_iff_not] at h ⊢
    omega

/-! ## What a write does to what is known -/

/-- A write that keeps what is known of the keys in `held`. -/
structure Moves (held : List ApiKey) (db : Store) (clock : Int) (db' : Store) (clock' : Int) : Prop where
  later : clock ≤ clock'
  chained : Chained db' clock'
  prefixes : (db'.keys.map fun k => (k.organizationId, k.keyPrefix)).Nodup
  organizations : (db'.organizations.map (·.id)).Nodup
  rotations : ∀ r ∈ db.rotations, ∃ r' ∈ db'.rotations,
    r'.id = r.id ∧ r'.overlapExpiresAt = r.overlapExpiresAt ∧ r'.oldKeyId = r.oldKeyId
  known : ∀ {keyId organizationId : String}, Known db keyId organizationId → Known db' keyId organizationId
  noOld : ∀ a ∈ held, NoOld db a.id → NoOld db' a.id
  current : ∀ a ∈ held, NoOld db a.id → Current db clock a → Current db' clock' a
  lifted : ∀ a ∈ held, Current db clock a → Lifted db clock a → Lifted db' clock' a
  expired : ∀ id, Expired db clock id → Expired db' clock' id

section Moved

variable (h : Moves held db clock db' clock')

include h

theorem Moves.noOld_before (hno : NoOld db' keyId) : NoOld db keyId := by
  intro r hr
  obtain ⟨r', hr', -, -, hold⟩ := h.rotations r hr
  exact hold ▸ hno r' hr'

theorem Moves.read (ha : a ∈ held) (hread : Read db clock req a) : Read db' clock' req a := by
  refine ⟨hread.organizationId, hread.keyPrefix, h.known hread.known, fun hno => ?_⟩
  have hbefore := h.noOld_before hno
  exact h.current a ha hbefore (hread.current hbefore)

theorem Moves.entry (he : e.apiKey ∈ held) (hok : EntryOk db clock e) : EntryOk db' clock' e where
  cacheKey := hok.cacheKey
  expiresAt := hok.expiresAt
  prefixLength := hok.prefixLength
  noOld := h.noOld _ he hok.noOld
  current := h.current _ he hok.noOld hok.current
  lifted := h.lifted _ he hok.current hok.lifted

theorem Moves.task (hx : ∀ a ∈ x.key?, a ∈ held) (hok : TaskOk db clock x) : TaskOk db' clock' x := by
  have hle := h.later
  cases x with
  | found req a => exact h.read (hx a rfl) hok
  | evaluating req a => exact ⟨h.read (hx a rfl) hok.1, hok.2.trans hle⟩
  | notOld req a =>
    obtain ⟨hread, hno, hnow⟩ := hok
    exact ⟨h.read (hx a rfl) hread, h.noOld a (hx a rfl) hno, hnow.trans hle⟩
  | resolved req a =>
    obtain ⟨hread, hno, hlifted⟩ := hok
    exact ⟨h.read (hx a rfl) hread, h.noOld a (hx a rfl) hno, h.lifted a (hx a rfl) (hread.current hno) hlifted⟩
  | sweeping | swept => exact fun id hid => h.expired id (hok id hid)
  | _ => trivial

end Moved

theorem Inv.moved (h : Inv w)
    (hmove : Moves w.held w.db w.clock db' clock') : Inv { w with db := db', clock := clock' } where
  chained := hmove.chained
  overdue := by
    intro id hid
    obtain ⟨r, hr, rfl, hdue⟩ := h.overdue id hid
    obtain ⟨r', hr', hid', hsame, -⟩ := hmove.rotations r hr
    exact ⟨r', hr', hid', hsame ▸ hdue.trans hmove.later⟩
  prefixes := hmove.prefixes
  organizations := hmove.organizations
  entries := by
    intro e he
    apply hmove.entry _ (h.entries e he)
    exact mem_append_left _ (mem_map_of_mem he)
  tasks := by
    intro x hx
    apply hmove.task _ (h.tasks x hx)
    intro a ha
    exact mem_append_right _ (mem_filterMap.mpr ⟨x, hx, ha⟩)

/-- A write keeps what is known where the keys stay but for those in `revoked`, of which none is held
    unless expired, and a new rotation replaces no key that is held by one nobody has read. -/
theorem Moves.of_rows (revoked : String → Prop) (hle : clock ≤ clock') (hchained : Chained db clock)
    (hchained' : Chained db' clock') (hprefixes : (db'.keys.map fun k => (k.organizationId, k.keyPrefix)).Nodup)
    (horgs : (db'.organizations.map (·.id)).Nodup)
    (hlive : ∀ a ∈ held, db.live a.organizationId → db'.live a.organizationId)
    (hkeys : ∀ k ∈ db.keys, ∃ k' ∈ db'.keys, k'.id = k.id ∧ k'.organizationId = k.organizationId ∧
      k'.scopes = k.scopes ∧
      (NoOld db' k.id → k'.keyPrefix = k.keyPrefix ∧ k'.expiresAt = k.expiresAt ∧ (k' = k ∨ revoked k.id)))
    (hspared : ∀ a ∈ held, NoOld db a.id → Current db clock a → revoked a.id → a.unexpired clock = false)
    (hrotations : ∀ r ∈ db.rotations, ∃ r' ∈ db'.rotations,
      r'.id = r.id ∧ r'.overlapExpiresAt = r.overlapExpiresAt ∧ r'.oldKeyId = r.oldKeyId)
    (hback : ∀ r' ∈ db'.rotations, (∃ r ∈ db.rotations, r'.oldKeyId = r.oldKeyId ∧ r'.newKeyId = r.newKeyId ∧
        r'.overlapExpiresAt = r.overlapExpiresAt ∧ (r'.status = .inOverlap → r.status = .inOverlap)) ∨
      (∀ a ∈ held, a.id ≠ r'.oldKeyId) ∧ ∀ k ∈ db.keys, k.id ≠ r'.newKeyId) : Moves held db clock db' clock' := by
  have hnoOld : ∀ a ∈ held, NoOld db a.id → NoOld db' a.id := by
    intro a ha hno r' hr'
    rcases hback r' hr' with ⟨r, hr, hold, -⟩ | ⟨hother, -⟩
    · exact hold ▸ hno r hr
    · exact (hother a ha).symm
  refine ⟨hle, hchained', hprefixes, horgs, hrotations, ?_, hnoOld, ?_, ?_, ?_⟩
  · rintro keyId organizationId ⟨k, hk, rfl, rfl⟩
    obtain ⟨k', hk', hid, horg, -⟩ := hkeys k hk
    exact ⟨k', hk', hid, horg⟩
  · intro a ha hno hcurrent
    obtain ⟨k, hk, hid, horg, hlead, hexpires, hsame⟩ := hcurrent.stored
    obtain ⟨k', hk', hid', horg', -, hrow⟩ := hkeys k hk
    obtain ⟨hlead', hexpires', hrow⟩ := hrow (hid ▸ hnoOld a ha hno)
    refine ⟨hcurrent.active, hlive a ha hcurrent.live, k', hk', hid'.trans hid, horg'.trans horg, hlead'.trans hlead,
      hexpires'.trans hexpires, ?_⟩
    rcases hrow with rfl | hrevoked
    · exact hsame.imp_right fun hexp => expired_mono hexp hle
    · exact .inr (expired_mono (hspared a ha hno hcurrent (hid ▸ hrevoked)) hle)
  · intro a _ hcurrent hlifted r' hr' hnew hin
    rcases hback r' hr' with ⟨r, hr, hold, hnew', hexpires, hwas⟩ | ⟨-, hfresh⟩
    · obtain ⟨k, hk, hid, -⟩ := (hchained.known r hr).1
      obtain ⟨k', hk', hid', -, hscopes, -⟩ := hkeys k hk
      have hsame : db'.scopesOf r.oldKeyId = db.scopesOf r.oldKeyId := by
        rw [← hid, scopesOf_of_mem hchained.keyIds hk, ← hid', scopesOf_of_mem hchained'.keyIds hk', hscopes]
      rw [hexpires, hold, hsame]
      exact (hlifted r hr (hnew' ▸ hnew) (hwas hin)).imp_left fun hdue => hdue.trans hle
    · obtain ⟨k, hk, hid, -⟩ := hcurrent.stored
      exact absurd (hid.trans hnew.symm) (hfresh k hk)
  · intro id hexpired hno
    have hbefore : NoOld db id := by
      intro r hr
      obtain ⟨r', hr', -, -, hold⟩ := hrotations r hr
      exact hold ▸ hno r' hr'
    obtain ⟨k, hk, rfl, hexp⟩ := hexpired hbefore
    obtain ⟨k', hk', hid, -, -, hrow⟩ := hkeys k hk
    exact ⟨k', hk', hid, expired_mono ((unexpired_congr (hrow hno).2.1 clock).trans hexp) hle⟩

section Writes

variable (hchained : Chained db clock) (hprefixes : (db.keys.map fun k => (k.organizationId, k.keyPrefix)).Nodup)

include hchained hprefixes

/-- A write that revokes keys and closes rotations: none of those held, unless expired. -/
theorem Moves.of_revises (hle : clock ≤ clock') (horgs : (db'.organizations.map (·.id)).Nodup)
    (hrev : Revises clock revoked db db') (hlive : ∀ a ∈ held, db.live a.organizationId → db'.live a.organizationId)
    (hspared : ∀ a ∈ held, NoOld db a.id → Current db clock a → revoked a.id → a.unexpired clock = false) :
    Moves held db clock db' clock' := by
  refine Moves.of_rows revoked hle hchained (hchained.revised hrev hle) ?_ horgs hlive ?_ hspared ?_ ?_
  · rw [map_of_forall₂ hrev.keys (fun k => (k.organizationId, k.keyPrefix))]
    · exact hprefixes
    · rintro k k' (rfl | ⟨-, t, rfl⟩) <;> rfl
  · intro k hk
    obtain ⟨k', hk', rfl | ⟨hrevoked, t, rfl⟩⟩ := exists_of_forall₂ hrev.keys hk
    · exact ⟨k', hk', rfl, rfl, rfl, fun _ => ⟨rfl, rfl, .inl rfl⟩⟩
    · exact ⟨_, hk', rfl, rfl, rfl, fun _ => ⟨rfl, rfl, .inr hrevoked⟩⟩
  · intro r hr
    obtain ⟨r', hr', hrr⟩ := exists_of_forall₂ hrev.rotations hr
    exact ⟨r', hr', hrr.id, hrr.overlapExpiresAt, hrr.oldKeyId⟩
  · intro r' hr'
    obtain ⟨r, hr, hrr⟩ := exists_of_forall₂_right hrev.rotations hr'
    exact .inl ⟨r, hr, hrr.oldKeyId, hrr.newKeyId, hrr.overlapExpiresAt, hrr.was_inOverlap⟩

variable (horgs : (db.organizations.map (·.id)).Nodup)

include horgs

/-- A new key leaves what is known of the others. -/
theorem Moves.of_created {row : ApiKey} (hnew : ∀ k ∈ db.keys, k.id ≠ row.id)
    (hlead : ∀ k ∈ db.keys, k.organizationId = row.organizationId → k.keyPrefix ≠ row.keyPrefix)
    (hafter : db' = { db with keys := db.keys ++ [row], auditDefaultRow := true }) :
    Moves held db clock db' clock := by
  subst hafter
  refine Moves.of_rows (fun _ => False) le_rfl hchained (hchained.created_key hnew rfl rfl le_rfl) ?_ horgs
    (fun _ _ hlive => hlive) ?_ (fun _ _ _ _ => False.elim) (fun r hr => ⟨r, hr, rfl, rfl, rfl⟩)
    fun r hr => .inl ⟨r, hr, rfl, rfl, rfl, id⟩
  · refine nodup_append_row hprefixes fun k hk hsame => ?_
    obtain ⟨horg, hpre⟩ := Prod.mk.inj hsame
    exact hlead k hk horg hpre
  · exact fun k hk => ⟨k, mem_append_left _ hk, rfl, rfl, rfl, fun _ => ⟨rfl, rfl, .inl rfl⟩⟩

/-- A rotation leaves what is known of every key but the rotated one. -/
theorem Moves.of_rotated {p : RotationPlan} {fresh : Fresh} (hrot : Rotated db clock p fresh db')
    (hunheld : ∀ a ∈ held, a.id ≠ p.keyId) (hlead : NewPrefix db p.organizationId fresh) :
    Moves held db clock db' clock := by
  have hchained' : Chained db' clock := hchained.rotated hrot le_rfl
  have hafter := hrot.after
  subst hafter
  refine Moves.of_rows (fun _ => False) le_rfl hchained hchained' ?_ horgs (fun _ _ hlive => hlive) ?_
    (fun _ _ _ _ => False.elim) (fun r hr => ⟨r, mem_append_left _ hr, rfl, rfl, rfl⟩) ?_
  · refine nodup_append_row ?_ ?_
    · exact nodup_update (fun k : ApiKey => (k.organizationId, k.keyPrefix)) (fun _ => rfl) hprefixes
    · have hother := fun k hk hsame => hlead k hk (Prod.mk.inj hsame).1 (Prod.mk.inj hsame).2
      exact forall_update hother fun k hk _ => hother k hk
  · intro k hk
    by_cases hsel : k.id = p.keyId
    · -- its own rotation makes it an old key
      refine ⟨p.oldRow k, mem_append_left _ (mem_update_of_sel hk (decide_eq_true hsel)), rfl, rfl, rfl, ?_⟩
      exact fun hno => absurd hsel.symm (hno _ (mem_append_right _ mem_cons_self))
    · exact ⟨k, mem_append_left _ (mem_update_of_not hk (decide_eq_false hsel)), rfl, rfl, rfl,
        fun _ => ⟨rfl, rfl, .inl rfl⟩⟩
  · intro r hr
    rcases mem_append.mp hr with hr | hr
    · exact .inl ⟨r, hr, rfl, rfl, rfl, id⟩
    · obtain rfl := mem_singleton.mp hr
      exact .inr ⟨hunheld, hrot.freshKey⟩

theorem Moves.of_tick (hle : clock ≤ clock') : Moves held db clock db clock' := by
  have hsame : Revises clock (fun _ => False) db db := .same rfl rfl
  exact Moves.of_revises hchained hprefixes hle horgs hsame (fun _ _ hlive => hlive) fun _ _ _ _ => False.elim

end Writes

/-! ## Every step keeps the invariant -/

/-- The calls and the cache aside, what a step leaves of them. -/
theorem Inv.erase (h : Inv w) (x : Task) : Inv { w with tasks := w.tasks.erase x } :=
  { h with tasks := fun y hy => h.tasks y (mem_of_mem_erase hy) }

theorem Inv.spawn (h : Inv w) (hx : TaskOk w.db w.clock x) : Inv (w.spawn x) :=
  { h with tasks := forall_append_row h.tasks hx }

theorem Inv.shrink (h : Inv w) (hsub : ∀ e ∈ cache, e ∈ w.cache) : Inv { w with cache } :=
  { h with entries := fun e he => h.entries e (hsub e he) }

theorem Inv.store (h : Inv w) (he : EntryOk w.db w.clock e) : Inv { w with cache := set w.cache e } := by
  refine { h with entries := forall_append_row ?_ he }
  exact fun e' hold => h.entries e' (mem_of_mem_filter hold)

theorem mem_invalidateKeyCache (h : e ∈ invalidateKeyCache cache keyId) : e ∈ cache := by
  unfold invalidateKeyCache at h
  split at h
  · cases h
  · exact mem_of_mem_filter h

theorem mem_invalidateAll {keyIds : List String} (h : e ∈ keyIds.foldl invalidateKeyCache cache) : e ∈ cache := by
  induction keyIds generalizing cache with
  | nil => exact h
  | cons keyId keyIds ih => exact mem_invalidateKeyCache (ih h)

/-- A write to keys and rotations, with the organizations as they were. -/
theorem Inv.revised (h : Inv w)
    (hrev : Revises w.clock revoked w.db db') (horgs : db'.organizations = w.db.organizations)
    (hspared : ∀ a ∈ w.held, NoOld w.db a.id → Current w.db w.clock a → revoked a.id → a.unexpired w.clock = false) :
    Inv { w with db := db' } := by
  have hlive : ∀ a ∈ w.held, w.db.live a.organizationId → db'.live a.organizationId := by
    intro a _ hlive
    unfold Store.live at hlive ⊢
    rw [horgs]
    exact hlive
  exact h.moved (Moves.of_revises h.chained h.prefixes le_rfl (horgs ▸ h.organizations) hrev hlive hspared)

theorem findKey_read {dbNow : Int}
    (h : db.findKey dbNow req.keyPrefix req.organizationId = some k) : Read db clock req k := by
  have hmem := mem_of_find?_eq_some h
  have hsel := find?_some h
  simp only [Bool.and_eq_true, decide_eq_true_eq] at hsel
  obtain ⟨⟨⟨⟨hlead, horg⟩, hactive⟩, -⟩, hlive⟩ := hsel
  exact ⟨horg, hlead, ⟨k, hmem, rfl, rfl⟩, fun _ => ⟨hactive, hlive, k, hmem, rfl, rfl, rfl, rfl, .inl rfl⟩⟩

/-- A key's rotations are of its organization, so the query by organization misses none. -/
theorem noOld_of_none (hchained : Chained db clock)
    (hknown : Known db a.id a.organizationId) (hnone : db.oldKeyRotation a.id a.organizationId = none) :
    NoOld db a.id := by
  intro r hr hold
  obtain ⟨k, hk, hid, horg⟩ := hknown
  have hsame : r.organizationId = k.organizationId :=
    hchained.organization hk (hchained.known r hr).1 (hold.trans hid.symm)
  have hsel := latest_eq_none.mp hnone r hr
  simp [hold, hsame, horg] at hsel

/-- An evaluation that leaves a key its own scopes finds no overlap that narrows them. -/
theorem lifted_of_evaluateNewKey (hchained : Chained db clock) (hnow : now ≤ clock)
    (hknown : Known db a.id a.organizationId)
    (hfull : (evaluateNewKey db now a.scopes (db.newKeyRotation a.id a.organizationId)).effectiveScopes = a.scopes) :
    Lifted db clock a := by
  intro r hr hnew hin
  obtain ⟨k, hk, hid, horg⟩ := hknown
  have hsame : r.organizationId = k.organizationId :=
    hchained.organization hk (hchained.known r hr).2 (hnew.trans hid.symm)
  rw [← hnew, ← horg, ← hsame, hchained.newKeyRotation_eq hr] at hfull
  by_cases hdue : r.overlapExpiresAt ≤ now
  · exact .inl (hdue.trans hnow)
  · right
    intro s hs
    simp only [evaluateNewKey, hin, if_true, if_neg hdue] at hfull
    rw [← hfull] at hs
    exact (mem_calculateScopeIntersection.mp hs).2

theorem prefixOf_length (secret : RawKey) : (prefixOf secret.text).toList.length = 8 := by
  have hlength := secret.wellFormed
  simp only [isRawKey, Bool.and_eq_true, decide_eq_true_eq] at hlength
  simp [prefixOf, hlength.1]

/-- The next statement of a call keeps the invariant. -/
theorem next_inv (h : Inv w) (hx : TaskOk w.db w.clock x)
    (hquiet : x.Quiet w choice) : Inv (w.next quotas choice x) := by
  cases x with
  | timed =>
    rw [World.next]
    split
    · split
      · exact h.shrink fun e he => mem_of_mem_filter he
      · exact h
    · exact h.spawn trivial
  | missed req dbNow =>
    rw [World.next]
    split
    · rename_i k hk
      split
      · exact h.spawn (findKey_read hk)
      · exact h
    · exact h
  | found => exact h.spawn ⟨hx, le_rfl⟩
  | evaluating req a now =>
    obtain ⟨hread, hnow⟩ := hx
    rw [World.next]
    split
    · rename_i r hr
      split
      · rename_i hdue
        exact { h with overdue := forall_append_row h.overdue ⟨r, (latest_mem hr).1, rfl, hdue.2.trans hnow⟩ }
      · exact h
    · rename_i hnone
      rw [← hread.organizationId] at hnone
      exact h.spawn ⟨hread, noOld_of_none h.chained hread.known hnone, hnow⟩
  | notOld req a now =>
    obtain ⟨hread, hno, hnow⟩ := hx
    have hfull : (evaluateNewKey w.db now a.scopes (w.db.newKeyRotation a.id req.organizationId)).effectiveScopes
        = a.scopes := hquiet
    have hsame : w.next quotas choice (.notOld req a now) = w.spawn (.resolved req a) := by
      rw [World.next]
      simp only [hfull]
    rw [hsame]
    rw [← hread.organizationId] at hfull
    exact h.spawn ⟨hread, hno, lifted_of_evaluateNewKey h.chained hnow hread.known hfull⟩
  | resolved req a =>
    obtain ⟨hread, hno, hlifted⟩ := hx
    refine h.store ⟨?_, rfl, ?_, hno, hread.current hno, hlifted⟩
    · show req.cacheKey = cacheKey a.organizationId a.keyPrefix
      rw [hread.organizationId, hread.keyPrefix]
      rfl
    · show a.keyPrefix.toList.length = 8
      rw [hread.keyPrefix]
      exact prefixOf_length req.secret
  | rotating | checked =>
    rw [World.next]
    split
    · exact h.spawn trivial
    · exact h
  | planned plan fresh =>
    rw [World.next]
    unfold World.commit
    split
    · rename_i db hok
      have hrot := commitRotation_eq_ok hok
      have hmoved : Inv { w with db } :=
        h.moved (Moves.of_rotated h.chained h.prefixes h.organizations hrot hquiet.1 hquiet.2)
      exact hmoved.spawn trivial
    · exact h
  | rotated => exact h.shrink fun e he => mem_invalidateKeyCache (mem_invalidateKeyCache he)
  | revoking keyId organizationId reason =>
    rw [World.next]
    rw [Task.Quiet] at hquiet
    split
    · rename_i db res hok
      rw [hok] at hquiet
      obtain ⟨horgs, ⟨hwas, -⟩ | ⟨hwas, hrev⟩⟩ := handleFamilyRevocation_revises hok
      · rw [if_neg (by simp [hwas])]
        exact h.spawn trivial
      · rw [if_pos hwas]
        have hrevised : Inv { w with db } :=
          h.revised hrev horgs fun a ha _ _ hid => absurd rfl (hquiet hwas a.id hid a ha)
        exact hrevised.spawn trivial
    · exact h
  | single keyId organizationId =>
    rw [World.next]
    unfold World.commit
    split
    · rename_i db hok
      obtain ⟨horgs, hrev⟩ := revokeSingle_revises hok
      exact h.revised hrev horgs fun a ha _ _ hid => absurd hid (hquiet a ha)
    · exact h
  | revoked => exact h.shrink fun e he => mem_invalidateAll he
  | cuttingOver keyId organizationId =>
    rw [World.next]
    unfold World.commit
    split
    · rename_i db hok
      obtain ⟨horgs, r, hr, hrev⟩ := earlyCutover_revises hok
      exact h.revised hrev horgs fun a _ hno _ hid => absurd hid.symm (hno r hr)
    · exact h
  | sweeping dbNow keyIds =>
    cases keyIds with
    | nil => exact h
    | cons keyId keyIds =>
      rw [World.next]
      have hrest : ∀ id ∈ keyIds, Expired w.db w.clock id := fun id hid => hx id (mem_cons_of_mem _ hid)
      split
      · have hexpired : ∀ a ∈ w.held, NoOld w.db a.id → Current w.db w.clock a → a.id = keyId →
            a.unexpired w.clock = false := by
          intro a _ hno hcurrent hid
          obtain ⟨k, hk, hkid, hexp⟩ := hx keyId mem_cons_self (hid ▸ hno)
          obtain ⟨k', hk', hkid', -, -, hexpires, -⟩ := hcurrent.stored
          obtain rfl := eq_of_key h.chained.keyIds hk hk' (hkid.trans (hid.symm.trans hkid'.symm))
          exact unexpired_congr hexpires w.clock ▸ hexp
        have hmove : Moves w.held w.db w.clock (sweepKey w.db dbNow keyId) w.clock :=
          Moves.of_revises h.chained h.prefixes le_rfl h.organizations (sweepKey_revises w.db w.clock dbNow keyId)
            (fun _ _ hlive => hlive) hexpired
        exact (h.moved hmove).spawn fun id hid => hmove.expired id (hrest id hid)
      · exact h.spawn hrest
  | swept => exact (h.shrink fun e he => mem_invalidateKeyCache he).spawn hx

theorem Task.Quiet.of_held (h : x.Quiet w choice) (hdb : w'.db = w.db)
    (hclock : w'.clock = w.clock) (hheld : ∀ k ∈ w'.held, k ∈ w.held) : x.Quiet w' choice := by
  have hunheld : ∀ {keyId : String}, Unheld w keyId → Unheld w' keyId := fun hu k hk => hu k (hheld k hk)
  cases x with
  | notOld =>
    rw [Task.Quiet] at h ⊢
    rw [hdb]
    exact h
  | planned =>
    refine ⟨hunheld h.1, ?_⟩
    rw [hdb]
    exact h.2
  | revoking keyId organizationId reason =>
    rw [Task.Quiet] at h ⊢
    rw [hdb, hclock]
    split
    · rename_i res hok
      rw [hok] at h
      exact fun hwas id hid => hunheld (h hwas id hid)
    · trivial
  | single => exact hunheld h
  | _ => trivial

theorem write_eq_some {result : Except String Store} (h : w.write result = some w') :
    ∃ db, result = .ok db ∧ w' = { w with db } := by
  unfold World.write at h
  split at h
  · exact ⟨_, rfl, (Option.some.inj h).symm⟩
  · cases h

theorem Inv.reorganized (h : Inv w) (hkeys : db'.keys = w.db.keys)
    (hrotations : db'.rotations = w.db.rotations) (horgs : (db'.organizations.map (·.id)).Nodup)
    (hlive : ∀ a ∈ w.held, w.db.live a.organizationId → db'.live a.organizationId) :
    Inv { w with db := db' } := by
  have hrev : Revises w.clock (fun _ => False) w.db db' := .same hkeys hrotations
  exact h.moved (Moves.of_revises h.chained h.prefixes le_rfl horgs hrev hlive fun _ _ _ _ hfalse => hfalse.elim)

theorem live_iff :
    db.live organizationId ↔ ∃ o ∈ db.organizations, o.id = organizationId ∧ o.archivedAt = none := by
  simp [Store.live]

theorem step_inv {e : Event} (h : Inv w) (hquiet : Quiet w e) (hs : step quotas w e = some w') : Inv w' := by
  cases e with
  | tick =>
    obtain ⟨hle, rfl⟩ := enabled hs
    exact h.moved (Moves.of_tick h.chained h.prefixes h.organizations hle)
  | authenticate =>
    cases hs
    exact h.spawn trivial
  | createKey =>
    obtain ⟨db, hok, rfl⟩ := write_eq_some hs
    obtain ⟨hnew, row, hid, horg, hlead, hafter⟩ := createKey_eq_ok hok
    refine h.moved (Moves.of_created h.chained h.prefixes h.organizations ?_ ?_ hafter)
    · exact fun k hk => hid ▸ hnew k hk
    · intro k hk hsame
      rw [hlead]
      exact hquiet k hk (hsame.trans horg)
  | sweep =>
    cases hs
    refine h.spawn ?_
    intro id hid _
    obtain ⟨k, hk, rfl⟩ := mem_map.mp hid
    obtain ⟨hk, hsel⟩ := mem_filter.mp hk
    simp only [Bool.and_eq_true, Bool.not_eq_true'] at hsel
    exact ⟨k, hk, rfl, hsel.2⟩
  | proceed x =>
    obtain ⟨hx, rfl⟩ := enabled hs
    refine next_inv (h.erase x) (h.tasks x hx) (Task.Quiet.of_held hquiet rfl rfl ?_)
    intro k hk
    rcases mem_append.mp hk with hk | hk
    · exact mem_append_left _ hk
    · obtain ⟨y, hy, hkey⟩ := mem_filterMap.mp hk
      exact mem_append_right _ (mem_filterMap.mpr ⟨y, mem_of_mem_erase hy, hkey⟩)
  | drop x =>
    obtain ⟨-, rfl⟩ := enabled hs
    exact h.erase x
  | expireRotation rotationId =>
    obtain ⟨hmem, rfl⟩ := enabled hs
    have hrev : Revises w.clock (fun _ => False) w.db (expireRotation w.db rotationId) :=
      expireRotation_revises (h.chained.due h.overdue rotationId hmem)
    have hrevised : Inv { w with db := expireRotation w.db rotationId } :=
      h.revised hrev rfl fun _ _ _ _ hfalse => hfalse.elim
    exact { hrevised with overdue := fun id hid => hrevised.overdue id (mem_of_mem_erase hid) }
  | archive organizationId =>
    obtain ⟨db, hok, rfl⟩ := write_eq_some hs
    obtain ⟨-, -, hok⟩ := bind_eq_ok.mp hok
    obtain rfl := writeAudit_eq_ok hok
    refine h.reorganized rfl rfl (nodup_update Organization.id (fun _ => rfl) h.organizations) ?_
    intro a ha hlive
    obtain ⟨o, ho, hsame, hnone⟩ := live_iff.mp hlive
    refine live_iff.mpr ⟨o, mem_update_of_not ho ?_, hsame, hnone⟩
    have hother : o.id ≠ organizationId := hsame ▸ hquiet a ha
    simp [hother]
  | restore =>
    obtain ⟨db, hok, rfl⟩ := write_eq_some hs
    obtain ⟨-, -, hok⟩ := bind_eq_ok.mp hok
    obtain rfl := writeAudit_eq_ok hok
    refine h.reorganized rfl rfl (nodup_update Organization.id (fun _ => rfl) h.organizations) ?_
    intro a ha hlive
    obtain ⟨o, ho, hsame, hnone⟩ := live_iff.mp hlive
    exact live_iff.mpr ⟨o, mem_update_of_not ho (by simp [hnone]), hsame, hnone⟩
  | deleteOrganization organizationId =>
    obtain ⟨db, hok, rfl⟩ := write_eq_some hs
    obtain ⟨⟨o, ho, hoid, harchived⟩, horgs, hrev⟩ := deleteOrganization_revises hok
    have hnodup : (db.organizations.map (·.id)).Nodup := by
      rw [horgs]
      exact nodup_update Organization.id (fun _ => rfl) h.organizations
    refine h.moved (Moves.of_revises h.chained h.prefixes le_rfl hnodup hrev ?_ ?_)
    · intro a _ hlive
      obtain ⟨o', ho', hsame, hnone⟩ := live_iff.mp hlive
      rw [live_iff, horgs]
      by_cases hsel : o'.id = organizationId
      · exact ⟨{ o' with deletedAt := some w.clock },
          mem_update.mpr ⟨o', ho', if_pos (decide_eq_true hsel)⟩, hsame, hnone⟩
      · exact ⟨o', mem_update_of_not ho' (decide_eq_false hsel), hsame, hnone⟩
    · -- the keys it revokes are of an archived organization, and no such key is held
      rintro a _ _ hcurrent ⟨k, hk, hkid, hkorg⟩
      obtain ⟨k', hk', hkid', hkorg', -⟩ := hcurrent.stored
      obtain rfl := eq_of_key h.chained.keyIds hk hk' (hkid.trans hkid'.symm)
      obtain ⟨o', ho', hsame, hnone⟩ := live_iff.mp hcurrent.live
      obtain rfl := eq_of_key h.organizations ho ho' (hoid.trans (hkorg.symm.trans (hkorg'.trans hsame.symm)))
      exact absurd hnone harchived
  | sweepAudit =>
    cases hs
    exact h.reorganized rfl rfl h.organizations fun _ _ hlive => hlive
  | _ =>
    cases hs
    exact (h.shrink fun e he => mem_invalidateKeyCache he).spawn trivial

theorem start_inv {organizations : List Organization} (h : (organizations.map (·.id)).Nodup) (clock : Int) :
    Inv (start organizations clock) := by
  refine ⟨(Overlap.start_inv organizations clock).chained, ?_, nodup_nil, h, ?_, ?_⟩ <;> intro x hx <;> cases hx

/-! ## The cache is invisible -/

/-- Prefixes of one length keep the keys of the map apart. -/
theorem cacheKey_inj {o o' p p' : String} (h : cacheKey o p = cacheKey o' p')
    (hlength : p.toList.length = p'.toList.length) : o = o' ∧ p = p' := by
  have hlist : (o.toList ++ [':']) ++ p.toList = (o'.toList ++ [':']) ++ p'.toList := by
    have := congrArg String.toList h
    simpa [cacheKey, String.toList_append] using this
  obtain ⟨horg, hlead⟩ := append_inj' hlist hlength
  exact ⟨String.toList_inj.mp (append_cancel_right horg), String.toList_inj.mp hlead⟩

/-- The evaluation of a key that nothing narrows gives it its own scopes. -/
theorem evaluate_of_lifted (hno : NoOld db a.id) (hlifted : Lifted db now a) :
    (evaluateScopeIntersection db now a.id a.scopes a.organizationId).allowed
      ∧ (evaluateScopeIntersection db now a.id a.scopes a.organizationId).effectiveScopes = a.scopes := by
  have hold : db.oldKeyRotation a.id a.organizationId = none := by
    refine latest_eq_none.mpr fun r hr => ?_
    simp [hno r hr]
  unfold evaluateScopeIntersection
  rw [hold]
  cases hnew : db.newKeyRotation a.id a.organizationId with
  | none => exact ⟨rfl, rfl⟩
  | some r =>
    obtain ⟨hr, hkey⟩ := newKeyRotation_mem hnew
    unfold evaluateNewKey
    dsimp only
    split
    · rename_i hin
      split
      · exact ⟨rfl, rfl⟩
      · rename_i hbefore
        refine ⟨rfl, filter_eq_self.mpr fun s hs => ?_⟩
        have hshared := (hlifted r hr hkey hin).resolve_left hbefore s hs
        simpa using hshared
    · exact ⟨rfl, rfl⟩

/-- The row that the prefix and the organization lead to is the entry's. -/
theorem findKey_of_entry (h : Inv w) (hok : EntryOk w.db w.clock e) :
    w.db.findKey w.clock e.apiKey.keyPrefix e.apiKey.organizationId
      = if e.apiKey.unexpired w.clock then some e.apiKey else none := by
  obtain ⟨k, hk, hid, horg, hlead, hexpires, hsame⟩ := hok.current.stored
  have hunique : ∀ k' ∈ w.db.keys, k'.keyPrefix = e.apiKey.keyPrefix → k'.organizationId = e.apiKey.organizationId →
      k' = k := by
    intro k' hk' hp ho
    exact eq_of_key h.prefixes hk' hk (Prod.ext (ho.trans horg.symm) (hp.trans hlead.symm))
  cases hf : w.db.findKey w.clock e.apiKey.keyPrefix e.apiKey.organizationId with
  | none =>
    split
    · rename_i hunexpired
      rcases hsame with rfl | hexpired
      · have hnot := find?_eq_none.mp hf e.apiKey hk
        simp [hok.current.active, hok.current.live, hunexpired] at hnot
      · exact absurd (hexpired.symm.trans hunexpired) (by decide)
    · rfl
  | some k' =>
    have hsel := find?_some hf
    simp only [Bool.and_eq_true, decide_eq_true_eq] at hsel
    obtain ⟨⟨⟨⟨hp, ho⟩, -⟩, hunexpired⟩, -⟩ := hsel
    obtain rfl := hunique k' (mem_of_find?_eq_some hf) hp ho
    rw [unexpired_congr hexpires] at hunexpired
    rw [if_pos hunexpired]
    rcases hsame with rfl | hexpired
    · rfl
    · exact absurd (hexpired.symm.trans hunexpired) (by decide)

/-- An entry answers as the database would. -/
theorem entry_answer (h : Inv w) (hok : EntryOk w.db w.clock e) (secret : String) : e.answer w.clock secret
      = (w.db.lookupKey w.clock e.apiKey.keyPrefix secret e.apiKey.organizationId).map (·.apiKey) := by
  have hdropped : e.dropped w.clock = !e.apiKey.unexpired w.clock := by
    unfold Entry.dropped Entry.expired ApiKey.unexpired
    rw [hok.expiresAt, hok.current.active]
    cases e.apiKey.expiresAt with
    | none => rfl
    | some t =>
      by_cases hbefore : w.clock < t
      · simp [hbefore]
      · have hdue : t ≤ w.clock := by omega
        simp [hbefore, hdue]
  obtain ⟨hallowed, hscopes⟩ := evaluate_of_lifted hok.noOld hok.lifted
  unfold Entry.answer Store.lookupKey
  rw [findKey_of_entry h hok, hdropped]
  cases e.apiKey.unexpired w.clock with
  | false => rfl
  | true =>
    cases hverify : verifySecret secret e.apiKey.keyHash with
    | false => simp [hverify]
    | true => simp [hverify, hallowed, hscopes]

/-- In every quiet run, whatever is cached, a lookup with a raw key answers as if nothing were. -/
theorem cache_invisible {quotas : Quotas} {organizations : List Organization} {clock : Int} {w : World}
    (horganizations : (organizations.map (·.id)).Nodup) (hrun : Run (step quotas) Quiet (start organizations clock) w)
    (secret : RawKey) (organizationId : String) :
    lookupAndVerifyKey w.cache w.db w.clock (prefixOf secret.text) secret.text organizationId
      = lookupAndVerifyKey [] w.db w.clock (prefixOf secret.text) secret.text organizationId := by
  have hi : Inv w := hrun.invariant (start_inv horganizations clock) fun _ _ _ => step_inv
  unfold lookupAndVerifyKey
  cases hget : get w.cache (cacheKey organizationId (prefixOf secret.text)) with
  | none => rfl
  | some e =>
    have hok := hi.entries e (mem_of_find?_eq_some hget)
    have hkey : e.cacheKey = cacheKey organizationId (prefixOf secret.text) := by simpa using find?_some hget
    obtain ⟨horg, hlead⟩ := cacheKey_inj (hok.cacheKey.symm.trans hkey)
      (hok.prefixLength.trans (prefixOf_length secret).symm)
    have hanswer := entry_answer hi hok secret.text
    rw [horg, hlead] at hanswer
    exact hanswer

def request : Request := ⟨Overlap.fresh₁.secret, "org-1"⟩

def key : ApiKey :=
  { id := "key-1", organizationId := "org-1", keyPrefix := "AAAAAAAA",
    keyHash := hashSecret Overlap.fresh₁.secret.text, scopes := [.orgRead], status := .active, rotatedAt := none,
    revokedAt := none, expiresAt := none, rotationFamilyId := none, overlapExpiresAt := none }

def create : Event := .createKey "org-1" (some [.orgRead]) none Overlap.fresh₁

/-- An authentication from its beginning to its entry in the cache. -/
def authentication : List Event :=
  [.authenticate request, .proceed (.timed request 0) "", .proceed (.missed request 0) "",
    .proceed (.found request key) "", .proceed (.evaluating request key 0) "", .proceed (.notOld request key 0) "",
    .proceed (.resolved request key) ""]

def revocation : List Event :=
  [.proceed (.revoking "key-1" "org-1" none) "", .proceed (.single "key-1" "org-1") ""]

/-- A key that is cached is revoked: its entry goes before the row is written. -/
theorem cache_invisible_revoked : ∃ w w', Run (step ⟨25⟩) Quiet (start [Overlap.organization] 0) w ∧ w.cache ≠ [] ∧
      Run (step ⟨25⟩) Quiet w w' ∧ (∃ k ∈ w'.db.keys, k.id = "key-1" ∧ k.status = .revoked) ∧
      lookupAndVerifyKey w'.cache w'.db w'.clock (prefixOf request.secret.text) request.secret.text "org-1"
        = lookupAndVerifyKey [] w'.db w'.clock (prefixOf request.secret.text) request.secret.text "org-1" := by
  obtain ⟨w, w', hrun, hlater, hcached, hrevoked⟩ : ∃ w w', Run (step ⟨25⟩) Quiet (start [Overlap.organization] 0) w ∧
      Run (step ⟨25⟩) Quiet w w' ∧ w.cache ≠ [] ∧ ∃ k ∈ w'.db.keys, k.id = "key-1" ∧ k.status = .revoked :=
    Run.exists_both_of_replay (create :: authentication) (.revokeKey "key-1" "org-1" none :: revocation)
  exact ⟨w, w', hrun, hcached, hlater, hrevoked, cache_invisible (by decide) (hrun.trans hlater) request.secret "org-1"⟩

/-- A revocation has taken the entry away, an authentication puts it back, and the revocation is
    written: the cache still lets the key in as active, the database refuses it. -/
theorem revoked_key_let_in : ∃ w, Run (step ⟨25⟩) anyStep (start [Overlap.organization] 0) w ∧ w.tasks = [] ∧
      (∃ k ∈ w.db.keys, k.id = "key-1" ∧ k.status = .revoked) ∧
      (∃ k ∈ lookupAndVerifyKey w.cache w.db w.clock (prefixOf request.secret.text) request.secret.text "org-1",
        k.id = "key-1" ∧ k.status = .active) ∧
      lookupAndVerifyKey [] w.db w.clock (prefixOf request.secret.text) request.secret.text "org-1" = none :=
  Run.exists_of_replay (create :: .revokeKey "key-1" "org-1" none :: authentication ++ revocation)

end EarnProof.ApiKeys.KeyCache
