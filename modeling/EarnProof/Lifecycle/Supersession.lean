/-
  EarnProof.Lifecycle.Supersession — the supersedes relation over every interleaving of
  renewals with each other and with every other writer of stored proofs.

  The checks of `renewProof` run on rows read before its transaction, so they say
  nothing about the rows the transaction finds, except in columns no writer changes.
  What keeps the relation a set of disjoint chains is in the transaction: the
  predecessor is claimed only while nothing supersedes it, and the successor is new or
  attached only while it is linked to nothing. Such a link goes into a node with no
  link in or out (`chains_link`), which forks no chain and closes none.

  Proved: `supersession_chains`, in every state of every run.
-/
import EarnProof.Lib.Chains
import EarnProof.Lifecycle.StoreSteps

namespace EarnProof.Lifecycle

open Lib Lib.Table Lib.Calendar Lib.Chains Database Proofs List

/-! ## The relation -/

def Supersedes (ps : List Proof) (a b : String) : Prop := ∃ q ∈ ps, q.id = b ∧ q.supersedesId = some a

/-- Disjoint acyclic chains of compatible proofs, marked exactly where they go on. -/
structure Chains (ps : List Proof) : Prop where
  ids : UniqueIds ps
  oneSuccessor : ∀ a b b', Supersedes ps a b → Supersedes ps a b' → b = b'
  onePredecessor : ∀ a a' b, Supersedes ps a b → Supersedes ps a' b → a = a'
  acyclic : Acyclic (Supersedes ps)
  marked : ∀ p ∈ ps, p.supersededAt ≠ none ↔ ∃ q ∈ ps, q.supersedesId = some p.id
  linked : ∀ q ∈ ps, ∀ i, q.supersedesId = some i → ∃ p ∈ ps, p.id = i ∧ Compatible p q

variable {ps : List Proof} {p : Proof} {E : Env} {w : World}

theorem onePredecessor_of_ids (h : UniqueIds ps) (a a' b : String) (ha : Supersedes ps a b)
    (ha' : Supersedes ps a' b) : a = a' := by
  obtain ⟨q, hq, hqb, hqa⟩ := ha
  obtain ⟨q', hq', hqb', hqa'⟩ := ha'
  obtain rfl := eq_of_key h hq hq' (hqb.trans hqb'.symm)
  exact Option.some.inj (hqa.symm.trans hqa')

theorem compatible_of_core {q p' q' : Proof} (h : Compatible p q) (hp : core p' = core p) (hq : core q' = core q) :
    Compatible p' q' := by
  simp only [core, Core.mk.injEq] at hp hq
  obtain ⟨-, hpu, hpt, hps, hpn, hpc, hpi, hpl⟩ := hp
  obtain ⟨-, hqu, hqt, hqs, hqn, hqc, hqi, hql⟩ := hq
  obtain ⟨hu, ht, hc, hi, hn, hf⟩ := h
  have fingerprint : ∀ {a b : Proof}, a.schemaVersion = b.schemaVersion → a.claim = b.claim →
      policyFingerprint a = policyFingerprint b := by
    intro a b hs hl
    unfold policyFingerprint
    rw [hs, hl]
  refine ⟨?_, ?_, ?_, ?_, ?_, ?_⟩
  · rw [hpu, hqu, hu]
  · rw [hpt, hqt, ht]
  · rw [hpc, hqc, hc]
  · rw [hpi, hqi, hi]
  · rw [hpn, hqn, hn]
  · rw [fingerprint hps hpl, fingerprint hqs hql, hf]

/-! ## Steps that make no link -/

variable {q r : Proof} {ps' : List Proof} {c : RenewCall} {pc : RenewPc} {e : Ev}

theorem chains_of_stays (hstays : Forall₂ Stays ps ps') (h : Chains ps) : Chains ps' := by
  have hids : UniqueIds ps' := by
    unfold UniqueIds
    rw [map_of_forall₂ hstays Proof.id fun a b hab => id_of_core hab.core]
    exact h.ids
  have hback : ∀ a b, Supersedes ps' a b → Supersedes ps a b := by
    rintro a b ⟨q', hq', hb, ha⟩
    obtain ⟨q, hq, hqq'⟩ := exists_of_forall₂_right hstays hq'
    exact ⟨q, hq, (id_of_core hqq'.core).symm.trans hb, hqq'.supersedesId.symm.trans ha⟩
  refine ⟨hids, fun a b b' hb hb' => h.oneSuccessor a b b' (hback a b hb) (hback a b' hb'),
    onePredecessor_of_ids hids, h.acyclic.mono hback, ?_, ?_⟩
  · intro p' hp'
    obtain ⟨p, hp, hpp'⟩ := exists_of_forall₂_right hstays hp'
    rw [hpp'.supersededAt, id_of_core hpp'.core, h.marked p hp]
    constructor
    · rintro ⟨q, hq, hqp⟩
      obtain ⟨q', hq', hqq'⟩ := exists_of_forall₂ hstays hq
      exact ⟨q', hq', hqq'.supersedesId.trans hqp⟩
    · rintro ⟨q', hq', hqp⟩
      obtain ⟨q, hq, hqq'⟩ := exists_of_forall₂_right hstays hq'
      exact ⟨q, hq, hqq'.supersedesId.symm.trans hqp⟩
  · intro q' hq' i hi
    obtain ⟨q, hq, hqq'⟩ := exists_of_forall₂_right hstays hq'
    obtain ⟨p, hp, hpi, hpq⟩ := h.linked q hq i (hqq'.supersedesId.symm.trans hi)
    obtain ⟨p', hp', hpp'⟩ := exists_of_forall₂ hstays hp
    exact ⟨p', hp', (id_of_core hpp'.core).trans hpi, compatible_of_core hpq hpp'.core hqq'.core⟩

/-- A new row, linked to nothing. -/
theorem chains_append (h : Chains ps) {row : Proof} (hfresh : ∀ p ∈ ps, p.id ≠ row.id)
    (hlink : row.supersedesId = none) (hmark : row.supersededAt = none) : Chains (ps ++ [row]) := by
  have hids : UniqueIds (ps ++ [row]) := nodup_append_row h.ids hfresh
  have hold : ∀ q ∈ ps ++ [row], ∀ i, q.supersedesId = some i → q ∈ ps := by
    refine forall_append_row (fun q hq _ _ => hq) fun i hi => ?_
    exact absurd (hlink.symm.trans hi) (by simp)
  have hback : ∀ a b, Supersedes (ps ++ [row]) a b → Supersedes ps a b := by
    rintro a b ⟨q, hq, hb, ha⟩
    exact ⟨q, hold q hq a ha, hb, ha⟩
  refine ⟨hids, fun a b b' hb hb' => h.oneSuccessor a b b' (hback a b hb) (hback a b' hb'),
    onePredecessor_of_ids hids, h.acyclic.mono hback, ?_, ?_⟩
  · intro p hp
    rcases mem_append_row.mp hp with hp | rfl
    · rw [h.marked p hp]
      constructor
      · rintro ⟨q, hq, hqp⟩
        exact ⟨q, mem_append_left _ hq, hqp⟩
      · rintro ⟨q, hq, hqp⟩
        exact ⟨q, hold q hq _ hqp, hqp⟩
    · refine ⟨fun hset => absurd hmark hset, ?_⟩
      rintro ⟨q, hq, hqp⟩
      -- a link to the new row would have been a link to nothing before
      obtain ⟨p', hp', hid, -⟩ := h.linked q (hold q hq _ hqp) _ hqp
      exact absurd hid (hfresh p' hp')
  · intro q hq i hi
    obtain ⟨p, hp, hpi, hpq⟩ := h.linked q (hold q hq i hi) i hi
    exact ⟨p, mem_append_left _ hp, hpi, hpq⟩

/-! ## Steps that make a link -/

def linkRows (p s : String) (now : Date) (requestHash : String) (ps : List Proof) : List Proof :=
  Table.update (hasId s) (attach p requestHash) (Table.update (hasId p) (markSuperseded now) ps)

structure LinkRow (p s : String) (r r' : Proof) : Prop where
  core : core r' = core r
  supersedesId : r'.supersedesId = if r.id = s then some p else r.supersedesId
  marked : r'.supersededAt ≠ none ↔ r.id = p ∨ r.supersededAt ≠ none

theorem linkRow_of_updates (p s : String) (now : Date) (requestHash : String) (r : Proof) {r1 r2 : Proof}
    (h1 : (if hasId p r then markSuperseded now r else r) = r1)
    (h2 : (if hasId s r1 then attach p requestHash r1 else r1) = r2) : LinkRow p s r r2 := by
  have hcore1 : core r1 = core r := by rw [← h1]; split <;> rfl
  have hlink1 : r1.supersedesId = r.supersedesId := by rw [← h1]; split <;> rfl
  have hmark1 : r1.supersededAt ≠ none ↔ r.id = p ∨ r.supersededAt ≠ none := by
    by_cases hp : r.id = p
    · rw [← h1, if_pos (hasId_iff.mpr hp)]
      simp [markSuperseded, hp]
    · rw [← h1, if_neg (mt hasId_iff.mp hp)]
      simp [hp]
  have hid1 : r1.id = r.id := id_of_core hcore1
  by_cases hs : r.id = s
  · rw [if_pos (hasId_iff.mpr (hid1.trans hs))] at h2
    subst h2
    exact ⟨hcore1, (if_pos hs).symm, hmark1⟩
  · rw [if_neg fun hid => hs (hid1.symm.trans (hasId_iff.mp hid))] at h2
    subst h2
    exact ⟨hcore1, hlink1.trans (if_neg hs).symm, hmark1⟩

/-- A link from a row nothing supersedes to a compatible one that is linked to nothing. -/
theorem chains_link (h : Chains ps) {s : Proof} (hp : p ∈ ps) (hs : s ∈ ps) (hne : p.id ≠ s.id)
    (hfree : p.supersededAt = none) (hin : s.supersedesId = none) (hout : s.supersededAt = none)
    (hcompat : Compatible p s) (now : Date) (requestHash : String) :
    Chains (linkRows p.id s.id now requestHash ps) := by
  have hrows : Forall₂ (LinkRow p.id s.id) ps (linkRows p.id s.id now requestHash ps) := by
    unfold linkRows Table.update
    rw [map_map, forall₂_map_right_iff, forall₂_same]
    exact fun r _ => linkRow_of_updates p.id s.id now requestHash r rfl rfl
  generalize linkRows p.id s.id now requestHash ps = ps' at hrows
  have hids : UniqueIds ps' := by
    unfold UniqueIds
    rw [map_of_forall₂ hrows Proof.id fun a b hab => id_of_core hab.core]
    exact h.ids
  -- nothing superseded either of the two rows before
  have hnone : ∀ r, r ∈ ps → r.supersededAt = none → ∀ q ∈ ps, q.supersedesId ≠ some r.id :=
    fun r hr hmark q hq hlink => absurd hmark ((h.marked r hr).mpr ⟨q, hq, hlink⟩)
  have hlinks : ∀ a b, Supersedes ps' a b → (Supersedes ps a b ∧ b ≠ s.id) ∨ (a = p.id ∧ b = s.id) := by
    rintro a b ⟨q', hq', hb, ha⟩
    obtain ⟨q, hq, hqq'⟩ := exists_of_forall₂_right hrows hq'
    have hqb : q.id = b := (id_of_core hqq'.core).symm.trans hb
    rw [hqq'.supersedesId] at ha
    by_cases hqs : q.id = s.id
    · rw [if_pos hqs] at ha
      exact .inr ⟨(Option.some.inj ha).symm, hqb.symm.trans hqs⟩
    · rw [if_neg hqs] at ha
      exact .inl ⟨⟨q, hq, hqb, ha⟩, fun hbs => hqs (hqb.trans hbs)⟩
  have hnew : Supersedes ps' p.id s.id := by
    obtain ⟨s', hs', hss'⟩ := exists_of_forall₂ hrows hs
    exact ⟨s', hs', id_of_core hss'.core, hss'.supersedesId.trans (if_pos rfl)⟩
  have hold : ∀ q ∈ ps, ∀ i, q.supersedesId = some i → ∃ q' ∈ ps', core q' = core q ∧ q'.supersedesId = some i := by
    intro q hq i hi
    obtain ⟨q', hq', hqq'⟩ := exists_of_forall₂ hrows hq
    refine ⟨q', hq', hqq'.core, ?_⟩
    rw [hqq'.supersedesId, if_neg ?_, hi]
    intro hqs
    rw [eq_of_key h.ids hq hs hqs, hin] at hi
    cases hi
  refine ⟨hids, ?_, onePredecessor_of_ids hids, ?_, ?_, ?_⟩
  · intro a b b' hb hb'
    rcases hlinks a b hb with ⟨hb, -⟩ | ⟨rfl, rfl⟩ <;> rcases hlinks _ b' hb' with ⟨hb', -⟩ | ⟨ha, rfl⟩
    · exact h.oneSuccessor a b b' hb hb'
    · obtain ⟨q, hq, -, hqa⟩ := hb
      exact absurd (hqa.trans (congrArg some ha)) (hnone p hp hfree q hq)
    · obtain ⟨q, hq, -, hqa⟩ := hb'
      exact absurd hqa (hnone p hp hfree q hq)
    · rfl
  · refine h.acyclic.add_into_sink s.id (fun a b hab => (hlinks a b hab).imp And.left And.right) fun x hx => ?_
    rcases hlinks s.id x hx with ⟨⟨q, hq, -, hqs⟩, -⟩ | ⟨hsp, -⟩
    · exact hnone s hs hout q hq hqs
    · exact hne hsp.symm
  · intro r' hr'
    obtain ⟨r, hr, hrr'⟩ := exists_of_forall₂_right hrows hr'
    rw [hrr'.marked, id_of_core hrr'.core, h.marked r hr]
    constructor
    · rintro (hrp | ⟨q, hq, hqr⟩)
      · obtain ⟨s', hs', -, hlink⟩ := hnew
        exact ⟨s', hs', hlink.trans (congrArg some hrp.symm)⟩
      · obtain ⟨q', hq', -, hlink⟩ := hold q hq r.id hqr
        exact ⟨q', hq', hlink⟩
    · rintro ⟨q', hq', hlink⟩
      rcases hlinks r.id q'.id ⟨q', hq', rfl, hlink⟩ with ⟨⟨q, hq, -, hqr⟩, -⟩ | ⟨hrp, -⟩
      · exact .inr ⟨q, hq, hqr⟩
      · exact .inl hrp
  · intro q' hq' i hi
    obtain ⟨q, hq, hqq'⟩ := exists_of_forall₂_right hrows hq'
    rw [hqq'.supersedesId] at hi
    -- the predecessor, and the row it has become
    have hpred : ∃ r ∈ ps, r.id = i ∧ Compatible r q := by
      by_cases hqs : q.id = s.id
      · rw [if_pos hqs] at hi
        obtain rfl := eq_of_key h.ids hq hs hqs
        exact ⟨p, hp, Option.some.inj hi, hcompat⟩
      · rw [if_neg hqs] at hi
        exact h.linked q hq i hi
    obtain ⟨r, hr, hri, hrq⟩ := hpred
    obtain ⟨r', hr', hrr'⟩ := exists_of_forall₂ hrows hr
    exact ⟨r', hr', (id_of_core hrr'.core).trans hri, compatible_of_core hrq hrr'.core hqq'.core⟩

/-! ## What a renewal holds -/

def Remembered (ps : List Proof) (p : Proof) : Prop := ∃ p' ∈ ps, core p' = core p

section

variable (ps : List Proof) (c : RenewCall)

/-- The predecessor, as the call read it: stored, its own, and the one it asked for. -/
structure Owned (p : Proof) : Prop where
  stored : Remembered ps p
  owner : p.userId = c.user.id
  asked : p.id = c.proofId

structure Candidate (q : Proof) : Prop where
  stored : Remembered ps q
  owner : q.userId = c.user.id
  asked : some q.id = c.target
  claim : q.claim ≠ none

/-- What a renewal knows at each point, all of it about columns that do not change. -/
def Held : RenewPc → Prop
  | .loaded p _ => Owned ps c p
  | .linking p _ => Owned ps c p
  | .candidate p q _ => Owned ps c p ∧ Candidate ps c q
  | .walking p q _ reasons _ _ => Owned ps c p ∧ Candidate ps c q ∧ (reasons = [] → p.id ≠ q.id ∧ Compatible p q)
  | .attaching p q _ => Owned ps c p ∧ Candidate ps c q ∧ p.id ≠ q.id ∧ Compatible p q
  | .issuing p s => Owned ps c p ∧ c.target = none ∧ p.claim = some s.claim
  | _ => True

end

theorem Held.mono (h : Held ps c pc) (hps : ∀ p, Remembered ps p → Remembered ps' p) : Held ps' c pc := by
  have hown : ∀ {p}, Owned ps c p → Owned ps' c p := fun h => ⟨hps _ h.stored, h.owner, h.asked⟩
  have hcand : ∀ {q}, Candidate ps c q → Candidate ps' c q := fun h => ⟨hps _ h.stored, h.owner, h.asked, h.claim⟩
  cases pc with
  | start | replaying | done => trivial
  | loaded | linking => exact hown h
  | candidate => exact ⟨hown h.1, hcand h.2⟩
  | walking | attaching => exact ⟨hown h.1, hcand h.2.1, h.2.2⟩
  | issuing => exact ⟨hown h.1, h.2⟩

theorem held_walk (now : Date)
    {reasons : List SupersessionIncompatibility} (seen : List String) (current : Option String) (hp : Owned ps c p)
    (hq : Candidate ps c q) (hr : reasons = [] → p.id ≠ q.id ∧ Compatible p q) :
    Held ps c (.walk p q now reasons seen current) := by
  unfold RenewPc.walk
  split
  · exact ⟨hp, hq, hr⟩
  · split
    · rename_i hnil
      exact ⟨hp, hq, hr hnil⟩
    · trivial

/-- One access of a renewal, against the table it reads. -/
theorem held_advance {db : Db} (h : Held db.proofs c pc) (t : Tick) :
    Held db.proofs c (advanceRenewal E c db t pc).2 := by
  cases pc with
  | start =>
    simp only [advanceRenewal]
    split
    · trivial
    · split
      · trivial
      · rename_i p hp
        obtain ⟨hmem, hid⟩ := mem_of_proof? hp
        split
        · trivial
        · rename_i howner
          split
          · trivial
          · exact ⟨⟨p, hmem, rfl⟩, not_not.mp howner, hid⟩
  | loaded p walletHash =>
    simp only [advanceRenewal]
    split
    · trivial
    · split
      · trivial
      · split
        · exact h
        · rename_i htarget
          split
          · trivial
          · trivial
          · rename_i claim expiresAt hclaim _
            exact ⟨h, not_not.mp htarget, hclaim⟩
  | linking p now =>
    simp only [advanceRenewal]
    split
    · trivial
    · rename_i q hq
      split
      · trivial
      · rename_i hclaim
        obtain ⟨hmem, hid, howner⟩ := of_find? hq
        exact ⟨h, ⟨q, hmem, rfl⟩, howner, hid, hclaim⟩
  | candidate p q now =>
    simp only [advanceRenewal]
    split
    · trivial
    · exact held_walk now [] (some p.id) h.1 h.2 compatible_of_no_reason
  | walking p q now =>
    simp only [advanceRenewal]
    split
    · trivial
    · exact held_walk now _ _ h.1 h.2.1 h.2.2
  | attaching | issuing =>
    simp only [advanceRenewal, RenewPc.settle]
    split
    · trivial
    · split <;> trivial
  | replaying =>
    simp only [advanceRenewal]
    split
    · trivial
    · split <;> trivial
  | done => trivial

/-! ## Every step keeps the chains -/

structure SupersessionInv (w : World) : Prop where
  chains : Chains w.db.proofs
  held : ∀ pid c pc, w.procs pid = .renew c pc → Held w.db.proofs c pc

theorem core_of_remembered (hu : UniqueIds ps) (h : Remembered ps p) (hr : r ∈ ps)
    (hid : r.id = p.id) : core r = core p := by
  obtain ⟨p', hp', hcore⟩ := h
  rw [eq_of_key hu hr hp' (hid.trans (id_of_core hcore).symm), hcore]

/-- The claim picks the predecessor's row and no other. -/
theorem update_claimable (hu : UniqueIds ps) (hr : r ∈ ps) (hclaim : claimable p r) (data : Proof → Proof) :
    Table.update (claimable p) data ps = Table.update (hasId p.id) data ps := by
  have hid := (claimable_iff.mp hclaim).1
  rw [update_eq_of_key hu hr hclaim fun x hx => (claimable_iff.mp hx).1.trans hid.symm, hid]
  rfl

theorem chains_of_storeStep (h : StoreStep E w e ps) (hi : SupersessionInv w) : Chains ps := by
  have hc := hi.chains
  cases h with
  | touch ht => exact chains_of_stays (ht.imp fun _ _ hpq => hpq.toStays) hc
  | revoke pid t read data _ _ hdata =>
    exact chains_of_stays (forall₂_update Stays.refl fun p _ _ => (hdata p).toStays) hc
  | issue row hrow hfresh => exact chains_append hc hfresh hrow.supersedesId hrow.supersededAt
  | succeed pid t c p s _ hproc hclaim hfree hfresh =>
    obtain ⟨hown, -, hsame⟩ := hi.held pid c _ hproc
    obtain ⟨r, hr, hrclaim⟩ := hclaim
    obtain ⟨hrid, -, hrmark, -, -⟩ := claimable_iff.mp hrclaim
    -- the successor is a new row that is then linked
    let row : Proof := { successorRow E c p s with supersedesId := none, renewalRequestHash := none }
    have hne : r.id ≠ row.id := hfresh r hr
    have hinserted : Chains (w.db.proofs ++ [row]) := chains_append hc hfresh rfl rfl
    have hcore := core_of_remembered hc.ids hown.stored hr hrid
    have hcompat : Compatible p row := by
      refine ⟨hown.owner, rfl, rfl, rfl, rfl, ?_⟩
      unfold policyFingerprint
      rw [hsame]
      rfl
    have hlinked := chains_link hinserted (mem_append_left _ hr) (mem_append_right _ (mem_singleton_self row))
      hne hrmark rfl rfl (compatible_of_core hcompat hcore rfl) s.now c.requestHash
    rw [hrid] at hlinked
    have htable : linkRows p.id row.id s.now c.requestHash (w.db.proofs ++ [row]) =
        Table.update (claimable p) (markSuperseded s.now) w.db.proofs ++ [successorRow E c p s] := by
      unfold linkRows
      have hold : Table.update (hasId p.id) (markSuperseded s.now) [row] = [row] :=
        update_of_none fun x hx => by
          obtain rfl := mem_singleton.mp hx
          exact Bool.eq_false_of_not_eq_true fun hid => hne (hrid.trans (hasId_iff.mp hid).symm)
      rw [update_append, ← update_claimable hc.ids hr hrclaim, hold, update_append]
      congr 1
      · refine update_of_none fun x hx => Bool.eq_false_of_not_eq_true fun hid => ?_
        obtain ⟨y, hy, rfl⟩ := mem_update.mp hx
        refine hfresh y hy (Eq.trans ?_ (hasId_iff.mp hid))
        split <;> rfl
      · show [if hasId row.id row then attach p.id c.requestHash row else row] = _
        rw [if_pos (hasId_iff.mpr rfl)]
        rfl
    exact htable ▸ hlinked
  | link pid t c p q now _ hproc hclaim hfree hattach =>
    obtain ⟨hown, hcand, hne, hcompat⟩ := hi.held pid c _ hproc
    obtain ⟨r, hr, hrclaim⟩ := hclaim
    obtain ⟨hrid, -, hrmark, -, -⟩ := claimable_iff.mp hrclaim
    obtain ⟨s', hs', hsattach⟩ := hattach
    obtain ⟨hsid, -, -, hslink, hsmark⟩ := attachable_iff.mp hsattach
    obtain ⟨s, hs, hss'⟩ := mem_update.mp hs'
    -- the attached row is not the one just marked
    have hsame : s = s' := by
      by_cases hmarked : claimable p s
      · rw [if_pos hmarked] at hss'
        rw [← hss'] at hsmark
        cases hsmark
      · rw [if_neg hmarked] at hss'
        exact hss'
    subst hsame
    have hcore := core_of_remembered hc.ids hown.stored hr hrid
    have hcores := core_of_remembered hc.ids hcand.stored hs hsid
    have hlinked := chains_link hc hr hs (by rw [hrid, hsid]; exact hne) hrmark hslink hsmark
      (compatible_of_core hcompat hcore hcores) now c.requestHash
    have hids : UniqueIds (Table.update (claimable p) (markSuperseded now) w.db.proofs) := by
      unfold UniqueIds
      rw [map_update Proof.id fun x => show (markSuperseded now x).id = x.id from rfl]
      exact hc.ids
    have hpick : Table.update (attachable c.user.id q.id) (attach p.id c.requestHash) _ =
        Table.update (hasId s.id) _ _ :=
      update_eq_of_key hids hs' hsattach fun x hx => (attachable_iff.mp hx).1.trans hsid.symm
    rw [hpick, update_claimable hc.ids hr hrclaim, ← hrid]
    exact hlinked

theorem remembered_of_storeStep (h : StoreStep E w e ps) (p : Proof)
    (hp : Remembered w.db.proofs p) : Remembered ps p := by
  obtain ⟨q, hq, hcore⟩ := hp
  obtain ⟨q', hq', hev⟩ := evolve_of_storeStep h hq
  exact ⟨q', hq', hev.core.trans hcore⟩

theorem supersessionInv_step {w' : World} (hi : SupersessionInv w) (h : step E w e = some w') :
    SupersessionInv w' where
  chains := chains_of_storeStep (storeStep h) hi
  held := by
    intro pid c pc hproc
    have hmono := remembered_of_storeStep (storeStep h)
    rcases renewal_of_step h hproc with hsame | ⟨rfl, -⟩ | ⟨t, pc', -, hold, -, rfl⟩
    · exact (hi.held pid c pc hsame).mono hmono
    · trivial
    · exact (held_advance (hi.held pid c pc' hold) t).mono hmono

theorem chains_empty : Chains [] := by
  have hnone : ∀ a b, ¬ Supersedes [] a b := fun _ _ ⟨_, hq, _⟩ => nomatch hq
  refine ⟨nodup_nil, fun a b b' h => absurd h (hnone a b), fun a a' b h => absurd h (hnone a b), ?_, ?_, ?_⟩
  · exact fun a => not_transGen_of_sink (hnone a)
  · exact fun p hp => nomatch hp
  · exact fun q hq => nomatch hq

theorem supersessionInv_of_run {tables : Db} {ok : World → Ev → Prop}
    (h : Run (step E) ok (World.empty tables) w) : SupersessionInv w := by
  refine h.invariant ⟨chains_empty, fun pid c pc hproc => ?_⟩ fun _ _ _ hi _ hs => supersessionInv_step hi hs
  cases hproc

/-- In every state of every run, the supersedes relation is a set of disjoint acyclic chains,
    each proof is marked superseded exactly when a successor row exists, and linked proofs
    have one owner and compatible type and policy. -/
theorem supersession_chains (E : Env) (tables : Db) (w : World)
    (hrun : Run (step E) anyStep (World.empty tables) w) : Chains w.db.proofs :=
  (supersessionInv_of_run hrun).chains

/-- Two opposite links, each checked before either commits. -/
def oppositeLinks : List Ev :=
  [.issue (liveRow "proof-1"), .issue (liveRow "proof-2"),
    .spawn 0 (.renew (linkCall "proof-1" "proof-2") .start), .spawn 1 (.renew (linkCall "proof-2" "proof-1") .start)] ++
  accesses 0 5 ++ accesses 1 5 ++ accesses 0 1 ++ accesses 1 2

/-- The first to commit makes the chain; the second is refused. -/
theorem opposite_links_make_one_chain : ∃ w, Run (step liveEnv) anyStep (World.empty liveTables) w ∧
      w.procs 0 = .renew (linkCall "proof-1" "proof-2") (.done (.ok ⟨"proof-2", true, false⟩)) ∧
      w.procs 1 = .renew (linkCall "proof-2" "proof-1") (.done (.error alreadySuperseded)) ∧
      Supersedes w.db.proofs "proof-1" "proof-2" ∧ Chains w.db.proofs := by
  refine Run.exists_and (P := fun w =>
    w.procs 0 = .renew (linkCall "proof-1" "proof-2") (.done (.ok ⟨"proof-2", true, false⟩)) ∧
      w.procs 1 = .renew (linkCall "proof-2" "proof-1") (.done (.error alreadySuperseded)) ∧
        ∃ q ∈ w.db.proofs, q.id = "proof-2" ∧ q.supersedesId = some "proof-1")
    oppositeLinks fun w h ⟨h0, h1, hlink⟩ => ?_
  exact ⟨h0, h1, hlink, supersession_chains liveEnv liveTables w h⟩

end EarnProof.Lifecycle
