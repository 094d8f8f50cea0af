/-
  EarnProof.Proofs.ShareTokens — share tokens of a proof
  (`src/proofs/share-tokens/proof-share-tokens.service.ts`), over any interleaving of calls. A raw
  token is given by its hash; labels, the audit log and the answer are left out, and so are calls
  that throw, which write nothing. The transaction of `issue` reads the live tokens first and is
  seen by others when it commits, under the partial index on the live tokens of a proof and scope.

  `resolve` compares the expiry with a time it took before its update, so a token can be consumed
  after it expired (`consumed_after_expiry`). Everything else holds in every run, and that does
  too unless the expiry falls between the two (`share_tokens_kept`).
-/
import EarnProof.Database.Rows
import EarnProof.Lib.Result
import EarnProof.Lib.Run
import EarnProof.Lib.Table

namespace EarnProof.Proofs.ShareTokens

open Lib Lib.Table Lib.Result Database List

inductive ProofShareScope where
  | verifyStatus | verifyCredential
  deriving DecidableEq

structure ProofShareToken where
  id : String
  proofId : String
  ownerId : String
  tokenHash : String
  scope : ProofShareScope
  maxUses : Option Nat
  useCount : Nat
  expiresAt : Int
  revokedAt : Option Int
  supersededAt : Option Int
  supersededById : Option String
  deriving DecidableEq

def ProofShareToken.live (t : ProofShareToken) : Bool := t.revokedAt = none && t.supersededAt = none

/-- `ProofShareToken_live_proof_scope_key`. -/
def Distinct (a b : ProofShareToken) : Prop := a.live → b.live → (a.proofId, a.scope) ≠ (b.proofId, b.scope)
  deriving Decidable

structure SharedProof where
  id : String
  userId : String
  status : ProofStatus
  expiresAt : Int

structure Config where
  maxTtlMinutes : Nat
  defaultTtlMinutes : Nat

structure CreateProofShareTokenDto where
  scope : ProofShareScope
  expiresInMinutes : Option Nat
  maxUses : Option Nat

/-- A call of `issue`: the row it will create, and the live tokens once it has read them. -/
structure Issue where
  row : ProofShareToken
  now : Int
  liveIds : Option (List String)
  deriving DecidableEq

/-- A call of `resolve`: the token it read, and the time once it has checked it. -/
structure Resolve where
  token : ProofShareToken
  now : Option Int
  deriving DecidableEq

structure World where
  clock : Int
  proofs : List SharedProof
  tokens : List ProofShareToken
  issues : List Issue
  resolves : List Resolve
  /-- The token of every update that consumed a use: at least those of the successful calls. -/
  resolved : List String

inductive Event where
  | tick (ms : Nat)
  | changeProofs (proofs : List SharedProof)
  | issue (userId proofId : String) (input : CreateProofShareTokenDto) (id tokenHash : String)
  | readLive (call : Issue)
  | commit (call : Issue)
  | revoke (userId proofId tokenId : String)
  | resolve (tokenHash : String)
  | check (call : Resolve)
  | consume (call : Resolve)

def issueRow (cfg : Config) (w : World) (userId proofId : String) (input : CreateProofShareTokenDto)
    (id tokenHash : String) : Except String ProofShareToken := do
  let ttlMinutes := input.expiresInMinutes.getD cfg.defaultTtlMinutes
  require (ttlMinutes ≤ cfg.maxTtlMinutes) ("expiresInMinutes must not exceed " ++ toString cfg.maxTtlMinutes)
  let proof ← orThrow (w.proofs.find? fun p => p.id = proofId && p.userId = userId) "Proof not found"
  require (proof.status = .active ∧ w.clock < proof.expiresAt) "Only active, unexpired proofs can be shared"
  pure ⟨id, proofId, userId, tokenHash, input.scope, input.maxUses, 0,
    min (w.clock + ttlMinutes * 60000) proof.expiresAt, none, none, none⟩

def supersede (liveIds : List String) (now : Int) : List ProofShareToken → List ProofShareToken :=
  Table.update (fun t => t.id ∈ liveIds && t.live) fun t => { t with supersededAt := some now }

/-- The writes of `issue`'s transaction. -/
def Issue.commit (call : Issue) (liveIds : List String) (tokens : List ProofShareToken) :
    Except String (List ProofShareToken) := do
  -- `useCount` is not given
  let tokens := supersede liveIds call.now tokens ++ [{ call.row with useCount := 0 }]
  require ((tokens.map (·.id)).Nodup ∧ (tokens.map (·.tokenHash)).Nodup ∧ tokens.Pairwise Distinct)
    "Another share token for this proof and scope was issued concurrently"
  pure (Table.update (fun t => t.id ∈ liveIds) (fun t => { t with supersededById := some call.row.id }) tokens)

def Resolve.usable (call : Resolve) (now : Int) : Bool :=
  call.token.live && now < call.token.expiresAt && call.token.maxUses.all (call.token.useCount < ·)

/-- The condition of the update that consumes a use. -/
def Resolve.consumes (call : Resolve) (t : ProofShareToken) : Bool :=
  t.id = call.token.id && t.live && call.now.any (· < t.expiresAt) && call.token.maxUses.all (t.useCount < ·)

def step (cfg : Config) (w : World) : Event → Option World
  | .tick ms => some { w with clock := w.clock + ms }
  | .changeProofs proofs => some { w with proofs }
  | .issue userId proofId input id tokenHash =>
    match issueRow cfg w userId proofId input id tokenHash with
    | .ok row => some { w with issues := ⟨row, w.clock, none⟩ :: w.issues }
    | .error _ => none
  | .readLive call =>
    let live := w.tokens.filter fun t =>
      t.proofId = call.row.proofId && t.ownerId = call.row.ownerId && t.scope = call.row.scope && t.live
    if call ∈ w.issues then
      some { w with issues := { call with liveIds := some (live.map (·.id)) } :: w.issues.erase call }
    else none
  | .commit call =>
    match call.liveIds.map (call.commit · w.tokens) with
    | some (.ok tokens) => if call ∈ w.issues then some { w with tokens, issues := w.issues.erase call } else none
    | _ => none
  | .revoke userId proofId tokenId => some { w with
    tokens := Table.update
      (fun t => t.id = tokenId && t.proofId = proofId && t.ownerId = userId && t.revokedAt = none)
      (fun t => { t with revokedAt := some w.clock }) w.tokens }
  | .resolve tokenHash =>
    match w.tokens.find? fun t => t.tokenHash = tokenHash with
    | some t =>
      if w.proofs.any fun p => p.id = t.proofId && p.userId = t.ownerId then
        some { w with resolves := ⟨t, none⟩ :: w.resolves }
      else none
    | none => none
  | .check call =>
    if call ∈ w.resolves ∧ call.usable w.clock then
      some { w with resolves := { call with now := some w.clock } :: w.resolves.erase call }
    else none
  | .consume call =>
    if call ∈ w.resolves ∧ w.tokens.any call.consumes then
      some { w with
        tokens := Table.update call.consumes (fun t => { t with useCount := t.useCount + 1 }) w.tokens
        resolves := w.resolves.erase call
        resolved := call.token.id :: w.resolved }
    else none

/-- The token a call consumes has not expired since the call took the time. -/
def InTime (w : World) (call : Resolve) : Prop :=
  ∀ t ∈ w.tokens, t.id = call.token.id → call.now.any (· < t.expiresAt) → w.clock < t.expiresAt

/-! ## Every step -/

structure Stored (tokens : List ProofShareToken) (resolved : List String) : Prop where
  ids : (tokens.map (·.id)).Nodup
  distinct : tokens.Pairwise Distinct
  counted : ∀ t ∈ tokens, resolved.count t.id = t.useCount
  bounded : ∀ t ∈ tokens, ∀ m, t.maxUses = some m → t.useCount ≤ m
  known : ∀ id ∈ resolved, id ∈ tokens.map (·.id)

/-- The limit a call read is the stored one. -/
def Resolve.Read (call : Resolve) (tokens : List ProofShareToken) : Prop :=
  ∃ t ∈ tokens, t.id = call.token.id ∧ t.maxUses = call.token.maxUses

structure Inv (w : World) : Prop where
  stored : Stored w.tokens w.resolved
  read : ∀ c ∈ w.resolves, c.Read w.tokens

variable {cfg : Config} {w w' : World} {e : Event} {call : Resolve} {tokens : List ProofShareToken}
  {resolved : List String} {sel : ProofShareToken → Bool} {data : ProofShareToken → ProofShareToken}

structure Kept (t t' : ProofShareToken) : Prop where
  id : t'.id = t.id
  key : (t'.proofId, t'.scope) = (t.proofId, t.scope)
  maxUses : t'.maxUses = t.maxUses
  live : t'.live → t.live

theorem distinct_update (hdata : ∀ t, Kept t (data t)) (h : tokens.Pairwise Distinct) :
    (Table.update sel data tokens).Pairwise Distinct := by
  have hkept : ∀ t, Kept t (if sel t then data t else t) := by
    intro t
    split
    · exact hdata t
    · exact ⟨rfl, rfl, rfl, id⟩
  refine pairwise_map.mpr (h.imp fun {a b} hab ha hb => ?_)
  rw [(hkept a).key, (hkept b).key]
  exact hab ((hkept a).live ha) ((hkept b).live hb)

theorem Resolve.Read.update (h : call.Read tokens) (hdata : ∀ t, Kept t (data t)) :
    call.Read (Table.update sel data tokens) := by
  obtain ⟨t, ht, hid, hmax⟩ := h
  cases hs : sel t with
  | false => exact ⟨t, mem_update_of_not ht hs, hid, hmax⟩
  | true => exact ⟨_, mem_update_of_sel ht hs, (hdata t).id.trans hid, (hdata t).maxUses.trans hmax⟩

/-- An update that counts no use. -/
theorem Stored.update (h : Stored tokens resolved) (hdata : ∀ t, Kept t (data t))
    (huses : ∀ t, (data t).useCount = t.useCount) : Stored (Table.update sel data tokens) resolved := by
  have hids : (Table.update sel data tokens).map (·.id) = tokens.map (·.id) :=
    map_update ProofShareToken.id fun t => (hdata t).id
  refine ⟨hids ▸ h.ids, distinct_update hdata h.distinct, forall_update h.counted fun r hr _ => ?_,
    forall_update h.bounded fun r hr _ m hm => ?_, hids ▸ h.known⟩
  · exact (hdata r).id ▸ (h.counted r hr).trans (huses r).symm
  · exact (huses r).symm ▸ h.bounded r hr m ((hdata r).maxUses ▸ hm)

theorem Stored.append (h : Stored tokens resolved) {row : ProofShareToken} (hids : ((tokens ++ [row]).map (·.id)).Nodup)
    (hdistinct : (tokens ++ [row]).Pairwise Distinct) (hrow : row.useCount = 0) :
    Stored (tokens ++ [row]) resolved := by
  have hnew : row.id ∉ tokens.map (·.id) := by
    intro hmem
    rw [map_append, nodup_append] at hids
    exact hids.2.2 _ hmem _ (by simp) rfl
  refine ⟨hids, hdistinct, forall_append_row h.counted ?_, forall_append_row h.bounded fun m hm => ?_,
    fun id hid => ?_⟩
  · rw [hrow, count_eq_zero]
    exact fun hmem => hnew (h.known _ hmem)
  · omega
  · rw [map_append]
    exact mem_append_left _ (h.known id hid)

theorem Resolve.consumes_iff {t : ProofShareToken} : call.consumes t ↔ t.id = call.token.id ∧
    t.live ∧ call.now.any (· < t.expiresAt) ∧ call.token.maxUses.all (t.useCount < ·) := by
  simp only [Resolve.consumes, Bool.and_eq_true, decide_eq_true_eq, and_assoc]

/-- A consumed use is counted, and was below the limit. -/
theorem Stored.consume (h : Stored tokens resolved) (hread : call.Read tokens) (hany : tokens.any call.consumes) :
    Stored (Table.update call.consumes (fun t => { t with useCount := t.useCount + 1 }) tokens)
      (call.token.id :: resolved) := by
  obtain ⟨row, hrow, hconsumes⟩ := any_eq_true.mp hany
  have hid := (Resolve.consumes_iff.mp hconsumes).1
  -- the update matches the rows with the id
  have hsel : ∀ t ∈ tokens, t.id = call.token.id → t = row := fun t ht hsame =>
    eq_of_key h.ids ht hrow (hsame.trans hid.symm)
  have hkept : ∀ t : ProofShareToken, Kept t { t with useCount := t.useCount + 1 } := fun _ => ⟨rfl, rfl, rfl, id⟩
  have hids : (Table.update call.consumes _ tokens).map (·.id) = tokens.map (·.id) :=
    map_update ProofShareToken.id fun t => (hkept t).id
  refine ⟨hids ▸ h.ids, distinct_update hkept h.distinct, fun t ht => ?_, fun t ht m hm => ?_, ?_⟩
  · obtain ⟨r, hr, ⟨hs, rfl⟩ | ⟨hs, rfl⟩⟩ := mem_update_cases ht
    · rw [count_cons, h.counted r hr]
      simp [(Resolve.consumes_iff.mp hs).1]
    · rw [count_cons_of_ne, h.counted t hr]
      intro hsame
      rw [hsel t hr hsame.symm, hconsumes] at hs
      cases hs
  · obtain ⟨r, hr, ⟨hs, rfl⟩ | ⟨-, rfl⟩⟩ := mem_update_cases ht
    · obtain ⟨hrid, -, -, hlimit⟩ := Resolve.consumes_iff.mp hs
      obtain ⟨t, ht, htid, hmax⟩ := hread
      rw [hsel t ht htid, ← hsel r hr hrid, show r.maxUses = some m from hm] at hmax
      exact Nat.succ_le_of_lt (by simpa [← hmax] using hlimit)
    · exact h.bounded t hr m hm
  · rw [hids]
    exact forall_mem_cons.mpr ⟨hid ▸ mem_map_of_mem hrow, h.known⟩

theorem step_inv (h : Inv w) (hstep : step cfg w e = some w') : Inv w' := by
  cases e with
  | tick | changeProofs =>
    cases hstep
    exact ⟨h.stored, h.read⟩
  | issue =>
    simp only [step] at hstep
    split at hstep <;> cases hstep
    exact ⟨h.stored, h.read⟩
  | readLive =>
    obtain ⟨-, rfl⟩ := enabled hstep
    exact ⟨h.stored, h.read⟩
  | commit call =>
    simp only [step] at hstep
    split at hstep
    · rename_i tokens hcommit
      obtain ⟨-, rfl⟩ := enabled hstep
      obtain ⟨liveIds, -, hcommit⟩ := Option.map_eq_some_iff.mp hcommit
      obtain ⟨_, hunique, hcommit⟩ := bind_eq_ok.mp hcommit
      obtain ⟨hids, -, hdistinct⟩ := require_eq_ok.mp hunique
      cases hcommit
      have hsupersede : ∀ t : ProofShareToken, Kept t { t with supersededAt := some call.now } := fun _ =>
        ⟨rfl, rfl, rfl, by simp [ProofShareToken.live]⟩
      have hlink : ∀ t : ProofShareToken, Kept t { t with supersededById := some call.row.id } := fun _ =>
        ⟨rfl, rfl, rfl, id⟩
      refine ⟨((h.stored.update hsupersede fun _ => rfl).append hids hdistinct rfl).update hlink fun _ =>
        rfl, fun c hc => ?_⟩
      obtain ⟨t, ht, hread⟩ := (h.read c hc).update hsupersede
      exact Resolve.Read.update ⟨t, mem_append_left _ ht, hread⟩ hlink
    · cases hstep
  | revoke =>
    cases hstep
    have hrevoke : ∀ t : ProofShareToken, Kept t { t with revokedAt := some w.clock } := fun _ =>
      ⟨rfl, rfl, rfl, by simp [ProofShareToken.live]⟩
    exact ⟨h.stored.update hrevoke fun _ => rfl, fun c hc => (h.read c hc).update hrevoke⟩
  | resolve tokenHash =>
    simp only [step] at hstep
    split at hstep
    · rename_i t ht
      obtain ⟨-, rfl⟩ := enabled hstep
      exact ⟨h.stored, forall_mem_cons.mpr ⟨⟨t, mem_of_find?_eq_some ht, rfl, rfl⟩, h.read⟩⟩
    · cases hstep
  | check call =>
    obtain ⟨⟨hcall, -⟩, rfl⟩ := enabled hstep
    exact ⟨h.stored, forall_mem_cons.mpr ⟨h.read call hcall, fun c hc => h.read c (mem_of_mem_erase hc)⟩⟩
  | consume call =>
    obtain ⟨⟨hcall, hany⟩, rfl⟩ := enabled hstep
    exact ⟨h.stored.consume (h.read call hcall) hany, fun c hc =>
      (h.read c (mem_of_mem_erase hc)).update fun _ => ⟨rfl, rfl, rfl, id⟩⟩

/-! ## Share tokens -/

def start (proofs : List SharedProof) : World := ⟨0, proofs, [], [], [], []⟩

/-- A token is consumed at most `maxUses` times; the token a call consumes is neither revoked nor
    superseded, nor expired if it did not expire since the call took the time; and a proof and
    scope have one live token at most. -/
theorem share_tokens_kept {proofs : List SharedProof} (hrun : Run (step cfg) anyStep (start proofs) w) :
    (∀ t ∈ w.tokens, ∀ m, t.maxUses = some m → w.resolved.count t.id ≤ m) ∧
    (∀ call w', step cfg w (.consume call) = some w' → ∃ t ∈ w.tokens,
      t.id = call.token.id ∧ t.revokedAt = none ∧ t.supersededAt = none ∧ (InTime w call → w.clock < t.expiresAt)) ∧
    w.tokens.Pairwise Distinct := by
  have h : Inv w := by
    refine hrun.invariant ⟨?_, by simp [start]⟩ fun _ _ _ h _ hstep => step_inv h hstep
    constructor <;> simp [start]
  refine ⟨fun t ht m hm => h.stored.counted t ht ▸ h.stored.bounded t ht m hm, fun call w' hstep => ?_,
    h.stored.distinct⟩
  obtain ⟨⟨-, hany⟩, -⟩ := enabled hstep
  obtain ⟨t, ht, hconsumes⟩ := any_eq_true.mp hany
  obtain ⟨hid, hlive, hnow, -⟩ := Resolve.consumes_iff.mp hconsumes
  obtain ⟨hrevoked, hsuperseded⟩ := Bool.and_eq_true_iff.mp hlive
  exact ⟨t, ht, hid, of_decide_eq_true hrevoked, of_decide_eq_true hsuperseded, fun hintime => hintime t ht hid hnow⟩

def limits : Config := ⟨10080, 1440⟩

def shared : ProofShareToken := ⟨"t", "p", "owner", "hash", .verifyStatus, some 1, 0, 300000, none, none, none⟩

/-- A token for one use, issued over the live ones and in the hands of a call that checked it. -/
def uses (t : ProofShareToken) (liveIds : List String) : List Event :=
  [.issue "owner" "p" ⟨.verifyStatus, some 5, some 1⟩ t.id t.tokenHash, .readLive ⟨t, 0, none⟩,
    .commit ⟨t, 0, some liveIds⟩, .resolve t.tokenHash, .check ⟨t, none⟩]

def proof : SharedProof := ⟨"p", "owner", .active, 1000000⟩

def second : ProofShareToken := { shared with id := "u", tokenHash := "other" }

/-- A token is used up and superseded, and the one that took its place is consumed in time. -/
theorem share_tokens_kept_superseded : ∃ w w', Run (step limits) anyStep (start [proof]) w ∧
    step limits w (.consume ⟨second, some 0⟩) = some w' ∧ w.resolved = ["t"] ∧ (∃ t ∈ w.tokens, t.supersededAt ≠ none) ∧
    (∀ t ∈ w.tokens, ∀ m, t.maxUses = some m → w.resolved.count t.id ≤ m) ∧
    (∃ t ∈ w.tokens, t.id = "u" ∧ t.supersededAt = none ∧ w.clock < t.expiresAt) ∧ w.tokens.Pairwise Distinct := by
  obtain ⟨w, w', hrun, hstep, hclock, hresolved, hsuperseded⟩ : ∃ w w', Run (step limits) anyStep (start [proof]) w ∧
      step limits w (.consume ⟨second, some 0⟩) = some w' ∧ w.clock = 0 ∧ w.resolved = ["t"] ∧
        ∃ t ∈ w.tokens, t.supersededAt ≠ none :=
    Run.exists_step_of_replay (uses shared [] ++ .consume ⟨shared, some 0⟩ :: uses second ["t"]) _
  obtain ⟨hcounted, hconsumes, hdistinct⟩ := share_tokens_kept hrun
  obtain ⟨t, ht, hid, -, hlive, hexpiry⟩ := hconsumes _ _ hstep
  have hintime : InTime w ⟨second, some 0⟩ := fun t _ _ hnow => by simpa [hclock] using hnow
  exact ⟨w, w', hrun, hstep, hresolved, hsuperseded, hcounted, ⟨t, ht, hid, hlive, hexpiry hintime⟩, hdistinct⟩

/-- The token expires after the call has checked it, and is consumed. -/
theorem consumed_after_expiry : ∃ w w', Run (step limits) anyStep (start [proof]) w ∧
    step limits w (.consume ⟨shared, some 0⟩) = some w' ∧ w.tokens = [shared] ∧ shared.expiresAt < w.clock ∧
      w'.resolved = ["t"] :=
  Run.exists_step_of_replay (uses shared [] ++ [.tick 300001]) _

end EarnProof.Proofs.ShareTokens
