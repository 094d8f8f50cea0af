/-
  EarnProof.Proofs.RevocationCheckpoints — the streams of revocation checkpoints
  (`upsertCheckpoint` of `src/proofs/revocation-checkpoint.service.ts`). The head is read, the
  checkpoint inserted and the head written by accesses of their own, the last without a condition,
  and the key of a checkpoint contains its root: of two calls that read one head, the later can
  lower it, and both can be accepted with one sequence and different roots (`streams_fall_back`).
  Where each write finds the head its call has read, with every accepted checkpoint behind it at
  the insert, neither happens (`stream_monotone`).
-/
import EarnProof.Lib.Run
import EarnProof.Lib.Result
import EarnProof.Common.Crypto

namespace EarnProof.Proofs.RevocationCheckpoints

open Lib Lib.Result

structure Stream where
  ledger : String
  contractIdentity : String
  algorithm : String
  deriving DecidableEq

structure UpsertRevocationCheckpointInput extends Stream where
  sequence : Int
  root : String
  observedAt : Int
  deriving DecidableEq

inductive RevocationCheckpointStatus where
  | accepted | quarantined
  deriving DecidableEq

inductive QuarantineReason where
  | lowerSequence | sequenceConflict
  deriving DecidableEq

structure RevocationCheckpoint extends UpsertRevocationCheckpointInput where
  status : RevocationCheckpointStatus
  acceptedAt : Int
  quarantineReason : Option QuarantineReason
  quarantineDetails : Option String
  quarantinedAt : Option Int
  deriving DecidableEq

structure StreamHead extends UpsertRevocationCheckpointInput where
  acceptedAt : Int
  version : Nat
  deriving DecidableEq

/-- The checkpoints, and the head of each stream, of which its key allows one. -/
structure Store where
  checkpoints : List RevocationCheckpoint
  heads : Stream → Option StreamHead

/-- What is left of a call: it has read the head, and has or has not created its checkpoint. -/
structure Upsert where
  input : UpsertRevocationCheckpointInput
  currentHead : Option StreamHead
  created : Bool
  deriving DecidableEq

def allowedAlgorithms : List String := ["sha256", "merkle-tree-v1", "merkle-tree-v2"]

def allowedLedgers : List String := ["stellar", "ethereum"]

/-- `!text || !text.trim()`. -/
def blank (text : String) : Bool := JsText.trim text.toList = []

section

variable (now : Int) (input : UpsertRevocationCheckpointInput) (currentHead : Option StreamHead)

def validateInput : Except String Unit := do
  require (blank input.ledger = false) "ledger is required"
  require (input.ledger ∈ allowedLedgers) ("ledger must be one of: " ++ ", ".intercalate allowedLedgers)
  require (blank input.contractIdentity = false) "contractIdentity is required"
  require (blank input.algorithm = false) "algorithm is required"
  require (input.algorithm ∈ allowedAlgorithms) ("algorithm must be one of: " ++ ", ".intercalate allowedAlgorithms)
  require (0 ≤ input.sequence) "sequence must be non-negative"
  require (blank input.root = false) "root is required"
  require (input.root.toList.all Common.Crypto.isHex) "root must be a valid hex string"
  require (input.observedAt ≤ now) "observedAt must not be in the future"

def violation : Option QuarantineReason :=
  match currentHead with
  | none => none
  | some head =>
    if input.sequence < head.sequence then some .lowerSequence
    else if input.sequence = head.sequence ∧ input.root ≠ head.root then some .sequenceConflict
    else none

def isReplay (head : StreamHead) : Bool :=
  input.sequence = head.sequence ∧ input.root = head.root ∧ input.observedAt = head.observedAt

def formatQuarantineDetails : QuarantineReason → String
  | .lowerSequence => "sequence is lower than current head (" ++ currentHead.elim "none" (toString ·.sequence) ++ ")"
  | .sequenceConflict => "same sequence (" ++ currentHead.elim "undefined" (toString ·.sequence) ++
    ") but different root"

/-- The `checkpoint_idempotency` key is taken. -/
def Store.has (s : Store) : Bool :=
  s.checkpoints.any fun r => r.toStream = input.toStream ∧ r.sequence = input.sequence ∧ r.root = input.root

def Store.add (s : Store) (r : RevocationCheckpoint) : Store := { s with checkpoints := s.checkpoints ++ [r] }

def Store.setHead (s : Store) : Store :=
  let version := (s.heads input.toStream).elim 0 (·.version) + 1
  { s with heads := Function.update s.heads input.toStream (some ⟨input, now, version⟩) }

end

def write (now : Int) (u : Upsert) (s : Store) : Except String (Store × Option Upsert) :=
  if u.created then .ok (s.setHead now u.input, none)
  else
    match violation u.input u.currentHead with
    | some reason =>
      let details := formatQuarantineDetails u.currentHead reason
      .ok (if s.has u.input then s else s.add ⟨u.input, .quarantined, now, some reason, some details, some now⟩, none)
    | none =>
      if u.currentHead.any (isReplay u.input) then .ok (s, none)
      else do
        require (s.has u.input = false) "Unique constraint failed on the constraint: checkpoint_idempotency"
        return (s.add ⟨u.input, .accepted, now, none, none, none⟩, some { u with created := true })

def service : Service Store UpsertRevocationCheckpointInput Upsert Int where
  read now input s := do
    validateInput now input
    return ⟨input, s.heads input.toStream, false⟩
  write

/-! ## Monotone streams -/

/-- No two accepted checkpoints of a stream have one sequence and different roots. -/
def Agree (s : Store) : Prop :=
  ∀ r ∈ s.checkpoints, ∀ r' ∈ s.checkpoints, r.status = .accepted → r'.status = .accepted →
    r.toStream = r'.toStream → r.sequence = r'.sequence → r.root = r'.root
  deriving Decidable

/-- No head falls. -/
def Rises (s s' : Store) : Prop := ∀ k, ∀ head ∈ s.heads k, ∃ head' ∈ s'.heads k, head.sequence ≤ head'.sequence

def Behind (a b : UpsertRevocationCheckpointInput) : Prop :=
  a.sequence < b.sequence ∨ a.sequence = b.sequence ∧ a.root = b.root
  deriving Decidable

/-- A write finds the head its call has read, with every accepted checkpoint behind it at the insert. -/
def Current (_ : Int) (u : Upsert) (s : Store) : Prop :=
  s.heads u.input.toStream = u.currentHead ∧
    (u.created = false → ∀ r ∈ s.checkpoints, r.status = .accepted → r.toStream = u.input.toStream →
      u.currentHead.any (Behind r.1 ·.1))
  deriving Decidable

/-- A call that has created its checkpoint is about to raise the head it has read. -/
def Ahead (u : Upsert) : Prop := u.created → ∀ head ∈ u.currentHead, head.sequence ≤ u.input.sequence

variable {s s' : Store} {now : Int} {u : Upsert} {next : Option Upsert} {r : RevocationCheckpoint} {head : StreamHead}
  {w w' : Service.State Store Upsert}

theorem Agree.add (h : Agree s) (hr : r.status = .accepted → ∀ r' ∈ s.checkpoints, r'.status = .accepted →
    r'.toStream = r.toStream → r'.sequence = r.sequence → r'.root = r.root) : Agree (s.add r) := by
  intro a ha b hb hsa hsb hstream hseq
  rcases List.mem_append.mp ha with ha' | ha' <;> rcases List.mem_append.mp hb with hb' | hb'
  · exact h a ha' b hb' hsa hsb hstream hseq
  · obtain rfl := List.mem_singleton.mp hb'
    exact hr hsb a ha' hsa hstream hseq
  · obtain rfl := List.mem_singleton.mp ha'
    exact (hr hsa b hb' hsb hstream.symm hseq.symm).symm
  · rw [List.mem_singleton.mp ha', List.mem_singleton.mp hb']

theorem behind_of_violation (h : violation u.input u.currentHead = none) (hhead : head ∈ u.currentHead) :
    Behind head.1 u.input := by
  obtain hhead : u.currentHead = some head := hhead
  simp only [violation] at h
  unfold Behind
  by_cases hroot : u.input.root = head.root
  · grind
  · grind

/-- Where the head is current, what passes the check conflicts with no accepted checkpoint. -/
theorem root_of_current (hok : Current now u s) (hcreated : u.created = false)
    (h : violation u.input u.currentHead = none)
    (hr : r ∈ s.checkpoints) (hstatus : r.status = .accepted) (hstream : r.toStream = u.input.toStream)
    (hseq : r.sequence = u.input.sequence) : r.root = u.input.root := by
  obtain ⟨head, hhead, hbehind⟩ := (Option.any_eq_true _ _).mp (hok.2 hcreated r hr hstatus hstream)
  rcases of_decide_eq_true hbehind with hlt | ⟨hsame, hroot⟩ <;> rcases behind_of_violation h hhead with hlt' |
    ⟨hsame', hroot'⟩
  · omega
  · omega
  · omega
  · exact hroot.trans hroot'

theorem write_spec (hi : Agree s) (hj : Ahead u) (hok : Current now u s) (h : write now u s = .ok (s', next)) :
    Agree s' ∧ (∀ v ∈ next, Ahead v) ∧ Rises s s' := by
  unfold write at h
  have hnone : ∀ v ∈ (none : Option Upsert), Ahead v := nofun
  have hrefl : Rises s s := fun _ head hhead => ⟨head, hhead, le_refl _⟩
  split at h
  · rename_i hcreated
    cases h
    refine ⟨hi, hnone, fun k head hhead => ?_⟩
    by_cases hk : k = u.input.toStream
    · subst hk
      exact ⟨_, Function.update_self .., hj hcreated head (hok.1.symm.trans hhead)⟩
    · exact ⟨head, (Function.update_of_ne hk ..).trans hhead, le_refl _⟩
  · rename_i hcreated
    split at h
    · cases h
      split
      · exact ⟨hi, hnone, hrefl⟩
      · exact ⟨hi.add nofun, hnone, hrefl⟩
    · rename_i hpassed
      split at h
      · cases h
        exact ⟨hi, hnone, hrefl⟩
      · obtain ⟨-, -, h⟩ := bind_eq_ok.mp h
        cases h
        refine ⟨hi.add fun _ _ => root_of_current hok (by simpa using hcreated) hpassed,
          fun v hv _ head hhead => ?_, hrefl⟩
        obtain rfl := Option.some.inj hv
        exact (behind_of_violation hpassed hhead).elim le_of_lt fun hsame => hsame.1.le

/-- In every run in which each write finds the head its call has read, with every accepted checkpoint
    behind it at the insert, no two accepted checkpoints conflict and no step lowers a head. -/
theorem stream_monotone (h : Run service.step (Service.When Current) ⟨⟨[], fun _ => none⟩, []⟩ w) :
    Agree w.store ∧ ∀ e w', Service.When Current w e → service.step w e = some w' → Rises w.store w'.store := by
  obtain ⟨hi, hj⟩ : Agree w.store ∧ ∀ u ∈ w.calls, Ahead u := by
    refine Service.invariant (J := fun u _ => Ahead u) h (by decide) nofun (fun _ hread => ?_)
      fun hi hj hok hwrite => ?_
    · obtain ⟨-, -, hread⟩ := bind_eq_ok.mp hread
      cases hread
      exact nofun
    · obtain ⟨hi', hown, -⟩ := write_spec hi hj hok hwrite
      exact ⟨hi', fun _ hv => hv, hown⟩
  refine ⟨hi, fun e w' hok hstep => ?_⟩
  rcases Service.step_cases hstep with ⟨hsame, -⟩ | ⟨u, now, next, rfl, hu, hwrite, -⟩
  · exact fun k head hhead => ⟨head, hsame ▸ hhead, le_refl _⟩
  · exact (write_spec hi (hj u hu) hok hwrite).2.2

def demo (sequence : Int) (root : String) : UpsertRevocationCheckpointInput :=
  ⟨⟨"stellar", "C", "sha256"⟩, sequence, root, 0⟩

def calls (input : UpsertRevocationCheckpointInput) (currentHead : Option StreamHead) :
    List (Service.Event UpsertRevocationCheckpointInput Upsert Int) :=
  [.write ⟨input, currentHead, false⟩ 0, .write ⟨input, currentHead, true⟩ 0]

/-- Two calls, one after the other. -/
theorem stream_monotone_twice :
    ∃ w, Run service.step (Service.When Current) ⟨⟨[], fun _ => none⟩, []⟩ w ∧ w.store.checkpoints.length = 2 ∧
      Agree w.store :=
  Run.exists_and
    ([.read (demo 3 "a") 0] ++ calls (demo 3 "a") none ++ [.read (demo 5 "b") 0] ++
      calls (demo 5 "b") (some ⟨demo 3 "a", 0, 1⟩)) fun _ hrun hrows => ⟨hrows, (stream_monotone hrun).1⟩

/-- Two calls read no head. The one of the lower sequence ends last; or both have one sequence. -/
theorem streams_fall_back :
    (∃ w w', Run service.step anyStep ⟨⟨[], fun _ => none⟩, []⟩ w ∧ Run service.step anyStep w w' ∧
      (w.store.heads (demo 5 "b").toStream).map (·.sequence) = some 5 ∧
      (w'.store.heads (demo 5 "b").toStream).map (·.sequence) = some 3) ∧
    ∃ w, Run service.step anyStep ⟨⟨[], fun _ => none⟩, []⟩ w ∧ ¬ Agree w.store := by
  constructor
  · exact Run.exists_both_of_replay ([.read (demo 3 "a") 0, .read (demo 5 "b") 0] ++ calls (demo 5 "b") none)
      (calls (demo 3 "a") none)
  · exact Run.exists_of_replay ([.read (demo 5 "a") 0, .read (demo 5 "b") 0] ++ calls (demo 5 "a") none ++
      calls (demo 5 "b") none)

end EarnProof.Proofs.RevocationCheckpoints
