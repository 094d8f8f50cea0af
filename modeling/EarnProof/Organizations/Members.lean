/-
  EarnProof.Organizations.Members — role changes and removals of organization members
  (`src/organizations/organization-members.service.ts`). The caller's role, the member, the count
  of owners and the write are accesses of their own, and the count is of rows of any status: two
  owners that step down at once both pass it, and so does the last active one beside a suspended
  one (`owners_step_down`). Where the write would pass the check again and every owner is
  active, an active owner is left (`active_owner_kept`).

  And `acceptInvitation` of `src/organizations/organization-invitations.service.ts`. The token is
  read as `<id>.<secret>`, else as a secret, and else as an id: the invited wallet needs no secret
  when it has the id (`accepted_without_secret`), and that reading is the only one without it
  (`secret_presented_iff`).
-/
import Mathlib.Data.List.DropRight
import Mathlib.Data.List.Sublists
import EarnProof.Common.Crypto
import EarnProof.Database.Rows
import EarnProof.Lib.Result
import EarnProof.Lib.Run
import EarnProof.Lib.Table

namespace EarnProof.Organizations

open Lib Lib.Table Lib.Result Database Common.Crypto List

inductive OrganizationMemberRole where
  | owner | admin | member | viewer
  deriving DecidableEq

structure OrganizationMember where
  id : String
  organizationId : String
  userId : String
  role : OrganizationMemberRole
  status : ResourceStatus
  deriving DecidableEq

/-- A call of `updateMemberRole`, or of `removeMember` where there is no role. -/
structure MemberChange where
  userId : String
  isAdmin : Bool
  organizationId : String
  memberId : String
  role : Option OrganizationMemberRole
  deriving DecidableEq

inductive Pending where
  | find (q : MemberChange)
  | count (q : MemberChange)
  | write (q : MemberChange)
  deriving DecidableEq

def getMemberRole (userId organizationId : String) (members : List OrganizationMember) :
    Option OrganizationMemberRole :=
  (members.find? fun m => m.organizationId = organizationId ∧ m.userId = userId).map (·.role)

def OrganizationMember.isOwner (organizationId : String) (m : OrganizationMember) : Bool :=
  m.organizationId = organizationId ∧ m.role = .owner

def MemberChange.demotes (q : MemberChange) (m : OrganizationMember) : Bool := m.role = .owner ∧ q.role ≠ some .owner

def access (pending : Pending) (members : List OrganizationMember) :
    Except String (List OrganizationMember × Option Pending) :=
  match pending with
  | .find q => do
    let m ← orThrow (members.find? (·.id = q.memberId)) "Organization member not found"
    require (m.organizationId = q.organizationId) "Organization member not found"
    return (members, some (if q.demotes m then .count q else .write q))
  | .count q => do
    require (members.countP (·.isOwner q.organizationId) ≠ 1)
      (if q.role.isSome then "Cannot demote the final owner. Assign a new owner first."
        else "Cannot remove the final owner. Assign a new owner first.")
    return (members, some (.write q))
  | .write q => do
    require (members.any (·.id = q.memberId)) "Record not found"
    match q.role with
    | some role => return (Table.update (·.id = q.memberId) ({ · with role }) members, none)
    | none => return (members.filter (·.id ≠ q.memberId), none)

def service : Service (List OrganizationMember) MemberChange Pending Unit where
  read _ q members := do
    require (q.isAdmin ∨ getMemberRole q.userId q.organizationId members = some .owner)
      "Only organization owners can perform this action"
    return .find q
  write _ := access

def HasOwner (organizationId : String) (members : List OrganizationMember) : Prop :=
  ∃ m ∈ members, m.isOwner organizationId ∧ m.status = .active

/-- The write of an owner that steps down would pass the check again, with every owner active. -/
def Rechecked (_ : Unit) (pending : Pending) (members : List OrganizationMember) : Prop :=
  match pending with
  | .write q => ∀ m ∈ members, m.id = q.memberId → q.demotes m →
    members.countP (·.isOwner m.organizationId) ≠ 1 ∧ ∀ o ∈ members, o.isOwner m.organizationId → o.status = .active
  | _ => True

instance (u : Unit) (pending : Pending) (members : List OrganizationMember) :
    Decidable (Rechecked u pending members) := by
  unfold Rechecked
  split <;> infer_instance

variable {members members' : List OrganizationMember} {organizationId : String} {q : MemberChange} {pending : Pending}
  {next : Option Pending} {w w' : Service.State (List OrganizationMember) Pending}

/-- An active owner is not the one that is written, or stays an owner. -/
theorem owner_left (hids : (members.map (·.id)).Nodup) (howner : HasOwner organizationId members)
    (hok : Rechecked () (.write q) members) : ∃ m ∈ members, m.isOwner organizationId ∧ m.status = .active ∧
      (m.id = q.memberId → q.role = some .owner) := by
  obtain ⟨m, hm, hisOwner, hactive⟩ := howner
  by_cases hdown : m.id = q.memberId ∧ q.role ≠ some .owner
  · obtain ⟨rfl, hrole⟩ := of_decide_eq_true hisOwner
    obtain ⟨hcount, hall⟩ := hok m hm hdown.1 (decide_eq_true ⟨hrole, hdown.2⟩)
    by_contra hnone
    -- were `m` the only owner, the count would be one
    refine hcount (countP_eq_one_of_key hids hm hisOwner fun o ho hother => ?_)
    by_contra hne
    exact hnone ⟨o, ho, hother, hall o ho hother, fun hid => absurd (hid.trans hdown.1.symm) hne⟩
  · exact ⟨m, hm, hisOwner, hactive, fun hid => not_not.mp fun hrole => hdown ⟨hid, hrole⟩⟩

theorem access_owner (hids : (members.map (·.id)).Nodup) (howner : HasOwner organizationId members)
    (hok : Rechecked () pending members) (h : access pending members = .ok (members', next)) :
    (members'.map (·.id)).Nodup ∧ HasOwner organizationId members' := by
  cases pending with
  | find =>
    obtain ⟨m, -, h⟩ := bind_eq_ok.mp h
    obtain ⟨-, -, h⟩ := bind_eq_ok.mp h
    cases h
    exact ⟨hids, howner⟩
  | count =>
    obtain ⟨-, -, h⟩ := bind_eq_ok.mp h
    cases h
    exact ⟨hids, howner⟩
  | write q =>
    obtain ⟨m, hm, hisOwner, hactive, hstays⟩ := owner_left hids howner hok
    obtain ⟨-, -, h⟩ := bind_eq_ok.mp h
    split at h
    · rename_i role hrole
      cases h
      refine ⟨nodup_update OrganizationMember.id (fun _ => rfl) hids, ?_⟩
      by_cases hid : m.id = q.memberId
      · obtain rfl := Option.some.inj (hrole.symm.trans (hstays hid))
        have horganization := (of_decide_eq_true hisOwner).1
        exact ⟨_, mem_update_of_sel hm (decide_eq_true hid), decide_eq_true ⟨horganization, rfl⟩, hactive⟩
      · exact ⟨m, mem_update_of_not hm (decide_eq_false hid), hisOwner, hactive⟩
    · rename_i hrole
      cases h
      refine ⟨(filter_sublist.map _).nodup hids, m, mem_filter.mpr ⟨hm, ?_⟩, hisOwner, hactive⟩
      exact decide_eq_true fun hid => nomatch hrole.symm.trans (hstays hid)

/-- In every run in which the write of an owner that steps down would pass the check again, with
    every owner active, an organization that has an active owner keeps one. -/
theorem active_owner_kept (h : Run service.step (Service.When Rechecked) w w') (hids : (w.store.map (·.id)).Nodup)
    (howner : HasOwner organizationId w.store) : HasOwner organizationId w'.store := by
  have hkept := Service.invariant (I := fun members => (members.map (·.id)).Nodup ∧ HasOwner organizationId members)
    (J := fun _ _ => True) h ⟨hids, howner⟩ (fun _ _ => trivial) (fun _ _ => trivial) fun hi _ hok haccess =>
      ⟨access_owner hi.1 hi.2 hok haccess, fun _ _ => trivial, fun _ _ => trivial⟩
  exact hkept.1.2

def owner (id userId : String) (status : ResourceStatus) : OrganizationMember := ⟨id, "org", userId, .owner, status⟩

def leave (id userId : String) : MemberChange := ⟨userId, false, "org", id, none⟩

def leaving (q : MemberChange) : List (Service.Event MemberChange Pending Unit) :=
  [.read q (), .write (.find q) (), .write (.count q) ()]

/-- One of two owners leaves. -/
theorem active_owner_kept_beside :
    ∃ w, Run service.step (Service.When Rechecked) ⟨[owner "a" "u" .active, owner "b" "v" .active], []⟩ w ∧
      w.store = [owner "b" "v" .active] ∧ HasOwner "org" w.store :=
  Run.exists_and (leaving (leave "a" "u") ++ [.write (.write (leave "a" "u")) ()])
    fun _ hw hstore => ⟨hstore, active_owner_kept hw (by decide) ⟨_, mem_cons_self, rfl, rfl⟩⟩

/-- Two owners leave at once; and the active one leaves beside a suspended one. -/
theorem owners_step_down :
    (∃ w, Run service.step anyStep ⟨[owner "a" "u" .active, owner "b" "v" .active], []⟩ w ∧ w.store = []) ∧
      ∃ w, Run service.step anyStep ⟨[owner "a" "u" .active, owner "b" "v" .suspended], []⟩ w ∧
        w.store = [owner "b" "v" .suspended] := by
  constructor
  · exact Run.exists_of_replay (leaving (leave "a" "u") ++ leaving (leave "b" "v") ++
      [.write (.write (leave "a" "u")) (), .write (.write (leave "b" "v")) ()])
  · exact Run.exists_of_replay (leaving (leave "a" "u") ++ [.write (.write (leave "a" "u")) ()])

inductive OrganizationInvitationStatus where
  | pending | accepted | declined | revoked | expired
  deriving DecidableEq

structure OrganizationInvitation where
  id : String
  organizationId : String
  recipientWalletAddress : String
  role : OrganizationMemberRole
  status : OrganizationInvitationStatus
  secretHash : String
  expiresAt : Int
  acceptedAt : Option Int
  acceptedById : Option String
  declinedAt : Option Int
  revokedAt : Option Int
  deriving DecidableEq

structure InvitationTables where
  invitations : List OrganizationInvitation
  members : List OrganizationMember
  deriving DecidableEq

/-- A call with its time, and the id its membership would get. -/
structure Acceptance where
  userId : String
  walletAddress : String
  token : String
  organizationId : Option String
  routeOrgId : Option String
  now : Int
  memberId : String

-- `Buffer.from` stops at the first pair that is not hex, and `timingSafeEqual` throws on two lengths.
def safeEqual (a b : String) : Except String Bool :=
  let x := hexBytes (a.toList.takeWhile isHex)
  let y := hexBytes (b.toList.takeWhile isHex)
  if a.length ≠ b.length then .ok false
  else if x.length ≠ y.length then .error "Input buffers must have the same byte length"
  else .ok (x = y)

def trimmed (s : String) : String := String.ofList (JsText.trim s.toList)

/-- The two sides of the first dot, where something stands before it. -/
def dotted (token : String) : Option (String × String) :=
  let id := token.toList.takeWhile (· ≠ '.')
  if id ≠ [] ∧ '.' ∈ token.toList then some (String.ofList id, String.ofList (token.toList.drop (id.length + 1)))
    else none

variable (invitations : List OrganizationInvitation)

def resolveInvitation (tokenOrId : String) : Except String OrganizationInvitation :=
  let notFound := "Invitation not found or invalid token"
  if tokenOrId = "" then .error notFound
  else match dotted (trimmed tokenOrId) with
    | some (id, secret) => do
      let invitation ← orThrow (invitations.find? (·.id = id)) notFound
      let equal ← safeEqual (sha256 secret) invitation.secretHash
      require equal notFound
      return invitation
    | none =>
      match invitations.find? (·.secretHash = sha256 (trimmed tokenOrId)) with
      | some invitation => .ok invitation
      | none => orThrow (invitations.find? (·.id = trimmed tokenOrId)) notFound

variable (toUpperCase : String → String)

/-- `seen` is what the lookups of the invitation read, and `t` the tables of the transaction. -/
def acceptInvitation (call : Acceptance) (seen : List OrganizationInvitation) (t : InvitationTables) :
    Except String (InvitationTables × OrganizationInvitation × OrganizationMember) := do
  let invitation ← resolveInvitation seen call.token
  -- An empty text counts as none.
  let expectedOrgId := (call.routeOrgId.filter (· ≠ "")).or (call.organizationId.filter (· ≠ ""))
  require (expectedOrgId.all (· = invitation.organizationId)) "Invitation does not belong to specified organization"
  require (toUpperCase (trimmed call.walletAddress) = toUpperCase (trimmed invitation.recipientWalletAddress))
    "Invitation was issued for a different wallet address"
  require (invitation.status ≠ .revoked ∧ invitation.revokedAt = none) "Invitation has been revoked"
  require (invitation.status ≠ .declined ∧ invitation.declinedAt = none) "Invitation has been declined"
  require (invitation.status ≠ .accepted ∧ invitation.acceptedAt = none) "Invitation has already been accepted"
  require (invitation.status ≠ .expired ∧ call.now < invitation.expiresAt) "Invitation has expired"
  let open? (i : OrganizationInvitation) : Bool := i.id = invitation.id ∧ i.status = .pending ∧ call.now < i.expiresAt
  let accept (i : OrganizationInvitation) :=
    { i with status := .accepted, acceptedAt := some call.now, acceptedById := some call.userId }
  require (t.invitations.any open?) "Invitation is no longer pending or has already been accepted/expired"
  require (getMemberRole call.userId invitation.organizationId t.members = none)
    "User is already a member of this organization"
  let member := ⟨call.memberId, invitation.organizationId, call.userId, invitation.role, .active⟩
  return (⟨Table.update open? accept t.invitations, t.members ++ [member]⟩, accept invitation, member)

/-- Some part of the token has this SHA-256. -/
def Presents (token secretHash : String) : Prop :=
  ∃ s, s <:+: token.toList ∧ safeEqual (sha256 (String.ofList s)) secretHash = .ok true

/-- The token is not read as an id, or the invitation of that id has the hash of a part of it. -/
def NeedsSecret (token : String) : Prop :=
  (dotted (trimmed token)).isSome ∨ (∃ i ∈ invitations, i.secretHash = sha256 (trimmed token)) ∨
    ∃ i, invitations.find? (·.id = trimmed token) = some i ∧ Presents token i.secretHash

variable {toUpperCase} {call : Acceptance} {seen : List OrganizationInvitation} {t t' : InvitationTables}
  {i : OrganizationInvitation} {m : OrganizationMember} {token : String}

theorem trimmed_part (s : String) : (trimmed s).toList <:+: s.toList := by
  rw [trimmed, String.toList_ofList]
  exact ( rdropWhile_prefix _ _).isInfix.trans (dropWhile_suffix _).isInfix

theorem dotted_part {id secret : String} (h : dotted token = some (id, secret)) : secret.toList <:+: token.toList := by
  simp only [dotted, Option.ite_none_right_eq_some, Option.some.injEq, Prod.mk.injEq] at h
  obtain ⟨-, -, rfl⟩ := h
  rw [String.toList_ofList]
  exact (drop_suffix _ _).isInfix

-- One case for each reading of the token, in the order of the lookups.
theorem resolved_presents_iff (h : resolveInvitation seen token = .ok i) :
    Presents token i.secretHash ↔ NeedsSecret seen token := by
  unfold resolveInvitation at h
  split at h
  · cases h
  cases hdot : dotted (trimmed token) with
  | some parts =>
    simp only [hdot, bind_eq_ok, orThrow_eq_ok, require_eq_ok, pure_eq_ok] at h
    obtain ⟨found, -, equal, heq, -, rfl, rfl⟩ := h
    have hpart : parts.2.toList <:+: token.toList := (dotted_part hdot).trans (trimmed_part token)
    refine iff_of_true ⟨_, hpart, ?_⟩ (.inl (by rw [hdot]; rfl))
    rw [String.ofList_toList, heq]
  | none =>
    simp only [hdot] at h
    split at h
    · next found hhash =>
      cases h
      have hsecret : i.secretHash = sha256 (trimmed token) := by simpa using find?_some hhash
      refine iff_of_true ⟨_, trimmed_part token, ?_⟩ (.inr (.inl ⟨i, mem_of_find?_eq_some hhash, hsecret⟩))
      simp [hsecret, safeEqual]
    · next hhash =>
      rw [orThrow_eq_ok] at h
      constructor
      · exact fun hpresents => .inr (.inr ⟨i, h, hpresents⟩)
      · rintro (hsome | ⟨j, hj, hsecret⟩ | ⟨j, hfound, hpresents⟩)
        · rw [hdot] at hsome
          cases hsome
        · exact absurd (decide_eq_true hsecret) (find?_eq_none.1 hhash j hj)
        · rw [h] at hfound
          cases hfound
          exact hpresents

theorem secret_presented_iff (h : acceptInvitation toUpperCase call seen t = .ok (t', i, m)) :
    Presents call.token i.secretHash ↔ NeedsSecret seen call.token := by
  unfold acceptInvitation at h
  simp only [bind_eq_ok, require_eq_ok, pure_eq_ok, Prod.mk.injEq] at h
  obtain ⟨found, hfound, -, -, -, -, -, -, -, -, -, -, -, -, -, -, -, -, -, rfl, -⟩ := h
  exact resolved_presents_iff (i := found) hfound

def invited : OrganizationInvitation :=
  ⟨"c1", "org", "GUEST", .admin, .pending, sha256 "secret", 10, none, none, none, none⟩

def joined : OrganizationInvitation :=
  { invited with status := .accepted, acceptedAt := some 0, acceptedById := some "guest" }

def joinedMember : OrganizationMember := ⟨"m1", "org", "guest", .admin, .active⟩

def byId : Acceptance := ⟨"guest", "GUEST", "c1", none, none, 0, "m1"⟩

theorem secret_presented_iff_dotted : Presents "c1.secret" joined.secretHash := by
  have h : acceptInvitation id { byId with token := "c1.secret" } [invited] ⟨[invited], []⟩ =
      .ok (⟨[joined], [joinedMember]⟩, joined, joinedMember) := by decide +kernel
  exact (secret_presented_iff h).mpr (.inl (by decide +kernel))

theorem accepted_without_secret :
    acceptInvitation id byId [invited] ⟨[invited], []⟩ = .ok (⟨[joined], [joinedMember]⟩, joined, joinedMember) ∧
      ¬ Presents byId.token joined.secretHash := by
  refine ⟨by decide +kernel, ?_⟩
  rintro ⟨s, hs, heq⟩
  have hother : ∀ s ∈ byId.token.toList.sublists, safeEqual (sha256 (String.ofList s)) joined.secretHash ≠
      .ok true := by
    decide +kernel
  exact hother s (mem_sublists.2 hs.sublist) heq

end EarnProof.Organizations
