/-
  EarnProof.Lib.Rounds — a queue served in batches from its front, where only some items
  leave the front when they are served, and an item may jam the batch behind it.

  Everything is seen if and only if, of all items but the last, fewer than a batch stay in
  front and none jams (`seen_all_iff`): movers make way for what is behind them, one in each
  round at least, and whatever stays keeps its place for good.
-/
import Mathlib.Data.List.Count
import Mathlib.Data.List.DropRight

namespace EarnProof.Lib.Rounds

open List

variable {α : Type} (k : Nat) (moves jams : α → Bool)

/-- The part of a batch that is served: up to the first item that jams, which is served last. -/
def served : List α → List α
  | [] => []
  | x :: xs => if jams x then [x] else x :: served xs

def batch (front : List α) : List α := served jams (front.take k)

def remaining (front : List α) : List α :=
  (batch k jams front).filter (fun x => !moves x) ++ front.drop (batch k jams front).length

/-- What is seen in the first rounds. -/
def seen : Nat → List α → List α
  | 0, _ => []
  | n + 1, front => batch k jams front ++ seen n (remaining k moves jams front)

variable {k moves jams}

/-! ## Batches -/

theorem served_eq_take (jams : α → Bool) (xs : List α) : served jams xs = xs.take (served jams xs).length := by
  induction xs with
  | nil => rfl
  | cons x xs ih =>
    unfold served
    split
    · rfl
    · rw [length_cons, take_succ_cons, ← ih]

variable {xs pre : List α}

/-- What is served of two lists: nothing behind a jam in the first. -/
theorem served_append (jams : α → Bool) (xs ys : List α) :
    served jams (xs ++ ys) = if xs.any jams then served jams xs else xs ++ served jams ys := by
  induction xs with
  | nil => rfl
  | cons x xs ih =>
    rw [cons_append, served, served, ih, any_cons]
    cases jams x <;> cases xs.any jams <;> rfl

theorem served_of_clear (h : ∀ x ∈ xs, jams x = false) : served jams xs = xs := by
  have hclear : ¬ xs.any jams := by simpa using h
  have hserved := served_append jams xs []
  rwa [if_neg hclear, served, append_nil] at hserved

/-- It is what is served of the first, and part of the second. -/
theorem exists_served_append (jams : α → Bool) (xs ys : List α) :
    ∃ zs, served jams (xs ++ ys) = served jams xs ++ zs ∧ ∀ z ∈ zs, z ∈ ys := by
  rw [served_append]
  split
  · exact ⟨[], (append_nil _).symm, nofun⟩
  · rename_i hclear
    have hfirst : served jams xs = xs := served_of_clear (by simpa using hclear)
    rw [hfirst]
    exact ⟨served jams ys, rfl, fun z hz => mem_of_mem_take (served_eq_take jams ys ▸ hz)⟩

theorem batch_append_drop (k : Nat) (jams : α → Bool) (front : List α) :
    batch k jams front ++ front.drop (batch k jams front).length = front := by
  have hfront : batch k jams front = front.take (batch k jams front).length := by
    have htake := served_eq_take jams (front.take k)
    rw [take_take] at htake
    have hle : (served jams (front.take k)).length ≤ k := by
      rw [htake, length_take]
      omega
    rw [Nat.min_eq_left hle] at htake
    exact htake
  nth_rewrite 1 [hfront]
  exact take_append_drop _ _

variable {front : List α} {x : α}

theorem mem_of_mem_batch (h : x ∈ batch k jams front) : x ∈ front := by
  rw [← batch_append_drop k jams front]
  exact mem_append_left _ h

/-- Nothing that stays is lost: what a round does not leave in front is a mover it served. -/
theorem mem_batch_or_remaining (moves : α → Bool) (h : x ∈ front) :
    x ∈ batch k jams front ∨ x ∈ remaining k moves jams front := by
  rw [← batch_append_drop k jams front] at h
  exact (mem_append.mp h).imp_right (mem_append_right _)

theorem remaining_sublist (front : List α) : (remaining k moves jams front).Sublist front := by
  conv => rhs; rw [← batch_append_drop k jams front]
  exact filter_sublist.append (Sublist.refl _)

/-- What leaves the front is served and moves. -/
theorem moves_of_not_remaining (h : x ∈ front) (hx : x ∉ remaining k moves jams front) :
    x ∈ batch k jams front ∧ moves x := by
  have hbatch := (mem_batch_or_remaining moves h).resolve_right hx
  refine ⟨hbatch, Bool.not_eq_false _ ▸ fun hstays => hx (mem_append_left _ ?_)⟩
  exact mem_filter.mpr ⟨hbatch, by simp [hstays]⟩

/-- What stays in front does not move, or was not served. -/
theorem not_moves_of_remaining (hnodup : front.Nodup) (h : x ∈ remaining k moves jams front)
    (hbatch : x ∈ batch k jams front) : moves x = false := by
  rw [← batch_append_drop k jams front] at hnodup
  rcases mem_append.mp h with hkept | hlater
  · simpa using (mem_filter.mp hkept).2
  · exact absurd rfl ((nodup_append.mp hnodup).2.2 x hbatch x hlater)

theorem mem_of_mem_remaining (h : x ∈ remaining k moves jams front) : x ∈ front :=
  (remaining_sublist front).subset h

theorem mem_of_mem_seen (n : Nat) : ∀ {front : List α} {x : α}, x ∈ seen k moves jams n front → x ∈ front := by
  induction n with
  | zero => exact nofun
  | succ n ih =>
    intro front x h
    rcases mem_append.mp h with hbatch | hlater
    · exact mem_of_mem_batch hbatch
    · exact mem_of_mem_remaining (ih hlater)

/-! ## An open queue is seen -/

/-- Of all but the last, fewer than a batch stay and none jams. -/
def Open (k : Nat) (moves jams : α → Bool) (front : List α) : Prop :=
  (front.dropLast.countP fun x => !moves x) < k ∧ ∀ x ∈ front.dropLast, jams x = false

theorem batch_of_open (h : Open k moves jams front) : batch k jams front = front.take k := by
  unfold batch
  cases front using List.reverseRecOn with
  | nil => simp [served]
  | append_singleton xs =>
    have hclear : ∀ x ∈ xs, jams x = false := by simpa using h.2
    rcases Nat.lt_or_ge xs.length k with hlt | hge
    · rw [take_of_length_le (by rw [length_append]; exact hlt)]
      rw [served_append, if_neg (by simpa using hclear)]
      simp [served]
    · rw [take_append_of_le_length hge]
      exact served_of_clear fun x hx => hclear x (mem_of_mem_take hx)

/-- A round that does not reach the end moves something out of its way, and the queue stays open. -/
theorem open_remaining (h : Open k moves jams front) (hlong : k < front.length) :
    (remaining k moves jams front).length < front.length ∧ Open k moves jams (remaining k moves jams front) := by
  have hdrop : front.drop k ≠ [] := by simpa using hlong
  have hsplit : front.dropLast = front.take k ++ (front.drop k).dropLast := by
    rw [← dropLast_append_of_ne_nil hdrop, take_append_drop]
  have hlen : (batch k jams front).length = k := by
    rw [batch_of_open h, length_take]
    omega
  have hrest : remaining k moves jams front = (front.take k).filter (fun x => !moves x) ++ front.drop k := by
    unfold remaining
    rw [hlen, batch_of_open h]
  have hcount : ((front.take k).filter fun x => !moves x).length +
      ((front.drop k).dropLast.countP fun x => !moves x) < k := by
    have hfew := h.1
    rw [hsplit, countP_append, countP_eq_length_filter] at hfew
    exact hfew
  refine ⟨?_, ?_, fun x hx => ?_⟩
  · rw [hrest, length_append, length_drop]
    omega
  · rw [hrest, dropLast_append_of_ne_nil hdrop, countP_append, countP_filter]
    simpa [countP_eq_length_filter] using hcount
  · rw [hrest, dropLast_append_of_ne_nil hdrop] at hx
    refine h.2 x ?_
    rw [hsplit]
    exact mem_append.mpr ((mem_append.mp hx).imp_left mem_of_mem_filter)

theorem seen_of_open (n : Nat) : ∀ {front : List α}, Open k moves jams front → front.length ≤ n →
    ∀ x ∈ front, x ∈ seen k moves jams n front := by
  induction n with
  | zero =>
    intro front _ hlen x hx
    rw [eq_nil_of_length_eq_zero (Nat.le_zero.mp hlen)] at hx
    cases hx
  | succ n ih =>
    intro front h hlen x hx
    show x ∈ batch k jams front ++ seen k moves jams n (remaining k moves jams front)
    rcases Nat.lt_or_ge k front.length with hlong | hshort
    · obtain ⟨hless, hopen⟩ := open_remaining h hlong
      rcases mem_batch_or_remaining moves hx with hbatch | hrest
      · exact mem_append_left _ hbatch
      · exact mem_append_right _ (ih hopen (by omega) x hrest)
    · rw [batch_of_open h, take_of_length_le hshort]
      exact mem_append_left _ hx

/-! ## A closed queue hides its last item -/

theorem batch_of_closed (z : α)
    (h : k ≤ (pre.countP fun x => !moves x) ∨ ∃ y ∈ pre, jams y) : batch k jams (pre ++ [z]) = batch k jams pre := by
  unfold batch
  rcases Nat.lt_or_ge pre.length k with hlt | hge
  · have hjam : ∃ y ∈ pre, jams y := h.resolve_left fun hmany => by
      have := countP_le_length (p := fun x => !moves x) (l := pre)
      omega
    rw [take_of_length_le (by rw [length_append]; exact hlt), take_of_length_le (Nat.le_of_lt hlt)]
    rw [served_append, if_pos (any_eq_true.mpr hjam)]
  · rw [take_append_of_le_length hge]

theorem closed_remaining (hjam : ∀ x, jams x → moves x = false)
    (h : k ≤ (pre.countP fun x => !moves x) ∨ ∃ y ∈ pre, jams y) (z : α) :
    ∃ pre', remaining k moves jams (pre ++ [z]) = pre' ++ [z] ∧ (∀ x ∈ pre', x ∈ pre) ∧
      (k ≤ (pre'.countP fun x => !moves x) ∨ ∃ y ∈ pre', jams y) := by
  have hsplit := batch_append_drop k jams pre
  have hlen : (batch k jams pre).length ≤ pre.length := by
    have := congrArg List.length hsplit
    rw [length_append] at this
    omega
  refine ⟨remaining k moves jams pre, ?_, fun x => mem_of_mem_remaining, ?_⟩
  · unfold remaining
    rw [batch_of_closed z h, drop_append_of_le_length hlen, append_assoc]
  · refine h.imp (fun hmany => ?_) fun hjams => ?_
    · rw [← hsplit, countP_append] at hmany
      unfold remaining
      rw [countP_append, countP_filter]
      simpa using hmany
    · obtain ⟨y, hy, hyjam⟩ := hjams
      refine ⟨y, ?_, hyjam⟩
      rw [← hsplit] at hy
      refine mem_append.mpr ((mem_append.mp hy).imp_left fun hbatch => ?_)
      exact mem_filter.mpr ⟨hbatch, by simp [hjam y hyjam]⟩

theorem not_seen_of_closed (hjam : ∀ x, jams x → moves x = false) {z : α} (n : Nat) : ∀ {pre : List α}, z ∉ pre →
    (k ≤ (pre.countP fun x => !moves x) ∨ ∃ y ∈ pre, jams y) → z ∉ seen k moves jams n (pre ++ [z]) := by
  induction n with
  | zero => exact fun _ _ => not_mem_nil
  | succ n ih =>
    intro pre hz h hseen
    rcases mem_append.mp hseen with hbatch | hlater
    · rw [batch_of_closed z h] at hbatch
      exact hz (mem_of_mem_batch hbatch)
    · obtain ⟨pre', hrest, hsub, h'⟩ := closed_remaining hjam h z
      rw [hrest] at hlater
      exact ih (fun hz' => hz (hsub z hz')) h' hlater

/-- Everything is seen, in as many rounds as there are items, exactly when the queue is open. -/
theorem seen_all_iff (hk : 0 < k) (hjam : ∀ x, jams x → moves x = false) (hnodup : front.Nodup) :
    (∀ x ∈ front, x ∈ seen k moves jams front.length front) ↔ Open k moves jams front := by
  constructor
  · intro hall
    cases front using List.reverseRecOn with
    | nil => exact ⟨hk, nofun⟩
    | append_singleton pre z =>
      have hz : z ∉ pre := fun h => (nodup_append.mp hnodup).2.2 z h z (mem_singleton_self z) rfl
      by_contra hclosed
      refine not_seen_of_closed hjam _ hz ?_ (hall z (by simp))
      unfold Open at hclosed
      rw [dropLast_concat, not_and_or] at hclosed
      refine hclosed.imp Nat.le_of_not_lt fun hjams => ?_
      push Not at hjams
      exact hjams.imp fun y hy => ⟨hy.1, by simpa using hy.2⟩
  · exact fun hopen => seen_of_open _ hopen (Nat.le_refl _)

end EarnProof.Lib.Rounds
