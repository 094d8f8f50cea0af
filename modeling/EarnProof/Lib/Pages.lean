/-
  EarnProof.Lib.Pages — a table read page by page in the order of a key, each page
  starting behind the last key of the one before.

  Proved: when no two rows have one key, a fold over the pages is the fold over all
  rows in key order, whatever the page size (`foldPages_eq`).
-/
import Mathlib.Data.List.Sort

namespace EarnProof.Lib.Pages

open List

variable {α κ σ ε : Type} [LinearOrder κ] (key : α → κ)

/-- `orderBy: { key: "asc" }`. -/
def inOrder (rows : List α) : List α := rows.insertionSort fun a b => key a ≤ key b

def behind (cursor : Option κ) (r : α) : Bool := cursor.all (· < key r)

/-- `findMany({ where: { key: { gt: cursor } }, orderBy: { key: "asc" }, take: size })`. -/
def page (size : Nat) (rows : List α) (cursor : Option κ) : List α :=
  (inOrder key (rows.filter (behind key cursor))).take size

/-- The loop over the pages: it ends with an empty page or a short one. -/
def foldPages (f : σ → α → Except ε σ) (size : Nat) (rows : List α) : Nat → Option κ → σ → Except ε σ
  | 0, _, s => .ok s
  | fuel + 1, cursor, s =>
    let p := page key size rows cursor
    if p = [] then .ok s
    else do
      let s ← p.foldlM f s
      if p.length < size then .ok s else foldPages f size rows fuel (p.getLast?.map key) s

/-! ## Key order -/

instance total_key : Std.Total fun a b : α => key a ≤ key b := ⟨fun a b => le_total (key a) (key b)⟩

instance trans_key : IsTrans α fun a b => key a ≤ key b := ⟨fun _ _ _ => le_trans⟩

instance irrefl_key : Std.Irrefl fun a b : α => key a < key b := ⟨fun a => lt_irrefl (key a)⟩

instance antisymm_key : Std.Antisymm fun a b : α => key a < key b := ⟨fun _ _ hab hba => absurd hab (lt_asymm hba)⟩

variable {key} {rows : List α} {r : α} {size : Nat} {l' l : List α}

theorem mem_inOrder : r ∈ inOrder key rows ↔ r ∈ rows := mem_insertionSort _

theorem inOrder_strict (h : (rows.map key).Nodup) : (inOrder key rows).Pairwise fun a b => key a < key b := by
  have hle : (inOrder key rows).Pairwise fun a b => key a ≤ key b := pairwise_insertionSort _ rows
  have hnodup : ((inOrder key rows).map key).Nodup := ((perm_insertionSort _ rows).map key).nodup_iff.mpr h
  have hne : (inOrder key rows).Pairwise fun a b => key a ≠ key b := pairwise_map.mp hnodup
  exact (hle.and hne).imp fun hab => lt_of_le_of_ne hab.1 hab.2

theorem filter_inOrder (h : (rows.map key).Nodup) (p : α → Bool) :
    (inOrder key rows).filter p = inOrder key (rows.filter p) := by
  have hsub : ((rows.filter p).map key).Nodup := (filter_sublist.map key).nodup h
  refine List.Pairwise.eq_of_mem_iff ((inOrder_strict h).filter p) (inOrder_strict hsub) fun r => ?_
  rw [mem_filter, mem_inOrder, mem_inOrder, mem_filter]

/-- Rows that are in order and before all others are the first ones. -/
theorem inOrder_of_front (h : (rows.map key).Nodup) {front : List α} (hsorted : front.Pairwise fun a b => key a < key b)
    (hsub : ∀ r ∈ front, r ∈ rows) (hfirst : ∀ a ∈ front, ∀ b ∈ rows, b ∉ front → key a < key b) :
    ∃ rest, inOrder key rows = front ++ rest ∧ ∀ r, r ∈ rest ↔ r ∈ rows ∧ r ∉ front := by
  classical
  have hmem : ∀ r, r ∈ inOrder key (rows.filter fun r => decide (r ∉ front)) ↔ r ∈ rows ∧ r ∉ front := by
    intro r
    rw [mem_inOrder, mem_filter, decide_eq_true_eq]
  refine ⟨_, ?_, hmem⟩
  have hkept : ((rows.filter fun r => decide (r ∉ front)).map key).Nodup := (filter_sublist.map key).nodup h
  have hrest := inOrder_strict hkept
  refine List.Pairwise.eq_of_mem_iff (inOrder_strict h) (pairwise_append.mpr ⟨hsorted, hrest, fun a ha b hb => ?_⟩)
    fun r => ?_
  · obtain ⟨hrows, hnot⟩ := (hmem b).mp hb
    exact hfirst a ha b hrows hnot
  · rw [mem_inOrder, mem_append, hmem]
    refine ⟨fun hr => ?_, fun hr => hr.elim (hsub r) And.left⟩
    by_cases hin : r ∈ front
    · exact .inl hin
    · exact .inr ⟨hr, hin⟩

/-- A row before one of the first rows is itself among them. -/
theorem mem_take_of_lt (h : (rows.map key).Nodup) {a b : α} (ha : a ∈ rows)
    (hb : b ∈ (inOrder key rows).take size) (hlt : key a < key b) : a ∈ (inOrder key rows).take size := by
  have hsplit := inOrder_strict h
  rw [← take_append_drop size (inOrder key rows)] at hsplit
  have hmem : a ∈ (inOrder key rows).take size ++ (inOrder key rows).drop size := by
    rw [take_append_drop]
    exact mem_inOrder.mpr ha
  rcases mem_append.mp hmem with hfirst | hrest
  · exact hfirst
  · exact absurd ((pairwise_append.mp hsplit).2.2 b hb a hrest) (lt_asymm hlt)

/-- When every row behind a kept one is kept, the kept rows are the last ones. -/
theorem filter_suffix {keep : α → Bool} (h : rows.Pairwise fun a b => keep a → keep b) :
    rows.filter keep <:+ rows := by
  induction rows with
  | nil => exact suffix_refl _
  | cons r rows ih =>
    obtain ⟨hr, hrows⟩ := pairwise_cons.mp h
    cases hk : keep r with
    | true =>
      have hall : (r :: rows).filter keep = r :: rows :=
        filter_eq_self.mpr (forall_mem_cons.mpr ⟨hk, fun x hx => hr x hx hk⟩)
      exact ⟨[], hall⟩
    | false =>
      rw [filter_cons_of_neg (by simp [hk])]
      exact (ih hrows).trans (suffix_cons r rows)

/-- The first row in order is the one with the least key. -/
theorem take_one_inOrder (h : (rows.map key).Nodup) (hr : r ∈ rows) (hleast : ∀ x ∈ rows, key r ≤ key x) :
    (inOrder key rows).take 1 = [r] := by
  have hstrict := inOrder_strict h
  have hmem : r ∈ inOrder key rows := mem_inOrder.mpr hr
  cases hl : inOrder key rows with
  | nil => rw [hl] at hmem; cases hmem
  | cons x =>
    have hx : x ∈ rows := mem_inOrder.mp (hl ▸ mem_cons_self)
    rw [hl] at hstrict hmem
    rcases mem_cons.mp hmem with rfl | hrest
    · rfl
    · exact absurd (hleast x hx) (not_le.mpr ((pairwise_cons.mp hstrict).1 r hrest))

/-! ## The first rows of a selection -/

/-- Sorting keeps a selection of a selection inside it. -/
theorem insertionSort_sublist {le : α → α → Prop} [DecidableRel le] [Std.Total le] [IsTrans α le]
    (h : l'.Sublist l) : (l'.insertionSort le).Sublist (l.insertionSort le) := by
  induction h with
  | slnil => exact Sublist.refl _
  | cons a _ ih => exact ih.trans (sublist_orderedInsert a _)
  | cons_cons a _ ih => exact ih.orderedInsert_sublist a (pairwise_insertionSort le _)

/-- Rows taken away behind the first ones leave the first ones as they are. -/
theorem take_of_sublist (h : l'.Sublist l) (hl : l.Nodup) {n : Nat} (hmem : ∀ a ∈ l.take n, a ∈ l') :
    l'.take n = l.take n := by
  rw [← take_append_drop n l] at h hl
  obtain ⟨front, rest, rfl, hfront, hrest⟩ := sublist_append_iff.mp h
  obtain ⟨hnodup, -, hcross⟩ := nodup_append.mp hl
  have hsub : l.take n ⊆ front := by
    intro a ha
    rcases mem_append.mp (hmem a ha) with ha' | ha'
    · exact ha'
    · exact absurd rfl (hcross a ha a (hrest.subset ha'))
  have heq : front = l.take n := hfront.eq_of_length_le (subperm_of_subset hnodup hsub).length_le
  subst heq
  rcases Nat.le_total n l.length with hn | hn
  · exact take_left' (length_take_of_le hn)
  · have hnil : rest = [] := sublist_nil.mp (drop_eq_nil_of_le hn ▸ hrest)
    rw [hnil, append_nil, take_take, Nat.min_self]

/-! ## The fold over the pages -/

/-- Of rows in order, those after the last of a front are the rows behind the front. -/
theorem filter_after_last {after : α → α → Bool} {front rest : List α}
    (hasymm : ∀ a b, after a b → after b a = false)
    (hl : (front ++ rest).Pairwise fun a b => after a b) (hr : front.getLast? = some r) :
    (front ++ rest).filter (after r) = rest := by
  obtain ⟨init, rfl⟩ := getLast?_eq_some_iff.mp hr
  obtain ⟨hfront, -, hcross⟩ := pairwise_append.mp hl
  have hirrefl : after r r ≠ true := fun h => absurd h (by rw [hasymm r r h]; decide)
  have hbefore : (init ++ [r]).filter (after r) = [] := by
    refine filter_eq_nil_iff.mpr fun x hx => ?_
    rcases mem_append.mp hx with hx | hx
    · rw [hasymm x r ((pairwise_append.mp hfront).2.2 x hx r mem_cons_self)]
      decide
    · obtain rfl := mem_singleton.mp hx
      exact hirrefl
  rw [filter_append, hbefore, nil_append]
  exact filter_eq_self.mpr fun x hx => hcross r (mem_append_right _ mem_cons_self) x hx

/-- What lies behind the last row of a page is what the page left over. -/
theorem filter_behind_last (hl : l.Pairwise fun a b => key a < key b)
    (hr : (l.take size).getLast? = some r) : l.filter (behind key (some (key r))) = l.drop size := by
  rw [← take_append_drop size l] at hl
  have hrest : (l.take size ++ l.drop size).filter (behind key (some (key r))) = l.drop size :=
    filter_after_last (fun a b h => decide_eq_false (lt_asymm (of_decide_eq_true h)))
      (hl.imp decide_eq_true) hr
  rwa [take_append_drop] at hrest

/-- A later cursor picks among the rows behind an earlier one. -/
theorem filter_behind_behind {cursor : Option κ} (hr : behind key cursor r) :
    (rows.filter (behind key cursor)).filter (behind key (some (key r))) = rows.filter (behind key (some (key r))) := by
  rw [filter_filter]
  refine filter_congr fun x _ => ?_
  cases cursor with
  | none => simp [behind]
  | some c =>
    have hc : c < key r := of_decide_eq_true hr
    by_cases hx : key r < key x
    · simp [behind, hx, hc.trans hx]
    · simp [behind, hx]

theorem foldPages_behind (f : σ → α → Except ε σ) (hsize : 0 < size) (h : (rows.map key).Nodup) :
    ∀ (fuel : Nat) (cursor : Option κ) (s : σ), (rows.filter (behind key cursor)).length < fuel →
      foldPages key f size rows fuel cursor s = (inOrder key (rows.filter (behind key cursor))).foldlM f s := by
  intro fuel
  induction fuel with
  | zero => intro cursor s hfuel; exact absurd hfuel (Nat.not_lt_zero _)
  | succ fuel ih =>
    intro cursor s hfuel
    unfold foldPages
    have hnodup : ((rows.filter (behind key cursor)).map key).Nodup := (filter_sublist.map key).nodup h
    generalize hl : inOrder key (rows.filter (behind key cursor)) = l
    have hpage : page key size rows cursor = l.take size := by unfold page; rw [hl]
    have hstrict : l.Pairwise fun a b => key a < key b := hl ▸ inOrder_strict hnodup
    have hlen : l.length < fuel + 1 := by rw [← hl, inOrder, length_insertionSort]; exact hfuel
    simp only [hpage]
    by_cases hempty : l.take size = []
    · rw [if_pos hempty]
      have hnil : l = [] := (take_eq_nil_iff.mp hempty).resolve_left (by omega)
      rw [hnil]
      rfl
    · rw [if_neg hempty]
      -- the fold over the rest is the fold over this page and then over what it left
      have hfold : l.foldlM f s = (l.take size).foldlM f s >>= fun s => (l.drop size).foldlM f s := by
        rw [← foldlM_append, take_append_drop]
      rw [hfold]
      congr 1
      funext s'
      split
      · rename_i hshort
        have hdrop : l.drop size = [] := by
          rw [length_take] at hshort
          exact drop_eq_nil_iff.mpr (by omega)
        rw [hdrop]
        rfl
      · rename_i hfull
        obtain ⟨r, hr⟩ : ∃ r, (l.take size).getLast? = some r :=
          Option.ne_none_iff_exists'.mp fun hnone => hempty (getLast?_eq_none_iff.mp hnone)
        have hmem : r ∈ rows.filter (behind key cursor) :=
          mem_inOrder.mp (hl ▸ mem_of_mem_take (mem_of_getLast? hr))
        have hrest : inOrder key (rows.filter (behind key (some (key r)))) = l.drop size := by
          rw [← filter_behind_behind (mem_filter.mp hmem).2, ← filter_inOrder hnodup, hl]
          exact filter_behind_last hstrict hr
        have hshorter : (rows.filter (behind key (some (key r)))).length < fuel := by
          have hrows : (rows.filter (behind key (some (key r)))).length = (l.drop size).length := by
            rw [← hrest, inOrder, length_insertionSort]
          rw [hrows, length_drop]
          rw [length_take] at hfull
          omega
        rw [hr, Option.map_some, ih (some (key r)) s' hshorter, hrest]

/-- Reading page by page is reading all rows in key order. -/
theorem foldPages_eq (f : σ → α → Except ε σ) (hsize : 0 < size) (h : (rows.map key).Nodup) (s : σ) :
    foldPages key f size rows (rows.length + 1) none s = (inOrder key rows).foldlM f s := by
  have hall : rows.filter (behind key none) = rows := filter_eq_self.mpr fun _ _ => rfl
  rw [foldPages_behind f hsize h (rows.length + 1) none s (by rw [hall]; omega), hall]

end EarnProof.Lib.Pages
