/-
  EarnProof.Lib.Windows — windows of a list whose elements may have a position and a
  value: `window lo hi` are the values strictly between two positions, in the order of the
  list. Where the positions ascend, adjacent windows compose (`Ascending.window_split`), a
  window names each of its values once (`Ascending.nodup_window`), and nothing lies beyond
  the last position below a bound (`Ascending.le_last`).
-/
import Mathlib.Data.List.Basic

namespace EarnProof.Lib.Windows

open List

variable {α β κ : Type} {pos : α → Option Nat} {val : α → Option β} {lo mid hi lo' hi' : Nat} {xs ys : List α}

def pick (pos : α → Option Nat) (val : α → Option β) (lo hi : Nat) (a : α) : Option β :=
  (pos a).bind fun t => if lo < t ∧ t < hi then val a else none

def window (pos : α → Option Nat) (val : α → Option β) (lo hi : Nat) (xs : List α) : List β :=
  xs.filterMap (pick pos val lo hi)

def Ascending (pos : α → Option Nat) (xs : List α) : Prop :=
  xs.Pairwise fun a b => ∀ s t, pos a = some s → pos b = some t → s < t

variable {a : α} {t : Nat} {b : β}

theorem pick_of_none (h : pos a = none) : pick pos val lo hi a = none := by
  simp [pick, h]

theorem pick_of_mem (h : pos a = some t) (ht : lo < t ∧ t < hi) : pick pos val lo hi a = val a := by
  simp [pick, h, ht]

theorem pick_of_not_mem (h : pos a = some t) (ht : ¬ (lo < t ∧ t < hi)) : pick pos val lo hi a = none := by
  simp only [pick, h, Option.bind_some]
  exact if_neg ht

theorem pick_eq_some (h : pick pos val lo hi a = some b) :
    ∃ t, pos a = some t ∧ lo < t ∧ t < hi ∧ val a = some b := by
  obtain ⟨t, hpos, h⟩ := Option.bind_eq_some_iff.mp h
  split at h
  · rename_i ht
    exact ⟨t, hpos, ht.1, ht.2, h⟩
  · cases h

theorem mem_window :
    b ∈ window pos val lo hi xs ↔ ∃ a ∈ xs, ∃ t, pos a = some t ∧ lo < t ∧ t < hi ∧ val a = some b := by
  constructor
  · intro h
    obtain ⟨a, ha, hpick⟩ := mem_filterMap.mp h
    exact ⟨a, ha, pick_eq_some hpick⟩
  · rintro ⟨a, ha, t, hpos, hlo, hhi, hval⟩
    exact mem_filterMap.mpr ⟨a, ha, (pick_of_mem hpos ⟨hlo, hhi⟩).trans hval⟩

theorem window_append : window pos val lo hi (xs ++ ys) = window pos val lo hi xs ++ window pos val lo hi ys :=
  filterMap_append

theorem window_cons_none (h : pos a = none) : window pos val lo hi (a :: xs) = window pos val lo hi xs :=
  filterMap_cons_none (pick_of_none h)

theorem window_cons_mem (h : pos a = some t) (ht : lo < t ∧ t < hi) :
    window pos val lo hi (a :: xs) = (val a).toList ++ window pos val lo hi xs := by
  unfold window
  rw [filterMap_cons, pick_of_mem h ht]
  cases val a <;> rfl

/-- A window depends on the positions only through which of them it holds. -/
theorem window_congr (h : ∀ a ∈ xs, ∀ t, pos a = some t → (lo < t ∧ t < hi ↔ lo' < t ∧ t < hi')) :
    window pos val lo hi xs = window pos val lo' hi' xs := by
  refine filterMap_congr fun a ha => ?_
  cases hpos : pos a with
  | none => rw [pick_of_none hpos, pick_of_none hpos]
  | some t =>
    by_cases ht : lo < t ∧ t < hi
    · rw [pick_of_mem hpos ht, pick_of_mem hpos ((h a ha t hpos).mp ht)]
    · rw [pick_of_not_mem hpos ht, pick_of_not_mem hpos fun ht' => ht ((h a ha t hpos).mpr ht')]

theorem window_eq_nil (h : ∀ a ∈ xs, ∀ t, pos a = some t → t ≤ lo ∨ hi ≤ t) : window pos val lo hi xs = [] := by
  refine filterMap_eq_nil_iff.mpr fun a ha => ?_
  cases hpos : pos a with
  | none => exact pick_of_none hpos
  | some t =>
    refine pick_of_not_mem hpos ?_
    have := h a ha t hpos
    omega

theorem Ascending.tail (h : Ascending pos (a :: xs)) : Ascending pos xs := (pairwise_cons.mp h).2

theorem Ascending.head (h : Ascending pos (a :: xs)) (hpos : pos a = some t) :
    ∀ b ∈ xs, ∀ s, pos b = some s → t < s := by
  intro b hb s hs
  exact (pairwise_cons.mp h).1 b hb t s hpos hs

/-- Adjacent windows compose. -/
theorem Ascending.window_split (h : Ascending pos xs) (hlo : lo ≤ mid) (hhi : mid < hi) :
    window pos val lo hi xs = window pos val lo (mid + 1) xs ++ window pos val mid hi xs := by
  induction xs with
  | nil => rfl
  | cons a xs ih =>
    have ih := ih h.tail
    cases hpos : pos a with
    | none => rw [window_cons_none hpos, window_cons_none hpos, window_cons_none hpos, ih]
    | some t =>
      by_cases hmid : t ≤ mid
      · -- The element is in the first window or in none.
        have hsecond : window pos val mid hi (a :: xs) = window pos val mid hi xs :=
          filterMap_cons_none (pick_of_not_mem hpos (by omega))
        rw [hsecond]
        by_cases ht : lo < t
        · rw [window_cons_mem hpos ⟨ht, by omega⟩, window_cons_mem hpos ⟨ht, by omega⟩, ih, append_assoc]
        · have hfirst : ∀ hi', window pos val lo hi' (a :: xs) = window pos val lo hi' xs :=
            fun hi' => filterMap_cons_none (pick_of_not_mem hpos (by omega))
          rw [hfirst, hfirst, ih]
      · -- From here on every position is beyond the first window.
        have hlater : ∀ b ∈ a :: xs, ∀ s, pos b = some s → mid < s := by
          intro b hb s hs
          rcases mem_cons.mp hb with rfl | hb
          · have hst := Option.some.inj (hpos.symm.trans hs)
            omega
          · have := h.head hpos b hb s hs
            omega
        have hfirst : window pos val lo (mid + 1) (a :: xs) = [] :=
          window_eq_nil fun b hb s hs => .inr (hlater b hb s hs)
        rw [hfirst, nil_append]
        refine window_congr fun b hb s hs => ?_
        have := hlater b hb s hs
        omega

/-- Values that tell their position are named once. -/
theorem Ascending.nodup_window (h : Ascending pos xs) (key : β → κ) (place : κ → Option Nat)
    (hplace : ∀ a ∈ xs, ∀ b, val a = some b → place (key b) = pos a) : ((window pos val lo hi xs).map key).Nodup := by
  induction xs with
  | nil => exact nodup_nil
  | cons a xs ih =>
    have ih := ih h.tail (fun b hb => hplace b (mem_cons_of_mem a hb))
    cases hpick : pick pos val lo hi a with
    | none =>
      rw [window, filterMap_cons_none hpick]
      exact ih
    | some b =>
      rw [window, filterMap_cons_some hpick, map_cons, nodup_cons]
      refine ⟨fun hmem => ?_, ih⟩
      obtain ⟨t, hpos, -, -, hval⟩ := pick_eq_some hpick
      obtain ⟨b', hb', hkey⟩ := mem_map.mp hmem
      obtain ⟨a', ha', s, hpos', -, -, hval'⟩ := mem_window.mp hb'
      have hlt := h.head hpos a' ha' s hpos'
      have hplaced := hplace a mem_cons_self b hval
      have hplaced' := hplace a' (mem_cons_of_mem a ha') b' hval'
      rw [hkey, hplaced, hpos, hpos'] at hplaced'
      have := Option.some.inj hplaced'
      omega

def positions (pos : α → Option Nat) (hi : Nat) (xs : List α) : List Nat := (xs.filterMap pos).filter fun t => t < hi

theorem mem_positions : t ∈ positions pos hi xs ↔ (∃ a ∈ xs, pos a = some t) ∧ t < hi := by
  unfold positions
  rw [mem_filter, mem_filterMap, decide_eq_true_eq]

theorem Ascending.positions_sorted (h : Ascending pos xs) (hi : Nat) : (positions pos hi xs).Pairwise (· < ·) := by
  refine List.Pairwise.filter _ ?_
  rw [pairwise_filterMap]
  exact h.imp fun hab s hs t ht => hab s t hs ht

/-- The last position below a bound is the greatest. -/
theorem Ascending.le_last (h : Ascending pos xs) {last t : Nat} (hlast : (positions pos hi xs).getLast? = some last)
    (ht : t ∈ positions pos hi xs) : t ≤ last := by
  obtain ⟨front, hsplit⟩ := getLast?_eq_some_iff.mp hlast
  have hsorted := h.positions_sorted hi
  rw [hsplit] at ht hsorted
  rcases mem_append.mp ht with ht | ht
  · exact Nat.le_of_lt ((pairwise_append.mp hsorted).2.2 t ht last mem_cons_self)
  · exact Nat.le_of_eq (mem_singleton.mp ht)

end EarnProof.Lib.Windows
