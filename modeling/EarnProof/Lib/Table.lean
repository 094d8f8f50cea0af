/-
  EarnProof.Lib.Table — a database table as the list of its rows: the bulk update
  every store operation is made of, and what it does to membership, to keys and
  row by row, and the latest row of a condition.
-/
import Mathlib.Data.List.Forall2
import Mathlib.Data.List.Nodup
import Mathlib.Data.List.MinMax

namespace EarnProof.Lib

open List

section

variable {κ α : Type} [DecidableEq κ] {f : κ → Option α} {p q : κ} {x : Option α} {s : α}

/-- What a process is at after one of them moved: the new one, or as it was. -/
theorem update_eq_some (h : Function.update f p x q = some s) : (q = p ∧ x = some s) ∨ (q ≠ p ∧ f q = some s) := by
  by_cases hq : q = p
  · subst hq
    rw [Function.update_self] at h
    exact .inl ⟨rfl, h⟩
  · rw [Function.update_of_ne hq] at h
    exact .inr ⟨hq, h⟩

/-- What holds of every process holds after one of them moved, if it holds of that one. -/
theorem forall_moved {P : κ → α → Prop} (hnew : ∀ s, x = some s → P p s) (hold : ∀ q s, f q = some s → P q s) :
    ∀ q s, Function.update f p x q = some s → P q s := by
  intro q s hs
  rcases update_eq_some hs with ⟨rfl, hx⟩ | ⟨-, hx⟩
  · exact hnew s hx
  · exact hold q s hx

/-- What holds between any two processes holds after one of them moved, if it holds between that one
    and every other. -/
theorem forall_pairs_moved (f : κ → α) {x : α} (R : κ → κ → α → α → Prop) (hold : ∀ q r, q ≠ r → R q r (f q) (f r))
    (hnew : ∀ q, q ≠ p → R p q x (f q) ∧ R q p (f q) x) (q r : κ) (hqr : q ≠ r) :
    R q r (Function.update f p x q) (Function.update f p x r) := by
  by_cases hq : q = p
  · subst hq
    rw [Function.update_self, Function.update_of_ne hqr.symm]
    exact (hnew r hqr.symm).1
  · rw [Function.update_of_ne hq]
    by_cases hr : r = p
    · subst hr
      rw [Function.update_self]
      exact (hnew q hq).2
    · rw [Function.update_of_ne hr]
      exact hold q r hqr

theorem forall_gone {P : κ → α → Prop} (hold : ∀ q s, f q = some s → P q s) :
    ∀ q s, Function.update f p none q = some s → P q s :=
  forall_moved nofun hold

end

namespace Table

variable {α κ τ : Type} [LinearOrder τ]

/-- `updateMany({ where: sel, data })`. -/
def update (sel : α → Bool) (data : α → α) (rows : List α) : List α :=
  rows.map fun r => if sel r then data r else r

variable {sel : α → Bool} {data : α → α} {rows rows' : List α} {r : α} {R : α → α → Prop} {key : α → κ} {time : α → τ}
  {r' row : α} {pred : α → Bool}

theorem mem_update : r' ∈ update sel data rows ↔ ∃ r ∈ rows, (if sel r then data r else r) = r' :=
  mem_map

/-- The row a unique lookup finds. -/
theorem of_find? {p : α → Prop} [DecidablePred p] (h : rows.find? (fun x => p x) = some r) : r ∈ rows ∧ p r :=
  ⟨mem_of_find?_eq_some h, of_decide_eq_true (find?_some h :)⟩

/-- A row of the table after a row was added to it. -/
theorem mem_append_row : r ∈ rows ++ [row] ↔ r ∈ rows ∨ r = row := by
  rw [mem_append, mem_singleton]

/-- A row of the new table is a row the condition picked, with its new data, or an old row. -/
theorem mem_update_cases (h : r' ∈ update sel data rows) :
    ∃ r ∈ rows, (sel r ∧ r' = data r) ∨ (sel r = false ∧ r' = r) := by
  obtain ⟨r, hr, rfl⟩ := mem_update.mp h
  refine ⟨r, hr, ?_⟩
  cases hs : sel r with
  | true => exact .inl ⟨rfl, if_pos rfl⟩
  | false => exact .inr ⟨rfl, if_neg (by simp)⟩

/-- What holds of every row holds after an update whose new data satisfy it. -/
theorem forall_update {P : α → Prop} (h : ∀ r ∈ rows, P r) (hdata : ∀ r ∈ rows, sel r → P (data r)) :
    ∀ r ∈ update sel data rows, P r := by
  intro r' hr'
  obtain ⟨r, hr, ⟨hs, rfl⟩ | ⟨-, rfl⟩⟩ := mem_update_cases hr'
  · exact hdata r hr hs
  · exact h _ hr

theorem forall_append_row {P : α → Prop} (h : ∀ r ∈ rows, P r) (hrow : P row) : ∀ r ∈ rows ++ [row], P r := by
  intro r hr
  rcases mem_append_row.mp hr with hr | rfl
  · exact h r hr
  · exact hrow

/-- A row the condition does not pick is still there. -/
theorem mem_update_of_not (h : r ∈ rows) (hs : sel r = false) : r ∈ update sel data rows :=
  mem_update.mpr ⟨r, h, by simp [hs]⟩

theorem mem_update_of_sel (h : r ∈ rows) (hs : sel r) : data r ∈ update sel data rows :=
  mem_update.mpr ⟨r, h, by simp [hs]⟩

/-- A column the new data keeps reads the same in every row. -/
theorem map_update (column : α → κ)
    (h : ∀ r, column (data r) = column r) : (update sel data rows).map column = rows.map column := by
  unfold update
  rw [map_map]
  refine map_congr_left fun r _ => ?_
  show column (if sel r then data r else r) = column r
  split
  · exact h r
  · rfl

/-- What is read off each row of the new table is an update of what was read off before. -/
theorem map_update_comm {β : Type} {sel' : β → Bool} {data' : β → β}
    (f : α → β) (hsel : ∀ r, sel' (f r) = sel r) (hdata : ∀ r, f (data r) = data' (f r)) :
    (update sel data rows).map f = update sel' data' (rows.map f) := by
  unfold update
  rw [map_map, map_map]
  refine map_congr_left fun r _ => ?_
  show f (if sel r then data r else r) = if sel' (f r) then data' (f r) else f r
  rw [hsel]
  split
  · exact hdata r
  · rfl

theorem nodup_update (key : α → κ) (h : ∀ r, key (data r) = key r)
    (hnodup : (rows.map key).Nodup) : ((update sel data rows).map key).Nodup := by
  rw [map_update key h]
  exact hnodup

/-- A lookup by what the new data keeps finds the same row, updated. -/
theorem find?_update (h : ∀ r, pred (data r) = pred r) :
    (update sel data rows).find? pred = (rows.find? pred).map fun r => if sel r then data r else r := by
  unfold update
  rw [find?_map]
  congr 2
  funext r
  show pred (if sel r then data r else r) = pred r
  split
  · exact h r
  · rfl

/-- A condition the new data does not change holds of some row exactly as before. -/
theorem any_update (h : ∀ r ∈ rows, sel r → pred (data r) = pred r) :
    (update sel data rows).any pred = rows.any pred := by
  unfold update
  rw [any_map, Bool.eq_iff_iff, any_eq_true, any_eq_true]
  refine exists_congr fun r => and_congr_right fun hr => ?_
  show pred (if sel r then data r else r) ↔ pred r
  split
  · rename_i hs
    rw [h r hr hs]
  · rfl

/-- Two updates to one idempotent data are one. -/
theorem update_update {sel' : α → Bool} (hsel : ∀ r, sel' (data r) = sel' r) (hdata : ∀ r, data (data r) = data r) :
    update sel' data (update sel data rows) = update (fun r => sel r || sel' r) data rows := by
  unfold update
  rw [map_map]
  refine map_congr_left fun r _ => ?_
  show (if sel' (if sel r then data r else r) then data (if sel r then data r else r)
    else if sel r then data r else r) = _
  cases hs : sel r <;> cases hs' : sel' r <;> simp [hsel, hdata, hs, hs']

theorem update_append (sel : α → Bool) (data : α → α) (rows rows' : List α) :
    update sel data (rows ++ rows') = update sel data rows ++ update sel data rows' :=
  map_append

theorem update_of_none (h : ∀ r ∈ rows, sel r = false) : update sel data rows = rows := by
  unfold update
  rw [map_congr_left (g := id) fun r hr => by simp [h r hr], map_id]

/-- Row by row, an update is the new data where the condition holds and nothing elsewhere. -/
theorem forall₂_update (hrefl : ∀ r, R r r)
    (hdata : ∀ r ∈ rows, sel r → R r (data r)) : Forall₂ R rows (update sel data rows) := by
  unfold update
  rw [forall₂_map_right_iff, forall₂_same]
  intro r hr
  split
  · rename_i hs
    exact hdata r hr hs
  · exact hrefl r

theorem exists_of_forall₂ (h : Forall₂ R rows rows') (hr : r ∈ rows) : ∃ r' ∈ rows', R r r' := by
  induction h with
  | nil => cases hr
  | cons hab _ ih =>
    rcases mem_cons.mp hr with rfl | hr
    · exact ⟨_, mem_cons_self, hab⟩
    · obtain ⟨r', hr', hR⟩ := ih hr
      exact ⟨r', mem_cons_of_mem _ hr', hR⟩

theorem exists_of_forall₂_right (h : Forall₂ R rows rows') (hr : r' ∈ rows') : ∃ r ∈ rows, R r r' :=
  exists_of_forall₂ (R := fun a b => R b a) h.flip hr

/-- A column that related rows agree on reads the same in both tables. -/
theorem map_of_forall₂ (h : Forall₂ R rows rows') (column : α → κ)
    (hcol : ∀ a b, R a b → column b = column a) : rows'.map column = rows.map column := by
  induction h with
  | nil => rfl
  | cons hab _ ih => rw [map_cons, map_cons, hcol _ _ hab, ih]

section Keyed

variable (h : (rows.map key).Nodup)

include h

/-- Two rows of a table with unique keys and the same key are the same row. -/
theorem eq_of_key {a b : α} (ha : a ∈ rows) (hb : b ∈ rows) (hk : key a = key b) : a = b :=
  inj_on_of_nodup_map h ha hb hk

/-- With unique keys, a condition that picks a row, and only rows with its key, picks by key. -/
theorem update_eq_of_key [DecidableEq κ] (hr : r ∈ rows) (hsel : sel r)
    (hkey : ∀ x, sel x → key x = key r) :
    update sel data rows = update (fun x => key x = key r) data rows := by
  refine map_congr_left fun x hx => ?_
  by_cases hk : key x = key r
  · obtain rfl := eq_of_key h hx hr hk
    rw [if_pos hsel, if_pos (decide_eq_true hk)]
  · rw [if_neg fun hs => hk (hkey x hs), if_neg (by simpa using hk)]

/-- With unique keys, such a condition picks one row. -/
theorem countP_eq_one_of_key (hr : r ∈ rows) (hsel : sel r)
    (hkey : ∀ x ∈ rows, sel x → key x = key r) : rows.countP sel = 1 := by
  classical
  rw [← count_eq_one_of_mem (List.Nodup.of_map key h) hr]
  refine countP_congr fun x hx => ?_
  rw [beq_iff_eq]
  exact ⟨fun hs => eq_of_key h hx hr (hkey x hx hs), fun hxr => hxr ▸ hsel⟩

theorem nodup_append_row (hfresh : ∀ r ∈ rows, key r ≠ key row) : ((rows ++ [row]).map key).Nodup := by
  rw [map_append, map_singleton, ← concat_eq_append]
  refine h.concat fun hmem => ?_
  obtain ⟨r, hr, hkey⟩ := mem_map.mp hmem
  exact hfresh r hr hkey

/-- With unique keys, a lookup by key finds the row that has it. -/
theorem find?_of_mem [DecidableEq κ] (hr : r ∈ rows) : rows.find? (fun x => key x = key r) = some r := by
  cases hf : rows.find? (fun x => key x = key r) with
  | none =>
    have := find?_eq_none.mp hf r hr
    simp at this
  | some =>
    obtain ⟨hmem, hk⟩ := of_find? hf
    rw [eq_of_key h hmem hr hk]

end Keyed

/-! ## The latest row -/

/-- `findFirst({ where: sel, orderBy: { time: "desc" } })`; of two rows of one time, the one stored last. -/
def latest (time : α → τ) (sel : α → Bool) (rows : List α) : Option α := (rows.filter sel).reverse.argmax time

theorem latest_mem (h : latest time sel rows = some r) : r ∈ rows ∧ sel r :=
  mem_filter.mp (mem_reverse.mp (argmax_mem h))

theorem latest_eq_none : latest time sel rows = none ↔ ∀ r ∈ rows, sel r = false := by
  unfold latest
  simp

/-- A row stored last, no earlier than any other, is the latest. -/
theorem latest_append_sel (hsel : sel row)
    (hlast : ∀ r ∈ rows, time r ≤ time row) : latest time sel (rows ++ [row]) = some row := by
  unfold latest
  rw [filter_append, filter_cons_of_pos hsel, filter_nil, reverse_append, reverse_singleton,
    singleton_append, argmax_cons]
  cases h : (rows.filter sel).reverse.argmax time with
  | none => rfl
  | some r =>
    have hr := hlast r (latest_mem h).1
    exact if_neg (not_lt.mpr hr)

theorem latest_append_not (hsel : sel row = false) : latest time sel (rows ++ [row]) = latest time sel rows := by
  unfold latest
  rw [filter_append, filter_cons_of_neg (by simp [hsel]), filter_nil, append_nil]

theorem argmax_rel (h : Forall₂ R rows rows')
    (htime : ∀ a b, R a b → time b = time a) : Option.Rel R (rows.argmax time) (rows'.argmax time) := by
  induction h with
  | nil => exact .none
  | @cons a b as bs hab _ ih =>
    rw [argmax_cons, argmax_cons]
    cases hl : as.argmax time <;> cases hr : bs.argmax time <;> rw [hl, hr] at ih
    · exact .some hab
    · cases ih
    · cases ih
    · rename_i c d
      obtain ⟨hcd⟩ := ih
      show Option.Rel R (if time a < time c then some c else some a) (if time b < time d then some d else some b)
      rw [htime a b hab, htime c d hcd]
      split
      · exact .some hcd
      · exact .some hab

/-- Where related rows agree on the condition and on the time, the latest of the one table is related
    to the latest of the other. -/
theorem latest_rel
    (h : Forall₂ R rows rows') (hsel : ∀ a b, R a b → sel b = sel a) (htime : ∀ a b, R a b → time b = time a) :
    Option.Rel R (latest time sel rows) (latest time sel rows') := by
  refine argmax_rel (rel_reverse (rel_filter ?_ h)) htime
  intro a b hab
  show sel a ↔ sel b
  rw [hsel a b hab]

end Table

end EarnProof.Lib
