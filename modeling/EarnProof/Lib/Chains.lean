/-
  EarnProof.Lib.Chains — links between nodes, as a relation: acyclicity, and the one
  way a chain grows without losing it, by a link to a node nothing comes after.
-/
import Mathlib.Logic.Relation

namespace EarnProof.Lib.Chains

open Relation

variable {α : Type} {R S : α → α → Prop}

def Acyclic (R : α → α → Prop) : Prop := ∀ a, ¬ TransGen R a a

theorem Acyclic.mono (h : Acyclic R) (hsub : ∀ a b, S a b → R a b) : Acyclic S :=
  fun a hcycle => h a (TransGen.mono hsub _ _ hcycle)

/-- From a node with no link out, nothing is reached. -/
theorem not_transGen_of_sink {a b : α} (hsink : ∀ x, ¬ R a x) : ¬ TransGen R a b := by
  intro h
  obtain ⟨c, hac, -⟩ := TransGen.head'_iff.mp h
  exact hsink c hac

/-- Links added all into one node that has no link out, before or after, close no cycle. -/
theorem Acyclic.add_into_sink (h : Acyclic R) (s : α) (hsub : ∀ a b, S a b → R a b ∨ b = s)
    (hsink : ∀ x, ¬ S s x) : Acyclic S := by
  -- a path either uses old links only or ends in the sink
  have path : ∀ {a b : α}, TransGen S a b → TransGen R a b ∨ b = s := by
    intro a b hab
    induction hab with
    | single hab => exact (hsub _ _ hab).imp TransGen.single id
    | @tail b c _ hbc ih =>
      rcases ih with ih | rfl
      · exact (hsub _ _ hbc).imp ih.tail id
      · exact absurd hbc (hsink c)
  intro a hcycle
  rcases path hcycle with hold | rfl
  · exact h a hold
  · exact not_transGen_of_sink hsink hcycle

end EarnProof.Lib.Chains
