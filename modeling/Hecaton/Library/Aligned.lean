import Mathlib.Data.List.Forall2

/-!
# Aligned lists

Two lists of one length whose elements at each place are related.  What is known of
the elements of the second list, and of any two of them, passes to the first.
-/

namespace Hecaton.Library

universe u v

variable {α : Type u} {β : Type v} {stands : α → β → Prop} {as : List α} {bs : List β}

theorem aligned_exists (aligned : List.Forall₂ stands as bs) {a : α} (aMem : a ∈ as) :
    ∃ b ∈ bs, stands a b := by
  induction aligned with
  | nil => exact absurd aMem List.not_mem_nil
  | cons atHead _ ih =>
      rcases List.mem_cons.mp aMem with rfl | inRest
      · exact ⟨_, List.mem_cons_self, atHead⟩
      · obtain ⟨b, bMem, isB⟩ := ih inRest
        exact ⟨b, List.mem_cons_of_mem _ bMem, isB⟩

theorem aligned_imp_of_mem {known : α → β → Prop} (aligned : List.Forall₂ stands as bs)
    (imp : ∀ a, ∀ b ∈ bs, stands a b → known a b) : List.Forall₂ known as bs := by
  induction aligned with
  | nil => exact List.Forall₂.nil
  | cons atHead _ ih =>
      apply List.Forall₂.cons
      · exact imp _ _ List.mem_cons_self atHead
      · exact ih fun a b bMem => imp a b (List.mem_cons_of_mem _ bMem)

theorem aligned_both {known : α → β → Prop} (aligned : List.Forall₂ stands as bs)
    (also : List.Forall₂ known as bs) {b : β} (bMem : b ∈ bs) :
    ∃ a ∈ as, stands a b ∧ known a b := by
  induction aligned with
  | nil => exact absurd bMem List.not_mem_nil
  | cons atHead _ ih =>
      obtain ⟨knownAtHead, inRest⟩ := List.forall₂_cons.mp also
      rcases List.mem_cons.mp bMem with rfl | bIn
      · exact ⟨_, List.mem_cons_self, atHead, knownAtHead⟩
      · obtain ⟨a, aMem, both⟩ := ih inRest bIn
        exact ⟨a, List.mem_cons_of_mem _ aMem, both⟩

theorem aligned_map_eq {γ : Type*} {f : α → γ} {g : β → γ}
    (aligned : List.Forall₂ (fun a b => f a = g b) as bs) : as.map f = bs.map g := by
  induction aligned with
  | nil => rfl
  | cons atHead _ ih => rw [List.map_cons, List.map_cons, atHead, ih]

/-- What holds between any two elements follows from what holds between the elements
they stand for. -/
theorem aligned_pairwise {first : α → α → Prop} {second : β → β → Prop}
    (aligned : List.Forall₂ stands as bs) (pairwise : bs.Pairwise second)
    (imp : ∀ a b, stands a b → ∀ a' b', stands a' b' → second b b' → first a a') :
    as.Pairwise first := by
  induction aligned with
  | nil => exact List.Pairwise.nil
  | cons atHead inRest ih =>
      obtain ⟨before, rest⟩ := List.pairwise_cons.mp pairwise
      rw [List.pairwise_cons]
      refine ⟨?_, ih rest⟩
      intro a' a'Mem
      obtain ⟨b', b'Mem, stands'⟩ := aligned_exists inRest a'Mem
      exact imp _ _ atHead a' b' stands' (before b' b'Mem)

end Hecaton.Library
