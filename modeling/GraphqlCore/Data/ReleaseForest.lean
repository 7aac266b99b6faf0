import Mathlib.Data.List.Nodup
import Mathlib.Data.Set.Insert
import Mathlib.Tactic.Common

/-!
# Forests that are released from the root

A dynamic forest whose nodes appear once, below their parent if that is still
present, and are deleted from the root downwards: a node is released (made a
root) only after all its ancestors are gone.  A node that fails is deleted with
everything below it.  The forest keeps the children of the present nodes; the
nodes in `limbo` have been released but are not yet listed as roots.
-/

namespace GraphqlCore

variable {G : Type*}

/-- `Ancestor parent a g`: following parents from `g` leads to `a`. -/
inductive Ancestor (parent : G → Option G) (a : G) : G → Prop
  | parent {g : G} (h : parent g = some a) : Ancestor parent a g
  | step {g p : G} (h : parent g = some p) (ha : Ancestor parent a p) :
      Ancestor parent a g

theorem Ancestor.lt_of_parent_lt [Preorder G] {parent : G → Option G} {a g : G}
    (h : Ancestor parent a g) (hlt : ∀ g p, parent g = some p → p < g) :
    a < g := by
  induction h with
  | parent hp => exact hlt _ _ hp
  | step hp _ ih => exact ih.trans (hlt _ _ hp)

/-- A failed node, or a node below one. -/
inductive Lost (parent : G → Option G) (failed : Set G) : G → Prop
  | failed {g : G} (h : g ∈ failed) : Lost parent failed g
  | inherited {g p : G} (h : parent g = some p) (hp : Lost parent failed p) :
      Lost parent failed g

theorem lost_iff {parent : G → Option G} {failed : Set G} {g : G} :
    Lost parent failed g ↔
      g ∈ failed ∨ ∃ p, parent g = some p ∧ Lost parent failed p := by
  constructor
  · rintro (h | ⟨h, hp⟩)
    · exact Or.inl h
    · exact Or.inr ⟨_, h, hp⟩
  · rintro (h | ⟨p, h, hp⟩)
    · exact .failed h
    · exact .inherited h hp

theorem lost_iff_ancestor {parent : G → Option G} {failed : Set G} {g : G} :
    Lost parent failed g ↔
      g ∈ failed ∨ ∃ a ∈ failed, Ancestor parent a g := by
  constructor
  · intro h
    induction h with
    | failed h => exact Or.inl h
    | inherited h _ ih =>
        rcases ih with hp | ⟨a, ha, hanc⟩
        · exact Or.inr ⟨_, hp, .parent h⟩
        · exact Or.inr ⟨a, ha, .step h hanc⟩
  · rintro (h | ⟨a, ha, hanc⟩)
    · exact .failed h
    · induction hanc with
      | parent h => exact .inherited h (.failed ha)
      | step h _ ih => exact .inherited h ih

theorem Lost.mono {parent : G → Option G} {failed failed' : Set G} {g : G}
    (h : Lost parent failed g) (hsub : failed ⊆ failed') :
    Lost parent failed' g := by
  induction h with
  | failed h => exact .failed (hsub h)
  | inherited h _ ih => exact .inherited h ih

/-- Marking `g₀` as failed loses `g₀` and what lies below it. -/
theorem lost_insert_iff {parent : G → Option G} {failed : Set G} {g₀ g : G} :
    Lost parent (insert g₀ failed) g ↔
      Lost parent failed g ∨ g = g₀ ∨ Ancestor parent g₀ g := by
  rw [lost_iff_ancestor, lost_iff_ancestor]
  constructor
  · rintro ((rfl | h) | ⟨a, rfl | ha, hanc⟩)
    · exact Or.inr (Or.inl rfl)
    · exact Or.inl (Or.inl h)
    · exact Or.inr (Or.inr hanc)
    · exact Or.inl (Or.inr ⟨a, ha, hanc⟩)
  · rintro ((h | ⟨a, ha, hanc⟩) | rfl | hanc)
    · exact Or.inl (Or.inr h)
    · exact Or.inr ⟨a, Or.inr ha, hanc⟩
    · exact Or.inl (Or.inl rfl)
    · exact Or.inr ⟨g₀, Or.inl rfl, hanc⟩

/-- A node that is gone without having been lost. -/
structure Released (parent : G → Option G) (kids : G → Option (List G))
    (introduced failed : Set G) (g : G) : Prop where
  introduced : g ∈ introduced
  gone : kids g = none
  not_lost : ¬Lost parent failed g

structure ReleaseForest (parent : G → Option G) (kids : G → Option (List G))
    (roots limbo : List G) (introduced failed : Set G) : Prop where
  present_introduced : ∀ g, kids g ≠ none → g ∈ introduced
  kid_parent : ∀ p cs, kids p = some cs → ∀ c ∈ cs, parent c = some p
  kid_introduced : ∀ p cs, kids p = some cs → ∀ c ∈ cs, c ∈ introduced
  kids_nodup : ∀ p cs, kids p = some cs → cs.Nodup
  root_present : ∀ g ∈ roots, kids g ≠ none
  limbo_introduced : ∀ g ∈ limbo, g ∈ introduced
  limbo_nodup : limbo.Nodup
  limbo_not_root : ∀ g ∈ limbo, g ∉ roots
  failed_gone : ∀ g ∈ failed, kids g = none
  /-- Nothing is released before its parent. -/
  parent_released : ∀ g,
    g ∈ roots ∨ g ∈ limbo ∨ Released parent kids introduced failed g →
    ∀ p, parent g = some p → Released parent kids introduced failed p

namespace ReleaseForest

variable {parent : G → Option G} {kids : G → Option (List G)}
  {roots limbo : List G} {introduced failed : Set G}

/-- All ancestors of a released node are released. -/
theorem ancestor_released
    (h : ReleaseForest parent kids roots limbo introduced failed) {a g : G}
    (hg : g ∈ roots ∨ g ∈ limbo ∨ Released parent kids introduced failed g)
    (hanc : Ancestor parent a g) :
    Released parent kids introduced failed a := by
  induction hanc with
  | parent hp => exact h.parent_released _ hg _ hp
  | step hp _ ih => exact ih (Or.inr (Or.inr (h.parent_released _ hg _ hp)))

theorem not_lost_of_present
    (h : ReleaseForest parent kids roots limbo introduced failed) {g : G}
    (hg : g ∈ roots ∨ g ∈ limbo) (hpresent : kids g ≠ none) :
    ¬Lost parent failed g := by
  rw [lost_iff]
  rintro (hf | ⟨p, hp, hlost⟩)
  · exact hpresent (h.failed_gone g hf)
  · exact (h.parent_released g (hg.imp_right Or.inl) p hp).not_lost hlost

/-- A child of a present node has not been released. -/
theorem kid_not_released
    (h : ReleaseForest parent kids roots limbo introduced failed)
    {p c : G} {cs : List G} (hk : kids p = some cs) (hc : c ∈ cs) :
    ¬(c ∈ roots ∨ c ∈ limbo ∨ Released parent kids introduced failed c) := by
  intro hrel
  have hgone := (h.parent_released c hrel p (h.kid_parent p cs hk c hc)).gone
  simp [hk] at hgone

/-- Giving up the claim on some nodes in limbo. -/
theorem shrink_limbo
    (h : ReleaseForest parent kids roots limbo introduced failed)
    {limbo' : List G} (hsub : ∀ g ∈ limbo', g ∈ limbo)
    (hnodup : limbo'.Nodup) :
    ReleaseForest parent kids roots limbo' introduced failed :=
  { h with
    limbo_introduced := fun g hg => h.limbo_introduced g (hsub g hg)
    limbo_nodup := hnodup
    limbo_not_root := fun g hg => h.limbo_not_root g (hsub g hg)
    parent_released := fun g hg =>
      h.parent_released g (hg.imp_right (Or.imp_left (hsub g))) }

/-- Introducing a new node `g₀`, below its parent if that is present. -/
theorem create
    (h : ReleaseForest parent kids roots limbo introduced failed) {g₀ : G}
    (hfresh : g₀ ∉ introduced) {kids' : G → Option (List G)}
    {limbo' : List G}
    (hlimbo : limbo' = limbo ∨ (limbo' = limbo ++ [g₀] ∧ parent g₀ = none))
    (hpresent : ∀ g, kids' g ≠ none ↔ g = g₀ ∨ kids g ≠ none)
    (hkids : ∀ p cs, kids' p = some cs → cs = [] ∨
      (cs = [g₀] ∧ parent g₀ = some p) ∨ kids p = some cs ∨
      ∃ old, kids p = some old ∧ cs = old ++ [g₀] ∧ parent g₀ = some p)
    (hfailed : g₀ ∉ failed) :
    ReleaseForest parent kids' roots limbo' (insert g₀ introduced) failed := by
  have hgone : ∀ g, Released parent kids' (insert g₀ introduced) failed g ↔
      Released parent kids introduced failed g := by
    intro g
    have hiff := hpresent g
    constructor
    · rintro ⟨hi, hg, hl⟩
      have hnot : ¬(g = g₀ ∨ kids g ≠ none) := fun hor => (hiff.mpr hor) hg
      rw [not_or, not_not] at hnot
      exact ⟨hi.resolve_left hnot.1, hnot.2, hl⟩
    · rintro ⟨hi, hg, hl⟩
      refine ⟨Or.inr hi, ?_, hl⟩
      by_contra hne
      rcases hiff.mp hne with rfl | hne
      · exact hfresh hi
      · exact hne hg
  have hkid : ∀ p cs, kids' p = some cs → ∀ c ∈ cs,
      (c = g₀ ∧ parent g₀ = some p) ∨ ∃ old, kids p = some old ∧ c ∈ old := by
    intro p cs hcs c hc
    rcases hkids p cs hcs with rfl | ⟨rfl, hp⟩ | hold | ⟨old, hold, rfl, hp⟩
    · simp at hc
    · exact Or.inl ⟨List.mem_singleton.mp hc, hp⟩
    · exact Or.inr ⟨cs, hold, hc⟩
    · rcases List.mem_append.mp hc with hc | hc
      · exact Or.inr ⟨old, hold, hc⟩
      · exact Or.inl ⟨List.mem_singleton.mp hc, hp⟩
  have hlimbo_mem : ∀ g ∈ limbo', g ∈ limbo ∨ (g = g₀ ∧ parent g₀ = none) := by
    intro g hg
    rcases hlimbo with rfl | ⟨rfl, hp⟩
    · exact Or.inl hg
    · rcases List.mem_append.mp hg with hg | hg
      · exact Or.inl hg
      · exact Or.inr ⟨List.mem_singleton.mp hg, hp⟩
  have hroot_ne : ∀ g ∈ roots, g ≠ g₀ := by
    rintro g hg rfl
    exact hfresh (h.present_introduced g (h.root_present g hg))
  refine ⟨?_, ?_, ?_, ?_, ?_, ?_, ?_, ?_, ?_, ?_⟩
  · intro g hg
    exact ((hpresent g).mp hg).imp_right (h.present_introduced g)
  · intro p cs hcs c hc
    rcases hkid p cs hcs c hc with ⟨rfl, hp⟩ | ⟨old, hold, hc⟩
    · exact hp
    · exact h.kid_parent p old hold c hc
  · intro p cs hcs c hc
    rcases hkid p cs hcs c hc with ⟨rfl, -⟩ | ⟨old, hold, hc⟩
    · exact Or.inl rfl
    · exact Or.inr (h.kid_introduced p old hold c hc)
  · intro p cs hcs
    rcases hkids p cs hcs with rfl | ⟨rfl, -⟩ | hold | ⟨old, hold, rfl, -⟩
    · exact List.nodup_nil
    · exact List.nodup_singleton g₀
    · exact h.kids_nodup p cs hold
    · rw [List.nodup_append]
      refine ⟨h.kids_nodup p old hold, List.nodup_singleton g₀, ?_⟩
      rintro g hg g' hg' rfl
      rw [List.mem_singleton] at hg'
      exact hfresh (hg' ▸ h.kid_introduced p old hold g hg)
  · exact fun g hg => (hpresent g).mpr (Or.inr (h.root_present g hg))
  · intro g hg
    rcases hlimbo_mem g hg with hg | ⟨rfl, -⟩
    · exact Or.inr (h.limbo_introduced g hg)
    · exact Or.inl rfl
  · rcases hlimbo with rfl | ⟨rfl, -⟩
    · exact h.limbo_nodup
    · rw [List.nodup_append]
      refine ⟨h.limbo_nodup, List.nodup_singleton g₀, ?_⟩
      rintro g hg g' hg' rfl
      rw [List.mem_singleton] at hg'
      exact hfresh (hg' ▸ h.limbo_introduced g hg)
  · intro g hg hroot
    rcases hlimbo_mem g hg with hg | ⟨rfl, -⟩
    · exact h.limbo_not_root g hg hroot
    · exact hroot_ne g hroot rfl
  · intro g hg
    have hne : g ≠ g₀ := fun heq => hfailed (heq ▸ hg)
    by_contra hpres
    exact ((hpresent g).mp hpres).elim hne fun hp => hp (h.failed_gone g hg)
  · intro g hg p hp
    rw [hgone]
    rw [hgone] at hg
    rcases hg with hg | hg | hg
    · exact h.parent_released g (Or.inl hg) p hp
    · rcases hlimbo_mem g hg with hg | ⟨rfl, hnone⟩
      · exact h.parent_released g (Or.inr (Or.inl hg)) p hp
      · simp [hnone] at hp
    · exact h.parent_released g (Or.inr (Or.inr hg)) p hp

/-- Deleting a released node `g₀`: its children are released. -/
theorem release
    (h : ReleaseForest parent kids roots limbo introduced failed)
    (g₀ : G) {cs roots' limbo' : List G} {kids' : G → Option (List G)}
    (hg₀ : g₀ ∈ roots ∨ g₀ ∈ limbo) (hcs : kids g₀ = some cs)
    (hkids_self : kids' g₀ = none)
    (hkids : ∀ g, g ≠ g₀ → kids' g = kids g)
    (hroots : ∀ g ∈ roots', g ∈ roots ∧ g ≠ g₀)
    (hlimbo : ∀ g ∈ limbo', (g ∈ limbo ∧ g ≠ g₀) ∨ g ∈ cs)
    (hnodup : limbo'.Nodup) :
    ReleaseForest parent kids' roots' limbo' introduced failed := by
  have hpresent : kids g₀ ≠ none := by simp [hcs]
  have hg₀_intro := h.present_introduced g₀ hpresent
  have hlost := h.not_lost_of_present hg₀ hpresent
  have hself : Released parent kids' introduced failed g₀ :=
    ⟨hg₀_intro, hkids_self, hlost⟩
  have hrel : ∀ g, Released parent kids introduced failed g →
      Released parent kids' introduced failed g := by
    rintro g ⟨hi, hg, hl⟩
    refine ⟨hi, ?_, hl⟩
    by_cases heq : g = g₀
    · exact heq ▸ hkids_self
    · rw [hkids g heq, hg]
  have hold : ∀ p cs', kids' p = some cs' → kids p = some cs' := by
    intro p cs' hp
    by_cases heq : p = g₀
    · simp [heq, hkids_self] at hp
    · rw [← hkids p heq, hp]
  refine ⟨?_, ?_, ?_, ?_, ?_, ?_, hnodup, ?_, ?_, ?_⟩
  · intro g hg
    obtain ⟨cs', hcs'⟩ := Option.ne_none_iff_exists'.mp hg
    exact h.present_introduced g (by simp [hold g cs' hcs'])
  · exact fun p cs' hp => h.kid_parent p cs' (hold p cs' hp)
  · exact fun p cs' hp => h.kid_introduced p cs' (hold p cs' hp)
  · exact fun p cs' hp => h.kids_nodup p cs' (hold p cs' hp)
  · intro g hg
    obtain ⟨hroot, hne⟩ := hroots g hg
    rw [hkids g hne]
    exact h.root_present g hroot
  · intro g hg
    rcases hlimbo g hg with ⟨hg, -⟩ | hg
    · exact h.limbo_introduced g hg
    · exact h.kid_introduced g₀ cs hcs g hg
  · intro g hg hroot
    rcases hlimbo g hg with ⟨hg, -⟩ | hg
    · exact h.limbo_not_root g hg (hroots g hroot).1
    · exact h.kid_not_released hcs hg (Or.inl (hroots g hroot).1)
  · intro g hg
    by_cases heq : g = g₀
    · exact heq ▸ hkids_self
    · rw [hkids g heq]
      exact h.failed_gone g hg
  · intro g hg p hp
    rcases hg with hg | hg | ⟨hi, hg, hl⟩
    · exact hrel p (h.parent_released g (Or.inl (hroots g hg).1) p hp)
    · rcases hlimbo g hg with ⟨hg, -⟩ | hg
      · exact hrel p (h.parent_released g (Or.inr (Or.inl hg)) p hp)
      · have hparent := h.kid_parent g₀ cs hcs g hg
        obtain rfl := Option.some.inj (hp.symm.trans hparent)
        exact hself
    · by_cases heq : g = g₀
      · subst heq
        exact hrel p (h.parent_released g (hg₀.imp_right Or.inl) p hp)
      · rw [hkids g heq] at hg
        exact hrel p (h.parent_released g (Or.inr (Or.inr ⟨hi, hg, hl⟩)) p hp)

/-- A released node in limbo becomes a root. -/
theorem promote
    (h : ReleaseForest parent kids roots limbo introduced failed)
    (g₀ : G) {roots' limbo' : List G} (hg₀ : g₀ ∈ limbo)
    (hpresent : kids g₀ ≠ none)
    (hroots : ∀ g ∈ roots', g ∈ roots ∨ g = g₀)
    (hlimbo : ∀ g ∈ limbo', g ∈ limbo ∧ g ≠ g₀) (hnodup : limbo'.Nodup) :
    ReleaseForest parent kids roots' limbo' introduced failed :=
  { h with
    root_present := by
      intro g hg
      rcases hroots g hg with hg | rfl
      · exact h.root_present g hg
      · exact hpresent
    limbo_introduced := fun g hg => h.limbo_introduced g (hlimbo g hg).1
    limbo_nodup := hnodup
    limbo_not_root := by
      intro g hg hroot
      obtain ⟨hold, hne⟩ := hlimbo g hg
      exact (hroots g hroot).elim (h.limbo_not_root g hold) hne
    parent_released := by
      rintro g (hg | hg | hg)
      · rcases hroots g hg with hg | rfl
        · exact h.parent_released g (Or.inl hg)
        · exact h.parent_released g (Or.inr (Or.inl hg₀))
      · exact h.parent_released g (Or.inr (Or.inl (hlimbo g hg).1))
      · exact h.parent_released g (Or.inr (Or.inr hg)) }

/-- Deleting a failed node `g₀` with nodes below it. -/
theorem fail
    (h : ReleaseForest parent kids roots limbo introduced failed)
    (g₀ : G) {roots' : List G} {kids' : G → Option (List G)} {gone : Set G}
    (hg₀ : g₀ ∈ gone) (hpresent : kids g₀ ≠ none)
    (hgone : ∀ g ∈ gone, kids' g = none)
    (hkept : ∀ g ∉ gone, kids' g = kids g)
    (hbelow : ∀ g ∈ gone, g = g₀ ∨ Ancestor parent g₀ g)
    (hroots : ∀ g ∈ roots', g ∈ roots ∧ g ≠ g₀) :
    ReleaseForest parent kids' roots' limbo introduced
      (insert g₀ failed) := by
  have hold : ∀ p cs', kids' p = some cs' → kids p = some cs' := by
    intro p cs' hp
    by_cases hmem : p ∈ gone
    · simp [hgone p hmem] at hp
    · rw [← hkept p hmem, hp]
  -- `g₀` is present, so it is no ancestor of anything released.
  have hnot : ∀ g, (g ∈ roots ∨ g ∈ limbo ∨
      Released parent kids introduced failed g) → ¬Ancestor parent g₀ g :=
    fun g hg hanc => hpresent (h.ancestor_released hg hanc).gone
  have hrel : ∀ g, Released parent kids introduced failed g →
      Released parent kids' introduced (insert g₀ failed) g := by
    rintro g ⟨hi, hg, hl⟩
    refine ⟨hi, ?_, ?_⟩
    · by_cases hmem : g ∈ gone
      · exact hgone g hmem
      · rw [hkept g hmem, hg]
    · rw [lost_insert_iff]
      rintro (hlost | rfl | hanc)
      · exact hl hlost
      · exact hpresent hg
      · exact hnot g (Or.inr (Or.inr ⟨hi, hg, hl⟩)) hanc
  refine ⟨?_, ?_, ?_, ?_, ?_, h.limbo_introduced, h.limbo_nodup, ?_, ?_, ?_⟩
  · intro g hg
    obtain ⟨cs', hcs'⟩ := Option.ne_none_iff_exists'.mp hg
    exact h.present_introduced g (by simp [hold g cs' hcs'])
  · exact fun p cs' hp => h.kid_parent p cs' (hold p cs' hp)
  · exact fun p cs' hp => h.kid_introduced p cs' (hold p cs' hp)
  · exact fun p cs' hp => h.kids_nodup p cs' (hold p cs' hp)
  · intro g hg
    obtain ⟨hroot, hne⟩ := hroots g hg
    have hmem : g ∉ gone := fun hmem =>
      (hbelow g hmem).elim hne (hnot g (Or.inl hroot))
    rw [hkept g hmem]
    exact h.root_present g hroot
  · exact fun g hg hroot => h.limbo_not_root g hg (hroots g hroot).1
  · rintro g (rfl | hg)
    · exact hgone g hg₀
    · by_cases hmem : g ∈ gone
      · exact hgone g hmem
      · rw [hkept g hmem]
        exact h.failed_gone g hg
  · intro g hg p hp
    apply hrel p
    rcases hg with hg | hg | ⟨hi, hg, hl⟩
    · exact h.parent_released g (Or.inl (hroots g hg).1) p hp
    · exact h.parent_released g (Or.inr (Or.inl hg)) p hp
    · rw [lost_insert_iff, not_or, not_or] at hl
      have hmem : g ∉ gone := fun hmem =>
        (hbelow g hmem).elim hl.2.1 hl.2.2
      rw [hkept g hmem] at hg
      exact h.parent_released g (Or.inr (Or.inr ⟨hi, hg, hl.1⟩)) p hp

end ReleaseForest

end GraphqlCore
