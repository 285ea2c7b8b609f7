import Mathlib.Algebra.BigOperators.Group.Finset.Basic
import Mathlib.Algebra.Order.BigOperators.Group.Finset
import SharedHashFile.Store.PartSpec

namespace SharedHashFile.Store

def redirections (tabs : Fin 2048 → Nat) (tab : Nat) : Nat := (List.finRange 2048).countP fun i => tabs i = tab

section Halving

variable {tabOld tabNew tab : Nat} {items : List (Fin 2048)} {tabSwitch : Bool} {tabs : Fin 2048 → Nat}

theorem repointed_of_not_mem {i : Fin 2048} (outside : i ∉ items) :
    repointed tabOld tabNew items tabSwitch tabs i = tabs i := by
  induction items generalizing tabSwitch tabs with
  | nil => rfl
  | cons tab2 rest ih =>
    rcases not_or.mp (mt List.mem_cons.mpr outside) with ⟨other, outside⟩
    unfold repointed
    split
    · rw [ih outside]
      exact Function.update_of_ne other _ _
    · exact ih outside

theorem countP_update_of_not_mem {tab2 : Fin 2048} {value : Nat} (outside : tab2 ∉ items) :
    items.countP (fun i => Function.update tabs tab2 value i = tab) = items.countP fun i => tabs i = tab := by
  apply List.countP_congr
  intro i member
  have other : i ≠ tab2 := fun same => outside (same ▸ member)
  rw [Function.update_of_ne other]

theorem countP_repointed (distinct : items.Nodup) (differ : tabOld ≠ tabNew) (fresh : ∀ i ∈ items, tabs i ≠ tabNew) :
    items.countP (fun i => repointed tabOld tabNew items tabSwitch tabs i = tabNew) =
      ((items.countP fun i => tabs i = tabOld) + if tabSwitch then 1 else 0) / 2 := by
  induction items generalizing tabSwitch tabs with
  | nil =>
    simp only [List.countP_nil]
    split <;> rfl
  | cons tab2 rest ih =>
    rcases List.nodup_cons.mp distinct with ⟨outside, distinct⟩
    have freshRest : ∀ i ∈ rest, tabs i ≠ tabNew := fun i member => fresh i (List.mem_cons_of_mem _ member)
    have fresh2 := fresh tab2 List.mem_cons_self
    rw [List.countP_cons, List.countP_cons]
    by_cases here : tabs tab2 = tabOld
    · simp only [repointed, if_pos here, repointed_of_not_mem outside, Function.update_self]
      rw [ih distinct fun i member => ?_, countP_update_of_not_mem outside]
      · cases tabSwitch with
        | true =>
          simp [here]
          omega
        | false => simp [here, differ]
      · have other : i ≠ tab2 := fun same => outside (same ▸ member)
        rw [Function.update_of_ne other]
        exact freshRest i member
    · simp only [repointed, if_neg here, repointed_of_not_mem outside]
      rw [ih distinct freshRest]
      simp [here, fresh2]

theorem countP_add {α : Type} {items : List α} {p q r : α → Bool}
    (split : ∀ i ∈ items, (r i = true ↔ p i = true ∨ q i = true) ∧ ¬(p i = true ∧ q i = true)) :
    items.countP p + items.countP q = items.countP r := by
  induction items with
  | nil => rfl
  | cons i rest ih =>
    have others := ih fun j member => split j (List.mem_cons_of_mem _ member)
    have here := split i List.mem_cons_self
    simp only [List.countP_cons]
    cases one : p i <;> cases two : q i <;> cases both : r i <;> simp_all <;> omega

theorem countP_repointed_add (differ : tabOld ≠ tabNew) (fresh : ∀ i ∈ items, tabs i ≠ tabNew) :
    items.countP (fun i => repointed tabOld tabNew items tabSwitch tabs i = tabOld) +
      items.countP (fun i => repointed tabOld tabNew items tabSwitch tabs i = tabNew) =
      items.countP fun i => tabs i = tabOld := by
  apply countP_add
  intro i member
  simp only [decide_eq_true_eq]
  have notNew := fresh i member
  rcases @repointed_cases tabOld tabNew items tabSwitch tabs i with same | moved
  · rw [same]
    exact ⟨⟨.inl, fun either => either.resolve_right notNew⟩, fun both => notNew both.2⟩
  · rw [moved.1, moved.2]
    exact ⟨⟨fun _ => .inr rfl, fun _ => rfl⟩, fun both => differ both.1.symm⟩

/-- A part halves the redirections of its table. -/
theorem redirections_halved {half : Nat} (differ : tabOld ≠ tabNew) (fresh : ∀ i, tabs i ≠ tabNew)
    (even : redirections tabs tabOld = 2 * half) : redirections (halved tabOld tabNew tabs) tabOld = half ∧
      redirections (halved tabOld tabNew tabs) tabNew = half := by
  have distinct : (List.finRange 2048).Nodup := List.nodup_finRange 2048
  unfold redirections halved at *
  generalize List.finRange 2048 = items at *
  have new := @countP_repointed tabOld tabNew items false tabs distinct differ fun i _ => fresh i
  have both := @countP_repointed_add tabOld tabNew items false tabs differ fun i _ => fresh i
  rw [even, if_neg (by decide)] at new
  rw [even] at both
  omega

theorem redirections_elsewhere (notOld : tab ≠ tabOld) (notNew : tab ≠ tabNew) :
    redirections (halved tabOld tabNew tabs) tab = redirections tabs tab := by
  unfold redirections
  generalize List.finRange 2048 = items
  apply List.countP_congr
  intro i _
  simp only [decide_eq_true_eq]
  rcases @repointed_cases tabOld tabNew (List.finRange 2048) false tabs i with same | moved
  · rw [halved, same]
  · rw [halved, moved.1, moved.2]
    exact ⟨fun eq => absurd eq.symm notNew, fun eq => absurd eq.symm notOld⟩

theorem two_le_redirections {i j : Fin 2048} (differ : i ≠ j) (first : tabs i = tab) (second : tabs j = tab) :
    2 ≤ redirections tabs tab := by
  unfold redirections
  rw [List.countP_eq_length_filter]
  have pair : [i, j].Nodup := by simp [differ]
  apply List.Nodup.length_le_of_subset pair
  intro k member
  rcases List.mem_pair.mp member with rfl | rfl
  · simp [first]
  · simp [second]

end Halving

/-- The redirections of a window after any parts: each table has a power of two of them. -/
structure Balanced (tabs : Fin 2048 → Nat) (used : Nat) : Prop where
  below : ∀ i, tabs i < used
  power : ∀ tab, tab < used → ∃ exponent, redirections tabs tab = 2^exponent

section Balanced

variable {tabs : Fin 2048 → Nat} {used tab : Nat}

theorem Balanced.initial : Balanced (fun _ => 0) 1 := by
  refine ⟨fun _ => Nat.one_pos, fun tab first => ⟨11, ?_⟩⟩
  unfold redirections
  rw [Nat.lt_one_iff.mp first, List.countP_eq_length.mpr (by simp), List.length_finRange]
  rfl

theorem Balanced.sum (balanced : Balanced tabs used) :
    ∑ tab ∈ Finset.range used, redirections tabs tab = 2048 := by
  have counted : ∀ tab, redirections tabs tab = ((List.finRange 2048).map tabs : Multiset Nat).count tab := by
    intro tab
    rw [Multiset.coe_count, List.count, List.countP_map, redirections]
    apply List.countP_congr
    simp
  simp only [counted]
  rw [Multiset.sum_count_eq_card, Multiset.coe_card, List.length_map, List.length_finRange]
  intro value member
  rcases List.mem_map.mp (Multiset.mem_coe.mp member) with ⟨i, _, rfl⟩
  exact Finset.mem_range.mpr (balanced.below i)

theorem Balanced.positive (balanced : Balanced tabs used) (inUse : tab < used) : 1 ≤ redirections tabs tab := by
  rcases balanced.power tab inUse with ⟨exponent, count⟩
  rw [count]
  exact Nat.one_le_two_pow

/-- A table with two redirections leaves room for one more table. -/
theorem Balanced.room (balanced : Balanced tabs used) (inUse : tab < used) (shared : 2 ≤ redirections tabs tab) :
    used < 2048 := by
  have strict : ∑ _tab ∈ Finset.range used, 1 < ∑ tab ∈ Finset.range used, redirections tabs tab := by
    apply Finset.sum_lt_sum
    · intro other member
      exact balanced.positive (Finset.mem_range.mp member)
    · exact ⟨tab, Finset.mem_range.mpr inUse, shared⟩
  rw [balanced.sum, ← Finset.card_eq_sum_ones, Finset.card_range] at strict
  exact strict

/-- A part of a table with two redirections keeps the balance. -/
theorem Balanced.halved {exponent : Nat} (balanced : Balanced tabs used) (inUse : tab < used)
    (count : redirections tabs tab = 2^(exponent + 1)) : Balanced (Store.halved tab used tabs) (used + 1) ∧
      redirections (Store.halved tab used tabs) tab = 2^exponent ∧
      redirections (Store.halved tab used tabs) used = 2^exponent := by
  have differ : tab ≠ used := Nat.ne_of_lt inUse
  have fresh : ∀ i, tabs i ≠ used := fun i => Nat.ne_of_lt (balanced.below i)
  have even : redirections tabs tab = 2 * 2^exponent := by
    rw [count, pow_succ]
    omega
  rcases redirections_halved differ fresh even with ⟨old, new⟩
  refine ⟨⟨fun i => ?_, fun other small => ?_⟩, old, new⟩
  · rcases @repointed_cases tab used (List.finRange 2048) false tabs i with same | moved
    · rw [Store.halved, same]
      exact Nat.lt_succ_of_lt (balanced.below i)
    · rw [Store.halved, moved.2]
      exact Nat.lt_succ_self used
  · by_cases isOld : other = tab
    · rw [isOld]
      exact ⟨exponent, old⟩
    · by_cases isNew : other = used
      · rw [isNew]
        exact ⟨exponent, new⟩
      · rw [redirections_elsewhere isOld isNew]
        exact balanced.power other (by omega)

end Balanced

end SharedHashFile.Store
