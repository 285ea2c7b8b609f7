import Mathlib.Data.Int.CardIntervalMod
import SharedHashFile.Store.Balance

namespace SharedHashFile.Store

section Counting

theorem count_eq_countP_range (p : Nat → Prop) [DecidablePred p] (n : Nat) :
    Nat.count p n = (List.range n).countP fun j => p j := by
  induction n with
  | zero => rfl
  | succ n ih =>
    rw [Nat.count_succ, List.range_succ, List.countP_append, ih]
    simp [List.countP_singleton]

theorem countP_take_finRange {n : Nat} (p : Nat → Prop) [DecidablePred p] {i : Nat} (le : i ≤ n) :
    ((List.finRange n).take i).countP (fun j => p j.val) = Nat.count p i := by
  have whole : ((List.finRange n).map Fin.val).take i = List.range i := by
    rw [List.map_coe_finRange_eq_range, List.take_range, Nat.min_eq_left le]
  rw [count_eq_countP_range, ← whole, ← List.map_take, List.countP_map]
  rfl

theorem finRange_split {n : Nat} (i : Fin n) :
    List.finRange n = (List.finRange n).take i ++ i :: (List.finRange n).drop (i + 1) := by
  have lt : i.val < (List.finRange n).length := by
    rw [List.length_finRange]
    exact i.isLt
  calc List.finRange n = (List.finRange n).take i ++ (List.finRange n).drop i := (List.take_append_drop _ _).symm
    _ = _ := by
      rw [List.drop_eq_getElem_cons lt, List.getElem_finRange]
      rfl

theorem count_rest {m rest i : Nat} (positive : 0 < m) (here : i % m = rest) : Nat.count (fun j => j % m = rest) i = i / m := by
  have same : (fun j => j % m = rest) = fun j => j ≡ i [MOD m] := by
    funext j
    rw [← here]
    rfl
  simp only [same]
  rw [Nat.count_modEq_card i positive, if_neg (Nat.lt_irrefl _), Nat.add_zero]

end Counting

section Repointing

variable {tabOld tabNew : Nat} {tabs : Fin 2048 → Nat} {i : Fin 2048}

/-- A redirection moves when the number of its table's redirections before it is odd. -/
theorem repointed_at {before after : List (Fin 2048)} {tabSwitch : Bool} (distinct : (before ++ i :: after).Nodup) :
    repointed tabOld tabNew (before ++ i :: after) tabSwitch tabs i = if tabs i = tabOld then
      if (before.countP (fun j => tabs j = tabOld) + if tabSwitch then 1 else 0) % 2 = 1 then tabNew else tabOld
    else tabs i := by
  induction before generalizing tabSwitch tabs with
  | nil =>
    rcases List.nodup_cons.mp distinct with ⟨outside, _⟩
    rw [List.nil_append, repointed]
    by_cases here : tabs i = tabOld
    · rw [if_pos here, if_pos here, repointed_of_not_mem outside, Function.update_self]
      cases tabSwitch <;> rfl
    · rw [if_neg here, if_neg here, repointed_of_not_mem outside]
  | cons j before ih =>
    rw [List.cons_append] at distinct ⊢
    rcases List.nodup_cons.mp distinct with ⟨outside, distinct⟩
    have other : i ≠ j := by
      rintro rfl
      exact outside (List.mem_append_right _ List.mem_cons_self)
    have outside : j ∉ before := fun member => outside (List.mem_append_left _ member)
    rw [repointed, List.countP_cons]
    by_cases here : tabs j = tabOld
    · rw [if_pos here, ih distinct, Function.update_of_ne other, countP_update_of_not_mem outside, decide_eq_true here,
        if_pos rfl]
      cases tabSwitch
      · rfl
      · congr 2
        simp
        omega
    · rw [if_neg here, ih distinct, decide_eq_false here]
      rfl

/-- Exactly the indexes with a rest are redirected to a table. -/
structure Residue (tabs : Fin 2048 → Nat) (tab exponent rest : Nat) : Prop where
  divides : exponent ≤ 11
  below : rest < 2^exponent
  iff : ∀ i : Fin 2048, tabs i = tab ↔ i.val % 2^exponent = rest

variable {exponent rest : Nat}

theorem Residue.halved_at (residue : Residue tabs tabOld exponent rest) (i : Fin 2048) :
    halved tabOld tabNew tabs i = if i.val % 2^exponent = rest then
      if i.val / 2^exponent % 2 = 1 then tabNew else tabOld else tabs i := by
  have distinct : (List.finRange 2048).Nodup := List.nodup_finRange 2048
  have at_ := @repointed_at tabOld tabNew tabs i ((List.finRange 2048).take i) ((List.finRange 2048).drop (i + 1)) false
    (by rwa [← finRange_split])
  rw [← finRange_split] at at_
  have same : (fun j : Fin 2048 => decide (tabs j = tabOld)) = fun j => decide (j.val % 2^exponent = rest) := by
    funext j
    exact decide_eq_decide.mpr (residue.iff j)
  have count := countP_take_finRange (fun j => j % 2^exponent = rest) (Nat.le_of_lt i.isLt)
  have start : (if false = true then 1 else 0) = 0 := rfl
  rw [halved, at_, same, count, start, Nat.add_zero]
  by_cases here : i.val % 2^exponent = rest
  · rw [if_pos ((residue.iff i).mpr here), if_pos here, count_rest (Nat.two_pow_pos exponent) here]
  · rw [if_neg (mt (residue.iff i).mp here), if_neg here]

/-- A residue class is parted into two with twice the modulus. -/
theorem Residue.halved (residue : Residue tabs tabOld exponent rest) (more : exponent < 11) (differ : tabOld ≠ tabNew)
    (fresh : ∀ i, tabs i ≠ tabNew) : Residue (halved tabOld tabNew tabs) tabOld (exponent + 1) rest ∧
      Residue (Store.halved tabOld tabNew tabs) tabNew (exponent + 1) (rest + 2^exponent) := by
  have double : 2^(exponent + 1) = 2^exponent + 2^exponent := by
    rw [Nat.pow_succ]
    omega
  have below := residue.below
  -- an index is of the doubled modulus as its rest and the parity of its quotient say
  have split (i : Fin 2048) : i.val % 2^(exponent + 1) =
      i.val % 2^exponent + if i.val / 2^exponent % 2 = 1 then 2^exponent else 0 := by
    rw [Nat.mod_pow_succ]
    rcases Nat.mod_two_eq_zero_or_one (i.val / 2^exponent) with even | odd
    · rw [even, Nat.mul_zero, if_neg (by decide)]
    · rw [odd, Nat.mul_one, if_pos rfl]
  have low (i : Fin 2048) : i.val % 2^exponent < 2^exponent := Nat.mod_lt _ (Nat.two_pow_pos exponent)
  constructor
  · refine ⟨by omega, by omega, fun i => ?_⟩
    have lt := low i
    rw [residue.halved_at, split]
    by_cases here : i.val % 2^exponent = rest
    · rw [if_pos here, here]
      by_cases odd : i.val / 2^exponent % 2 = 1
      · rw [if_pos odd, if_pos odd]
        exact iff_of_false differ.symm (by omega)
      · rw [if_neg odd, if_neg odd]
        exact iff_of_true rfl rfl
    · rw [if_neg here]
      have away : tabs i ≠ tabOld := mt (residue.iff i).mp here
      split <;> exact iff_of_false away (by omega)
  · refine ⟨by omega, by omega, fun i => ?_⟩
    have lt := low i
    rw [residue.halved_at, split]
    by_cases here : i.val % 2^exponent = rest
    · rw [if_pos here, here]
      by_cases odd : i.val / 2^exponent % 2 = 1
      · rw [if_pos odd, if_pos odd]
        exact iff_of_true rfl rfl
      · rw [if_neg odd, if_neg odd]
        exact iff_of_false differ (by omega)
    · rw [if_neg here]
      split <;> exact iff_of_false (fresh i) (by omega)

theorem Residue.halved_single (residue : Residue tabs tabOld 11 rest) : Store.halved tabOld tabNew tabs = tabs := by
  funext i
  rw [residue.halved_at]
  have small : i.val / 2^11 = 0 := Nat.div_eq_of_lt i.isLt
  have even : ¬ 0 % 2 = 1 := by decide
  rw [small, if_neg even]
  split
  · rename_i here
    exact ((residue.iff i).mpr here).symm
  · rfl

theorem halved_of_none (none_ : ∀ i, tabs i ≠ tabOld) : Store.halved tabOld tabNew tabs = tabs := by
  funext i
  rcases @repointed_cases tabOld tabNew (List.finRange 2048) false tabs i with same | moved
  · exact same
  · exact absurd moved.1 (none_ i)

theorem Residue.redirections_eq {tab : Nat} (residue : Residue tabs tab exponent rest) :
    redirections tabs tab = 2^(11 - exponent) := by
  have divides := residue.divides
  have same : (fun i : Fin 2048 => decide (tabs i = tab)) = fun i => decide (i.val % 2^exponent = rest) := by
    funext i
    exact decide_eq_decide.mpr (residue.iff i)
  have whole := countP_take_finRange (fun j => j % 2^exponent = rest) (Nat.le_refl 2048)
  rw [List.take_of_length_le (Nat.le_of_eq List.length_finRange)] at whole
  have rest_eq : rest = rest % 2^exponent := (Nat.mod_eq_of_lt residue.below).symm
  have classes : (fun j => j % 2^exponent = rest) = fun j => j ≡ rest [MOD 2^exponent] := by
    funext j
    rw [Nat.ModEq, ← rest_eq]
  have power : 2048 = 2^exponent * 2^(11 - exponent) := by
    rw [← Nat.pow_add, Nat.add_sub_cancel' divides]
  unfold redirections
  rw [same, whole]
  simp only [classes]
  have quotient : 2048 / 2^exponent = 2^(11 - exponent) := by
    rw [power, Nat.mul_div_cancel_left _ (Nat.two_pow_pos exponent)]
  have remainder : 2048 % 2^exponent = 0 := by rw [power, Nat.mul_mod_right]
  rw [Nat.count_modEq_card 2048 (Nat.two_pow_pos exponent), quotient, remainder, if_neg (Nat.not_lt_zero _), Nat.add_zero]

theorem Residue.elsewhere {tab : Nat} (residue : Residue tabs tab exponent rest) (notOld : tab ≠ tabOld) (notNew : tab ≠ tabNew) :
    Residue (Store.halved tabOld tabNew tabs) tab exponent rest := by
  refine ⟨residue.divides, residue.below, fun i => ?_⟩
  rw [← residue.iff i]
  rcases @repointed_cases tabOld tabNew (List.finRange 2048) false tabs i with same | moved
  · rw [Store.halved, same]
  · rw [Store.halved, moved.1, moved.2]
    exact iff_of_false notNew.symm notOld.symm

/-- The redirections of a window: the tables are numbered below `tabs_used`, and each has a residue class or none. -/
structure Redirected (tabs : Fin 2048 → Nat) (used : Nat) : Prop where
  used_le : used ≤ 2048
  below : ∀ i, tabs i < used
  class_ : ∀ tab, (∀ i, tabs i ≠ tab) ∨ ∃ exponent rest, Residue tabs tab exponent rest

theorem Redirected.initial : Redirected (fun _ => 0) 1 := by
  refine ⟨by decide, fun _ => Nat.one_pos, fun tab => ?_⟩
  by_cases first : tab = 0
  · refine .inr ⟨0, 0, by decide, by decide, fun i => ?_⟩
    rw [first, Nat.pow_zero, Nat.mod_one]
  · exact .inl fun _ same => first same.symm

/-- A part keeps the redirections so. -/
theorem Redirected.part {used : Nat} (redirected : Redirected tabs used) (room : used < 2048) (tab : Nat) (inUse : tab < used) :
    Redirected (Store.halved tab used tabs) (used + 1) := by
  have fresh : ∀ i, tabs i ≠ used := fun i => Nat.ne_of_lt (redirected.below i)
  have differ : tab ≠ used := Nat.ne_of_lt inUse
  refine ⟨room, fun i => ?_, fun other => ?_⟩
  · rcases @repointed_cases tab used (List.finRange 2048) false tabs i with same | moved
    · rw [Store.halved, same]
      exact Nat.lt_succ_of_lt (redirected.below i)
    · rw [Store.halved, moved.2]
      exact Nat.lt_succ_self used
  · have unmoved (same : Store.halved tab used tabs = tabs) : (∀ i, Store.halved tab used tabs i ≠ other) ∨
        ∃ exponent rest, Residue (Store.halved tab used tabs) other exponent rest := by
      rw [same]
      exact redirected.class_ other
    rcases redirected.class_ tab with none_ | ⟨exponent, rest, residue⟩
    · exact unmoved (halved_of_none none_)
    · by_cases single : exponent = 11
      · subst single
        exact unmoved residue.halved_single
      · have more : exponent < 11 := Nat.lt_of_le_of_ne residue.divides single
        rcases residue.halved more differ fresh with ⟨old, new⟩
        by_cases isOld : other = tab
        · rw [isOld]
          exact .inr ⟨_, _, old⟩
        · by_cases isNew : other = used
          · rw [isNew]
            exact .inr ⟨_, _, new⟩
          · rcases redirected.class_ other with none_ | ⟨exponent', rest', residue'⟩
            · refine .inl fun i there => ?_
              rcases @repointed_cases tab used (List.finRange 2048) false tabs i with same | moved
              · rw [Store.halved, same] at there
                exact none_ i there
              · rw [Store.halved, moved.2] at there
                exact isNew there.symm
            · exact .inr ⟨exponent', rest', residue'.elsewhere isOld isNew⟩

/-- A class of two indexes or more is parted in halves. -/
theorem Redirected.halves {used tab : Nat} (redirected : Redirected tabs used) (inUse : tab < used)
    (shared : 2 ≤ redirections tabs tab) :
    redirections (Store.halved tab used tabs) tab = redirections tabs tab / 2 ∧
      redirections (Store.halved tab used tabs) used = redirections tabs tab / 2 := by
  have fresh : ∀ i, tabs i ≠ used := fun i => Nat.ne_of_lt (redirected.below i)
  rcases redirected.class_ tab with none_ | ⟨exponent, rest, residue⟩
  · have zero : redirections tabs tab = 0 := by
      unfold redirections
      generalize List.finRange 2048 = items
      rw [List.countP_eq_zero]
      exact fun i _ here => none_ i (of_decide_eq_true here)
    rw [zero] at shared
    exact absurd shared (Nat.not_succ_le_zero 1)
  · have count := residue.redirections_eq
    rcases Nat.eq_or_lt_of_le residue.divides with single | more
    · rw [count, single, Nat.sub_self, Nat.pow_zero] at shared
      exact absurd shared (Nat.lt_irrefl 1)
    · have power : 11 - exponent = 10 - exponent + 1 := Nat.succ_sub (Nat.le_of_lt_succ more)
      have even : redirections tabs tab = 2 * 2^(10 - exponent) := by
        rw [count, power, Nat.pow_succ, Nat.mul_comm]
      rw [even, Nat.mul_div_cancel_left _ Nat.two_pos]
      exact redirections_halved (Nat.ne_of_lt inUse) fresh even

end Repointing

end SharedHashFile.Store
