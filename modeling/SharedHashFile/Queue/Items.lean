import Mathlib.Data.Finset.Card
import Mathlib.Data.Finset.Prod
import SharedHashFile.Queue.Ownership

namespace SharedHashFile.Queue

/-- The length which `shf_q_new` reserves under `__q_items_addr`; the product is one of 32 bits. -/
def reservedLen (params : Params) : Nat := params.qItems * params.qItemSize % 2^32

/-- Where a pull finds the memory of an item, from `q_item_addr`; the product is one of 32 bits. -/
def qiidAddr (params : Params) (qiid : Nat) : Nat := qiid * params.qItemSize % 2^32

/-- The items have memory of their own, all of it reserved. -/
structure ItemsApart (params : Params) : Prop where
  inside : ∀ qiid < params.qItems, qiidAddr params qiid + params.qItemSize ≤ reservedLen params
  apart : ∀ qiid < params.qItems, ∀ qiid' < params.qItems, qiid ≠ qiid' →
    qiidAddr params qiid + params.qItemSize ≤ qiidAddr params qiid' ∨
      qiidAddr params qiid' + params.qItemSize ≤ qiidAddr params qiid

/-- A pull sets `shf_qiid_addr` to where the item is. -/
theorem pulled_addr {params : Params} {s t : QState} {p qid qiid : Nat} (step : Step params s (.pulled p qid qiid) t) :
    (t.process p).shfQiidAddr = some (qiidAddr params qiid) ∧ (t.process p).shfQiidAddrLen = params.qItemSize := by
  cases step
  simp only [QState.setQiid, Function.update_self]
  exact ⟨rfl, trivial⟩

theorem ranges_fit {many len total : Nat} {addr : Nat → Nat} (inside : ∀ i < many, addr i + len ≤ total)
    (apart : ∀ i < many, ∀ j < many, i ≠ j → addr i + len ≤ addr j ∨ addr j + len ≤ addr i) : many * len ≤ total := by
  have bytes : ((Finset.range many ×ˢ Finset.range len).card ≤ (Finset.range total).card) := by
    apply Finset.card_le_card_of_injOn fun place => addr place.1 + place.2
    · rintro ⟨i, k⟩ member
      rw [Finset.mem_coe, Finset.mem_product, Finset.mem_range, Finset.mem_range] at member
      have := inside i member.1
      change addr i + k ∈ Finset.range total
      rw [Finset.mem_range]
      dsimp only at *
      omega
    · rintro ⟨i, k⟩ member ⟨j, l⟩ member' same
      rw [Finset.mem_coe, Finset.mem_product, Finset.mem_range, Finset.mem_range] at member member'
      change addr i + k = addr j + l at same
      by_cases one : i = j
      · rw [one] at same ⊢
        rw [Nat.add_left_cancel same]
      · have := apart i member.1 j member'.1 one
        have := member.2
        have := member'.2
        dsimp only at *
        omega
  rwa [Finset.card_product, Finset.card_range, Finset.card_range, Finset.card_range] at bytes

/-- The items have memory of their own exactly when their total length is a 32-bit number. -/
theorem itemsApart_iff (params : Params) : ItemsApart params ↔ params.qItems * params.qItemSize < 2^32 := by
  constructor
  · intro items
    have fit := ranges_fit items.inside items.apart
    have reserved : reservedLen params < 2^32 := Nat.mod_lt _ (by decide)
    omega
  · intro total
    have addr {qiid : Nat} (below : qiid < params.qItems) : qiidAddr params qiid = qiid * params.qItemSize :=
      Nat.mod_eq_of_lt (lt_of_le_of_lt (Nat.mul_le_mul_right _ (Nat.le_of_lt below)) total)
    have ends {qiid bound : Nat} (below : qiid < bound) :
        qiid * params.qItemSize + params.qItemSize ≤ bound * params.qItemSize := by
      rw [← Nat.succ_mul]
      exact Nat.mul_le_mul_right _ below
    constructor
    · intro qiid below
      rw [addr below, reservedLen, Nat.mod_eq_of_lt total]
      exact ends below
    · intro qiid below qiid' below' differ
      rw [addr below, addr below']
      rcases Nat.lt_or_gt_of_ne differ with before | after
      · exact .inl (ends before)
      · exact .inr (ends after)

def largeItems : Params :=
  { smallParams with qItemSize := 2^31, qItemSize_ge := by decide, qItemSize_lt := by decide }

theorem not_itemsApart : ¬ ∀ params, ItemsApart params := by
  intro apart
  have inside := (apart largeItems).inside 0 (by decide)
  revert inside
  decide

end SharedHashFile.Queue
