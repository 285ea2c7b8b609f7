import Mathlib.Data.List.Nodup
import Mathlib.Data.List.Perm.Basic
import Mathlib.Logic.Function.Basic
import Mathlib.Logic.ExistsUnique

namespace LinkedList

variable {Place Item : Type}

/-- Lists at many places which together hold each item of `all` exactly once, and no other item. -/
structure Partition (all : Item → Prop) (lists : Place → List Item) : Prop where
  nodup : ∀ place, (lists place).Nodup
  apart : ∀ {item place other}, item ∈ lists place → item ∈ lists other → place = other
  covers : ∀ item, all item ↔ ∃ place, item ∈ lists place

namespace Partition

variable {all : Item → Prop} {lists : Place → List Item}

theorem unique (partition : Partition all lists) {item : Item} (valid : all item) :
    ∃! place, item ∈ lists place := by
  obtain ⟨place, member⟩ := (partition.covers item).mp valid
  exact ⟨place, member, fun other also => partition.apart also member⟩

theorem valid (partition : Partition all lists) {item : Item} {place : Place}
    (member : item ∈ lists place) : all item := (partition.covers item).mpr ⟨place, member⟩

theorem outside (partition : Partition all lists) {item : Item} {place other : Place}
    (member : item ∈ lists place) (different : place ≠ other) : item ∉ lists other :=
  fun also => different (partition.apart member also)

variable [DecidableEq Place]

def exchange (lists : Place → List Item) (first second : Place) (xs ys : List Item) : Place → List Item :=
  Function.update (Function.update lists first xs) second ys

theorem exchange_second (first second : Place) (xs ys : List Item) :
    exchange lists first second xs ys second = ys := Function.update_self _ _ _

theorem exchange_first {first second : Place} (different : first ≠ second) (xs ys : List Item) :
    exchange lists first second xs ys first = xs := by
  rw [exchange, Function.update_of_ne different, Function.update_self]

theorem exchange_other {first second place : Place} (notFirst : place ≠ first) (notSecond : place ≠ second)
    (xs ys : List Item) : exchange lists first second xs ys place = lists place := by
  rw [exchange, Function.update_of_ne notSecond, Function.update_of_ne notFirst]

theorem exchange_apply (first second : Place) (xs ys : List Item) (place : Place) :
    exchange lists first second xs ys place =
      if place = second then ys else if place = first then xs else lists place := by
  simp only [exchange, Function.update_apply]

section Move

variable {first second : Place} {xs ys : List Item} (different : first ≠ second)
  (moved : (lists first ++ lists second).Perm (xs ++ ys))

include different moved

theorem exchange_either {item : Item} :
    item ∈ exchange lists first second xs ys first ∨ item ∈ exchange lists first second xs ys second ↔
      item ∈ lists first ∨ item ∈ lists second := by
  rw [exchange_first different, exchange_second, ← List.mem_append, ← List.mem_append, moved.mem_iff]

theorem exchange_place (partition : Partition all lists) {item : Item} {place : Place}
    (member : item ∈ exchange lists first second xs ys place) :
    (place = first ∨ place = second) ↔ (item ∈ lists first ∨ item ∈ lists second) := by
  constructor
  · rintro (rfl | rfl)
    · exact (exchange_either different moved).mp (.inl member)
    · exact (exchange_either different moved).mp (.inr member)
  · intro either
    by_contra neither
    obtain ⟨notFirst, notSecond⟩ := not_or.mp neither
    rw [exchange_other notFirst notSecond] at member
    rcases either with also | also
    · exact notFirst (partition.apart member also)
    · exact notSecond (partition.apart member also)

theorem exchange_partition (partition : Partition all lists) :
    Partition all (exchange lists first second xs ys) := by
  have distinct : (xs ++ ys).Nodup := moved.nodup_iff.mp <| List.nodup_append.mpr
    ⟨partition.nodup first, partition.nodup second, fun item member other also equal =>
      partition.outside member different (equal ▸ also)⟩
  obtain ⟨nodupFirst, nodupSecond, disjoint⟩ := List.nodup_append.mp distinct
  refine ⟨fun place => ?_, fun {item place other} member also => ?_, fun item => ?_⟩
  · by_cases isSecond : place = second
    · rw [isSecond, exchange_second]
      exact nodupSecond
    by_cases isFirst : place = first
    · rw [isFirst, exchange_first different]
      exact nodupFirst
    · rw [exchange_other isFirst isSecond]
      exact partition.nodup place
  · have here := exchange_place different moved partition member
    have there := exchange_place different moved partition also
    by_cases either : item ∈ lists first ∨ item ∈ lists second
    · rcases here.mpr either with rfl | rfl <;> rcases there.mpr either with rfl | rfl
      · rfl
      · rw [exchange_first different] at member
        rw [exchange_second] at also
        exact absurd rfl (disjoint item member item also)
      · rw [exchange_first different] at also
        rw [exchange_second] at member
        exact absurd rfl (disjoint item also item member)
      · rfl
    · obtain ⟨notFirst, notSecond⟩ := not_or.mp (mt here.mp either)
      obtain ⟨otherFirst, otherSecond⟩ := not_or.mp (mt there.mp either)
      rw [exchange_other notFirst notSecond] at member
      rw [exchange_other otherFirst otherSecond] at also
      exact partition.apart member also
  · rw [partition.covers]
    have moves := (exchange_either different moved : item ∈ _ ∨ _ ↔ _)
    constructor
    · rintro ⟨place, member⟩
      by_cases either : item ∈ lists first ∨ item ∈ lists second
      · exact (moves.mpr either).elim (fun there => ⟨_, there⟩) fun there => ⟨_, there⟩
      · have notFirst : place ≠ first := fun equal => either (.inl (equal ▸ member))
        have notSecond : place ≠ second := fun equal => either (.inr (equal ▸ member))
        refine ⟨place, ?_⟩
        rw [exchange_other notFirst notSecond]
        exact member
    · rintro ⟨place, member⟩
      by_cases either : item ∈ lists first ∨ item ∈ lists second
      · exact either.elim (fun there => ⟨_, there⟩) fun there => ⟨_, there⟩
      · obtain ⟨notFirst, notSecond⟩ := not_or.mp
          (mt (exchange_place different moved partition member).mp either)
        rw [exchange_other notFirst notSecond] at member
        exact ⟨place, member⟩

end Move

end Partition

end LinkedList
