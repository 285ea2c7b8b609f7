import Mathlib.Data.List.Chain
import SharedHashFile.LinkedList.Linked

namespace LinkedList

def Backward (last : Nat → Nat) : Nat → List Nat → Prop
  | _, [] => True
  | before, item :: rest => last item = before ∧ Backward last item rest

namespace Backward

variable {last last' : Nat → Nat} {before : Nat} {items xs ys : List Nat}

theorem congr (backward : Backward last before items) (same : ∀ item ∈ items, last' item = last item) :
    Backward last' before items := by
  induction items generalizing before with
  | nil => trivial
  | cons item rest ih =>
    rcases backward with ⟨link, backward⟩
    refine ⟨?_, ih backward fun other member => same other (List.mem_cons_of_mem _ member)⟩
    rw [same item List.mem_cons_self]
    exact link

theorem update_outside (backward : Backward last before items) {item : Nat} (outside : item ∉ items) (link : Nat) :
    Backward (Function.update last item link) before items :=
  backward.congr fun _ member => Function.update_of_ne (ne_of_mem_of_not_mem member outside) _ _

theorem lastOr_first (stop item : Nat) (items : List Nat) : lastOr stop (item :: items) = lastOr item items := by
  simp [lastOr, List.getLast?_cons]

theorem append_iff : Backward last before (xs ++ ys) ↔ Backward last before xs ∧ Backward last (lastOr before xs) ys := by
  induction xs generalizing before with
  | nil => exact ⟨fun backward => ⟨trivial, backward⟩, And.right⟩
  | cons item rest ih =>
    rw [lastOr_first]
    exact (and_congr_right fun _ => ih).trans and_assoc.symm

theorem relink (backward : Backward last before items) (nodup : items.Nodup) (link : Nat) :
    Backward (Function.update last (firstOr before items) link) link items := by
  cases items with
  | nil => trivial
  | cons item rest =>
    refine ⟨Function.update_self _ _ _, ?_⟩
    exact Backward.update_outside backward.2 (List.nodup_cons.mp nodup).1 link

end Backward

structure DoublyLinked (stop : Nat) (next last : Nat → Nat) (head tail size : Nat) (items : List Nat) : Prop where
  tail_eq : tail = firstOr stop items
  head_eq : head = lastOr stop items
  size_eq : size = items.length
  real : stop ∉ items
  links : items.IsChain fun x y => next x = y ∧ last y = x
  first : ∀ x ∈ items.head?, last x = stop
  ends : ∀ x ∈ items.getLast?, next x = stop

section Both

variable {stop first before head tail size : Nat} {next last : Nat → Nat} {items : List Nat}

theorem chain_backward_iff : Chain stop next first items ∧ Backward last before items ↔
    (first = firstOr stop items ∧ stop ∉ items) ∧ (items.IsChain fun x y => next x = y ∧ last y = x) ∧
      (∀ x ∈ items.head?, last x = before) ∧ ∀ x ∈ items.getLast?, next x = stop := by
  induction items generalizing first before with
  | nil =>
    constructor
    · rintro ⟨chain, _⟩
      exact ⟨⟨chain.first_eq, nofun⟩, .nil, nofun, nofun⟩
    · rintro ⟨⟨rfl, _⟩, _⟩
      exact ⟨.nil, trivial⟩
  | cons item rest ih =>
    have tail := @ih (next item) item
    constructor
    · rintro ⟨chain, link, backward⟩
      rcases chain.uncons with ⟨rfl, follows⟩
      rcases tail.mp ⟨follows, backward⟩ with ⟨⟨next_eq, real⟩, links, back, ends⟩
      have realItem : stop ∉ first :: rest := chain.not_mem_stop
      refine ⟨⟨rfl, realItem⟩, ?_, ?_, ?_⟩
      · cases rest with
        | nil => exact .singleton _
        | cons other others => exact .cons_cons ⟨next_eq, back other rfl⟩ links
      · rintro x ⟨⟩
        exact link
      · cases rest with
        | nil =>
          rintro x ⟨⟩
          exact next_eq
        | cons other others => exact ends
    · rintro ⟨⟨first_eq, real⟩, links, back, ends⟩
      rw [first_eq, firstOr_cons]
      have realItem : item ≠ stop := fun same => real (same ▸ List.mem_cons_self)
      have realRest : stop ∉ rest := fun member => real (List.mem_cons_of_mem _ member)
      have follows : Chain stop next (next item) rest ∧ Backward last item rest := by
        apply tail.mpr
        cases rest with
        | nil => exact ⟨⟨ends item rfl, realRest⟩, .nil, nofun, nofun⟩
        | cons other others =>
          rcases List.isChain_cons_cons.mp links with ⟨⟨next_eq, last_eq⟩, links⟩
          refine ⟨⟨next_eq, realRest⟩, links, ?_, ends⟩
          rintro x ⟨⟩
          exact last_eq
      exact ⟨.cons realItem follows.1, back item rfl, follows.2⟩

theorem doublyLinked_iff : DoublyLinked stop next last head tail size items ↔
    Linked stop next head tail size items ∧ Backward last stop items := by
  constructor
  · rintro ⟨tail_eq, head_eq, size_eq, real, links, first, ends⟩
    rcases chain_backward_iff.mpr ⟨⟨tail_eq, real⟩, links, first, ends⟩ with ⟨chain, backward⟩
    exact ⟨⟨chain, head_eq, size_eq⟩, backward⟩
  · rintro ⟨⟨chain, head_eq, size_eq⟩, backward⟩
    rcases chain_backward_iff.mp ⟨chain, backward⟩ with ⟨⟨tail_eq, real⟩, links, first, ends⟩
    exact ⟨tail_eq, head_eq, size_eq, real, links, first, ends⟩

end Both

end LinkedList
