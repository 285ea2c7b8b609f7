import SharedHashFile.LinkedList.Chain

namespace LinkedList

/-- A queue record whose links hold `items`: pulled at `tail`, pushed at `head`. -/
structure Linked (stop : Nat) (next : Nat → Nat) (head tail size : Nat) (items : List Nat) : Prop where
  chain : Chain stop next tail items
  head_eq : head = lastOr stop items
  size_eq : size = items.length

namespace Linked

variable {stop head tail size : Nat} {next next' : Nat → Nat} {items : List Nat}

theorem empty (stop : Nat) (next : Nat → Nat) : Linked stop next stop stop 0 [] := ⟨.nil, rfl, rfl⟩

theorem tail_eq (linked : Linked stop next head tail size items) : tail = firstOr stop items :=
  linked.chain.first_eq

theorem congr (linked : Linked stop next head tail size items)
    (same : ∀ item ∈ items, next' item = next item) : Linked stop next' head tail size items :=
  ⟨linked.chain.congr same, linked.head_eq, linked.size_eq⟩

theorem head_stop_iff (linked : Linked stop next head tail size items) : head = stop ↔ items = [] := by
  constructor
  · intro equal
    by_contra nonempty
    exact linked.chain.last_ne_stop nonempty (linked.head_eq ▸ equal)
  · rintro rfl
    exact linked.head_eq

theorem size_zero_iff (linked : Linked stop next head tail size items) : size = 0 ↔ items = [] := by
  rw [linked.size_eq, List.length_eq_zero_iff]

theorem single (next : Nat → Nat) {item : Nat} (real : item ≠ stop) (ends : next item = stop) :
    Linked stop next item item 1 [item] := by
  refine ⟨.cons real ?_, rfl, rfl⟩
  rw [ends]
  exact .nil

theorem end_head (linked : Linked stop next head tail size items) (nonempty : items ≠ []) :
    Function.update next head stop = next := by
  have last := linked.chain.last_link nonempty
  rw [← linked.head_eq] at last
  rw [Function.update_eq_iff]
  exact ⟨last.symm, fun _ _ => rfl⟩

def joined (stop : Nat) (next : Nat → Nat) (head tail : Nat) : Nat → Nat :=
  if head = stop then next else Function.update next head tail

theorem joined_outside {head : Nat} (tail : Nat) {item : Nat} (other : item ≠ head) :
    joined stop next head tail item = next item := by
  unfold joined
  split
  · rfl
  · exact Function.update_of_ne other _ _

theorem joined_frame (linked : Linked stop next head tail size items) (tail' : Nat) {item : Nat}
    (outside : item ∉ items) : joined stop next' head tail' item = next' item := by
  by_cases empty : head = stop
  · rw [joined, if_pos empty]
  · have nonempty : items ≠ [] := mt linked.head_stop_iff.mpr empty
    refine joined_outside _ fun equal => outside ?_
    rw [equal, linked.head_eq]
    exact lastOr_mem nonempty

theorem join {head' tail' size' : Nat} {xs ys : List Nat} (left : Linked stop next head tail size xs)
    (right : Linked stop next head' tail' size' ys) (nonempty : ys ≠ []) (nodup : xs.Nodup)
    (apart : ∀ item ∈ xs, item ∉ ys) :
    Linked stop (joined stop next head tail') head' (if head = stop then tail' else tail) (size + size')
      (xs ++ ys) := by
  refine ⟨?_, ?_, ?_⟩
  · by_cases empty : head = stop
    · rw [joined, if_pos empty, if_pos empty, left.head_stop_iff.mp empty]
      exact right.chain
    · rw [joined, if_neg empty, if_neg empty, left.head_eq]
      exact left.chain.append right.chain (fun none => empty (left.head_stop_iff.mpr none)) nodup apart
  · rw [right.head_eq, lastOr_append _ nonempty]
  · rw [left.size_eq, right.size_eq, List.length_append]

theorem split {xs ys : List Nat} (linked : Linked stop next head tail size (xs ++ ys)) (nonempty : xs ≠ [])
    (nodup : (xs ++ ys).Nodup) :
    Linked stop (Function.update next (lastOr stop xs) stop) (lastOr stop xs) tail xs.length xs ∧
      Linked stop (Function.update next (lastOr stop xs) stop) (if ys = [] then stop else head)
        (next (lastOr stop xs)) ys.length ys := by
  obtain ⟨distinct, _, apart⟩ := List.nodup_append.mp nodup
  constructor
  · exact ⟨linked.chain.cut nonempty distinct, rfl, rfl⟩
  · refine ⟨?_, ?_, rfl⟩
    · exact (linked.chain.rest nonempty).update_outside
        (fun member => apart _ (lastOr_mem nonempty) _ member rfl) stop
    · split
      · rename_i none
        rw [none]
        rfl
      · rename_i more
        rw [linked.head_eq, lastOr_append _ more]

/-- Taking the item at the tail; its own link is left as it is. -/
theorem pull {item : Nat} {rest : List Nat} (linked : Linked stop next head tail size (item :: rest)) :
    tail = item ∧ Linked stop next (if next item = stop then stop else head) (next item) (size - 1) rest := by
  obtain ⟨chain, head_eq, size_eq⟩ := linked
  cases chain with
  | cons real follows =>
    refine ⟨rfl, follows, ?_, ?_⟩
    · rw [follows.first_eq]
      cases rest with
      | nil => simp
      | cons other others =>
        have more := follows.first_ne_stop (by simp)
        rw [follows.first_eq] at more
        rw [if_neg more, head_eq, lastOr_cons _ (by simp)]
    · rw [size_eq, List.length_cons, Nat.add_sub_cancel]

end Linked

end LinkedList
