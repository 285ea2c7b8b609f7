import Mathlib.Logic.Function.Basic
import Mathlib.Data.List.Basic

namespace LinkedList

/-- From `first` the links of `next` lead through exactly `items` and then to `stop`. -/
inductive Chain (stop : Nat) (next : Nat → Nat) : Nat → List Nat → Prop
  | nil : Chain stop next stop []
  | cons {item : Nat} {rest : List Nat} (real : item ≠ stop) (tail : Chain stop next (next item) rest) :
      Chain stop next item (item :: rest)

def firstOr (stop : Nat) (items : List Nat) : Nat := items.head?.getD stop
def lastOr (stop : Nat) (items : List Nat) : Nat := items.getLast?.getD stop

section Ends

variable {stop : Nat}

@[simp] theorem firstOr_nil : firstOr stop [] = stop := rfl
@[simp] theorem firstOr_cons (item : Nat) (items : List Nat) : firstOr stop (item :: items) = item := rfl
@[simp] theorem lastOr_nil : lastOr stop [] = stop := rfl
@[simp] theorem lastOr_concat (items : List Nat) (item : Nat) : lastOr stop (items ++ [item]) = item := by
  simp [lastOr]

theorem lastOr_append (xs : List Nat) {ys : List Nat} (nonempty : ys ≠ []) :
    lastOr stop (xs ++ ys) = lastOr stop ys := by
  obtain ⟨zs, z, rfl⟩ := (List.eq_nil_or_concat' ys).resolve_left nonempty
  rw [← List.append_assoc, lastOr_concat, lastOr_concat]

theorem firstOr_append {xs : List Nat} (ys : List Nat) (nonempty : xs ≠ []) :
    firstOr stop (xs ++ ys) = firstOr stop xs := by
  cases xs with
  | nil => exact absurd rfl nonempty
  | cons x xs => rfl

theorem lastOr_mem {items : List Nat} (nonempty : items ≠ []) : lastOr stop items ∈ items := by
  obtain ⟨zs, z, rfl⟩ := (List.eq_nil_or_concat' items).resolve_left nonempty
  simp

theorem lastOr_cons (item : Nat) {items : List Nat} (nonempty : items ≠ []) :
    lastOr stop (item :: items) = lastOr stop items := lastOr_append [item] nonempty

end Ends

namespace Chain

variable {stop first : Nat} {next next' : Nat → Nat} {items : List Nat}

theorem first_eq (chain : Chain stop next first items) : first = firstOr stop items := by
  cases chain <;> rfl

theorem uncons {item : Nat} (chain : Chain stop next first (item :: items)) :
    first = item ∧ Chain stop next (next item) items := by
  cases chain with
  | cons _ tail => exact ⟨rfl, tail⟩

theorem unique {others : List Nat} (chain : Chain stop next first items)
    (other : Chain stop next first others) : items = others := by
  induction chain generalizing others with
  | nil =>
    cases other with
    | nil => rfl
    | cons real _ => exact absurd rfl real
  | cons real _ ih =>
    cases other with
    | nil => exact absurd rfl real
    | cons _ tail => rw [ih tail]

theorem not_mem_stop (chain : Chain stop next first items) : stop ∉ items := by
  induction chain with
  | nil => simp
  | cons real _ ih => simp [ih, Ne.symm real]

theorem last_ne_stop (chain : Chain stop next first items) (nonempty : items ≠ []) :
    lastOr stop items ≠ stop := fun equal => chain.not_mem_stop (equal ▸ lastOr_mem nonempty)

theorem first_ne_stop (chain : Chain stop next first items) (nonempty : items ≠ []) : first ≠ stop := by
  cases chain with
  | nil => exact absurd rfl nonempty
  | cons real _ => exact real

theorem congr (chain : Chain stop next first items) (same : ∀ item ∈ items, next' item = next item) :
    Chain stop next' first items := by
  induction chain with
  | nil => exact .nil
  | cons real _ ih =>
    refine .cons real ?_
    rw [same _ List.mem_cons_self]
    exact ih fun item member => same item (List.mem_cons_of_mem _ member)

theorem update_outside (chain : Chain stop next first items) {item : Nat} (outside : item ∉ items)
    (link : Nat) : Chain stop (Function.update next item link) first items :=
  chain.congr fun _ member => Function.update_of_ne (ne_of_mem_of_not_mem member outside) _ _

theorem last_link (chain : Chain stop next first items) (nonempty : items ≠ []) :
    next (lastOr stop items) = stop := by
  induction chain with
  | nil => exact absurd rfl nonempty
  | cons real tail ih =>
    rename_i item rest
    cases rest with
    | nil => exact tail.first_eq
    | cons other others => rw [lastOr_cons _ (by simp)]; exact ih (by simp)

theorem append {xs ys : List Nat} {second : Nat} (left : Chain stop next first xs)
    (right : Chain stop next second ys) (nonempty : xs ≠ []) (nodup : xs.Nodup)
    (apart : ∀ item ∈ xs, item ∉ ys) :
    Chain stop (Function.update next (lastOr stop xs) second) first (xs ++ ys) := by
  induction left with
  | nil => exact absurd rfl nonempty
  | cons real tail ih =>
    rename_i item rest
    cases rest with
    | nil =>
      refine .cons real ?_
      change Chain stop (Function.update next item second) (Function.update next item second item) ys
      rw [Function.update_self]
      exact right.update_outside (apart item (by simp)) second
    | cons other others =>
      have distinct := List.nodup_cons.mp nodup
      have different : item ≠ lastOr stop (other :: others) :=
        fun equal => distinct.1 (equal ▸ lastOr_mem (by simp))
      rw [lastOr_cons _ (by simp)]
      refine .cons real ?_
      rw [Function.update_of_ne different]
      exact ih (by simp) distinct.2 fun x member => apart x (List.mem_cons_of_mem _ member)

theorem cut {xs ys : List Nat} (chain : Chain stop next first (xs ++ ys)) (nonempty : xs ≠ [])
    (nodup : xs.Nodup) : Chain stop (Function.update next (lastOr stop xs) stop) first xs := by
  induction xs generalizing first with
  | nil => exact absurd rfl nonempty
  | cons item rest ih =>
    cases chain with
    | cons real tail =>
      refine .cons real ?_
      cases rest with
      | nil =>
        change Chain stop (Function.update next item stop) (Function.update next item stop item) []
        rw [Function.update_self]
        exact .nil
      | cons other others =>
        have distinct := List.nodup_cons.mp nodup
        have different : item ≠ lastOr stop (other :: others) :=
          fun equal => distinct.1 (equal ▸ lastOr_mem (by simp))
        rw [lastOr_cons _ (by simp), Function.update_of_ne different]
        exact ih tail (by simp) distinct.2

theorem rest {xs ys : List Nat} (chain : Chain stop next first (xs ++ ys)) (nonempty : xs ≠ []) :
    Chain stop next (next (lastOr stop xs)) ys := by
  induction xs generalizing first with
  | nil => exact absurd rfl nonempty
  | cons item others ih =>
    cases chain with
    | cons real tail =>
      cases others with
      | nil => exact tail
      | cons other others => rw [lastOr_cons _ (by simp)]; exact ih tail (by simp)

end Chain

def follow (next : Nat → Nat) (item : Nat) : Nat → Nat
  | 0 => item
  | count + 1 => follow next (next item) count

theorem Chain.follow_eq {stop first : Nat} {next : Nat → Nat} {items : List Nat}
    (chain : Chain stop next first items) (count : Nat) (bound : count < items.length) :
    follow next first count = lastOr stop (items.take (count + 1)) := by
  induction count generalizing first items with
  | zero =>
    cases chain with
    | nil => simp at bound
    | cons real tail => rfl
  | succ count ih =>
    cases chain with
    | nil => simp at bound
    | @cons item rest real tail =>
      have shorter : count < rest.length := by simpa using bound
      rw [follow, ih tail shorter, List.take_succ_cons, lastOr_cons]
      intro empty
      rw [List.take_eq_nil_iff] at empty
      rcases empty with zero | rfl
      · cases zero
      · simp at shorter

end LinkedList
