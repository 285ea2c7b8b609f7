import Mathlib.Algebra.Order.BigOperators.Group.Finset
import Mathlib.Algebra.BigOperators.Fin

namespace Transition

variable {State : Type*}

inductive Reachable (initial : State → Prop) (step : State → State → Prop) : State → Prop
  | start {s : State} : initial s → Reachable initial step s
  | next {s t : State} : Reachable initial step s → step s t → Reachable initial step t

theorem Reachable.invariant {initial : State → Prop} {step : State → State → Prop}
    {invariant : State → Prop} (starts : ∀ s, initial s → invariant s)
    (kept : ∀ s t, invariant s → step s t → invariant t) {s : State}
    (reached : Reachable initial step s) : invariant s := by
  induction reached with
  | start first => exact starts _ first
  | next _ moved holds => exact kept _ _ holds moved

section Clients

variable {Client Local : Type*} [Fintype Client]

/-- A quantity each client contributes to according to its local state. -/
def total (weight : Local → Nat) (locals : Client → Local) : Nat := ∑ client, weight (locals client)

theorem total_update [DecidableEq Client] (weight : Local → Nat) (locals : Client → Local) (client : Client)
    (after : Local) :
    total weight (Function.update locals client after) + weight (locals client) =
      total weight locals + weight after := by
  have moved := Finset.add_sum_erase Finset.univ
    (fun c => weight (Function.update locals client after c)) (Finset.mem_univ client)
  have before := Finset.add_sum_erase Finset.univ (fun c => weight (locals c))
    (Finset.mem_univ client)
  have others : ∑ c ∈ Finset.univ.erase client, weight (Function.update locals client after c) =
      ∑ c ∈ Finset.univ.erase client, weight (locals c) :=
    Finset.sum_congr rfl fun c member => by
      rw [Function.update_of_ne (Finset.ne_of_mem_erase member)]
  simp only [Function.update_self] at moved
  unfold total
  omega

theorem weight_le_total (weight : Local → Nat) (locals : Client → Local) (client : Client) :
    weight (locals client) ≤ total weight locals :=
  Finset.single_le_sum (f := fun c => weight (locals c)) (fun _ _ => Nat.zero_le _)
    (Finset.mem_univ client)

theorem total_le_card (weight : Local → Nat) (locals : Client → Local)
    (bound : ∀ l, weight l ≤ 1) : total weight locals ≤ Fintype.card Client := by
  have each := Finset.sum_le_card_nsmul Finset.univ (fun c => weight (locals c)) 1
    fun c _ => bound (locals c)
  simpa [total] using each

theorem total_add (left right : Local → Nat) (locals : Client → Local) :
    total (fun l => left l + right l) locals = total left locals + total right locals :=
  Finset.sum_add_distrib

end Clients

end Transition
