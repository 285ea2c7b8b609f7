import SharedHashFile.Lock.RwLockFairness

namespace SharedHashFile.Lock

open Transition

def Pc.spinning : Pc → Option (Mode × Nat)
  | .drew mode ticket _ | .spin mode ticket _ => some (mode, ticket)
  | _ => none

namespace LockState

variable {clients : Nat}

def Active (s : LockState clients) (mode : Mode) (ticket : Nat) : Prop :=
  match mode with
  | .reader => ticket = ticketActiveReader s.lock
  | .writer => ticket = ticketActiveWriter s.lock

/-- A client is inside, or one which waits may enter. -/
def Progresses (s : LockState clients) : Prop :=
  (∃ c, (s.pc c).inside ≠ none) ∨ ∃ c mode ticket, (s.pc c).spinning = some (mode, ticket) ∧ s.Active mode ticket

end LockState

variable {clients : Nat}

theorem Pc.outside_weights {pc : Pc} (outside : pc.inside = none) : pc.reading = 0 ∧
    (pc.waiting = 1 ↔ ∃ mode ticket, pc.spinning = some (mode, ticket)) := by
  cases pc with
  | drew mode ticket order => exact ⟨rfl, fun _ => ⟨mode, ticket, rfl⟩, fun _ => rfl⟩
  | spin mode ticket order => exact ⟨rfl, fun _ => ⟨mode, ticket, rfl⟩, fun _ => rfl⟩
  | admitting order => cases outside
  | admitted order => cases outside
  | holds mode order => cases outside
  | _ => exact ⟨rfl, nofun, nofun⟩

theorem Pc.spinning_placed {released passed drawn ticket : Nat} {mode : Mode} {pc : Pc}
    (placed : pc.Placed released passed drawn) (spinning : pc.spinning = some (mode, ticket)) :
    ∃ order, pc.order? = some order ∧ ticket = order % 256 ∧ passed ≤ order ∧ order < drawn := by
  cases pc with
  | drew _ _ order => cases spinning; exact ⟨order, rfl, placed⟩
  | spin _ _ order => cases spinning; exact ⟨order, rfl, placed⟩
  | _ => cases spinning

theorem Pc.waiting_le (pc : Pc) : pc.waiting ≤ 1 := by
  have both := pc.waiting_reading_le
  omega

namespace Counted

variable {s : LockState clients} {released passed : Nat}

theorem spinning_card (counted : Counted s released passed) :
    (Finset.univ.filter fun c => (s.pc c).waiting = 1).card = s.drawn - passed := by
  have waiters := counted.waiters
  have weights : total Pc.waiting s.pc = (Finset.univ.filter fun c => (s.pc c).waiting = 1).card := by
    rw [Finset.card_filter]
    apply Finset.sum_congr rfl
    intro c _
    have small := (s.pc c).waiting_le
    split <;> omega
  omega

/-- While nobody is inside, the lowest request outstanding is the next to pass. -/
theorem next_waits (counted : Counted s released passed) (nobody : ∀ c, (s.pc c).inside = none)
    (outstanding : passed < s.drawn) :
    ∃ c mode, (s.pc c).spinning = some (mode, passed % 256) := by
  let waiting := Finset.univ.filter fun c => (s.pc c).waiting = 1
  let order := fun c => ((s.pc c).order?).getD 0
  have drew : ∀ c ∈ waiting, ∃ mode ticket, (s.pc c).spinning = some (mode, ticket) ∧ (s.pc c).order? = some (order c) ∧
      ticket = order c % 256 ∧ passed ≤ order c ∧ order c < s.drawn := by
    intro c member
    have waits := (Finset.mem_filter.mp member).2
    rcases (Pc.outside_weights (nobody c)).2.mp waits with ⟨mode, ticket, spinning⟩
    rcases Pc.spinning_placed (counted.placed c) spinning with ⟨mine, drew, bounds⟩
    have mine_eq : order c = mine := by
      change ((s.pc c).order?).getD 0 = mine
      rw [drew, Option.getD_some]
    rw [mine_eq]
    exact ⟨mode, ticket, spinning, drew, bounds⟩
  have distinct : Set.InjOn order waiting := by
    intro i left j right same
    rcases drew i left with ⟨_, _, _, first, _⟩
    rcases drew j right with ⟨_, _, _, second, _⟩
    rw [same] at first
    exact counted.distinct i j _ first second
  have all : waiting.image order = Finset.Ico passed s.drawn := by
    apply Finset.eq_of_subset_of_card_le
    · intro n member
      rcases Finset.mem_image.mp member with ⟨c, waits, rfl⟩
      rcases drew c waits with ⟨_, _, _, _, _, bounds⟩
      exact Finset.mem_Ico.mpr bounds
    · rw [Finset.card_image_of_injOn distinct, Nat.card_Ico]
      exact Nat.le_of_eq counted.spinning_card.symm
  have next : passed ∈ waiting.image order := by
    rw [all]
    exact Finset.mem_Ico.mpr ⟨Nat.le_refl _, outstanding⟩
  rcases Finset.mem_image.mp next with ⟨c, waits, passed_eq⟩
  rcases drew c waits with ⟨mode, ticket, spinning, _, ticket_eq, _⟩
  rw [ticket_eq, passed_eq] at spinning
  exact ⟨c, mode, spinning⟩

theorem counters_agree (counted : Counted s released passed) (nobody : ∀ c, (s.pc c).inside = none) (mode : Mode) :
    s.Active mode (passed % 256) := by
  have none_ : total Pc.reading s.pc = 0 := Finset.sum_eq_zero fun c _ => (Pc.outside_weights (nobody c)).1
  have readers := counted.readers
  have equal : released = passed := by omega
  cases mode with
  | reader => exact counted.word.activeReader.symm
  | writer => exact (equal ▸ counted.word.activeWriter).symm

theorem progresses (counted : Counted s released passed) {client : Fin clients}
    (waits : (s.pc client).spinning ≠ none) : s.Progresses := by
  by_cases nobody : ∀ c, (s.pc c).inside = none
  · right
    rcases Option.ne_none_iff_exists'.mp waits with ⟨⟨mode, ticket⟩, spinning⟩
    rcases Pc.spinning_placed (counted.placed client) spinning with ⟨order, _, _, low, high⟩
    rcases counted.next_waits nobody (Nat.lt_of_le_of_lt low high) with ⟨c, turn, next⟩
    exact ⟨c, turn, passed % 256, next, counted.counters_agree nobody turn⟩
  · left
    rcases not_forall.mp nobody with ⟨c, inside⟩
    exact ⟨c, inside⟩

end Counted

/-- The read/write ticket lock never leaves its waiting clients with nobody to wait for. -/
theorem rwLock_progresses (small : clients ≤ 256) (s : LockState clients) (reached : s.Reachable)
    (client : Fin clients) (waits : (s.pc client).spinning ≠ none) : s.Progresses := by
  rcases invariant_reachable small reached with ⟨released, passed, counted⟩
  exact counted.progresses waits

def contended : LockState 2 := (LockState.initial.advance 0 .reader).advance 1 .writer

theorem contended_progresses : contended.Progresses := by
  have reached : contended.Reachable := .next (.next (.start rfl) ⟨0, .reader, rfl⟩) ⟨1, .writer, rfl⟩
  exact rwLock_progresses (by decide) contended reached 1 (by decide)

end SharedHashFile.Lock
