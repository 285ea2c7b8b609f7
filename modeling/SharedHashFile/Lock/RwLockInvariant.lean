import SharedHashFile.Lock.RwLockWord

namespace SharedHashFile.Lock

open Transition

def Pc.waiting : Pc → Nat
  | .drew .. | .spin .. | .admitting _ | .holds .writer _ => 1
  | _ => 0

def Pc.reading : Pc → Nat
  | .admitted _ | .holds .reader _ => 1
  | _ => 0

def Pc.owesWriterPad : Pc → Nat
  | .readerLeft | .writerLeft => 1
  | _ => 0

def Pc.owesReaderPad : Pc → Nat
  | .admitted _ | .writerLeft | .writerLeaving => 1
  | _ => 0

theorem Pc.waiting_reading_le (pc : Pc) : pc.waiting + pc.reading ≤ 1 := by
  cases pc with
  | holds mode order => cases mode <;> simp [waiting, reading]
  | _ => simp [waiting, reading]

theorem Pc.owesWriterPad_le (pc : Pc) : pc.owesWriterPad ≤ 1 := by cases pc <;> simp [owesWriterPad]

theorem Pc.owesReaderPad_le (pc : Pc) : pc.owesReaderPad ≤ 1 := by cases pc <;> simp [owesReaderPad]

def Pc.order? (pc : Pc) : Option Nat := pc.request.map Prod.snd

/-- Where a client's request lies between the absolute counts. -/
def Pc.Placed (released passed drawn : Nat) : Pc → Prop
  | .drew _ ticket order | .spin _ ticket order => ticket = order % 256 ∧ passed ≤ order ∧ order < drawn
  | .admitting order => order = passed ∧ order < drawn
  | .holds .writer order => order = passed ∧ order = released ∧ order < drawn
  | .admitted order | .holds .reader order => order < passed
  | .outside | .readerLeft | .writerLeft | .writerLeaving => True

/-- The word and the clients' places against the absolute counts of requests. -/
structure Counted {clients : Nat} (s : LockState clients) (released passed : Nat) : Prop where
  word : WordCounts s.lock (total Pc.owesWriterPad s.pc) (total Pc.owesReaderPad s.pc)
    released passed s.drawn
  readers : released + total Pc.reading s.pc = passed
  waiters : passed + total Pc.waiting s.pc = s.drawn
  placed : ∀ c, (s.pc c).Placed released passed s.drawn
  distinct : ∀ i j order, (s.pc i).order? = some order → (s.pc j).order? = some order → i = j

def Invariant {clients : Nat} (s : LockState clients) : Prop :=
  ∃ released passed, Counted s released passed

variable {clients : Nat}

theorem invariant_initial : Invariant (LockState.initial : LockState clients) := by
  refine ⟨0, 0, ?_⟩
  constructor
  · simpa [LockState.initial, total, Pc.owesWriterPad, Pc.owesReaderPad] using WordCounts.initial
  · simp [LockState.initial, total, Pc.reading]
  · simp [LockState.initial, total, Pc.waiting]
  · intro c
    exact True.intro
  · intro i j order drawn
    cases drawn

theorem Pc.order_lt {released passed drawn order : Nat} {pc : Pc}
    (placed : pc.Placed released passed drawn) (bound : passed ≤ drawn) (mine : pc.order? = some order) :
    order < drawn := by
  cases pc with
  | outside => cases mine
  | drew mode ticket mineOrder => cases mine; exact placed.2.2
  | spin mode ticket mineOrder => cases mine; exact placed.2.2
  | admitting mineOrder => cases mine; exact placed.2
  | admitted mineOrder => cases mine; exact Nat.lt_of_lt_of_le placed bound
  | holds mode mineOrder =>
    cases mine
    cases mode with
    | reader => exact Nat.lt_of_lt_of_le placed bound
    | writer => exact placed.2.2
  | readerLeft => cases mine
  | writerLeft => cases mine
  | writerLeaving => cases mine

theorem Pc.Placed.drawn {released passed drawn : Nat} {pc : Pc}
    (placed : pc.Placed released passed drawn) : pc.Placed released passed (drawn + 1) := by
  cases pc with
  | holds mode order => cases mode <;> simp only [Placed] at placed ⊢ <;> omega
  | _ => simp only [Placed] at placed ⊢ <;> omega

/-- A pass moves nobody whose request is another one; no writer is inside at a pass. -/
theorem Pc.Placed.passed {released passed drawn : Nat} {pc : Pc}
    (placed : pc.Placed released passed drawn) (other : pc.order? ≠ some passed) :
    pc.Placed released (passed + 1) drawn := by
  cases pc with
  | holds mode order =>
    cases mode <;> simp only [Placed, order?, request, Option.map_some, ne_eq, Option.some.injEq] at * <;>
      omega
  | _ => simp only [Placed, order?, request, Option.map_some, ne_eq, Option.some.injEq] at * <;> omega

theorem Pc.Placed.released {released passed drawn : Nat} {pc : Pc}
    (placed : pc.Placed released passed drawn) (noWriter : ∀ order, pc ≠ .holds .writer order) :
    pc.Placed (released + 1) passed drawn := by
  cases pc with
  | holds mode order =>
    cases mode with
    | reader => exact placed
    | writer => exact absurd rfl (noWriter order)
  | _ => exact placed

namespace Counted

variable {s : LockState clients} {released passed : Nat}

/-- Outstanding requests span at most as many tickets as there are clients. -/
theorem window (counted : Counted s released passed) (small : clients ≤ 256) :
    s.drawn ≤ released + 256 := by
  have bound := total_le_card (fun pc => Pc.waiting pc + Pc.reading pc) s.pc Pc.waiting_reading_le
  rw [total_add, Fintype.card_fin] at bound
  have readers := counted.readers
  have waiters := counted.waiters
  omega

theorem writer_pads (_ : Counted s released passed) (small : clients ≤ 256) :
    total Pc.owesWriterPad s.pc ≤ 256 := by
  have bound := total_le_card Pc.owesWriterPad s.pc Pc.owesWriterPad_le
  rw [Fintype.card_fin] at bound
  exact Nat.le_trans bound small

theorem reader_pads (_ : Counted s released passed) (small : clients ≤ 256) :
    total Pc.owesReaderPad s.pc ≤ 256 := by
  have bound := total_le_card Pc.owesReaderPad s.pc Pc.owesReaderPad_le
  rw [Fintype.card_fin] at bound
  exact Nat.le_trans bound small

theorem passed_le_drawn (counted : Counted s released passed) : passed ≤ s.drawn := by
  have waiters := counted.waiters
  omega

theorem nobody_reads (counted : Counted s released passed) (equal : released = passed) (c : Fin clients) :
    (s.pc c).reading = 0 := by
  have mine := weight_le_total Pc.reading s.pc c
  have readers := counted.readers
  omega

theorem distinct_goto (counted : Counted s released passed) (client : Fin clients) (after : Pc)
    (kept : after.order? = none ∨ after.order? = (s.pc client).order?) :
    ∀ i j order, (Function.update s.pc client after i).order? = some order →
      (Function.update s.pc client after j).order? = some order → i = j := by
  have mine : ∀ i order, (Function.update s.pc client after i).order? = some order →
      (s.pc i).order? = some order := by
    intro i order drew
    by_cases same : i = client
    · subst same
      rw [Function.update_self] at drew
      rcases kept with none | equal
      · rw [none] at drew
        cases drew
      · rwa [← equal]
    · rwa [Function.update_of_ne same] at drew
  intro i j order left right
  exact counted.distinct i j order (mine i order left) (mine j order right)

theorem placed_goto {locals : Fin clients → Pc} {released passed drawn : Nat} (client : Fin clients)
    (after : Pc) (mine : after.Placed released passed drawn)
    (others : ∀ c, c ≠ client → (locals c).Placed released passed drawn) :
    ∀ c, (Function.update locals client after c).Placed released passed drawn := by
  intro c
  by_cases same : c = client
  · subst same
    rwa [Function.update_self]
  · rw [Function.update_of_ne same]
    exact others c same

theorem distinct_draw (counted : Counted s released passed) (client : Fin clients) (mode : Mode)
    (ticket : Nat) :
    ∀ i j order, (Function.update s.pc client (.drew mode ticket s.drawn) i).order? = some order →
      (Function.update s.pc client (.drew mode ticket s.drawn) j).order? = some order → i = j := by
  have older : ∀ c, (s.pc c).order? ≠ some s.drawn := fun c mine =>
    absurd (Pc.order_lt (counted.placed c) counted.passed_le_drawn mine) (Nat.lt_irrefl _)
  intro i j order left right
  by_cases first : i = client <;> by_cases second : j = client
  · rw [first, second]
  · subst first
    rw [Function.update_self] at left
    rw [Function.update_of_ne second] at right
    cases left
    exact absurd right (older j)
  · subst second
    rw [Function.update_self] at right
    rw [Function.update_of_ne first] at left
    cases right
    exact absurd left (older i)
  · rw [Function.update_of_ne first] at left
    rw [Function.update_of_ne second] at right
    exact counted.distinct i j order left right

theorem draw (counted : Counted s released passed) (client : Fin clients) (choice : Mode)
    (position : s.pc client = .outside) : Invariant (s.advance client choice) := by
  have moved := fun weight => total_update weight s.pc client (.drew choice (ticketNext s.lock) s.drawn)
  have pads := And.intro (moved Pc.owesWriterPad) (moved Pc.owesReaderPad)
  have places := And.intro (moved Pc.reading) (moved Pc.waiting)
  simp only [position, Pc.owesWriterPad, Pc.owesReaderPad, Nat.add_zero] at pads
  simp only [position, Pc.reading, Pc.waiting, Nat.add_zero] at places
  simp only [LockState.advance, position]
  refine ⟨released, passed, ?_, ?_, ?_, ?_, counted.distinct_draw client choice _⟩
  · rw [pads.1, pads.2]
    exact counted.word.draw
  · rw [places.1]
    exact counted.readers
  · rw [places.2, ← counted.waiters, Nat.add_assoc]
  · apply placed_goto
    · exact ⟨counted.word.next, counted.passed_le_drawn, Nat.lt_succ_self _⟩
    · intro c _
      exact (counted.placed c).drawn

/-- Every step but a draw: the four totals move by the weights of the client that moves. -/
theorem goto (counted : Counted s released passed) (client : Fin clients) (after : Pc)
    (released' passed' : Nat) {lock : Nat}
    (word : ∀ writerPads readerPads,
      writerPads + (s.pc client).owesWriterPad = total Pc.owesWriterPad s.pc + after.owesWriterPad →
      readerPads + (s.pc client).owesReaderPad = total Pc.owesReaderPad s.pc + after.owesReaderPad →
      WordCounts lock writerPads readerPads released' passed' s.drawn)
    (readers : released' + total Pc.reading s.pc + after.reading = passed' + (s.pc client).reading)
    (waiters : passed' + total Pc.waiting s.pc + after.waiting = s.drawn + (s.pc client).waiting)
    (mine : after.Placed released' passed' s.drawn)
    (others : ∀ c, c ≠ client → (s.pc c).Placed released' passed' s.drawn)
    (kept : after.order? = none ∨ after.order? = (s.pc client).order?) :
    Invariant ({ s with lock := lock }.goto client after) := by
  have reading := total_update Pc.reading s.pc client after
  have waiting := total_update Pc.waiting s.pc client after
  refine ⟨released', passed', ?_, ?_, ?_, placed_goto client after mine others,
    counted.distinct_goto client after kept⟩
  · exact word _ _ (total_update _ _ _ _) (total_update _ _ _ _)
  · simp only [LockState.goto]
    omega
  · simp only [LockState.goto]
    omega

end Counted

end SharedHashFile.Lock
