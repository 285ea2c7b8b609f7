import Mathlib.Data.Fintype.EquivFin
import Mathlib.Logic.Relation
import SharedHashFile.Transition.Reachability

namespace SharedHashFile.Log

def shfPidMax : Nat := 131072

/-- Where a thread is in `shf_log_prefix_get`. -/
inductive TidPc
  /-- about to test `tids` without the lock -/
  | testing
  /-- about to take the lock -/
  | locking
  /-- about to read its `tids` -/
  | mapping
  /-- with its `shf_log_tid_id` -/
  | returned (shfLogTidId : Nat)

/-- The bytes `tids` and `tid_id` of a log, and where its threads are. -/
structure TidState (threads : Nat) where
  tids : Fin shfPidMax → Nat
  tidId : Nat
  pc : Fin threads → TidPc

namespace TidState

variable {threads : Nat} (s : TidState threads) (shfLogTid : Fin threads ↪ Fin shfPidMax)

def initial : TidState threads := ⟨fun _ => 0, 0, fun _ => .testing⟩

def goto (thread : Fin threads) (pc : TidPc) : TidState threads := { s with pc := Function.update s.pc thread pc }

def assign (tid : Fin shfPidMax) : TidState threads :=
  if s.tids tid = 0 then
    { s with tidId := (s.tidId + 1) % 2^8, tids := Function.update s.tids tid ((s.tidId + 1) % 2^8) }
  else s

/-- One step of a thread; a thread which has no id yet looks for it again in its next call. -/
inductive Step : TidState threads → TidState threads → Prop
  | testNone {s : TidState threads} {thread : Fin threads} (testing : s.pc thread = .testing)
      (none_ : s.tids (shfLogTid thread) = 0) : Step s (s.goto thread .locking)
  | testSome {s : TidState threads} {thread : Fin threads} (testing : s.pc thread = .testing)
      (some_ : s.tids (shfLogTid thread) ≠ 0) : Step s (s.goto thread .mapping)
  | assign {s : TidState threads} {thread : Fin threads} (locking : s.pc thread = .locking) :
      Step s ((s.assign (shfLogTid thread)).goto thread .mapping)
  | map {s : TidState threads} {thread : Fin threads} (mapping : s.pc thread = .mapping) :
      Step s (s.goto thread (.returned (s.tids (shfLogTid thread))))
  | again {s : TidState threads} {thread : Fin threads} (none_ : s.pc thread = .returned 0) :
      Step s (s.goto thread .testing)

def Reachable : Prop := Transition.Reachable (· = initial) (Step shfLogTid) s

def Assigned (thread : Fin threads) : Prop := s.pc thread = .mapping ∨ ∃ tidId, s.pc thread = .returned tidId

/-- What an assignment is for: no id is 0, none is shared, and each thread has its own. -/
structure Mapped : Prop where
  nonzero : ∀ thread, s.Assigned thread → s.tids (shfLogTid thread) ≠ 0
  distinct : ∀ thread other, s.Assigned thread → s.Assigned other → thread ≠ other →
    s.tids (shfLogTid thread) ≠ s.tids (shfLogTid other)
  own : ∀ thread tidId, s.pc thread = .returned tidId → tidId = s.tids (shfLogTid thread)

def Stays (t : TidState threads) : Prop :=
  ∀ thread, s.Assigned thread → t.tids (shfLogTid thread) = s.tids (shfLogTid thread)

def identified : Finset (Fin threads) := Finset.univ.filter fun thread => s.tids (shfLogTid thread) ≠ 0

/-- As long as the counter has not come round, it counts the ids. -/
structure Counted : Prop where
  count : s.tidId = (s.identified shfLogTid).card
  below : ∀ thread, s.tids (shfLogTid thread) ≤ s.tidId
  distinct : ∀ thread other, s.tids (shfLogTid thread) = s.tids (shfLogTid other) → s.tids (shfLogTid thread) ≠ 0 →
    thread = other
  assigned : ∀ thread, s.Assigned thread → s.tids (shfLogTid thread) ≠ 0
  own : ∀ thread tidId, s.pc thread = .returned tidId → tidId = s.tids (shfLogTid thread)

section Steps

variable {s shfLogTid} {t : TidState threads} {thread other : Fin threads} {pc : TidPc}

theorem goto_pc : (s.goto thread pc).pc other = if other = thread then pc else s.pc other := Function.update_apply _ _ _ _

theorem update_tids {tids : Fin shfPidMax → Nat} {value : Nat} :
    Function.update tids (shfLogTid thread) value (shfLogTid other) = if other = thread then value else tids (shfLogTid other) := by
  rw [Function.update_apply]
  simp only [shfLogTid.injective.eq_iff]

@[simp] theorem goto_tids : (s.goto thread pc).tids = s.tids := rfl

@[simp] theorem goto_tidId : (s.goto thread pc).tidId = s.tidId := rfl

theorem initial_counted : (initial : TidState threads).Counted shfLogTid := by
  refine ⟨?_, fun _ => Nat.le_refl 0, fun _ _ _ nonzero => absurd rfl nonzero, fun _ assigned => ?_, nofun⟩
  · simp [identified, initial]
  · rcases assigned with mapping | ⟨_, returned⟩
    · cases mapping
    · cases returned

theorem Counted.goto (counted : s.Counted shfLogTid) (own : pc = .mapping → s.tids (shfLogTid thread) ≠ 0)
    (returned : ∀ tidId, pc = .returned tidId → tidId = s.tids (shfLogTid thread) ∧ tidId ≠ 0) :
    (s.goto thread pc).Counted shfLogTid := by
  refine ⟨counted.count, counted.below, counted.distinct, fun other assigned => ?_, fun other tidId at_ => ?_⟩
  · by_cases here : other = thread
    · subst here
      unfold Assigned at assigned
      rw [goto_pc, if_pos rfl] at assigned
      rcases assigned with mapping | ⟨tidId, at_⟩
      · exact own mapping
      · rcases returned tidId at_ with ⟨same, nonzero⟩
        rw [goto_tids, ← same]
        exact nonzero
    · unfold Assigned at assigned
      rw [goto_pc, if_neg here] at assigned
      exact counted.assigned other assigned
  · rw [goto_pc] at at_
    split at at_
    · rename_i here
      subst here
      exact (returned tidId at_).1
    · exact counted.own other tidId at_

/-- A thread without an id leaves one number over. -/
theorem Counted.next_lt (counted : s.Counted shfLogTid) (few : threads ≤ 255) (none_ : s.tids (shfLogTid thread) = 0) :
    s.tidId + 1 < 2^8 := by
  have missing : thread ∉ s.identified shfLogTid := fun member => (Finset.mem_filter.mp member).2 none_
  have fewer : (s.identified shfLogTid).card < Fintype.card (Fin threads) :=
    Finset.card_lt_univ_of_notMem missing
  rw [Fintype.card_fin, ← counted.count] at fewer
  omega

theorem Counted.assign (counted : s.Counted shfLogTid) (few : threads ≤ 255) (locking : s.pc thread = .locking) :
    (s.assign (shfLogTid thread)).Counted shfLogTid ∧ (s.assign (shfLogTid thread)).tids (shfLogTid thread) ≠ 0 := by
  unfold TidState.assign
  by_cases none_ : s.tids (shfLogTid thread) = 0
  · have small := counted.next_lt few none_
    rw [if_pos none_, Nat.mod_eq_of_lt small]
    have outside : ¬ s.Assigned thread := by
      rintro (mapping | ⟨_, returned⟩)
      · rw [locking] at mapping
        cases mapping
      · rw [locking] at returned
        cases returned
    refine ⟨⟨?_, fun other => ?_, fun first second same nonzero => ?_, fun other assigned => ?_, fun other tidId at_ => ?_⟩, ?_⟩
    · have missing : thread ∉ s.identified shfLogTid := fun member => (Finset.mem_filter.mp member).2 none_
      have more : ({ s with tidId := s.tidId + 1, tids := Function.update s.tids (shfLogTid thread) (s.tidId + 1) } :
          TidState threads).identified shfLogTid = insert thread (s.identified shfLogTid) := by
        ext other
        simp only [identified, Finset.mem_filter, Finset.mem_univ, true_and, Finset.mem_insert, update_tids]
        split <;> simp_all
      rw [more, Finset.card_insert_of_notMem missing, ← counted.count]
    · change Function.update s.tids _ _ _ ≤ s.tidId + 1
      rw [update_tids]
      have below := counted.below other
      split <;> omega
    · change Function.update s.tids _ _ _ = Function.update s.tids _ _ _ at same
      change Function.update s.tids _ _ _ ≠ 0 at nonzero
      rw [update_tids] at same nonzero
      rw [update_tids] at same
      have below := counted.below first
      have below' := counted.below second
      split at same <;> split at same
      · rename_i one two
        rw [one, two]
      · omega
      · omega
      · rename_i one two
        rw [if_neg one] at nonzero
        exact counted.distinct first second same nonzero
    · change Function.update s.tids _ _ _ ≠ 0
      rw [update_tids]
      split
      · exact Nat.succ_ne_zero _
      · exact counted.assigned other assigned
    · change tidId = Function.update s.tids _ _ _
      rw [update_tids, if_neg]
      · exact counted.own other tidId at_
      · rintro rfl
        exact outside (.inr ⟨tidId, at_⟩)
    · change Function.update s.tids _ _ _ ≠ 0
      rw [update_tids, if_pos rfl]
      exact Nat.succ_ne_zero _
  · rw [if_neg none_]
    exact ⟨counted, none_⟩

theorem Counted.step (counted : s.Counted shfLogTid) (few : threads ≤ 255) (step : Step shfLogTid s t) :
    t.Counted shfLogTid := by
  cases step with
  | testNone testing none_ => exact counted.goto nofun nofun
  | testSome testing some_ => exact counted.goto (fun _ => some_) nofun
  | assign locking =>
    rcases counted.assign few locking with ⟨after, nonzero⟩
    exact after.goto (fun _ => nonzero) nofun
  | map mapping =>
    refine counted.goto nofun fun tidId same => ?_
    cases same
    exact ⟨rfl, counted.assigned _ (.inl mapping)⟩
  | again none_ => exact counted.goto nofun nofun

theorem reachable_counted (few : threads ≤ 255) (reached : s.Reachable shfLogTid) : s.Counted shfLogTid := by
  apply reached.invariant
  · rintro _ rfl
    exact initial_counted
  · exact fun _ _ counted step => counted.step few step

theorem Counted.mapped (counted : s.Counted shfLogTid) : s.Mapped shfLogTid := by
  refine ⟨counted.assigned, fun thread other assigned _ differ same => ?_, counted.own⟩
  exact differ (counted.distinct thread other same (counted.assigned thread assigned))

theorem Step.tids_eq (step : Step shfLogTid s t) (nonzero : s.tids (shfLogTid other) ≠ 0) :
    t.tids (shfLogTid other) = s.tids (shfLogTid other) := by
  cases step with
  | testNone _ _ => rfl
  | testSome _ _ => rfl
  | assign _ =>
    rename_i thread _
    rw [goto_tids, TidState.assign]
    split
    · rename_i none_
      apply Function.update_of_ne
      intro same
      rw [← same] at none_
      exact nonzero none_
    · rfl
  | map _ => rfl
  | again _ => rfl

theorem later_tids_eq (later : Relation.ReflTransGen (Step shfLogTid) s t) (nonzero : s.tids (shfLogTid other) ≠ 0) :
    t.tids (shfLogTid other) = s.tids (shfLogTid other) := by
  induction later with
  | refl => rfl
  | tail _ step ih =>
    rw [step.tids_eq (by rwa [ih]), ih]

end Steps

section Overflow

variable {shfLogTid}

def sequential (shfLogTid : Fin threads ↪ Fin shfPidMax) (done : Nat) (s : TidState threads) : Prop :=
  s.tidId = done % 2^8 ∧ (∀ thread, s.tids (shfLogTid thread) = if thread.val < done then (thread.val + 1) % 2^8 else 0) ∧
    ∀ thread, s.pc thread = if thread.val < done then .returned ((thread.val + 1) % 2^8) else .testing

theorem sequential_reachable (done : Nat) (enough : done ≤ threads) :
    ∃ s : TidState threads, s.Reachable shfLogTid ∧ sequential shfLogTid done s := by
  induction done with
  | zero => exact ⟨initial, .start rfl, rfl, fun _ => rfl, fun _ => rfl⟩
  | succ done ih =>
    rcases ih (Nat.le_of_succ_le enough) with ⟨s, reached, tidId, tids, pc⟩
    let thread : Fin threads := ⟨done, enough⟩
    have none_ : s.tids (shfLogTid thread) = 0 := by rw [tids, if_neg (Nat.lt_irrefl done)]
    have testing : s.pc thread = .testing := by rw [pc, if_neg (Nat.lt_irrefl done)]
    have next : (s.tidId + 1) % 2^8 = (done + 1) % 2^8 := by
      rw [tidId]
      omega
    have locking : (s.goto thread .locking).pc thread = .locking := by rw [goto_pc, if_pos rfl]
    have assigned : (s.goto thread .locking).assign (shfLogTid thread) = { s.goto thread .locking with
        tidId := (s.tidId + 1) % 2^8, tids := Function.update s.tids (shfLogTid thread) ((s.tidId + 1) % 2^8) } :=
      if_pos none_
    have after := Transition.Reachable.next (Transition.Reachable.next reached (Step.testNone testing none_))
      (Step.assign locking)
    rw [assigned] at after
    have mapping : (({ s.goto thread .locking with
        tidId := (s.tidId + 1) % 2^8, tids := Function.update s.tids (shfLogTid thread) ((s.tidId + 1) % 2^8) } :
        TidState threads).goto thread .mapping).pc thread = .mapping := by rw [goto_pc, if_pos rfl]
    refine ⟨_, after.next (Step.map mapping), next, fun other => ?_, fun other => ?_⟩
    · change Function.update s.tids _ _ _ = _
      rw [update_tids, next, tids]
      by_cases here : other = thread
      · rw [if_pos here, here, if_pos (Nat.lt_succ_self done)]
      · have other_ne : other.val ≠ done := fun same => here (Fin.ext same)
        rw [if_neg here]
        simp only [Nat.lt_succ_iff_lt_or_eq, other_ne, or_false]
    · simp only [goto_pc, goto_tids, Function.update_self, next]
      by_cases here : other = thread
      · rw [if_pos here, here, if_pos (Nat.lt_succ_self done)]
      · have other_ne : other.val ≠ done := fun same => here (Fin.ext same)
        rw [if_neg here, if_neg here, if_neg here, pc]
        simp only [Nat.lt_succ_iff_lt_or_eq, other_ne, or_false]

theorem overflow_reachable (many : 255 < threads) :
    ∃ s : TidState threads, s.Reachable shfLogTid ∧ ¬ s.Mapped shfLogTid := by
  rcases @sequential_reachable threads shfLogTid 256 many with ⟨s, reached, _, tids, pc⟩
  have around : (255 + 1) % 2^8 = 0 := by decide
  let last : Fin threads := ⟨255, many⟩
  have zero : s.tids (shfLogTid last) = 0 := by
    rw [tids, if_pos (Nat.lt_succ_self 255)]
    exact around
  have assigned : s.Assigned last := by
    refine .inr ⟨0, ?_⟩
    rw [pc, if_pos (Nat.lt_succ_self 255)]
    exact congrArg TidPc.returned around
  exact ⟨s, reached, fun mapped => mapped.nonzero last assigned zero⟩

end Overflow

/-- Ids are non-zero and distinct in every state, and stay the same ever after. -/
def Identifies (shfLogTid : Fin threads ↪ Fin shfPidMax) : Prop :=
  ∀ s : TidState threads, s.Reachable shfLogTid → s.Mapped shfLogTid ∧
    ∀ t, Relation.ReflTransGen (Step shfLogTid) s t → s.Stays shfLogTid t

/-- `tids` identifies the threads of a log for exactly up to 255 of them. -/
theorem identifies_iff (threads : Nat) (shfLogTid : Fin threads ↪ Fin shfPidMax) : Identifies shfLogTid ↔ threads ≤ 255 := by
  constructor
  · intro identifies
    by_contra many
    rcases @overflow_reachable threads shfLogTid (Nat.lt_of_not_le many) with ⟨s, reached, zero⟩
    exact zero (identifies s reached).1
  · intro few s reached
    have counted := reachable_counted few reached
    exact ⟨counted.mapped, fun t later thread assigned => later_tids_eq later (counted.assigned thread assigned)⟩

/-- The threads with the numbers 1 to 256 are not told apart. -/
theorem not_identifies : ¬ ∀ (threads : Nat) (shfLogTid : Fin threads ↪ Fin shfPidMax), Identifies shfLogTid := by
  intro identifies
  let shfLogTid : Fin 256 ↪ Fin shfPidMax := ⟨fun thread => ⟨thread.val + 1, by have := thread.isLt; unfold shfPidMax; omega⟩,
    fun thread other same => Fin.ext (Nat.succ.inj (Fin.mk.inj same))⟩
  rcases @overflow_reachable 256 shfLogTid (Nat.lt_succ_self 255) with ⟨s, reached, zero⟩
  exact zero (identifies 256 shfLogTid s reached).1

end TidState

end SharedHashFile.Log
