import SharedHashFile.Store.PutWindows

namespace SharedHashFile.Store

/-- The window of a store whose file is all zeros still. -/
def Win.unset : Win := ⟨fun _ => 0, 0, 0, 0, 0, 0, 0, 0⟩

/-- The folder which `shf_attach` renames, with its first tables. -/
def State.unset (vfs : Nat → Nat) (tls : Tls) : State Disk :=
  ⟨{ Shared.initial vfs tls with wins := fun _ => Win.unset }, Disk.initial⟩

/-- One turn of the loop of `shf_attach` over the windows. -/
def State.setWin (win : Fin 256) (s : State Disk) : State Disk :=
  s.withWin win fun w => { w with tabs := fun _ => 0, tabsUsed := 1 }

section Creation

variable {vfs : Nat → Nat} {first : Tls}

def State.partSet (vfs : Nat → Nat) (first : Tls) (done : List (Fin 256)) : State Disk :=
  ⟨{ Shared.initial vfs first with wins := fun win => if win ∈ done then Win.initial else Win.unset }, Disk.initial⟩

theorem partSet_setWin (done : List (Fin 256)) (win : Fin 256) :
    (State.partSet vfs first done).setWin win = State.partSet vfs first (win :: done) := by
  have wins : Function.update (fun other => if other ∈ done then Win.initial else Win.unset) win
      { (if win ∈ done then Win.initial else Win.unset) with tabs := fun _ => 0, tabsUsed := 1 } =
        fun other => if other ∈ win :: done then Win.initial else Win.unset := by
    funext other
    rw [Function.update_apply]
    by_cases same : other = win
    · rw [if_pos same, if_pos (List.mem_cons.mpr (.inl same))]
      split <;> rfl
    · rw [if_neg same]
      exact if_congr ((or_iff_right same).symm.trans List.mem_cons.symm) rfl rfl
  change State.mk { Shared.initial vfs first with wins := Function.update _ win _ } Disk.initial = _
  unfold State.partSet
  rw [← wins]

theorem setWins_partSet (wins done : List (Fin 256)) :
    wins.foldl (fun s win => s.setWin win) (State.partSet vfs first done) = State.partSet vfs first (wins.reverse ++ done) := by
  induction wins generalizing done with
  | nil => rfl
  | cons win rest ih => rw [List.foldl_cons, partSet_setWin, ih, List.reverse_cons, List.append_assoc, List.singleton_append]

/-- What the loop of `shf_attach` leaves is a new store. -/
theorem setWins_initial : (List.finRange 256).foldl (fun s win => s.setWin win) (State.unset vfs first) = State.initial vfs first := by
  have start : State.unset vfs first = State.partSet vfs first [] := rfl
  rw [start, setWins_partSet]
  have all : (fun win : Fin 256 => if win ∈ (List.finRange 256).reverse ++ [] then Win.initial else Win.unset) = fun _ => Win.initial := by
    funext win
    exact if_pos (List.mem_append.mpr (.inl (List.mem_reverse.mpr (List.mem_finRange win))))
  unfold State.partSet State.initial
  rw [all]
  rfl

end Creation
/-- Where a process is in `shf_attach`. -/
inductive AttachPhase
  | opening
  | creating
  | publishing
  | attaching (creator : Bool)
  | setting (win : Fin 256)
  | attached
  /-- an assertion of `shf_attach` has failed -/
  | aborted
  /-- a put has stopped the process, which keeps the lock of the window -/
  | stopped
  deriving DecidableEq

def AttachPhase.afterSetting (win : Fin 256) : AttachPhase :=
  if more : win.val + 1 < 256 then .setting ⟨win.val + 1, more⟩ else .attached

/-- The processes at one path, the store there, and the windows whose lock is not given back any more. -/
structure Attaching where
  phase : Nat → AttachPhase
  store : Option (State Disk)
  held : Fin 256 → Bool

inductive AttachEvent
  | attach (process : Nat)
  | put (process : Nat) (tls : Tls) (val : PutVal)

namespace Attaching

def start : Attaching := ⟨fun _ => .opening, none, fun _ => false⟩

def enter (process : Nat) (phase : AttachPhase) (a : Attaching) : Attaching :=
  { a with phase := Function.update a.phase process phase }

/-- The next step of `shf_attach`. -/
def attach (vfs : Nat → Nat) (first : Tls) (process : Nat) (a : Attaching) : Attaching :=
  match a.phase process with
  | .opening => a.enter process (if a.store.isSome then .attaching false else .creating)
  | .creating => a.enter process .publishing
  | .publishing =>
    -- `rename` fails where there is a store already
    if a.store.isSome then a.enter process .aborted
    else { a.enter process (.attaching true) with store := some (State.unset vfs first) }
  | .attaching creator => a.enter process (if creator then .setting ⟨0, by decide⟩ else .attached)
  | .setting win =>
    { a.enter process (.afterSetting win) with store := a.store.map (State.setWin win) }
  | .attached | .aborted | .stopped => a

/-- One pass of `shf_put_key_val`, once the window's lock can be taken. -/
def put (cfg : Config) (process : Nat) (tls : Tls) (val : PutVal) (a : Attaching) : Attaching :=
  match a.store with
  | none => a
  | some s =>
    if a.phase process = .attached ∧ a.held (tls.hash.slot 0).win = false then
      let done := runProcesses mapped cfg [⟨process, tls, .put val⟩] s
      if done.value.isOk then { a with store := some done.state }
      else { a.enter process .stopped with
        store := some done.state
        held := Function.update a.held (tls.hash.slot 0).win true }
    else a

def next (cfg : Config) (vfs : Nat → Nat) (first : Tls) (a : Attaching) : AttachEvent → Attaching
  | .attach process => a.attach vfs first process
  | .put process tls val => a.put cfg process tls val

def AtEach (cfg : Config) (vfs : Nat → Nat) (first : Tls) (P : Attaching → AttachEvent → Prop) (a : Attaching) :
    List AttachEvent → Prop
  | [] => True
  | event :: rest => P a event ∧ (a.next cfg vfs first event).AtEach cfg vfs first P rest

end Attaching

def AttachPhase.left : AttachPhase → Nat
  | .opening => 260
  | .creating => 259
  | .publishing => 258
  | .attaching creator => if creator then 257 else 1
  | .setting win => 256 - win.val
  | .attached | .aborted | .stopped => 0

def AttachPhase.Leaves (win : Fin 256) : AttachPhase → Prop
  | .attaching creator => creator = true
  | .setting win' => win' ≤ win
  | _ => False

def AttachPhase.Creates : AttachPhase → Prop
  | .creating | .publishing | .setting _ => True
  | .attaching creator => creator = true
  | _ => False

/-- `shf_attach` goes on to an attached store, without the loss of an entry; a put comes upon a window which is set. -/
def AttachEvent.Atomic (cfg : Config) (vfs : Nat → Nat) (first : Tls) (a : Attaching) : AttachEvent → Prop
  | .attach process =>
    (a.attach vfs first process).phase process ≠ .aborted ∧
    ((a.phase process).left ≠ 0 → ((a.attach vfs first process).phase process).left < (a.phase process).left) ∧
    ((a.attach vfs first process).phase process = .attached → (a.attach vfs first process).store.isSome = true) ∧
    ∀ s s', a.store = some s → (a.attach vfs first process).store = some s' → s'.items cfg = s.items cfg
  | .put process tls _ => a.phase process = .attached → a.held (tls.hash.slot 0).win = false →
    ∃ s, a.store = some s ∧ (s.shared.wins (tls.hash.slot 0).win).tabsUsed ≠ 0

/-- Nobody finds no store while another who found none has not renamed its folder, and a put waits for its window. -/
def AttachEvent.Apart (a : Attaching) : AttachEvent → Prop
  | .attach process => a.phase process = .opening → a.store = none →
    ∀ other, a.phase other ≠ .creating ∧ a.phase other ≠ .publishing
  | .put _ tls _ => ∀ other, ¬ (a.phase other).Leaves (tls.hash.slot 0).win

/-- What holds before and after each of such events. -/
structure Attaching.Orderly (a : Attaching) : Prop where
  alone : ∀ p q, (a.phase p).Creates → (a.phase q).Creates → p = q
  unpublished : a.store = none → ∀ p, a.phase p = .opening ∨ a.phase p = .creating ∨ a.phase p = .publishing
  published : a.store ≠ none → ∀ p, a.phase p ≠ .creating ∧ a.phase p ≠ .publishing
  fine : ∀ p, a.phase p ≠ .aborted
  unset : ∀ s win p, a.store = some s → (a.phase p).Leaves win → (s.shared.wins win).tabs = fun _ => 0
  inUse : ∀ s win, a.store = some s → (∀ p, ¬ (a.phase p).Leaves win) → a.held win = false → (s.shared.wins win).InUse

section Attaching

variable {cfg : Config} {vfs : Nat → Nat} {first : Tls} {a : Attaching} {process : Nat} {tls : Tls} {val : PutVal}

theorem AttachPhase.Leaves.creates {phase : AttachPhase} {win : Fin 256} (leaves : phase.Leaves win) : phase.Creates := by
  cases phase with
  | attaching creator => exact leaves
  | setting win' => trivial
  | _ => exact leaves.elim

theorem setWin_items {s : State Disk} {win : Fin 256} (unset : (s.shared.wins win).tabs = fun _ => 0) :
    (s.setWin win).items cfg = s.items cfg := by
  have tabs (other : Fin 256) : ((s.setWin win).shared.wins other).tabs = (s.shared.wins other).tabs := by
    change (Function.update s.shared.wins win _ other).tabs = _
    rw [Function.update_apply]
    split
    · rename_i here
      rw [here, unset]
    · rfl
  funext slot
  unfold State.items State.fileOf
  rw [tabs]
  rfl

theorem start_orderly : Attaching.start.Orderly where
  alone _ _ creates := creates.elim
  unpublished _ _ := .inl rfl
  published there := absurd rfl there
  fine _ := nofun
  unset _ _ _ there := by cases there
  inUse _ _ there := by cases there

theorem enter_self (phase : AttachPhase) : (a.enter process phase).phase process = phase := Function.update_self _ _ _

theorem enter_other {other : Nat} (differ : other ≠ process) (phase : AttachPhase) :
    (a.enter process phase).phase other = a.phase other := Function.update_of_ne differ _ _

theorem Attaching.Orderly.seen (orderly : a.Orderly) {phase : AttachPhase} (now : a.phase process = phase)
    (late : phase ≠ .opening ∧ phase ≠ .creating ∧ phase ≠ .publishing) : a.store ≠ none := by
  intro none_
  have before := orderly.unpublished none_ process
  rw [now] at before
  rcases before with opens | creates | publishes
  · exact late.1 opens
  · exact late.2.1 creates
  · exact late.2.2 publishes

theorem Attaching.Orderly.enter (orderly : a.Orderly) (phase : AttachPhase)
    (creates : phase.Creates → ∀ other, other ≠ process → ¬ (a.phase other).Creates)
    (leaves : ∀ win, phase.Leaves win ↔ (a.phase process).Leaves win)
    (before : a.store = none → phase = .opening ∨ phase = .creating ∨ phase = .publishing)
    (after : a.store ≠ none → phase ≠ .creating ∧ phase ≠ .publishing) (fine : phase ≠ .aborted) :
    (a.enter process phase).Orderly where
  alone p q := by
    by_cases first : p = process
    · by_cases second : q = process
      · exact fun _ _ => first.trans second.symm
      · rw [first, enter_self, enter_other second]
        exact fun here there => absurd there (creates here q second)
    · rw [enter_other first]
      by_cases second : q = process
      · rw [second, enter_self]
        exact fun here there => absurd here (creates there p first)
      · rw [enter_other second]
        exact orderly.alone p q
  unpublished none_ p := by
    by_cases here : p = process
    · rw [here, enter_self]
      exact before none_
    · rw [enter_other here]
      exact orderly.unpublished none_ p
  published there p := by
    by_cases here : p = process
    · rw [here, enter_self]
      exact after there
    · rw [enter_other here]
      exact orderly.published there p
  fine p := by
    by_cases here : p = process
    · rw [here, enter_self]
      exact fine
    · rw [enter_other here]
      exact orderly.fine p
  unset s win p there := by
    by_cases here : p = process
    · rw [here, enter_self, leaves win]
      exact orderly.unset s win process there
    · rw [enter_other here]
      exact orderly.unset s win p there
  inUse s win there set_ := by
    apply orderly.inUse s win there
    intro p
    by_cases here : p = process
    · have gone := set_ process
      rw [enter_self, leaves win] at gone
      rw [here]
      exact gone
    · have gone := set_ p
      rw [enter_other here] at gone
      exact gone

theorem Attaching.Orderly.publish (orderly : a.Orderly) (phase : a.phase process = .publishing) :
    { a.enter process (.attaching true) with store := some (State.unset vfs first) : Attaching }.Orderly where
  alone p q := by
    have only (other : Nat) (creates : ((a.enter process (.attaching true)).phase other).Creates) : other = process := by
      by_contra differ
      rw [enter_other differ] at creates
      exact differ (orderly.alone other process creates (by rw [phase]; trivial))
    exact fun here there => (only p here).trans (only q there).symm
  unpublished none_ := by cases none_
  published _ p := by
    change (a.enter process (.attaching true)).phase p ≠ _ ∧ (a.enter process (.attaching true)).phase p ≠ _
    by_cases here : p = process
    · rw [here, enter_self]
      exact ⟨nofun, nofun⟩
    · rw [enter_other here]
      constructor
      · intro same
        exact here (orderly.alone p process (by rw [same]; trivial) (by rw [phase]; trivial))
      · intro same
        exact here (orderly.alone p process (by rw [same]; trivial) (by rw [phase]; trivial))
  fine p := by
    change (a.enter process (.attaching true)).phase p ≠ _
    by_cases here : p = process
    · rw [here, enter_self]
      nofun
    · rw [enter_other here]
      exact orderly.fine p
  unset s win p there _ := by
    cases there
    rfl
  inUse s win _ set_ := by
    have gone := set_ process
    change ¬ ((a.enter process (.attaching true)).phase process).Leaves win at gone
    rw [enter_self] at gone
    exact absurd rfl gone

theorem Attaching.Orderly.setWin (orderly : a.Orderly) {win : Fin 256} {phase : AttachPhase}
    (setting : a.phase process = .setting win) (there : a.store ≠ none) (leaves : ∀ other, phase.Leaves other ↔ win < other)
    (goes : phase ≠ .creating ∧ phase ≠ .publishing) (fine : phase ≠ .aborted) :
    { a.enter process phase with store := a.store.map (State.setWin win) : Attaching }.Orderly where
  alone p q := by
    have only (other : Nat) (creates : ((a.enter process phase).phase other).Creates) : other = process := by
      by_contra differ
      rw [enter_other differ] at creates
      exact differ (orderly.alone other process creates (by rw [setting]; trivial))
    exact fun here there => (only p here).trans (only q there).symm
  unpublished none_ := absurd (Option.map_eq_none_iff.mp none_) there
  published _ p := by
    change (a.enter process phase).phase p ≠ _ ∧ (a.enter process phase).phase p ≠ _
    by_cases here : p = process
    · rw [here, enter_self]
      exact goes
    · rw [enter_other here]
      exact orderly.published there p
  fine p := by
    change (a.enter process phase).phase p ≠ _
    by_cases here : p = process
    · rw [here, enter_self]
      exact fine
    · rw [enter_other here]
      exact orderly.fine p
  unset s other p stored leaving := by
    rcases Option.map_eq_some_iff.mp stored with ⟨before, was, rfl⟩
    change ((a.enter process phase).phase p).Leaves other at leaving
    have here : p = process := by
      by_contra differ
      rw [enter_other differ] at leaving
      exact differ (orderly.alone p process leaving.creates (by rw [setting]; trivial))
    rw [here, enter_self, leaves] at leaving
    change (Function.update before.shared.wins win _ other).tabs = _
    rw [Function.update_of_ne (ne_of_gt leaving)]
    apply orderly.unset before other process was
    rw [setting]
    exact le_of_lt leaving
  inUse s other stored set_ free := by
    rcases Option.map_eq_some_iff.mp stored with ⟨before, was, rfl⟩
    change (Function.update before.shared.wins win _ other).InUse
    by_cases same : other = win
    · rw [same, Function.update_self]
      exact ⟨Nat.one_pos, (by decide : 1 ≤ 2048)⟩
    · rw [Function.update_of_ne same]
      apply orderly.inUse before other was ?_ free
      intro p leaving
      have here : p = process := orderly.alone p process leaving.creates (by rw [setting]; trivial)
      rw [here, setting] at leaving
      have gone := set_ process
      change ¬ ((a.enter process phase).phase process).Leaves other at gone
      rw [enter_self, leaves] at gone
      exact gone (lt_of_le_of_ne leaving fun equal => same equal.symm)

theorem afterSetting_leaves (win other : Fin 256) : (AttachPhase.afterSetting win).Leaves other ↔ win < other := by
  unfold AttachPhase.afterSetting
  split
  · exact Iff.rfl
  · rename_i last
    exact iff_of_false id (by omega)

theorem afterSetting_left (win : Fin 256) : (AttachPhase.afterSetting win).left < 256 - win.val := by
  unfold AttachPhase.afterSetting
  split
  · change 256 - (win.val + 1) < _
    omega
  · change 0 < _
    omega

theorem afterSetting_goes (win : Fin 256) :
    (AttachPhase.afterSetting win ≠ .creating ∧ AttachPhase.afterSetting win ≠ .publishing) ∧
      AttachPhase.afterSetting win ≠ .aborted := by
  unfold AttachPhase.afterSetting
  split <;> exact ⟨⟨nofun, nofun⟩, nofun⟩

theorem enter_atomic {phase : AttachPhase} (step : a.attach vfs first process = a.enter process phase)
    (fine : phase ≠ .aborted) (less : phase.left < (a.phase process).left) (seen : phase = .attached → a.store.isSome = true) :
    (AttachEvent.attach process).Atomic cfg vfs first a := by
  unfold AttachEvent.Atomic
  dsimp only
  rw [step, enter_self]
  refine ⟨fine, fun _ => less, seen, fun s s' was is => ?_⟩
  have same : some s' = some s := is.symm.trans was
  cases same
  rfl

theorem opening_step (orderly : a.Orderly) (apart : (AttachEvent.attach process).Apart a) (phase : a.phase process = .opening) :
    (a.attach vfs first process).Orderly ∧ (AttachEvent.attach process).Atomic cfg vfs first a := by
  cases there : a.store with
  | none =>
    have step : a.attach vfs first process = a.enter process .creating := by
      unfold Attaching.attach
      rw [phase, there]
      rfl
    have others (other : Nat) : ¬ (a.phase other).Creates := by
      rcases orderly.unpublished there other with opens | creates | publishes
      · rw [opens]
        exact id
      · exact absurd creates (apart phase there other).1
      · exact absurd publishes (apart phase there other).2
    refine ⟨?_, enter_atomic step nofun (by rw [phase]; decide) nofun⟩
    rw [step]
    refine orderly.enter .creating (fun _ other _ => others other) (fun win => ?_) (fun _ => .inr (.inl rfl))
      (fun no => absurd there no) nofun
    rw [phase]
    exact Iff.rfl
  | some s =>
    have step : a.attach vfs first process = a.enter process (.attaching false) := by
      unfold Attaching.attach
      rw [phase, there]
      rfl
    refine ⟨?_, enter_atomic step nofun (by rw [phase]; decide) nofun⟩
    rw [step]
    refine orderly.enter (.attaching false) nofun (fun win => ?_) (fun none_ => ?_) (fun _ => ⟨nofun, nofun⟩) nofun
    · rw [phase]
      exact iff_of_false nofun id
    · rw [there] at none_
      cases none_

theorem publishing_step (orderly : a.Orderly) (phase : a.phase process = .publishing) :
    (a.attach vfs first process).Orderly ∧ (AttachEvent.attach process).Atomic cfg vfs first a := by
  have none_ : a.store = none := by
    by_contra there
    exact (orderly.published there process).2 phase
  have step : a.attach vfs first process =
      { a.enter process (.attaching true) with store := some (State.unset vfs first) } := by
    unfold Attaching.attach
    rw [phase, none_]
    rfl
  constructor
  · rw [step]
    exact orderly.publish phase
  · unfold AttachEvent.Atomic
    dsimp only
    rw [step]
    change (a.enter process (.attaching true)).phase process ≠ _ ∧
      (_ → ((a.enter process (.attaching true)).phase process).left < _) ∧ _
    rw [enter_self, phase, none_]
    exact ⟨nofun, fun _ => by decide, fun _ => rfl, nofun⟩

theorem setting_step (orderly : a.Orderly) {win : Fin 256} (phase : a.phase process = .setting win) :
    (a.attach vfs first process).Orderly ∧ (AttachEvent.attach process).Atomic cfg vfs first a := by
  have there : a.store ≠ none := orderly.seen phase ⟨nofun, nofun, nofun⟩
  rcases afterSetting_goes win with ⟨goes, fine⟩
  have step : a.attach vfs first process =
      { a.enter process (.afterSetting win) with store := a.store.map (State.setWin win) } := by
    unfold Attaching.attach
    rw [phase]
  constructor
  · rw [step]
    exact orderly.setWin phase there (afterSetting_leaves win) goes fine
  · unfold AttachEvent.Atomic
    dsimp only
    rw [step]
    change (a.enter process (.afterSetting win)).phase process ≠ _ ∧
      (_ → ((a.enter process (.afterSetting win)).phase process).left < _) ∧ _
    rw [enter_self, phase]
    refine ⟨fine, fun _ => afterSetting_left win, fun _ => ?_, fun s s' was is => ?_⟩
    · change (a.store.map _).isSome = true
      rw [Option.isSome_map]
      exact Option.isSome_iff_ne_none.mpr there
    · change a.store.map _ = some s' at is
      rw [was] at is
      cases is
      exact setWin_items (orderly.unset s win process was (by rw [phase]; exact le_refl win))

/-- One step of `shf_attach`. -/
theorem Attaching.Orderly.attach (orderly : a.Orderly) (apart : (AttachEvent.attach process).Apart a) :
    (a.attach vfs first process).Orderly ∧ (AttachEvent.attach process).Atomic cfg vfs first a := by
  have done (ended : (a.phase process).left = 0) (still : a.attach vfs first process = a) :
      (a.attach vfs first process).Orderly ∧ (AttachEvent.attach process).Atomic cfg vfs first a := by
    refine ⟨by rw [still]; exact orderly, ?_⟩
    unfold AttachEvent.Atomic
    dsimp only
    rw [still]
    refine ⟨orderly.fine process, fun more => absurd ended more, fun attached => ?_, fun s s' was is => ?_⟩
    · exact Option.isSome_iff_ne_none.mpr (orderly.seen attached ⟨nofun, nofun, nofun⟩)
    · have same : some s' = some s := is.symm.trans was
      cases same
      rfl
  cases phase : a.phase process with
  | opening => exact opening_step orderly apart phase
  | creating =>
    have step : a.attach vfs first process = a.enter process .publishing := by
      unfold Attaching.attach
      rw [phase]
    refine ⟨?_, enter_atomic step nofun (by rw [phase]; decide) nofun⟩
    rw [step]
    refine orderly.enter .publishing (fun _ other differ creates => ?_) (fun win => ?_) (fun _ => .inr (.inr rfl))
      (fun there => ?_) nofun
    · exact differ (orderly.alone other process creates (by rw [phase]; trivial))
    · rw [phase]
      exact Iff.rfl
    · exact absurd phase (orderly.published there process).1
  | publishing => exact publishing_step orderly phase
  | attaching creator =>
    have there : a.store ≠ none := orderly.seen phase ⟨nofun, nofun, nofun⟩
    cases creator with
    | false =>
      have step : a.attach vfs first process = a.enter process .attached := by
        unfold Attaching.attach
        rw [phase]
        rfl
      refine ⟨?_, enter_atomic step nofun (by rw [phase]; decide) fun _ => Option.isSome_iff_ne_none.mpr there⟩
      rw [step]
      refine orderly.enter .attached nofun (fun win => ?_) (fun none_ => absurd none_ there) (fun _ => ⟨nofun, nofun⟩) nofun
      rw [phase]
      exact iff_of_false id nofun
    | true =>
      have step : a.attach vfs first process = a.enter process (.setting ⟨0, by decide⟩) := by
        unfold Attaching.attach
        rw [phase]
        rfl
      refine ⟨?_, enter_atomic step nofun (by rw [phase]; decide) nofun⟩
      rw [step]
      refine orderly.enter (.setting ⟨0, by decide⟩) (fun _ other differ creates => ?_) (fun win => ?_) (fun none_ => absurd none_ there)
        (fun _ => ⟨nofun, nofun⟩) nofun
      · exact differ (orderly.alone other process creates (by rw [phase]; rfl))
      · rw [phase]
        exact iff_of_true (Nat.zero_le win.val) rfl
  | setting win => exact setting_step orderly phase
  | attached => exact done (by rw [phase]; rfl) (by unfold Attaching.attach; rw [phase])
  | aborted => exact done (by rw [phase]; rfl) (by unfold Attaching.attach; rw [phase])
  | stopped => exact done (by rw [phase]; rfl) (by unfold Attaching.attach; rw [phase])

theorem Attaching.Orderly.stored (orderly : a.Orderly) {s s' : State Disk} {win : Fin 256} {held : Fin 256 → Bool}
    (there : a.store = some s) (elsewhere : Elsewhere win s.shared.wins s') (set_ : ∀ p, ¬ (a.phase p).Leaves win)
    (kept : ∀ other, other ≠ win → held other = a.held other) (inUse : held win = false → (s'.shared.wins win).InUse) :
    { a with store := some s', held := held : Attaching }.Orderly where
  alone := orderly.alone
  unpublished none_ := by cases none_
  published _ := orderly.published (by rw [there]; nofun)
  fine := orderly.fine
  unset s'' other p stored leaving := by
    cases stored
    by_cases same : other = win
    · rw [same] at leaving
      exact absurd leaving (set_ p)
    · rw [elsewhere other same]
      exact orderly.unset s other p there leaving
  inUse s'' other stored gone free := by
    cases stored
    by_cases same : other = win
    · rw [same] at free ⊢
      exact inUse free
    · rw [elsewhere other same]
      exact orderly.inUse s other there gone ((kept other same).symm.trans free)

/-- One pass of a put. -/
theorem Attaching.Orderly.put (orderly : a.Orderly) (apart : (AttachEvent.put process tls val).Apart a) :
    (a.put cfg process tls val).Orderly ∧ (AttachEvent.put process tls val).Atomic cfg vfs first a := by
  refine ⟨?_, fun attached free => ?_⟩
  · unfold Attaching.put
    cases there : a.store with
    | none => exact orderly
    | some s =>
      dsimp only
      split
      · rename_i goes
        have inUse := orderly.inUse s _ there apart goes.2
        have elsewhere := @putPart_elsewhere cfg val process tls s
        split
        · rename_i ended
          have inUse' := putPart_inUse inUse ended
          generalize (runProcesses mapped cfg [⟨process, tls, .put val⟩] s).state = s' at elsewhere inUse'
          exact orderly.stored there elsewhere apart (fun _ _ => rfl) fun _ => inUse'
        · have stops : (a.enter process .stopped).Orderly := by
            refine orderly.enter .stopped nofun (fun win => ?_) (fun none_ => ?_) (fun _ => ⟨nofun, nofun⟩) nofun
            · rw [goes.1]
              exact Iff.rfl
            · rw [there] at none_
              cases none_
          generalize (runProcesses mapped cfg [⟨process, tls, .put val⟩] s).state = s' at elsewhere
          refine stops.stored there elsewhere (fun p leaving => ?_) (fun other differ => Function.update_of_ne differ _ _)
            fun free => ?_
          · by_cases here : p = process
            · rw [here, enter_self] at leaving
              exact leaving
            · rw [enter_other here] at leaving
              exact apart p leaving
          · rw [Function.update_self] at free
            cases free
      · exact orderly
  · rcases Option.ne_none_iff_exists'.mp (orderly.seen attached ⟨nofun, nofun, nofun⟩) with ⟨s, there⟩
    exact ⟨s, there, Nat.ne_of_gt (orderly.inUse s _ there apart free).1⟩

theorem Attaching.Orderly.atEach (orderly : a.Orderly) {events : List AttachEvent}
    (apart : a.AtEach cfg vfs first (fun a event => event.Apart a) events) :
    a.AtEach cfg vfs first (AttachEvent.Atomic cfg vfs first) events := by
  induction events generalizing a with
  | nil => trivial
  | cons event rest ih =>
    have step : (a.next cfg vfs first event).Orderly ∧ event.Atomic cfg vfs first a := by
      cases event with
      | attach process => exact orderly.attach apart.1
      | put process tls val => exact orderly.put apart.1
    exact ⟨step.2, ih step.1 apart.2⟩

/-- Where nobody finds no store while another creates its own, and puts wait for their windows to be set, a store is
    created atomically. -/
theorem attach_atomic (cfg : Config) (vfs : Nat → Nat) (first : Tls) (events : List AttachEvent)
    (apart : Attaching.start.AtEach cfg vfs first (fun a event => event.Apart a) events) :
    Attaching.start.AtEach cfg vfs first (AttachEvent.Atomic cfg vfs first) events :=
  start_orderly.atEach apart

end Attaching

def lateEvents : List AttachEvent :=
  [.attach 0, .attach 0, .attach 0, .attach 0, .attach 0, .attach 1, .attach 1, .put 1 (smallTls [1]) (.copy [10])]

theorem lateEvents_atomic : Attaching.start.AtEach smallConfig (fun _ => 2^40) (smallTls [])
    (AttachEvent.Atomic smallConfig (fun _ => 2^40) (smallTls [])) lateEvents := by
  apply attach_atomic
  refine ⟨fun _ _ _ => ⟨nofun, nofun⟩, nofun, nofun, nofun, nofun, fun _ => nofun, nofun, fun other => ?_, trivial⟩
  cases other with
  | zero => exact Nat.not_succ_le_zero 0
  | succ other =>
    cases other with
    | zero => exact id
    | succ other => exact id

/-- Two processes find no store; the second one's folder cannot get the name. -/
theorem not_attach_atomic : ¬ ∀ (cfg : Config) (vfs : Nat → Nat) (first : Tls) (events : List AttachEvent),
    Attaching.start.AtEach cfg vfs first (AttachEvent.Atomic cfg vfs first) events := by
  intro atomic
  have all := atomic smallConfig (fun _ => 2^40) (smallTls [])
    [.attach 0, .attach 1, .attach 0, .attach 1, .attach 0, .attach 1]
  exact all.2.2.2.2.2.1.1 rfl

end SharedHashFile.Store
