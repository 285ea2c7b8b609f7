import SharedHashFile.Store.LedgerRuns

namespace SharedHashFile.Store

open Program

/-- The redirections of a store, and the used refs of its tables. -/
structure State.Redirects (s : State Disk) : Prop where
  windows : ∀ win, Redirected (s.shared.wins win).tabs (s.shared.wins win).tabsUsed
  refs : ∀ win tab file, s.map.path win tab = some file → ∀ row ref, ((s.map.files file).tab.row row ref).pos ≠ 0 →
    (s.shared.wins win).tabs ((s.map.files file).tab.row row ref).tab = tab

/-- A table with two redirections or more keeps half of them, and a new table has the others. -/
def Win.Halves (before after : Win) (tab : Nat) : Prop :=
  2 ≤ redirections before.tabs tab → redirections after.tabs tab = redirections before.tabs tab / 2 ∧
    redirections after.tabs before.tabsUsed = redirections before.tabs tab / 2

/-- A section which does not put but part a table parts its class in halves. -/
def State.PartHalves (cfg : Config) (s : State Disk) (part : Section) : Prop :=
  (runProcesses mapped cfg [part] s).peak < 2^32 → ∀ tls, (runProcesses mapped cfg [part] s).value = .ok [(none, tls)] →
    Win.Halves (s.shared.wins (part.work.slot part.tls).win)
      ((runProcesses mapped cfg [part] s).state.shared.wins (part.work.slot part.tls).win)
      (s.tableOf (part.work.slot part.tls))

section Lawful

attribute [local irreducible] halved

variable {cfg : Config} {s s' : State Disk} {limit : Nat}

theorem Ledger.Lawful.limited (lawful : (mappedLedger limit).Lawful s) (limit' : Nat) : (mappedLedger limit').Lawful s :=
  ⟨lawful.known, lawful.none_, lawful.absent, lawful.there, lawful.redirected, lawful.refs, False.elim⟩

theorem initial_tables (win : Fin 256) (tab : Nat) :
    Disk.initial.tables.table win tab = if tab = 0 then some ⟨modPage dataOffset, emptyTab⟩ else none := by
  change (if tab = 0 then some win.val else none : Option Nat).map _ = _
  split <;> rfl

theorem Ledger.initial_lawful {μ : Type} {m : Mapping μ} (b : Ledger m limit) {M : μ} (vfs : Nat → Nat) (tls : Tls)
    (known : b.Known (fun _ _ => False) M) (tables : b.tables M = Disk.initial.tables) :
    b.Lawful ⟨Shared.initial vfs tls, M⟩ := by
  have at_ (win : Fin 256) (tab : Nat) : (b.tables M).table win tab =
      if tab = 0 then some ⟨modPage dataOffset, emptyTab⟩ else none := by
    rw [tables]
    exact initial_tables win tab
  refine ⟨known, ?_, fun win tab above => ?_, fun win tab below => ?_, fun _ => Redirected.initial,
    fun win tab file found row ref uses => ?_, fun _ win tab file found => ?_⟩
  · rw [tables]
    rfl
  · change 1 ≤ tab at above
    refine (at_ win tab).trans (if_neg ?_)
    omega
  · change tab < 1 at below
    exact ⟨_, (at_ win tab).trans (if_pos (Nat.lt_one_iff.mp below))⟩
  · replace found := (at_ win tab).symm.trans found
    split at found
    · cases found
      exact absurd rfl (of_decide_eq_true uses)
    · cases found
  · replace found := (at_ win tab).symm.trans found
    split at found
    · cases found
      exact .inr (resized_none _).symm
    · cases found

theorem initial_lawful (limit : Nat) (vfs : Nat → Nat) (tls : Tls) :
    (mappedLedger limit).Lawful (State.initial vfs tls) :=
  (mappedLedger limit).initial_lawful vfs tls Disk.initial_sound rfl

theorem Ledger.Lawful.redirects (lawful : (mappedLedger limit).Lawful s) : s.Redirects := by
  refine ⟨lawful.redirected, fun win tab file path row ref occupied => ?_⟩
  have there : s.map.tables.table win tab = some (s.map.files file) := by
    change (s.map.path win tab).map _ = _
    rw [path]
    rfl
  exact lawful.refs win tab _ there row ref (decide_eq_true occupied)

theorem Ledger.Lawful.section_ran {part : Section} {result : Option Nat} {tls : Tls}
    (lawful : (mappedLedger limit).Lawful s)
    (value : (runProcesses mapped.guarded cfg [part] s).value = .ok [(result, tls)]) : ∃ limit,
      (mappedLedger limit).Effect cfg part.tls part.work result (part.enter Disk.switch s)
        (runProcesses mapped.guarded cfg [part] s).state := by
  have ends := @Ledger.section_ends _ _ ((runProcesses mapped.guarded cfg [part] s).peak + 1) (mappedLedger _) cfg s .internal
    part (lawful.limited _)
  rw [runSectionsOr_internal] at ends
  have done := Ends.ran ends value (Nat.lt_succ_self _)
  rcases done with ⟨result', tls', same, _, effect⟩
  cases same
  exact ⟨_, effect⟩

theorem Ledger.Lawful.part_halves {part : Section} {tls : Tls} (lawful : (mappedLedger limit).Lawful s)
    (value : (runProcesses mapped.guarded cfg [part] s).value = .ok [(none, tls)]) :
    Win.Halves (s.shared.wins (part.work.slot part.tls).win)
      ((runProcesses mapped.guarded cfg [part] s).state.shared.wins (part.work.slot part.tls).win)
      (s.tableOf (part.work.slot part.tls)) := by
  intro shared
  rcases lawful.section_ran value with ⟨limit, effect⟩
  cases work : part.work with
  | find uid what =>
    rw [work] at effect
    rcases effect with ⟨_, some_, _⟩
    cases some_
  | put val =>
    rw [work] at effect shared
    rcases effect with ⟨some_, _⟩ | ⟨_, file, file1, _, _, _, parted⟩
    · cases some_
    · have redirected := lawful.redirected (Work.slot part.tls (.put val)).win
      have halves := redirected.halves (redirected.below (Work.slot part.tls (.put val)).tab) shared
      have tabs_eq : ((runProcesses mapped.guarded cfg [part] s).state.shared.wins
          (Work.slot part.tls (.put val)).win).tabs =
          Store.halved (s.tableOf (Work.slot part.tls (.put val))) (s.shared.wins (Work.slot part.tls (.put val)).win).tabsUsed
            (s.shared.wins (Work.slot part.tls (.put val)).win).tabs := parted.tabs_eq
      rw [tabs_eq]
      exact halves

theorem InUse.partHalves {part : Section} {b : Bindings} (inUse : InUse cfg s b) (linkable : cfg.Linkable)
    (lawful : (mappedLedger limit).Lawful s) (fits : part.Fits cfg) : s.PartHalves cfg part := by
  intro within tls value
  rw [inUse.runs_guarded linkable (List.forall_mem_singleton.mpr fits) within] at value ⊢
  exact lawful.part_halves value

/-- The run is the same whatever the assertions in the loops of `shf_tab_part` stop with. -/
theorem InUse.assertions_hold {rest : List Section} {b : Bindings} (inUse : InUse cfg s b) (linkable : cfg.Linkable)
    (lawful : (mappedLedger limit).Lawful s) (fits : ∀ part ∈ rest, part.Fits cfg)
    (within : (runProcesses mapped cfg rest s).peak < 2^32) (e : Stop) :
    runSectionsOr mapped cfg e Disk.switch rest s = runProcesses mapped cfg rest s := by
  have guarded := inUse.runs_guarded linkable fits within
  have never := inUse.guarded_ends linkable fits (guarded ▸ within)
  have same : runProcesses mapped.guarded cfg rest s = runSectionsOr mapped.guarded cfg e Disk.switch rest s := by
    have runsAs := @Ledger.sections_runsAs _ _ ((runProcesses mapped.guarded cfg rest s).peak + 1) (mappedLedger _) cfg s
      .internal e rest (lawful.limited _)
    rw [runSectionsOr_internal] at runsAs
    exact runsAs (Nat.lt_succ_self _)
  rw [guarded, same]
  rcases runSectionsOr_follows mapped_lowest e Disk.switch rest s with follows | ⟨stopped, _⟩
  · exact follows
  · rw [← same] at stopped
    rw [stopped] at never
    exact absurd rfl never

theorem guarded_keeps {vfs : Nat → Nat} {tls : Tls} {sections : List Section} {I : State Disk → Prop}
    (ended : (runProcesses mapped.guarded cfg sections (State.initial vfs tls)).value.isOk = true)
    (start : I (State.initial vfs tls)) (step : ∀ part ∈ sections, ∀ limit s result s', I s →
      (mappedLedger limit).Effect cfg part.tls part.work result (part.enter Disk.switch s) s' → I s') :
    (mappedLedger 0).Lawful (runProcesses mapped.guarded cfg sections (State.initial vfs tls)).state ∧
      I (runProcesses mapped.guarded cfg sections (State.initial vfs tls)).state := by
  have ends := @Ledger.sections_ends _ _ ((runProcesses mapped.guarded cfg sections (State.initial vfs tls)).peak + 1)
    (mappedLedger _) cfg (State.initial vfs tls) .internal I sections (initial_lawful _ vfs tls) start
    fun part member s result s' _ holds effect => step part member _ s result s' holds effect
  rw [runSectionsOr_internal] at ends
  cases value : (runProcesses mapped.guarded cfg sections (State.initial vfs tls)).value with
  | ok results =>
    rcases ends.ran value (Nat.lt_succ_self _) with ⟨lawful, holds⟩
    exact ⟨lawful.limited 0, holds⟩
  | error e =>
    rw [value] at ended
    cases ended

theorem Attained.keeps {vfs : Nat → Nat} {tls : Tls} {sections : List Section} {I : State Disk → Prop}
    (attained : Attained cfg vfs tls sections s) (linkable : cfg.Linkable) (fits : ∀ part ∈ sections, part.Fits cfg)
    (start : I (State.initial vfs tls)) (step : ∀ part ∈ sections, ∀ limit s result s', I s →
      (mappedLedger limit).Effect cfg part.tls part.work result (part.enter Disk.switch s) s' → I s') :
    (mappedLedger 0).Lawful s ∧ I s := by
  have guarded := attained.runs_guarded linkable fits
  rcases attained with ⟨_, ended, rfl⟩
  rw [guarded] at ended ⊢
  exact guarded_keeps ended start step

theorem Attained.lawful {vfs : Nat → Nat} {tls : Tls} {sections : List Section} (attained : Attained cfg vfs tls sections s)
    (linkable : cfg.Linkable) (fits : ∀ part ∈ sections, part.Fits cfg) : (mappedLedger 0).Lawful s :=
  (@Attained.keeps _ _ _ _ _ (fun _ => True) attained linkable fits trivial fun _ _ _ _ _ _ _ _ => trivial).1

end Lawful

def smallStored : State Disk :=
  (runProcesses mapped smallConfig smallSections (State.initial (fun _ => 2^40) (smallTls []))).state

theorem smallStored_attained : Attained smallConfig (fun _ => 2^40) (smallTls []) smallSections smallStored :=
  ⟨by decide +kernel, by decide +kernel, rfl⟩

end SharedHashFile.Store
