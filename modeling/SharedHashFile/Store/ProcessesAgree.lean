import SharedHashFile.Store.Growth

namespace SharedHashFile.Store

open Program

/-- Critical sections of several processes against one process which runs the same: all mappings made on
    the way, and all which can be made afterwards, are of the files at the paths; results, tables and
    redirections are those of the one process. -/
def Consistent (cfg : Config) (vfs : Nat → Nat) (tls : Tls) (sections : List Section) : Prop :=
  let many := runProcesses mapped cfg sections (State.initial vfs tls)
  let one := runProcesses mapped cfg (sections.map Section.alone) (State.initial vfs tls)
  (∀ e, (runProcesses (audited e) cfg sections (State.initial vfs tls)).value = many.value) ∧
    one.value = many.value ∧
    ∀ results, many.value = .ok results →
      one.state.shared = many.state.shared ∧ one.state.map.tables = many.state.map.tables ∧
      ∀ process win tab file, many.state.map.path win tab = some file →
        ∃ d, Disk.getTabMmap win tab (many.state.map.switch process) = ⟨.ok (), d, 0⟩ ∧ d.Synced win tab

theorem runSections_alone {cfg : Config} {sections : List Section} :
    runSections direct cfg (fun _ T => T) (sections.map Section.alone) =
      runSections direct cfg (fun _ T => T) sections := by
  induction sections with
  | nil => rfl
  | cons part rest ih =>
    rw [List.map_cons, runSections, runSections, ih]
    rfl

section Mappings

variable {cfg : Config} {s : State Disk} {t : State Tables} {b : Bindings} {sections : List Section}

/-- What critical sections come to on the tables themselves is never taken for header or rows. -/
theorem StoreOk.never_below (ok : StoreOk cfg t b) (linkable : cfg.Linkable) (fits : ∀ part ∈ sections, part.Fits cfg)
    (below : (runSections direct cfg (fun _ T => T) sections t).peak < 2^32) :
    (runSections direct cfg (fun _ T => T) sections t).value ≠ .error .below := by
  intro stopped
  have kept := runSections_kept linkable ok fits below
  rw [stopped] at kept
  exact kept rfl

theorem InUse.audited_value (inUse : InUse cfg s b) (linkable : cfg.Linkable) (fits : ∀ part ∈ sections, part.Fits cfg)
    (within : (runProcesses mapped cfg sections s).peak < 2^32) (e : Stop) :
    (runProcesses (audited e) cfg sections s).value = (runProcesses mapped cfg sections s).value := by
  have guarded := inUse.runs_guarded linkable fits within
  rcases inUse with ⟨t, settled, ok⟩
  rw [guarded] at within ⊢
  rcases @runSections_simulates _ cfg _ _ guarded_faithful sections settled (.inl within) with ⟨peak, value, _⟩
  have below := peak ▸ within
  have auditedSimulates := @runSections_simulates _ cfg _ _ (audited_faithful e) sections settled
  have checked := (@runSections_follows _ (audited e) cfg (Nat.zero_le _) Disk.switch sections).same_simulated
    auditedSimulates below (ok.never_below linkable fits below)
  dsimp only [runProcesses]
  rw [checked]
  exact (auditedSimulates (.inr below)).2.1.trans value.symm

theorem InUse.remaps (inUse : InUse cfg s b) (process : Nat) {win : Fin 256} {tab file : Nat}
    (path : s.map.path win tab = some file) :
    ∃ d, Disk.getTabMmap win tab (s.map.switch process) = ⟨.ok (), d, 0⟩ ∧ d.Synced win tab := by
  rcases inUse with ⟨t, settled, _⟩
  rcases @Settled.switch _ _ process settled with ⟨_, switched, _⟩
  rcases Disk.getTabMmap_run switched.coherent path with ⟨d', run, a, b, c, rfl⟩
  exact ⟨_, run, (switched.coherent.opening path).kept (.inr ⟨rfl, rfl⟩)⟩

end Mappings

/-- Within the 32-bit limits the processes share one store. -/
theorem processes_consistent (cfg : Config) (linkable : cfg.Linkable) (vfs : Nat → Nat) (tls : Tls)
    (sections : List Section) (fits : ∀ part ∈ sections, part.Fits cfg)
    (within : (runProcesses mapped cfg sections (State.initial vfs tls)).peak < 2^32) :
    Consistent cfg vfs tls sections := by
  have inUse := initial_inUse cfg vfs tls
  have settled := initial_settled vfs tls
  have checked := inUse.audited_value linkable fits within
  have ends := inUse.processes linkable fits within
  have many := inUse.runs_guarded linkable fits within
  rw [many] at within
  rcases @runSections_simulates _ cfg _ _ guarded_faithful sections settled (.inl within) with ⟨peak, value, related⟩
  have below := peak ▸ within
  have oneSimulates := @runSections_simulates _ cfg _ _ guarded_faithful (sections.map Section.alone) settled
  rw [runSections_alone] at oneSimulates
  have one := (runSections_follows mapped_lowest Disk.switch (sections.map Section.alone)).same_simulated oneSimulates below
    ((initial_storeOk cfg vfs tls).never_below linkable fits below)
  rcases oneSimulates (.inr below) with ⟨_, valueOne, relatedOne⟩
  unfold Consistent
  dsimp only [runProcesses] at checked ends many ⊢
  rw [many] at checked ends ⊢
  rw [one]
  refine ⟨checked, valueOne.trans value.symm, fun results ok => ?_⟩
  have tables := Settled.tables_eq (related results ok)
  have tablesOne := Settled.tables_eq (relatedOne results (valueOne.trans (value.symm.trans ok)))
  rw [ok] at ends
  rcases ends with ⟨b, inUse'⟩
  exact ⟨tablesOne.2.trans tables.2.symm, tablesOne.1.trans tables.1.symm, fun process _ _ _ path => inUse'.remaps process path⟩

theorem smallSections_consistent : Consistent smallConfig (fun _ => 2^40) (smallTls []) smallSections :=
  processes_consistent _ (Config.linkable_variable rfl) _ _ _ (fun part _ => part.fits_variable rfl) (by decide +kernel)

/-- The mappings of processes each of which has its own `shf_data_needed_factor`: those made in one more critical
    section, and those which can be made now, are of the files at the paths. -/
structure Factors.Current (cfg : Config) (σ : Factors) : Prop where
  checked : ∀ e part, part.Fits cfg → let cfg' := cfg.withFactor (σ.factors part.process)
    (runProcesses mapped cfg' [part] σ.store).peak < 2^32 →
    (runProcesses (audited e) cfg' [part] σ.store).value = (runProcesses mapped cfg' [part] σ.store).value
  remaps : ∀ process win tab file, σ.store.map.path win tab = some file →
    ∃ d, Disk.getTabMmap win tab (σ.store.map.switch process) = ⟨.ok (), d, 0⟩ ∧ d.Synced win tab

/-- Whatever factors the processes have had accepted, they share one store. -/
theorem Factors.Reachable.current {cfg : Config} {vfs : Nat → Nat} {tls : Tls} {σ : Factors}
    (reached : Factors.Reachable cfg vfs tls σ) (linkable : cfg.Linkable) : σ.Current cfg := by
  rcases reached.inUse linkable with ⟨b, inUse⟩
  refine ⟨fun e part fits => ?_, fun process _ _ _ path => inUse.remaps process path⟩
  have linkable' : (cfg.withFactor (σ.factors part.process)).Linkable := linkable
  intro cfg' within
  exact (inUse.withFactor _).audited_value linkable' (List.forall_mem_singleton.mpr fits) within e

/-- The second process reserves a value which lets the table file grow by `2^32` bytes; the first is left
    with a mapping of less than the file. -/
def hugeSections : List Section :=
  [⟨1, smallTls [1], .put (.copy [10])⟩, ⟨2, smallTls [2], .put (.reserve (2^32 - 21))⟩,
    ⟨1, smallTls [1], .find uidNone .addr⟩]

theorem hugeSections_inconsistent : ¬ Consistent smallConfig (fun _ => 2^40) (smallTls []) hugeSections := by
  intro consistent
  have same := congrArg Except.isOk (consistent.1 .wild)
  revert same
  decide +kernel

end SharedHashFile.Store
