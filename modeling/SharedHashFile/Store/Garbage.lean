import SharedHashFile.Store.Redirections

namespace SharedHashFile.Store

open Program

def State.GarbageWithin (s : State Disk) (slot : Slot) (share : Nat) : Prop :=
  ∃ file, s.map.path slot.win (s.tableOf slot) = some file ∧
    (s.map.files file).tab.tabDataFree ≤ (s.map.files file).tab.tabDataUsed / share

def State.NoGarbage (s : State Disk) : Prop :=
  ∀ win tab file, s.map.path win tab = some file → (s.map.files file).tab.tabDataFree = 0

/-- The bounds which the two triggers of a shrink keep. -/
structure State.BoundedGarbage (cfg : Config) (s : State Disk) : Prop where
  put : ∀ part val tls, part.work = .put val → (runProcesses mapped cfg [part] s).peak < 2^32 →
    (runProcesses mapped cfg [part] s).value = .ok [(some retKeyPut, tls)] →
    (runProcesses mapped cfg [part] s).state.GarbageWithin (part.work.slot part.tls) 5
  get : ∀ part uid what tls, part.work = .find uid what → what.Copies → (runProcesses mapped cfg [part] s).peak < 2^32 →
    (runProcesses mapped cfg [part] s).value = .ok [(some retKeyFound, tls)] →
    (runProcesses mapped cfg [part] s).state.GarbageWithin (part.work.slot part.tls) 4

section Bounds

variable {cfg : Config} {sized shrinks : Prop} {file file' : File} {slot : Slot} {rnd needed share : Nat}

theorem Config.lenLen_ne_zero (variable_ : cfg.isFixedKeyValLen = false) : cfg.lenLen ≠ 0 := by
  unfold Config.lenLen
  rw [variable_]
  decide

/-- A shrink leaves no garbage, and is left out only below the threshold. -/
theorem MaybeShrunk.within (maybe : MaybeShrunk sized cfg shrinks file file') (variable_ : cfg.lenLen ≠ 0)
    (early : ¬ shrinks → file.tab.tabDataFree ≤ file.tab.tabDataUsed / share) :
    file'.tab.tabDataFree ≤ file'.tab.tabDataUsed / share := by
  rcases maybe with ⟨_, filled⟩ | ⟨below, rfl⟩
  · rw [filled.dataFree variable_]
    exact Nat.zero_le _
  · exact early below

theorem MaybeShrunk.none_ (maybe : MaybeShrunk sized cfg shrinks file file') (variable_ : cfg.lenLen ≠ 0)
    (clean : file.tab.tabDataFree = 0) : file'.tab.tabDataFree = 0 := by
  rcases maybe with ⟨_, filled⟩ | ⟨_, rfl⟩
  · exact filled.dataFree variable_
  · exact clean

/-- The wrapped product is at most the product. -/
theorem Tab.fifth_of_not_shrinks {t : Tab} (early : ¬ t.Shrinks) : t.tabDataFree ≤ t.tabDataUsed / 5 := by
  unfold Tab.Shrinks at early
  have wraps := Nat.mod_le (t.tabDataUsed * 20) (2^32)
  omega

end Bounds

section Effects

variable {cfg : Config} {limit : Nat} {s s' : State Disk} {slot : Slot} {what : FindKeyAnd} {rnd needed share code : Nat}

theorem garbageWithin_of_table {tab : Nat} {file : File} (there : s.map.tables.table slot.win tab = some file)
    (here : s.tableOf slot = tab) (within : file.tab.tabDataFree ≤ file.tab.tabDataUsed / share) :
    s.GarbageWithin slot share := by
  change (s.map.path slot.win tab).map _ = some file at there
  rcases Option.map_eq_some_iff.mp there with ⟨off, path, rfl⟩
  refine ⟨off, ?_, within⟩
  rw [here]
  exact path

theorem tableOf_becomes {keep : Fin 256 → Nat → Prop} {ptr : Ptr} {file : File}
    (becomes : (mappedLedger limit).Becomes keep ptr file s s') : s'.tableOf slot = s.tableOf slot := by
  unfold State.tableOf
  rw [becomes.within.tabs]

theorem stored_garbage (variable_ : cfg.lenLen ≠ 0) (stored : (mappedLedger limit).StoredIn cfg slot rnd needed s s') :
    s'.GarbageWithin slot 5 := by
  rcases stored with ⟨file, file1, file2, file', _, _, _, maybe, becomes⟩
  apply garbageWithin_of_table becomes.at_.there (tableOf_becomes becomes)
  exact maybe.within variable_ Tab.fifth_of_not_shrinks

theorem found_garbage (variable_ : cfg.lenLen ≠ 0) (copies : what.Copies)
    (found : (mappedLedger limit).FoundIn cfg slot what retKeyFound s s') : s'.GarbageWithin slot 4 := by
  rcases found with ⟨file, file1, file', _, _, becomes, ⟨none_, _⟩ | ⟨ref, _, acts, _⟩⟩
  · cases none_
  · have maybe : MaybeShrunk (mappedLedger limit).sized cfg (file1.tab.tabDataUsed / 4 < file1.tab.tabDataFree) file1 file' := by
      cases what with
      | copyKey => exact acts
      | copyVal => exact acts
      | addr | atomAdd | delete | update => cases copies
    apply garbageWithin_of_table becomes.at_.there (tableOf_becomes becomes)
    exact maybe.within variable_ Nat.le_of_not_lt

theorem InUse.boundedGarbage {b : Bindings} (inUse : InUse cfg s b) (variable_ : cfg.isFixedKeyValLen = false)
    (lawful : (mappedLedger limit).Lawful s) : s.BoundedGarbage cfg := by
  have guarded (part : Section) (within : (runProcesses mapped cfg [part] s).peak < 2^32) :
      runProcesses mapped cfg [part] s = runProcesses mapped.guarded cfg [part] s :=
    inUse.runs_guarded (Config.linkable_variable variable_) (fun part _ => part.fits_variable variable_) within
  refine ⟨fun part val tls work within value => ?_, fun part uid what tls work copies within value => ?_⟩
  · rw [guarded part within] at value ⊢
    rcases lawful.section_ran value with ⟨limit, effect⟩
    rw [work] at effect ⊢
    rcases effect with ⟨_, stored⟩ | ⟨none_, _⟩
    · exact stored_garbage (Config.lenLen_ne_zero variable_) stored
    · cases none_
  · rw [guarded part within] at value ⊢
    rcases lawful.section_ran value with ⟨limit, effect⟩
    rw [work] at effect ⊢
    rcases effect with ⟨code, same, found⟩
    cases same
    exact found_garbage (Config.lenLen_ne_zero variable_) copies found

end Effects

section Clean

variable {cfg : Config} {limit : Nat} {s s' : State Disk} {slot : Slot} {what : FindKeyAnd} {rnd needed code : Nat}

def Tables.Clean (T : Tables) : Prop := ∀ win tab file, T.table win tab = some file → file.tab.tabDataFree = 0

theorem Tables.Clean.noGarbage (clean : s.map.tables.Clean) : s.NoGarbage := by
  intro win tab file path
  apply clean win tab
  change (s.map.path win tab).map _ = _
  rw [path]
  rfl

theorem Tables.Clean.becomes {win : Fin 256} {tab : Nat} {file : File} (clean : s.map.tables.Clean)
    (becomes : (mappedLedger limit).Becomes (only win tab) (.tab win tab) file s s') (none_ : file.tab.tabDataFree = 0) :
    s'.map.tables.Clean := by
  intro win' tab' file' there
  by_cases here : Ptr.tab win' tab' = .tab win tab
  · cases here
    have at_ : s'.map.tables.table win tab = some file := becomes.at_.there
    rw [at_] at there
    cases there
    exact none_
  · have same : s'.map.tables.table win' tab' = s.map.tables.table win' tab' := becomes.within.files _ here
    exact clean win' tab' file' (same.symm.trans there)

theorem Tables.Clean.opens {win : Fin 256} {tab : Nat} {file file1 : File} (clean : s.map.tables.Clean)
    (there : s.map.tables.table win tab = some file) (opens : (mappedLedger limit).Opens file file1) :
    file1.tab.tabDataFree = 0 := by
  rcases opens with ⟨tabSize, tabUsed, rfl⟩
  exact clean win tab file there

theorem Tables.Clean.stored (variable_ : cfg.lenLen ≠ 0) (clean : s.map.tables.Clean)
    (stored : (mappedLedger limit).StoredIn cfg slot rnd needed s s') : s'.map.tables.Clean := by
  rcases stored with ⟨file, file1, file2, file', there, opens, into, maybe, becomes⟩
  apply clean.becomes becomes
  apply maybe.none_ variable_
  rw [into.dataFree variable_]
  exact clean.opens there opens

theorem Tables.Clean.found (variable_ : cfg.lenLen ≠ 0) (clean : s.map.tables.Clean) (spares : what ≠ .delete)
    (found : (mappedLedger limit).FoundIn cfg slot what code s s') : s'.map.tables.Clean := by
  rcases found with ⟨file, file1, file', there, opens, becomes, effect⟩
  have clean1 := clean.opens there opens
  apply clean.becomes becomes
  rcases effect with ⟨_, rfl⟩ | ⟨ref, _, acts, _⟩
  · exact clean1
  · cases what with
    | copyKey => exact MaybeShrunk.none_ acts variable_ clean1
    | copyVal => exact MaybeShrunk.none_ acts variable_ clean1
    | delete => exact absurd rfl spares
    | addr | atomAdd | update =>
      rcases acts with ⟨data, rfl⟩
      exact clean1

theorem Tables.Clean.parted (variable_ : cfg.lenLen ≠ 0) (clean : s.map.tables.Clean)
    (parted : (mappedLedger limit).PartedIn cfg slot s s') : s'.map.tables.Clean := by
  rcases parted with ⟨file, file1, _, _, _, parted⟩
  generalize s.tableOf slot = tab at parted
  rcases parted.old with ⟨fileOld, thereOld, filledOld⟩
  rcases parted.new with ⟨fileNew, thereNew, filledNew⟩
  intro win' tab' file' there
  by_cases isOld : Ptr.tab win' tab' = .tab slot.win tab
  · cases isOld
    have same := thereOld.symm.trans there
    cases same
    exact filledOld.dataFree variable_
  · by_cases isNew : Ptr.tab win' tab' = .tab slot.win (s.shared.wins slot.win).tabsUsed
    · cases isNew
      have same := thereNew.symm.trans there
      cases same
      exact filledNew.dataFree variable_
    · have same : s'.map.tables.table win' tab' = s.map.tables.table win' tab' := parted.files _ isOld isNew
      exact clean win' tab' file' (same.symm.trans there)

theorem Tables.Clean.effect {tls : Tls} {work : Work} {result : Option Nat} (variable_ : cfg.lenLen ≠ 0)
    (clean : s.map.tables.Clean) (spares : ∀ uid, work ≠ .find uid .delete)
    (effect : (mappedLedger limit).Effect cfg tls work result s s') : s'.map.tables.Clean := by
  cases work with
  | put val =>
    rcases effect with ⟨_, stored⟩ | ⟨_, parted⟩
    · exact clean.stored variable_ stored
    · exact clean.parted variable_ parted
  | find uid what =>
    rcases effect with ⟨code, _, found⟩
    exact clean.found variable_ (fun same => spares uid (congrArg _ same)) found

theorem Tables.Clean.enter (clean : s.map.tables.Clean) (part : Section) : (part.enter Disk.switch s).map.tables.Clean := clean

theorem initial_clean (vfs : Nat → Nat) (tls : Tls) : (State.initial vfs tls).map.tables.Clean := by
  intro win tab file there
  rcases Option.map_eq_some_iff.mp there with ⟨off, _, rfl⟩
  rfl

/-- A run without deletes leaves no garbage. -/
theorem Attained.noGarbage {vfs : Nat → Nat} {tls : Tls} {sections : List Section}
    (attained : Attained cfg vfs tls sections s) (variable_ : cfg.isFixedKeyValLen = false)
    (spares : ∀ part ∈ sections, ∀ uid, part.work ≠ .find uid .delete) : s.NoGarbage := by
  have kept := @Attained.keeps _ _ _ _ _ (fun s => s.map.tables.Clean) attained (Config.linkable_variable variable_)
    (fun part _ => part.fits_variable variable_) (initial_clean vfs tls) ?_
  · exact kept.2.noGarbage
  · intro part member limit s result s' clean effect
    exact (clean.enter part).effect (Config.lenLen_ne_zero variable_) (spares part member) effect

end Clean

/-- Garbage is bounded after puts and copying lookups, and there is none without deletes. -/
theorem garbage_bounded (cfg : Config) (variable_ : cfg.isFixedKeyValLen = false) (vfs : Nat → Nat) (tls : Tls)
    (sections : List Section) (s : State Disk) (attained : Attained cfg vfs tls sections s) :
    s.BoundedGarbage cfg ∧ ((∀ part ∈ sections, ∀ uid, part.work ≠ .find uid .delete) → s.NoGarbage) := by
  have linkable := Config.linkable_variable variable_
  have fits : ∀ part ∈ sections, part.Fits cfg := fun part _ => part.fits_variable variable_
  rcases attained.inUse linkable fits with ⟨b, inUse⟩
  exact ⟨inUse.boundedGarbage variable_ (attained.lawful linkable fits), attained.noGarbage variable_⟩

theorem smallStored_garbage : smallStored.BoundedGarbage smallConfig ∧
    ((∀ part ∈ smallSections, ∀ uid, part.work ≠ .find uid .delete) → smallStored.NoGarbage) :=
  garbage_bounded smallConfig rfl (fun _ => 2^40) (smallTls []) smallSections smallStored smallStored_attained

end SharedHashFile.Store
