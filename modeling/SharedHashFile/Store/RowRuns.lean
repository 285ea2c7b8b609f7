import SharedHashFile.Store.ShrinkTrigger

namespace SharedHashFile.Store

open Program

def rowRefs (row : Fin 512) : List (Fin 512 × Fin 16) := (List.finRange 16).map fun ref => (row, ref)

/-- `shf_tab_shrink` of a table which has used refs in one row only. -/
def tabShrinkRow {μ : Type} (m : Mapping μ) (cfg : Config) (row : Fin 512) (win : Fin 256) (tab : Nat) : Operation μ Unit := do
  Ledger.shrinkStart m win tab
  (rowRefs row).forM (Ledger.shrinkRef m cfg win tab)
  onMap m.release

/-- `shf_tab_part` of such a table, which is the one before the new one's redirections are `redirects`. -/
def tabPartRow {μ : Type} (m : Mapping μ) (cfg : Config) (row : Fin 512) (win : Fin 256) (tabOld tabNew : Nat)
    (redirects : Fin 2048 → Nat) : Operation μ Unit := do
  Ledger.partStart m win tabNew
  modifyWin win fun w => { w with tabs := redirects }
  (rowRefs row).forM fun place => partRef m cfg win tabOld tabNew place.1 place.2
  tabShrinkRow m cfg row win tabOld

def Tab.OnlyRow (t : Tab) (row : Fin 512) : Prop := ∀ place, place.1 ≠ row → t.uses place = false

def Tables.OnlyRow (T : Tables) (row : Fin 512) : Prop := ∀ win tab file, T.table win tab = some file → file.tab.OnlyRow row

def Section.PutsIn (part : Section) (row : Fin 512) : Prop :=
  ∀ val, part.work = .put val → (part.tls.hash.slot 0).row = row

section Loops

variable {row : Fin 512}

theorem rowRefs_nodup : (rowRefs row).Nodup :=
  (List.nodup_finRange 16).map fun _ _ same => (Prod.mk.inj same).2

theorem allRefs_split (row : Fin 512) : ∃ before after, allRefs = before ++ (rowRefs row ++ after) ∧
    (∀ place ∈ before, place.1 ≠ row) ∧ ∀ place ∈ after, place.1 ≠ row := by
  obtain ⟨before, after, whole⟩ : ∃ before after, List.finRange 512 = before ++ row :: after := ⟨_, _, finRange_split row⟩
  have distinct := List.nodup_finRange 512
  rw [whole, List.nodup_append, List.nodup_cons] at distinct
  rcases distinct with ⟨_, ⟨notAfter, _⟩, apart⟩
  refine ⟨before.flatMap rowRefs, after.flatMap rowRefs, ?_, ?_, ?_⟩
  · change (List.finRange 512).flatMap rowRefs = _
    rw [whole, List.flatMap_append, List.flatMap_cons]
  · intro place member same
    rcases List.mem_flatMap.mp member with ⟨other, there, member⟩
    rcases List.mem_map.mp member with ⟨ref, _, rfl⟩
    exact apart other there row List.mem_cons_self same
  · intro place member same
    rcases List.mem_flatMap.mp member with ⟨other, there, member⟩
    rcases List.mem_map.mp member with ⟨ref, _, rfl⟩
    exact notAfter (same ▸ there)

attribute [local irreducible] allRefs

/-- A loop over all refs which does something at those of one row only. -/
theorem forM_row {σ : Type} {f : Fin 512 × Fin 16 → Program Stop σ Unit} {s : σ}
    (ended : ((rowRefs row).forM f s).value.isOk = true) (before : ∀ place, place.1 ≠ row → f place s = ⟨.ok (), s, 0⟩)
    (after : ∀ place, place.1 ≠ row → f place ((rowRefs row).forM f s).state = ⟨.ok (), ((rowRefs row).forM f s).state, 0⟩) :
    allRefs.forM f s = (rowRefs row).forM f s := by
  rcases allRefs_split row with ⟨first, last, whole, awayFirst, awayLast⟩
  rw [whole, forM_append, forM_append]
  rw [bind_ok (forM_skips fun place member => before place (awayFirst place member))]
  generalize run : (rowRefs row).forM f s = done at ended after ⊢
  rcases done with ⟨_ | _, t, n⟩
  · cases ended
  · have whole := bind_run (f := fun _ => last.forM f) run
      (forM_skips fun place member => after place (awayLast place member))
    rw [whole, Nat.max_zero]

end Loops

section Refs

variable {row : Fin 512} {file file' : File} {sized shrinks : Prop} {cfg : Config} {what : FindKeyAnd}

theorem RefsOf.onlyRow (refsOf : RefsOf file file') (only : file.tab.OnlyRow row) : file'.tab.OnlyRow row := by
  intro place away
  rw [Bool.eq_false_iff]
  intro uses
  have before := (refsOf place.1 place.2 uses).1
  exact Bool.false_ne_true ((only place away).symm.trans before)

theorem Filled.refsOf {goes : Fin 512 × Fin 16 → Bool} (filled : Filled sized cfg file.tab goes allRefs file')
    (some_ : ∀ place, goes place = true → file.tab.uses place = true) : RefsOf file file' := by
  intro row ref uses
  rcases goes_of_uses filled uses with ⟨going, same⟩
  exact ⟨some_ _ going, same⟩

theorem PutInto.onlyRow {slot : Slot} {rnd needed : Nat} (into : PutInto sized cfg slot rnd needed file file')
    (here : slot.row = row) (only : file.tab.OnlyRow row) : file'.tab.OnlyRow row := by
  rcases into.row_eq with ⟨ref, pos, _, row_eq, _⟩
  intro place away
  have elsewhere : ¬(place.1 = slot.row ∧ place.2 = ref) := fun both => away (both.1.trans here)
  have before := only place away
  unfold Tab.uses at before ⊢
  rw [row_eq, Tab.setRef_row, if_neg elsewhere]
  exact before

end Refs

section Effects

variable {μ : Type} {m : Mapping μ} {limit : Nat} {b : Ledger m limit} {cfg : Config} {s s' : State μ} {slot : Slot}
  {win : Fin 256} {tab : Nat} {row : Fin 512} {file file1 file' : File} {what : FindKeyAnd} {rnd needed code : Nat}

theorem opens_onlyRow (opens : b.Opens file file1) (only : file.tab.OnlyRow row) : file1.tab.OnlyRow row := by
  unfold Tab.OnlyRow at only ⊢
  rw [Ledger.opens_uses opens]
  exact only

theorem Tables.OnlyRow.becomes (only : (b.tables s.map).OnlyRow row)
    (becomes : b.Becomes (Store.only win tab) (.tab win tab) file' s s') (here : file'.tab.OnlyRow row) :
    (b.tables s'.map).OnlyRow row := by
  intro win' tab' other there
  by_cases this : Ptr.tab win' tab' = .tab win tab
  · cases this
    have at_ : (b.tables s'.map).table win tab = some file' := becomes.at_.there
    rw [at_] at there
    cases there
    exact here
  · have same : (b.tables s'.map).table win' tab' = (b.tables s.map).table win' tab' := becomes.within.files _ this
    exact only win' tab' other (same.symm.trans there)

theorem Tables.OnlyRow.stored (only : (b.tables s.map).OnlyRow row) (here : slot.row = row)
    (stored : b.StoredIn cfg slot rnd needed s s') : (b.tables s'.map).OnlyRow row := by
  rcases stored with ⟨file, file1, file2, file', there, opens, into, maybe, becomes⟩
  apply only.becomes becomes
  exact maybe.refsOf.onlyRow (into.onlyRow here (opens_onlyRow opens (only _ _ file there)))

theorem Tables.OnlyRow.found (only : (b.tables s.map).OnlyRow row) (found : b.FoundIn cfg slot what code s s') :
    (b.tables s'.map).OnlyRow row := by
  rcases found with ⟨file, file1, file', there, opens, becomes, effect⟩
  have only1 := opens_onlyRow opens (only _ _ file there)
  apply only.becomes becomes
  rcases effect with ⟨_, rfl⟩ | ⟨ref, _, acts, _⟩
  · exact only1
  · exact acts.refsOf.onlyRow only1

theorem Tables.OnlyRow.parted (only : (b.tables s.map).OnlyRow row) (parted : b.PartedIn cfg slot s s') :
    (b.tables s'.map).OnlyRow row := by
  rcases parted with ⟨file, file1, there, opens, _, parted⟩
  have only1 := opens_onlyRow opens (only _ _ file there)
  generalize s.tableOf slot = tab at parted
  rcases parted.old with ⟨fileOld, thereOld, filledOld⟩
  rcases parted.new with ⟨fileNew, thereNew, filledNew⟩
  have used {tabs : Fin 2048 → Nat} {tab : Nat} (place : Fin 512 × Fin 16) (uses : file1.tab.usesIn tabs tab place = true) :
      file1.tab.uses place = true := (Bool.and_eq_true_iff.mp uses).1
  intro win' tab' other found
  by_cases isOld : Ptr.tab win' tab' = .tab slot.win tab
  · cases isOld
    rw [thereOld] at found
    cases found
    exact (filledOld.refsOf used).onlyRow only1
  · by_cases isNew : Ptr.tab win' tab' = .tab slot.win (s.shared.wins slot.win).tabsUsed
    · cases isNew
      rw [thereNew] at found
      cases found
      exact (filledNew.refsOf used).onlyRow only1
    · have same : (b.tables s'.map).table win' tab' = (b.tables s.map).table win' tab' := parted.files _ isOld isNew
      exact only win' tab' other (same.symm.trans found)

theorem Tables.OnlyRow.effect {part : Section} {result : Option Nat} (only : (b.tables s.map).OnlyRow row)
    (puts : part.PutsIn row) (effect : b.Effect cfg part.tls part.work result s s') : (b.tables s'.map).OnlyRow row := by
  cases work : part.work with
  | put val =>
    rw [work] at effect
    rcases effect with ⟨_, stored⟩ | ⟨_, parted⟩
    · exact only.stored (puts val work) stored
    · exact only.parted parted
  | find uid what =>
    rw [work] at effect
    rcases effect with ⟨code, _, found⟩
    exact only.found found

end Effects

section Runs

variable {cfg : Config} {s : State Disk} {row : Fin 512}

theorem initial_onlyRow (vfs : Nat → Nat) (tls : Tls) : (State.initial vfs tls).map.tables.OnlyRow row := by
  intro win tab file there place _
  rcases Option.map_eq_some_iff.mp there with ⟨off, _, rfl⟩
  rfl

theorem guarded_onlyRow {vfs : Nat → Nat} {tls : Tls} {sections : List Section}
    (ended : (runProcesses mapped.guarded cfg sections (State.initial vfs tls)).value.isOk = true)
    (puts : ∀ part ∈ sections, part.PutsIn row) :
    (mappedLedger 0).Lawful (runProcesses mapped.guarded cfg sections (State.initial vfs tls)).state ∧
      (runProcesses mapped.guarded cfg sections (State.initial vfs tls)).state.map.tables.OnlyRow row := by
  apply guarded_keeps (I := fun s => s.map.tables.OnlyRow row) ended (initial_onlyRow vfs tls)
  · intro part member limit s result s' only effect
    exact Tables.OnlyRow.effect (b := mappedLedger limit) (s := part.enter Disk.switch s) only (puts part member) effect

end Runs

section Copies

attribute [local irreducible] allRefs

variable {cfg : Config} {win : Fin 256} {tab tabOld used : Nat} {row : Fin 512} {s : State Disk} {file : File}
  {keep : Fin 256 → Nat → Prop} {place : Fin 512 × Fin 16}

def State.Sees (s : State Disk) (ptr : Ptr) : Prop := ∃ view ∈ mapped.look s.map ptr, dataOffset ≤ view.reach

instance (s : State Disk) (ptr : Ptr) : Decidable (s.Sees ptr) := inferInstanceAs (Decidable (∃ _ ∈ mapped.look s.map ptr, _))

theorem tabAt_sees {ptr : Ptr} (sees : s.Sees ptr) (at_ : (mappedLedger (2^32)).At keep ptr file s) :
    tabAt mapped.guarded ptr s = ⟨.ok file.tab, s, 0⟩ := by
  rcases sees with ⟨view, looked, reaches⟩
  have same : view.tab = file.tab := Disk.Sound.look_tab at_.known at_.seen at_.there looked
  have viewed : viewAt mapped.guarded ptr s = ⟨.ok view, s, 0⟩ := by
    have looked : mapped.guarded.look s.map ptr = some view := looked
    simp only [viewAt, onMap, zoom, looked, if_pos reaches]
  rw [← same]
  exact bind_ok viewed

theorem shrinkRef_skips (sees : s.Sees .old) (old : (mappedLedger (2^32)).At keep .old file s) (only : file.tab.OnlyRow row)
    (away : place.1 ≠ row) : Ledger.shrinkRef mapped.guarded cfg win tab place s = ⟨.ok (), s, 0⟩ := by
  unfold Ledger.shrinkRef
  rw [bind_ok (tabAt_sees sees old), when_false]
  exact of_decide_eq_false (only place away)

theorem partRef_skips (sees : s.Sees (.tab win tabOld)) (old : (mappedLedger (2^32)).At keep (.tab win tabOld) file s)
    (only : file.tab.OnlyRow row) (away : place.1 ≠ row) :
    partRef mapped.guarded cfg win tabOld used place.1 place.2 s = ⟨.ok (), s, 0⟩ := by
  unfold partRef
  rw [bind_ok (tabAt_sees sees old), when_false]
  exact of_decide_eq_false (only place away)

theorem Ledger.CopyLoop.onlyRow {into from_ : Ptr} {goes : Fin 512 × Fin 16 → Bool} {s0 : State Disk}
    {done : List (Fin 512 × Fin 16)}
    (loop : Ledger.CopyLoop (mappedLedger (2^32)) cfg keep into from_ file.tab goes s0 done s) (only : file.tab.OnlyRow row) :
    ∃ fileOld, (mappedLedger (2^32)).At keep from_ fileOld s ∧ fileOld.tab.OnlyRow row := by
  rcases loop.old with ⟨fileOld, at_, rows⟩
  refine ⟨fileOld, at_, fun place away => ?_⟩
  have before := only place away
  unfold Tab.uses at before ⊢
  rw [rows]
  split
  · exact decide_eq_false fun used => used rfl
  · exact before

def ShrinksRow (cfg : Config) (row : Fin 512) (win : Fin 256) (tab : Nat) (s : State Disk) : Prop :=
  let started := Ledger.shrinkStart mapped.guarded win tab s
  let copies := (rowRefs row).forM (Ledger.shrinkRef mapped.guarded cfg win tab)
  started.peak < 2^32 ∧ started.state.Sees .old ∧ Completes (2^32) copies started.state ∧ (copies started.state).state.Sees .old

instance (cfg : Config) (row : Fin 512) (win : Fin 256) (tab : Nat) (s : State Disk) : Decidable (ShrinksRow cfg row win tab s) :=
  inferInstanceAs (Decidable (_ ∧ _ ∧ _ ∧ _))

theorem tabShrink_row (at_ : (mappedLedger (2^32)).At keep (.tab win tab) file s)
    (none_ : ((mappedLedger (2^32)).tables s.map).old = none) (only : file.tab.OnlyRow row)
    (runs : ShrinksRow cfg row win tab s) :
    tabShrink mapped.guarded cfg win tab s = tabShrinkRow mapped.guarded cfg row win tab s := by
  rcases runs with ⟨below, before, copies, after⟩
  rw [Ledger.tabShrink_parts, tabShrinkRow]
  apply bind_same
  intro _ started
  rcases Ends.ran (@Ledger.shrinkStart_ends _ _ _ _ cfg _ _ _ _ _ at_ none_) started below with
    ⟨_, ⟨tabSize, tabUsed, new, fit⟩, tabSize', tabUsed', old⟩
  generalize (Ledger.shrinkStart mapped.guarded win tab s).state = s1 at *
  have loop : Ledger.CopyLoop (mappedLedger (2^32)) cfg keep (.tab win tab) .old file.tab (Tab.uses file.tab) s1 [] s1 :=
    ⟨Ledger.Within.refl new.known, ⟨_, new, Filled.start fit⟩, _, old, fun row ref => (if_neg fun before => nomatch before.1).symm⟩
  rcases copies.ended with ⟨_, copied⟩
  rcases (Ends.ran (Ledger.shrinkLoop_ends rowRefs_nodup loop) copied copies.2).onlyRow only with ⟨file', at', only'⟩
  have cut : allRefs.forM (Ledger.shrinkRef mapped.guarded cfg win tab) s1 =
      (rowRefs row).forM (Ledger.shrinkRef mapped.guarded cfg win tab) s1 := by
    apply forM_row copies.1
    · exact fun place away => shrinkRef_skips before old only away
    · exact fun place away => shrinkRef_skips after at' only' away
  exact bind_first cut

def partStarted (win : Fin 256) (tabNew : Nat) (redirects : Fin 2048 → Nat) (s : State Disk) : State Disk :=
  (Ledger.partStart mapped.guarded win tabNew s).state.withWin win fun w => { w with tabs := redirects }

def PartsRow (cfg : Config) (row : Fin 512) (win : Fin 256) (tabOld tabNew : Nat) (redirects : Fin 2048 → Nat)
    (s : State Disk) : Prop :=
  let started := partStarted win tabNew redirects s
  let copies := (rowRefs row).forM fun place => partRef mapped.guarded cfg win tabOld tabNew place.1 place.2
  (Ledger.partStart mapped.guarded win tabNew s).peak < 2^32 ∧ started.Sees (.tab win tabOld) ∧
    Completes (2^32) copies started ∧ (copies started).state.Sees (.tab win tabOld) ∧
      ShrinksRow cfg row win tabOld (copies started).state

instance (cfg : Config) (row : Fin 512) (win : Fin 256) (tabOld tabNew : Nat) (redirects : Fin 2048 → Nat) (s : State Disk) :
    Decidable (PartsRow cfg row win tabOld tabNew redirects s) := inferInstanceAs (Decidable (_ ∧ _ ∧ _ ∧ _ ∧ _))

theorem tabPart_row {tabs redirects : Fin 2048 → Nat}
    (parts : Ledger.Partable (mappedLedger (2^32)) keep win tabOld used tabs file s) (only : file.tab.OnlyRow row)
    (halves : halved tabOld used tabs = redirects) (runs : PartsRow cfg row win tabOld used redirects s) :
    tabPart mapped.guarded cfg win tabOld s = tabPartRow mapped.guarded cfg row win tabOld used redirects s := by
  rcases runs with ⟨below, before, copies, after, shrinks⟩
  have small := parts.used_le
  have whole := @Ledger.tabPartOr_eq _ mapped.guarded cfg win tabOld .internal
  rw [tabPartOr_internal] at whole
  rw [whole, tabPartRow, bind_ok (getWin_run s win), parts.used_eq, Nat.mod_eq_of_lt (show used < 2^16 by omega)]
  apply bind_same
  intro _ started
  have opened1 := Ends.ran (@Ledger.partStart_ends _ _ _ _ cfg _ _ _ _ _ _ _ parts) started below
  unfold partStarted at before copies after shrinks
  generalize (Ledger.partStart mapped.guarded win used s).state = s1 at *
  have below1 (i : Fin 2048) : (s1.shared.wins win).tabs i < used := by
    rw [opened1.tabs_eq]
    exact parts.below i
  have repoints := @partRedirectsOr_all tabOld used _ .internal s1 win below1
  rcases parts.redirects opened1 with ⟨s2, run, opened⟩
  have state : s1.withWin win (fun w => { w with tabs := redirects }) = s2 := by
    have same : s2 = s1.withWin win fun w => { w with tabs := halved tabOld used w.tabs } :=
      congrArg Outcome.state ((run .internal).symm.trans repoints)
    rw [same]
    unfold State.withWin
    dsimp only
    rw [opened1.tabs_eq, halves]
  generalize List.finRange 2048 = items at run
  rw [bind_ok (run .internal), bind_ok (modifyWin_run s1 win _), state]
  rw [state] at before copies after shrinks
  have part (place : Fin 512 × Fin 16) : partRefOr mapped.guarded cfg .internal win tabOld used place.1 place.2 =
      partRef mapped.guarded cfg win tabOld used place.1 place.2 := rfl
  simp only [part]
  have loop := @Ledger.partLoop_ends _ _ (2^32) (mappedLedger _) cfg keep file s win tabOld used tabs .internal (rowRefs row) s2
    rowRefs_nodup parts opened
  simp only [part] at loop
  rcases copies.ended with ⟨_, copied⟩
  have looped := Ends.ran loop copied copies.2
  rcases looped.onlyRow only with ⟨file', at', only'⟩
  have cut : allRefs.forM (fun place => partRef mapped.guarded cfg win tabOld used place.1 place.2) s2 =
      (rowRefs row).forM (fun place => partRef mapped.guarded cfg win tabOld used place.1 place.2) s2 := by
    apply forM_row copies.1
    · exact fun place away => partRef_skips before opened.old only away
    · exact fun place away => partRef_skips after at' only' away
  refine (bind_first cut).trans (bind_same fun _ _ => ?_)
  have none_ : ((mappedLedger (2^32)).tables
      ((rowRefs row).forM (fun place => partRef mapped.guarded cfg win tabOld used place.1 place.2) s2).state.map).old = none := by
    have first := looped.within.files .old (by rintro (same | same) <;> cases same)
    have second := opened.files .old nofun
    exact first.trans (second.trans parts.none_)
  exact tabShrink_row at' none_ only' shrinks

end Copies

section Puts

attribute [local irreducible] allRefs

variable {cfg : Config} {s : State Disk} {part : Section} {val : PutVal} {row : Fin 512}

def storedBy (cfg : Config) (s : State Disk) (part : Section) (val : PutVal) : Outcome Stop (State Disk) (Option (Fin 16 × Tab)) :=
  storeRecord mapped.guarded cfg part.tls (s.tableOf (part.tls.hash.slot 0)) val (part.enter Disk.switch s)

def due : Except Stop (Option (Fin 16 × Tab)) → Bool
  | .ok (some (_, t)) => t.Shrinks
  | _ => false

def Section.ShrinksRow (cfg : Config) (row : Fin 512) (s : State Disk) (part : Section) (val : PutVal) : Prop :=
  let slot := part.tls.hash.slot 0
  let stored := storedBy cfg s part val
  stored.peak < 2^32 ∧ due stored.value = true ∧ Store.ShrinksRow cfg row slot.win (s.tableOf slot) stored.state ∧
    Completes (2^32) (tabShrinkRow mapped.guarded cfg row slot.win (s.tableOf slot)) stored.state

instance (cfg : Config) (row : Fin 512) (s : State Disk) (part : Section) (val : PutVal) :
    Decidable (part.ShrinksRow cfg row s val) := inferInstanceAs (Decidable (_ ∧ _ ∧ _ ∧ _))

def full : Except Stop (Option (Fin 16 × Tab)) → Bool
  | .ok none => true
  | _ => false

def Section.PartsRow (cfg : Config) (row : Fin 512) (redirects : Fin 2048 → Nat) (s : State Disk) (part : Section)
    (val : PutVal) : Prop :=
  let slot := part.tls.hash.slot 0
  let used := (s.shared.wins slot.win).tabsUsed
  let stored := storedBy cfg s part val
  stored.peak < 2^32 ∧ full stored.value = true ∧ Store.PartsRow cfg row slot.win (s.tableOf slot) used redirects stored.state ∧
    Completes (2^32) (tabPartRow mapped.guarded cfg row slot.win (s.tableOf slot) used redirects) stored.state

instance (cfg : Config) (row : Fin 512) (redirects : Fin 2048 → Nat) (s : State Disk) (part : Section) (val : PutVal) :
    Decidable (part.PartsRow cfg row redirects s val) := inferInstanceAs (Decidable (_ ∧ _ ∧ _ ∧ _))

theorem putSection_stored : putSection mapped.guarded cfg val (part.enter Disk.switch s) =
    (storeRecord mapped.guarded cfg part.tls (s.tableOf (part.tls.hash.slot 0)) val >>=
      afterStore mapped.guarded cfg part.tls (s.tableOf (part.tls.hash.slot 0))) (part.enter Disk.switch s) := by
  rw [putSection_parts, bind_ok (getTls_run _), bind_ok (getWin_run _ _)]
  rfl

/-- What a put does under the lock is what its section does. -/
theorem put_completes (work : part.work = .put val)
    (put : Completes (2^32) (putSection mapped.guarded cfg val) (part.enter Disk.switch s)) :
    Completes (2^32) (runProcesses mapped cfg [part]) s ∧ (runProcesses mapped cfg [part] s).state =
      (putSection mapped.guarded cfg val (part.enter Disk.switch s)).state := by
  have positive : 0 < 2^32 := by decide
  have guarded : Completes (2^32) (runProcesses mapped.guarded cfg [part]) s := by
    unfold Completes
    rw [runProcesses, runSections_entered, work]
    apply completes_bind
    · exact completes_bind put fun _ _ => completes_pure positive
    · intro _ _
      apply completes_bind ⟨rfl, positive⟩
      intro _ _
      exact completes_bind (completes_pure positive) fun _ _ => completes_pure positive
  have same := (runSections_follows mapped_lowest Disk.switch [part]).completes guarded
  refine ⟨?_, ?_⟩
  · unfold Completes
    rw [runProcesses, same]
    exact guarded
  · rw [runProcesses, same]
    exact put_state work

theorem shrinksRow_completes (lawful : (mappedLedger 0).Lawful s) (only : s.map.tables.OnlyRow row) (work : part.work = .put val)
    (here : (part.tls.hash.slot 0).row = row) (shrinks : part.ShrinksRow cfg row s val) :
    Completes (2^32) (runProcesses mapped cfg [part]) s := by
  have positive : 0 < 2^32 := by decide
  rcases shrinks with ⟨below, due_, runs, shrink⟩
  unfold storedBy at below due_ runs shrink
  have entered : (mappedLedger (2^32)).Lawful (part.enter Disk.switch s) := (lawful.limited (2^32)).enter part
  have stored := @storeRecord_ends _ mapped.guarded cfg part.tls val (2^32) (mappedLedger _) _ entered
  change Ends _ (storeRecord _ _ _ (s.tableOf (part.tls.hash.slot 0)) _) _ _ _ at stored
  refine (put_completes work ?_).1
  unfold Completes
  rw [putSection_stored]
  refine completes_bind ⟨?_, below⟩ fun found value => ?_
  · unfold due at due_
    split at due_
    · rename_i value
      rw [value]
      rfl
    · cases due_
  · rw [value] at due_
    rcases Ends.ran stored value below with ⟨file, file1, file', there, opens, into, becomes⟩
    cases found with
    | none => cases due_
    | some found =>
      rcases found with ⟨ref, t⟩
      rcases into with ⟨rfl, into⟩
      have cut : tabShrink mapped.guarded cfg (part.tls.hash.slot 0).win (s.tableOf (part.tls.hash.slot 0)) _ = _ :=
        tabShrink_row becomes.at_ (becomes.none_ entered.none_)
          (into.onlyRow here (opens_onlyRow opens (only _ _ file there))) runs
      unfold afterStore
      dsimp only
      apply completes_bind
      · rw [when, if_pos (of_decide_eq_true due_)]
        unfold Completes at shrink ⊢
        rw [cut]
        exact shrink
      · exact fun _ _ => completes_bind ⟨rfl, positive⟩ fun _ _ => completes_pure positive

theorem partsRow_completes {redirects : Fin 2048 → Nat} (lawful : (mappedLedger 0).Lawful s) (only : s.map.tables.OnlyRow row)
    (work : part.work = .put val) (halves : halved (s.tableOf (part.tls.hash.slot 0))
      (s.shared.wins (part.tls.hash.slot 0).win).tabsUsed (s.shared.wins (part.tls.hash.slot 0).win).tabs = redirects)
    (parts : part.PartsRow cfg row redirects s val) :
    Completes (2^32) (runProcesses mapped cfg [part]) s ∧ (runProcesses mapped cfg [part] s).state =
      (tabPartRow mapped.guarded cfg row (part.tls.hash.slot 0).win (s.tableOf (part.tls.hash.slot 0))
        (s.shared.wins (part.tls.hash.slot 0).win).tabsUsed redirects (storedBy cfg s part val).state).state := by
  have positive : 0 < 2^32 := by decide
  rcases parts with ⟨below, full_, runs, part_⟩
  unfold storedBy at *
  have entered : (mappedLedger (2^32)).Lawful (part.enter Disk.switch s) := (lawful.limited (2^32)).enter part
  have stored := @storeRecord_ends _ mapped.guarded cfg part.tls val (2^32) (mappedLedger _) _ entered
  change Ends _ (storeRecord _ _ _ (s.tableOf (part.tls.hash.slot 0)) _) _ _ _ at stored
  have value : (storeRecord mapped.guarded cfg part.tls (s.tableOf (part.tls.hash.slot 0)) val
      (part.enter Disk.switch s)).value = .ok none := by
    unfold full at full_
    split at full_
    · assumption
    · cases full_
  rcases Ends.ran stored value below with ⟨file, file1, file', there, opens, into, becomes⟩
  cases into
  have cut : tabPart mapped.guarded cfg (part.tls.hash.slot 0).win (s.tableOf (part.tls.hash.slot 0)) _ = _ :=
    tabPart_row (entered.partable there opens becomes) (opens_onlyRow opens (only _ _ file there)) halves runs
  have put : Completes (2^32) (putSection mapped.guarded cfg val) (part.enter Disk.switch s) := by
    unfold Completes
    rw [putSection_stored]
    refine completes_bind ⟨congrArg Except.isOk value, below⟩ fun found value' => ?_
    rw [value] at value'
    cases value'
    refine completes_bind ?_ fun _ _ => completes_pure positive
    unfold Completes at part_ ⊢
    rw [cut]
    exact part_
  rcases put_completes work put with ⟨completes, state⟩
  refine ⟨completes, state.trans ?_⟩
  rw [putSection_stored, (bind_ended value).2]
  exact (state_before fun _ _ => rfl).trans (congrArg Outcome.state cut)

end Puts

end SharedHashFile.Store
