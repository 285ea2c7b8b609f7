import SharedHashFile.Store.LedgerCopies
import SharedHashFile.Store.PartSpec

namespace SharedHashFile.Store

open ByteMemory Program

attribute [local irreducible] allRefs halved

def Tab.usesIn (t : Tab) (tabs : Fin 2048 → Nat) (tab : Nat) (place : Fin 512 × Fin 16) : Bool :=
  t.uses place && tabs (t.row place.1 place.2).tab = tab

theorem Filled.congr {sized : Prop} {cfg : Config} {old old' : Tab} {goes goes' : Fin 512 × Fin 16 → Bool} {file : File}
    {done : List (Fin 512 × Fin 16)} (filled : Filled sized cfg old goes done file) (same : ∀ place, goes place = goes' place)
    (rows : ∀ row ref, goes (row, ref) = true → old.row row ref = old'.row row ref) :
    Filled sized cfg old' goes' done file := by
  have goes_eq : goes = goes' := funext same
  subst goes_eq
  refine ⟨fun {row ref} member going => ?_, filled.empty, filled.refsUsed, filled.dataFree, filled.fit⟩
  rw [← rows row ref going]
  exact filled.moved member going

namespace Ledger

variable {μ : Type} {m : Mapping μ} {limit : Nat} {b : Ledger m limit} {cfg : Config} {keep : Fin 256 → Nat → Prop}
  {file : File} {s s' : State μ} {win : Fin 256} {tabOld used : Nat} {tabs : Fin 2048 → Nat}

/-- A table and the redirections when a part of it may start. -/
structure Partable (b : Ledger m limit) (keep : Fin 256 → Nat → Prop) (win : Fin 256) (tabOld used : Nat) (tabs : Fin 2048 → Nat)
    (file : File) (s : State μ) : Prop where
  at_ : b.At keep (.tab win tabOld) file s
  none_ : (b.tables s.map).old = none
  tabs_eq : (s.shared.wins win).tabs = tabs
  used_eq : (s.shared.wins win).tabsUsed = used
  used_le : used ≤ 2048
  below : ∀ i, tabs i < used
  inUse : tabOld < used
  absent : (b.tables s.map).table win used = none
  refs : ∀ row ref, file.tab.uses (row, ref) = true → tabs (file.tab.row row ref).tab = tabOld

/-- The first part of `shf_tab_part`, up to the check that there is room for the table. -/
def partStart (m : Mapping μ) (win : Fin 256) (tabNew : Nat) : Operation μ Unit := do
  onMap (m.create win tabNew)
  onMap (m.getTabMmap win tabNew)
  modifyWin win fun w => { w with tabsParted := w.tabsParted + 1, tabsUsed := (w.tabsUsed + 1) % 2^32 }
  check (tabNew < 2048) .tabOverflow

theorem tabPartOr_eq (e : Stop) : tabPartOr m cfg e win tabOld = (do
    let w ← getWin win
    partStart m win (w.tabsUsed % 2^16)
    partRedirectsOr e win tabOld (w.tabsUsed % 2^16) (List.finRange 2048) false
    allRefs.forM fun place => partRefOr m cfg e win tabOld (w.tabsUsed % 2^16) place.1 place.2
    tabShrink m cfg win tabOld) := by
  unfold tabPartOr partStart
  simp only [bind_assoc]

structure Opened (b : Ledger m limit) (keep : Fin 256 → Nat → Prop) (win : Fin 256) (tabOld used : Nat) (tabs : Fin 2048 → Nat)
    (file : File) (s s' : State μ) : Prop where
  room : used < 2048
  old : b.At keep (.tab win tabOld) file s'
  new : ∃ tabSize tabUsed, b.At keep (.tab win used) (freshFile.headed tabSize tabUsed) s' ∧
    (b.sized → Fit (freshFile.headed tabSize tabUsed))
  files : ∀ ptr, ptr ≠ .tab win used → (b.tables s'.map).fileAt ptr = (b.tables s.map).fileAt ptr
  tabs_eq : (s'.shared.wins win).tabs = tabs
  used_eq : (s'.shared.wins win).tabsUsed = used + 1
  others : ∀ win', win' ≠ win → s'.shared.wins win' = s.shared.wins win'

theorem partStart_ends (parts : Partable b keep win tabOld used tabs file s) : Ends limit (partStart m win used)
    (fun _ => Opened b (also keep win used) win tabOld used tabs file s) (fun e _ => b.Stops cfg e) s := by
  have small := parts.used_le
  apply ends_bind
  apply ends_zoom
  apply (b.create_ends parts.at_.known parts.absent).mono _ fun _ _ => Stops.of_unsized
  rintro _ M1 ⟨known1, tables1⟩
  have there1 : (b.tables M1).table win used = some freshFile := by rw [tables1, Tables.set_table, if_pos ⟨rfl, rfl⟩]
  apply ends_bind
  apply ends_zoom
  apply (b.getTabMmap_ends known1 there1).mono _ fun _ _ => Stops.of_unsized
  rintro _ M2 ⟨known2, file2, opens, tables2⟩
  have fit2 (sized : b.sized) : Fit file2 := b.opens_fit sized opens (.inr rfl)
  rcases b.opens_headed opens with ⟨tabSize, tabUsed, rfl⟩
  have files2 (ptr : Ptr) (away : ptr ≠ .tab win used) : (b.tables M2).fileAt ptr = (b.tables s.map).fileAt ptr := by
    rw [tables2, tables1]
    change ((((b.tables s.map).setFile freshFile (.tab win used)).setFile _ (.tab win used)).fileAt ptr) = _
    rw [Tables.setFile_setFile, Tables.fileAt_setFile_of_ne _ away]
  have differ : Ptr.tab win tabOld ≠ .tab win used := fun same => Nat.ne_of_lt parts.inUse (Ptr.tab.inj same).2
  apply ends_after (modifyWin_run _ win _)
  apply ends_check
  · intro room
    refine ⟨room, ⟨known2, .inl parts.at_.seen, (files2 _ differ).trans parts.at_.there⟩,
      ⟨tabSize, tabUsed, ⟨known2, .inr ⟨rfl, rfl⟩, ?_⟩, fit2⟩, files2, ?_, ?_, fun win' away => ?_⟩
    · change (b.tables M2).table win used = _
      rw [tables2, Tables.set_table, if_pos ⟨rfl, rfl⟩]
    · rw [State.withWin_wins, if_pos rfl, ← parts.tabs_eq]
    · rw [State.withWin_wins, if_pos rfl]
      change ((s.shared.wins win).tabsUsed + 1) % 2^32 = _
      rw [parts.used_eq]
      omega
    · rw [State.withWin_wins, if_neg away]
  · exact fun _ => Stops.of_ne nofun

theorem Partable.redirected (parts : Partable b keep win tabOld used tabs file s) {row : Fin 512} {ref : Fin 16}
    (uses : file.tab.uses (row, ref) = true) : halved tabOld used tabs (file.tab.row row ref).tab = tabOld ∨
      halved tabOld used tabs (file.tab.row row ref).tab = used := by
  rcases halved_cases (file.tab.row row ref).tab with same | moved
  · exact .inl (same.trans (parts.refs row ref uses))
  · exact .inr moved.2

structure PartStep (b : Ledger m limit) (keep : Fin 256 → Nat → Prop) (win : Fin 256) (tabOld used : Nat)
    (tabs : Fin 2048 → Nat) (file fileNew fileOld : File) (row : Fin 512) (ref : Fin 16) (t : State μ) : Prop where
  new : b.At keep (.tab win used) fileNew t
  fit : b.sized → Fit fileNew
  old : b.At keep (.tab win tabOld) fileOld t
  same : fileOld.tab.row row ref = file.tab.row row ref
  tabs_eq : (t.shared.wins win).tabs = tabs
  small : used < 2048
  inUse : tabOld < used
  redirected : file.tab.uses (row, ref) = true → tabs (file.tab.row row ref).tab = tabOld ∨ tabs (file.tab.row row ref).tab = used

section PartSteps

variable {fileNew fileOld : File} {row : Fin 512} {ref : Fin 16} {t : State μ} {e e' : Stop}

theorem PartStep.assertions (step : PartStep b keep win tabOld used tabs file fileNew fileOld row ref t)
    (occupied : (fileOld.tab.row row ref).pos ≠ 0) :
    (t.shared.wins win).tabs (fileOld.tab.row row ref).tab < 2048 ∧
      ((t.shared.wins win).tabs (fileOld.tab.row row ref).tab = tabOld ∨
        (t.shared.wins win).tabs (fileOld.tab.row row ref).tab = used) := by
  have small := step.small
  have inUse := step.inUse
  rw [step.same] at occupied ⊢
  rw [step.tabs_eq]
  rcases step.redirected (decide_eq_true occupied) with old | new
  · exact ⟨by omega, .inl old⟩
  · exact ⟨by omega, .inr new⟩

theorem partRefOr_ends (step : PartStep b keep win tabOld used tabs file fileNew fileOld row ref t) :
    Ends limit (partRefOr m cfg e win tabOld used row ref) (fun _ t' =>
      if file.tab.usesIn tabs used (row, ref) = true then
        CopyOf b cfg keep (.tab win used) (.tab win tabOld) row ref fileNew fileOld t t'
      else b.Within keep (fun _ => False) t t') (fun e _ => b.Stops cfg e) t := by
  have away : Ptr.tab win tabOld ≠ .tab win used := fun same => Nat.ne_of_lt step.inUse (Ptr.tab.inj same).2
  apply ends_step (tabAt_ends step.old) fun _ _ => Stops.of_ne
  rintro _ t' ⟨rfl, rfl⟩
  apply ends_when
  · intro occupied
    rcases step.assertions occupied with ⟨small, redirected⟩
    have uses : file.tab.uses (row, ref) = true := by
      rw [step.same] at occupied
      exact decide_eq_true occupied
    apply ends_after (getWin_run t' win)
    apply ends_bind
    apply ends_check
    · intro _
      apply ends_bind
      apply ends_check
      · intro _
        rw [step.tabs_eq, step.same]
        apply ends_ite
        · intro here
          have going : file.tab.usesIn tabs used (row, ref) = true := by
            unfold Tab.usesIn
            rw [uses, Bool.true_and]
            exact decide_eq_true here
          simp only [if_pos going]
          apply ends_after (modifyWin_run t' win _)
          have counted := @Within.withWin _ _ _ b keep t' win (fun ptr => ptr = .tab win used ∨ ptr = .tab win tabOld)
            (fun w => { w with tabsPartedNew := w.tabsPartedNew + 1 }) step.new.known fun _ => ⟨rfl, rfl⟩
          have new1 : b.At keep (.tab win used) fileNew
            (t'.withWin win fun w => { w with tabsPartedNew := w.tabsPartedNew + 1 }) :=
              ⟨step.new.known, step.new.seen, step.new.there⟩
          have old1 : b.At keep (.tab win tabOld) fileOld
            (t'.withWin win fun w => { w with tabsPartedNew := w.tabsPartedNew + 1 }) :=
              ⟨step.old.known, step.old.seen, step.old.there⟩
          apply (tabRefCopy_ends new1 old1 away step.fit).mono _ fun _ _ stops => stops
          rintro _ t2 ⟨within, copied⟩
          exact ⟨counted.trans within, copied⟩
        · intro elsewhere
          have staying : ¬ file.tab.usesIn tabs used (row, ref) = true := by
            unfold Tab.usesIn
            rw [uses, Bool.true_and]
            exact fun going => elsewhere (of_decide_eq_true going)
          simp only [if_neg staying]
          exact ends_run (modifyWin_run t' win _) fun _ => Within.withWin step.new.known fun _ => ⟨rfl, rfl⟩
      · exact fun other => absurd redirected other
    · exact fun large => absurd small large
  · intro vacant
    have staying : ¬ file.tab.usesIn tabs used (row, ref) = true := by
      intro going
      rw [step.same] at vacant
      exact vacant (of_decide_eq_true (Bool.and_eq_true_iff.mp going).1)
    rw [if_neg staying]
    exact Within.refl step.new.known

theorem partRefOr_runsAs (step : PartStep b keep win tabOld used tabs file fileNew fileOld row ref t) :
    RunsAs limit (partRefOr m cfg e win tabOld used row ref) (partRefOr m cfg e' win tabOld used row ref) t := by
  apply runsAs_bind (runsAs_refl _ _)
  apply (tabAt_ends step.old).mono _ fun _ _ _ => trivial
  rintro _ t' ⟨rfl, rfl⟩
  apply runsAs_when
  intro occupied
  rcases step.assertions occupied with ⟨small, redirected⟩
  apply runsAs_bind (runsAs_refl _ _)
  apply ends_run (getWin_run t' win)
  intro _
  apply runsAs_bind (runsAs_check small e e')
  apply ends_check
  · intro _
    apply runsAs_bind (runsAs_check redirected e e')
    apply ends_check
    · exact fun _ => runsAs_refl _ _
    · exact fun _ => trivial
  · exact fun _ => trivial

end PartSteps

/-- What `shf_tab_part` leaves: two tables with the used refs of the one before, each with those redirected to it. -/
structure Parted (b : Ledger m limit) (cfg : Config) (win : Fin 256) (tabOld used : Nat) (tabs : Fin 2048 → Nat) (file : File)
    (s s' : State μ) : Prop where
  room : used < 2048
  known : b.Known (fun _ _ => False) s'.map
  old : ∃ file', (b.tables s'.map).table win tabOld = some file' ∧
    Filled b.sized cfg file.tab (file.tab.usesIn (halved tabOld used tabs) tabOld) allRefs file'
  new : ∃ file', (b.tables s'.map).table win used = some file' ∧
    Filled b.sized cfg file.tab (file.tab.usesIn (halved tabOld used tabs) used) allRefs file'
  files : ∀ ptr, ptr ≠ .tab win tabOld → ptr ≠ .tab win used →
    (b.tables s'.map).fileAt ptr = (b.tables s.map).fileAt ptr
  tabs_eq : (s'.shared.wins win).tabs = halved tabOld used tabs
  used_eq : (s'.shared.wins win).tabsUsed = used + 1
  others : ∀ win', win' ≠ win → (s'.shared.wins win').tabs = (s.shared.wins win').tabs ∧
    (s'.shared.wins win').tabsUsed = (s.shared.wins win').tabsUsed

section Parts

variable {e e' : Stop}

theorem Partable.step (parts : Partable b keep win tabOld used tabs file s) {s2 t : State μ} {fileNew fileOld : File}
    {row : Fin 512} {ref : Fin 16}
    (opened : Opened b (also keep win used) win tabOld used (halved tabOld used tabs) file s s2)
    (within : b.Within (also keep win used) (fun ptr => ptr = .tab win used ∨ ptr = .tab win tabOld) s2 t)
    (new : b.At (also keep win used) (.tab win used) fileNew t) (fit : b.sized → Fit fileNew)
    (old : b.At (also keep win used) (.tab win tabOld) fileOld t) (same : fileOld.tab.row row ref = file.tab.row row ref) :
    PartStep b (also keep win used) win tabOld used (halved tabOld used tabs) file fileNew fileOld row ref t :=
  ⟨new, fit, old, same, (within.tabs win).trans opened.tabs_eq, opened.room, parts.inUse, parts.redirected⟩

theorem Opened.loop {s2 : State μ} (opened : Opened b keep win tabOld used tabs file s s2) :
    CopyLoop b cfg keep (.tab win used) (.tab win tabOld) file.tab (file.tab.usesIn tabs used) s2 [] s2 := by
  rcases opened.new with ⟨tabSize, tabUsed, new, fit⟩
  exact ⟨Within.refl new.known, ⟨_, new, Filled.start fit⟩, file, opened.old,
    fun row ref => (if_neg fun before => nomatch before.1).symm⟩

theorem partLoop_ends {refs : List (Fin 512 × Fin 16)} {s2 : State μ} (distinct : refs.Nodup)
    (parts : Partable b keep win tabOld used tabs file s)
    (opened : Opened b (also keep win used) win tabOld used (halved tabOld used tabs) file s s2) :
    Ends limit (refs.forM fun place => partRefOr m cfg e win tabOld used place.1 place.2)
      (fun _ => CopyLoop b cfg (also keep win used) (.tab win used) (.tab win tabOld) file.tab
        (file.tab.usesIn (halved tabOld used tabs) used) s2 refs) (fun e _ => b.Stops cfg e) s2 :=
  copyLoop_ends distinct opened.loop fun within new fit old same => partRefOr_ends (parts.step opened within new fit old same)

theorem partLoop_runsAs {s2 : State μ} (parts : Partable b keep win tabOld used tabs file s)
    (opened : Opened b (also keep win used) win tabOld used (halved tabOld used tabs) file s s2) :
    RunsAs limit (allRefs.forM fun place => partRefOr m cfg e win tabOld used place.1 place.2)
      (allRefs.forM fun place => partRefOr m cfg e' win tabOld used place.1 place.2) s2 := by
  apply runsAs_forM (CopyLoop b cfg (also keep win used) (.tab win used) (.tab win tabOld) file.tab
    (file.tab.usesIn (halved tabOld used tabs) used) s2) _ opened.loop
  rintro done ⟨row, ref⟩ rest t whole loop
  have fresh := fresh_of_nodup allRefs_nodup whole
  constructor
  · rcases loop.new with ⟨fileNew, new, filled⟩
    rcases loop.old with ⟨fileOld, old, rows⟩
    have same : fileOld.tab.row row ref = file.tab.row row ref := by
      rw [rows, if_neg fun before => fresh before.1]
    exact partRefOr_runsAs (parts.step opened loop.within new filled.fit old same)
  · apply (loop.step fresh fun new fit old same => partRefOr_ends (e := e)
      (parts.step opened loop.within new fit old same)).mono _ fun _ _ _ => trivial
    exact fun _ _ after => after

theorem Partable.redirects (parts : Partable b keep win tabOld used tabs file s) {s1 : State μ}
    (opened : Opened b (also keep win used) win tabOld used tabs file s s1) : ∃ s2,
      (∀ e, partRedirectsOr e win tabOld used (List.finRange 2048) false s1 = ⟨.ok (), s2, 0⟩) ∧
      Opened b (also keep win used) win tabOld used (halved tabOld used tabs) file s s2 := by
  have below (i : Fin 2048) : (s1.shared.wins win).tabs i < used := by
    rw [opened.tabs_eq]
    exact parts.below i
  refine ⟨_, fun _ => partRedirectsOr_all below, opened.room, ?_, ?_, opened.files, ?_, ?_, fun win' away => ?_⟩
  · exact ⟨opened.old.known, opened.old.seen, opened.old.there⟩
  · rcases opened.new with ⟨tabSize, tabUsed, new, fit⟩
    exact ⟨tabSize, tabUsed, ⟨new.known, new.seen, new.there⟩, fit⟩
  · rw [State.withWin_wins, if_pos rfl, ← opened.tabs_eq]
  · rw [State.withWin_wins, if_pos rfl, ← opened.used_eq]
  · rw [State.withWin_wins, if_neg away, opened.others win' away]

theorem Partable.stays (parts : Partable b keep win tabOld used tabs file s) {row : Fin 512} {ref : Fin 16} :
    file.tab.usesIn (halved tabOld used tabs) tabOld (row, ref) =
      (file.tab.uses (row, ref) && !file.tab.usesIn (halved tabOld used tabs) used (row, ref)) := by
  have differ := Nat.ne_of_lt parts.inUse
  unfold Tab.usesIn
  cases uses : file.tab.uses (row, ref) with
  | false => rfl
  | true =>
    rcases parts.redirected uses with old | new
    · simp only [old, differ, decide_true, decide_false, Bool.true_and, Bool.not_false]
    · simp only [new, differ.symm, decide_true, decide_false, Bool.true_and, Bool.not_true]

theorem uses_after {goes : Fin 512 × Fin 16 → Bool} {fileOld : File} {old : Tab}
    (rows : ∀ row ref, fileOld.tab.row row ref =
      if (row, ref) ∈ allRefs ∧ goes (row, ref) = true then { old.row row ref with pos := 0 } else old.row row ref)
    (place : Fin 512 × Fin 16) : fileOld.tab.uses place = (old.uses place && !goes place) := by
  rcases place with ⟨row, ref⟩
  unfold Tab.uses
  rw [rows]
  cases going : goes (row, ref) with
  | true =>
    rw [if_pos ⟨mem_allRefs row ref, rfl⟩]
    simp only [ne_eq, not_true, decide_false, Bool.not_true, Bool.and_false]
  | false =>
    rw [if_neg fun both => Bool.false_ne_true both.2, Bool.not_false, Bool.and_true]

theorem tabPartOr_ends (parts : Partable b keep win tabOld used tabs file s) :
    Ends limit (tabPartOr m cfg e win tabOld) (fun _ => Parted b cfg win tabOld used tabs file s)
      (fun e _ => b.Stops cfg e) s := by
  have small := parts.used_le
  have differ : Ptr.tab win tabOld ≠ .tab win used := fun same => Nat.ne_of_lt parts.inUse (Ptr.tab.inj same).2
  rw [tabPartOr_eq]
  apply ends_after (getWin_run s win)
  rw [parts.used_eq, Nat.mod_eq_of_lt (show used < 2^16 by omega)]
  apply ends_step (partStart_ends parts) fun _ _ stops => stops
  intro _ s1 opened1
  rcases parts.redirects opened1 with ⟨s2, run, opened⟩
  generalize List.finRange 2048 = items at run ⊢
  apply ends_after (run e)
  apply ends_step (partLoop_ends allRefs_nodup parts opened) fun _ _ stops => stops
  intro _ s3 loop
  rcases loop.new with ⟨fileNew, new3, filled3⟩
  rcases loop.old with ⟨fileOld, old3, rows3⟩
  have none3 : (b.tables s3.map).old = none := by
    have first := loop.within.files .old (by rintro (same | same) <;> cases same)
    have second := opened.files .old nofun
    exact first.trans (second.trans parts.none_)
  apply (tabShrink_ends old3 none3).mono _ fun _ _ stops => stops
  rintro _ s4 ⟨within4, fileOld', old4, filled4⟩
  refine ⟨opened.room, b.forget within4.known fun _ _ => False.elim, ⟨fileOld', old4.there, ?_⟩,
    ⟨fileNew, (within4.files _ differ.symm).trans new3.there, filled3⟩, fun ptr awayOld awayNew => ?_, ?_, ?_, fun win' away => ?_⟩
  · apply filled4.congr
    · rintro ⟨row, ref⟩
      rw [uses_after rows3, parts.stays]
    · intro row ref uses
      rw [uses_after rows3, Bool.and_eq_true_iff, Bool.not_eq_true'] at uses
      rw [rows3, if_neg fun both => Bool.false_ne_true (uses.2.symm.trans both.2)]
  · have copies : ¬(ptr = .tab win used ∨ ptr = .tab win tabOld) := not_or.mpr ⟨awayNew, awayOld⟩
    exact (within4.files ptr awayOld).trans ((loop.within.files ptr copies).trans (opened.files ptr awayNew))
  · exact (within4.tabs win).trans ((loop.within.tabs win).trans opened.tabs_eq)
  · exact (within4.used win).trans ((loop.within.used win).trans opened.used_eq)
  · rw [within4.tabs, within4.used, loop.within.tabs, loop.within.used, opened.others win' away]
    exact ⟨rfl, rfl⟩

/-- The assertions in the loops of `shf_tab_part` hold. -/
theorem tabPartOr_runsAs (parts : Partable b keep win tabOld used tabs file s) :
    RunsAs limit (tabPartOr m cfg e win tabOld) (tabPartOr m cfg e' win tabOld) s := by
  have small := parts.used_le
  rw [tabPartOr_eq, tabPartOr_eq]
  apply runsAs_bind (runsAs_refl _ _)
  apply ends_run (getWin_run s win)
  intro _
  rw [parts.used_eq, Nat.mod_eq_of_lt (show used < 2^16 by omega)]
  apply runsAs_bind (runsAs_refl _ _)
  apply (@partStart_ends _ _ _ _ cfg _ _ _ _ _ _ _ parts).mono _ fun _ _ _ => trivial
  intro _ s1 opened1
  rcases parts.redirects opened1 with ⟨s2, run, opened⟩
  generalize List.finRange 2048 = items at run ⊢
  apply runsAs_bind
  · intro _
    rw [run e, run e']
  apply ends_run (run e)
  intro _
  apply runsAs_bind (partLoop_runsAs parts opened)
  apply (@partLoop_ends _ _ _ _ cfg _ _ _ _ _ _ _ _ _ _ allRefs_nodup parts opened).mono _ fun _ _ _ => trivial
  exact fun _ s3 _ => runsAs_refl _ s3

end Parts

end Ledger

end SharedHashFile.Store
