import SharedHashFile.Store.Simulation

namespace SharedHashFile.Store

open ByteMemory Program

section Tables

variable {m : Mapping Disk} {cfg : Config} {keep : Fin 256 → Nat → Prop} {L : Layout} {s : State Disk}
  {t : State Tables} {win : Fin 256} {tab : Nat} {key : List UInt8} {val : PutVal}

section Append

variable (faithful : Faithful m) (tracks : Tracks keep L s t) (known : Known keep (.tab win tab))
include faithful tracks known

theorem reuseDeleted_simulates {pos : Nat} :
    Simulates sizeLimit (reuseDeleted m cfg win tab key val pos) (reuseDeleted direct cfg win tab key val pos)
      (fun _ => Tracks keep L) s t := by
  refine simulates_bind (readU32_simulates faithful tracks known) fun next s t tracks => ?_
  refine simulates_bind (modifyTab_simulates faithful tracks known fun _ => rfl) fun _ s t tracks => ?_
  refine simulates_bind (writeMem_simulates faithful tracks known) fun _ s t tracks => ?_
  refine simulates_bind (writeMem_simulates faithful tracks known) fun _ s t tracks => ?_
  refine simulates_bind (writeVal_simulates faithful tracks known) fun _ s t tracks => ?_
  exact modifyTab_simulates faithful tracks known fun _ => rfl

theorem growTab_simulates {dataNeeded : Nat} (needed : dataNeeded < 2^32) :
    Simulates sizeLimit (growTab m cfg win tab dataNeeded) (growTab direct cfg win tab dataNeeded)
      (fun _ => Tracks keep L) s t := by
  refine simulates_bind (tabAt_simulates faithful tracks known) ?_
  rintro view _ _ ⟨rfl, rfl, _, seen, rfl⟩
  have good := tracks.coherent.look_good known seen
  refine simulates_bind (vfsAvailable_simulates tracks) fun vfs s t tracks => ?_
  refine simulates_bind (check_simulates tracks) ?_
  rintro _ s t ⟨tracks, _⟩
  refine simulates_bind (ask_simulates tracks) ?_
  rintro _ s t ⟨tracks, below⟩
  exact grow_simulates faithful tracks known (grown_good good needed cfg.dataNeededFactor_lt below).1

theorem appendRecord_simulates {dataNeeded : Nat} :
    Simulates sizeLimit (appendRecord m cfg win tab key val dataNeeded)
      (appendRecord direct cfg win tab key val dataNeeded) (fun _ => Tracks keep L) s t := by
  refine simulates_bind (tabAt_simulates faithful tracks known) ?_
  rintro tab' _ _ ⟨rfl, rfl, _⟩
  refine simulates_bind (check_simulates tracks) ?_
  rintro _ s t ⟨tracks, _⟩
  refine simulates_bind (check_simulates tracks) ?_
  rintro _ s t ⟨tracks, _⟩
  refine simulates_bind (writeMem_simulates faithful tracks known) fun _ s t tracks => ?_
  refine simulates_bind (when_simulates tracks fun _ => ?_) fun _ s t tracks => ?_
  · refine simulates_bind (writeMem_simulates faithful tracks known) fun _ s t tracks => ?_
    exact writeMem_simulates faithful tracks known
  refine simulates_bind (writeMem_simulates faithful tracks known) fun _ s t tracks => ?_
  refine simulates_bind (writeVal_simulates faithful tracks known) fun _ s t tracks => ?_
  exact modifyTab_simulates faithful tracks known fun _ => rfl

theorem reuseOrAppend_simulates {pos dataNeeded : Nat} {tab' : Tab} (needed : dataNeeded < 2^32) :
    Simulates sizeLimit (reuseOrAppend m cfg win tab key val pos dataNeeded tab')
      (reuseOrAppend direct cfg win tab key val pos dataNeeded tab') (fun _ => Tracks keep L) s t := by
  refine simulates_ite (fun _ => ?_) fun _ => ?_
  · refine simulates_bind (reuseDeleted_simulates faithful tracks known) fun _ s t tracks => ?_
    exact simulates_pure tracks
  · refine simulates_bind (ask_simulates tracks) ?_
    rintro _ s t ⟨tracks, _⟩
    refine simulates_bind (when_simulates tracks fun _ => growTab_simulates faithful tracks known needed)
      fun _ s t tracks => ?_
    refine simulates_bind (appendRecord_simulates faithful tracks known) fun _ s t tracks => ?_
    exact simulates_pure tracks

theorem tabAppend_simulates {pos : Nat} :
    Simulates sizeLimit (tabAppend m cfg win tab key val pos) (tabAppend direct cfg win tab key val pos)
      (fun _ => Tracks keep L) s t := by
  refine simulates_bind (ask_simulates tracks) ?_
  rintro _ s t ⟨tracks, below⟩
  refine simulates_bind (tabAt_simulates faithful tracks known) ?_
  rintro tab' _ _ ⟨rfl, rfl, _⟩
  refine simulates_bind (reuseOrAppend_simulates faithful tracks known below) fun newPos s t tracks => ?_
  refine simulates_bind (modifyTab_simulates faithful tracks known fun _ => rfl) fun _ s t tracks => ?_
  exact simulates_pure tracks

end Append

section Copy

variable {ptr : Ptr} {row : Fin 512} {ref : Fin 16} (faithful : Faithful m) (tracks : Tracks keep L s t)
  (known : Known keep ptr)
include faithful tracks known

theorem tabRefMarkAsDeleted_simulates {keyLen valLen : Nat} :
    Simulates sizeLimit (tabRefMarkAsDeleted m cfg ptr row ref keyLen valLen)
      (tabRefMarkAsDeleted direct cfg ptr row ref keyLen valLen) (fun _ => Tracks keep L) s t := by
  refine simulates_bind (tabAt_simulates faithful tracks known) ?_
  rintro tab' _ _ ⟨rfl, rfl, _⟩
  refine simulates_bind (writeMem_simulates faithful tracks known) fun _ s t tracks => ?_
  refine simulates_bind (when_simulates tracks fun _ => writeMem_simulates faithful tracks known)
    fun _ s t tracks => ?_
  refine simulates_bind (when_simulates tracks fun _ => ?_) fun _ s t tracks => ?_
  · refine simulates_bind (writeMem_simulates faithful tracks known) fun _ s t tracks => ?_
    exact modifyTab_simulates faithful tracks known fun _ => rfl
  exact modifyTab_simulates faithful tracks known fun _ => rfl

theorem recordLens_simulates {pos : Nat} : Simulates sizeLimit (recordLens m cfg ptr pos)
    (recordLens direct cfg ptr pos) (fun _ => Tracks keep L) s t := by
  refine simulates_ite (fun _ => simulates_pure tracks) fun _ => ?_
  refine simulates_bind (readU32_simulates faithful tracks known) fun keyLen s t tracks => ?_
  refine simulates_bind (readU32_simulates faithful tracks known) fun valLen s t tracks => ?_
  exact simulates_pure tracks

theorem tabRefCopy_simulates (new : Known keep (.tab win tab)) :
    Simulates sizeLimit (tabRefCopy m cfg win tab ptr row ref) (tabRefCopy direct cfg win tab ptr row ref)
      (fun _ => Tracks keep L) s t := by
  refine simulates_bind (tabAt_simulates faithful tracks new) ?_
  rintro tNew _ _ ⟨rfl, rfl, _⟩
  refine simulates_bind (tabAt_simulates faithful tracks known) ?_
  rintro tOld _ _ ⟨rfl, rfl, _⟩
  refine simulates_bind (recordLens_simulates faithful tracks known) ?_
  rintro ⟨keyLen, valLen⟩ s t tracks
  refine simulates_bind (readMem_simulates faithful tracks known) fun key s t tracks => ?_
  refine simulates_bind (readMem_simulates faithful tracks known) fun val s t tracks => ?_
  refine simulates_bind (tabAppend_simulates faithful tracks new) fun newPos s t tracks => ?_
  refine simulates_bind (tabRefMarkAsDeleted_simulates faithful tracks known) fun _ s t tracks => ?_
  exact modifyTab_simulates faithful tracks new fun _ => rfl

end Copy

theorem tabShrink_simulates (faithful : Faithful m) (tracks : Tracks keep L s t) (known : Known keep (.tab win tab))
    (none_ : L.old = false) : Simulates sizeLimit (tabShrink m cfg win tab) (tabShrink direct cfg win tab)
      (fun _ => Tracks keep L) s t := by
  refine simulates_bind (modifyWin_simulates tracks (fun _ => rfl) fun _ => rfl) fun _ s t tracks => ?_
  refine simulates_bind (getTabMmap_simulates faithful tracks (tracks.present known)) fun _ s t tracks => ?_
  refine simulates_bind (replace_simulates faithful tracks (.inl known) none_) fun _ s t tracks => ?_
  refine simulates_bind (simulates_forM (Tracks (also keep win tab) { L with old := true })
    (fun _ s t tracks => ?_) tracks) fun _ s t tracks => ?_
  · have known' : Known (also keep win tab) .old := trivial
    refine simulates_bind (tabAt_simulates faithful tracks known') ?_
    rintro tOld _ _ ⟨rfl, rfl, _⟩
    exact when_simulates tracks fun _ => tabRefCopy_simulates faithful tracks known' (.inl known)
  · refine (release_simulates faithful tracks rfl).mono fun _ _ _ tracks => ?_
    rw [← none_] at tracks
    exact tracks.forget fun _ _ => .inl

section Part

variable {tabOld tabNew : Nat}

structure Reparted (win : Fin 256) (tabNew : Nat) (L L' : Layout) : Prop where
  used : L'.used = L.used
  present : L'.present = L.present
  old : L'.old = L.old
  elsewhere : ∀ win', win' ≠ win → L'.tabs win' = L.tabs win'
  here : ∀ tab2, L'.tabs win tab2 = L.tabs win tab2 ∨ L'.tabs win tab2 = tabNew

def Layout.repointing (L : Layout) (win : Fin 256) (tab2 : Fin 2048) (tab : Nat) : Layout :=
  { L with tabs := Function.update L.tabs win (Function.update (L.tabs win) tab2 tab) }

theorem repoint_simulates {tab2 : Fin 2048} (tracks : Tracks keep L s t) :
    Simulates sizeLimit (modifyWin win fun w => { w with tabs := Function.update w.tabs tab2 tab })
      (modifyWin win fun w => { w with tabs := Function.update w.tabs tab2 tab })
      (fun _ => Tracks keep (L.repointing win tab2 tab)) s t := by
  refine onShared_simulates tracks.shared fun _ _ => ⟨rfl, tracks.coherent, tracks.tables, ?_⟩
  rw [← tracks.layout]
  unfold layout Layout.repointing Program.modify
  simp only [Layout.mk.injEq, and_true]
  refine ⟨funext fun win' => ?_, funext fun win' => ?_⟩
  · rw [Function.update_apply, Function.update_apply]
    split
    · rfl
    · rfl
  · rw [Function.update_apply]
    split
    · rename_i here
      rw [here]
    · rfl

theorem Reparted.repointing {tab2 : Fin 2048} {L' : Layout} (reparted : Reparted win tabNew L L')
    (goal : tab = L.tabs win tab2 ∨ tab = tabNew) :
    Reparted win tabNew L (L'.repointing win tab2 tab) := by
  refine ⟨reparted.used, reparted.present, reparted.old, fun win' away => ?_, fun tab2' => ?_⟩
  · exact (Function.update_of_ne away _ _).trans (reparted.elsewhere win' away)
  · simp only [Layout.repointing, Function.update_self]
    rw [Function.update_apply]
    split
    · rename_i here
      rw [here]
      exact goal
    · exact reparted.here tab2'

theorem partRedirects_simulates {redirects : List (Fin 2048)} {tabSwitch : Bool} {L' : Layout}
    (tracks : Tracks keep L' s t) (reparted : Reparted win tabNew L L') (away : tabNew ≠ tabOld) :
    Simulates sizeLimit (partRedirects win tabOld tabNew redirects tabSwitch)
      (partRedirects win tabOld tabNew redirects tabSwitch)
      (fun _ s t => ∃ L', Tracks keep L' s t ∧ Reparted win tabNew L L') s t := by
  induction redirects generalizing s t tabSwitch L' with
  | nil => exact simulates_pure ⟨L', tracks, reparted⟩
  | cons tab2 rest ih =>
    refine simulates_bind (getWin_simulates tracks) ?_
    rintro w s t ⟨tracks, tabs, _⟩
    refine simulates_bind (check_simulates tracks) ?_
    rintro _ s t ⟨tracks, _⟩
    refine simulates_ite (fun here => ?_) fun _ => ih tracks reparted
    refine simulates_bind (repoint_simulates tracks) fun _ s t tracks => ih tracks (reparted.repointing ?_)
    split
    · exact .inr rfl
    · rw [tabs] at here
      rw [← here]
      exact .inl ((reparted.here tab2).resolve_right fun new => away (new.symm.trans here))

theorem partRef_simulates {row : Fin 512} {ref : Fin 16} (faithful : Faithful m) (tracks : Tracks keep L s t)
    (known : Known keep (.tab win tabOld)) (new : Known keep (.tab win tabNew)) :
    Simulates sizeLimit (partRef m cfg win tabOld tabNew row ref)
      (partRef direct cfg win tabOld tabNew row ref) (fun _ => Tracks keep L) s t := by
  refine simulates_bind (tabAt_simulates faithful tracks known) ?_
  rintro tOld _ _ ⟨rfl, rfl, _⟩
  refine when_simulates tracks fun _ => ?_
  refine simulates_bind (getWin_simulates tracks) ?_
  rintro w s t ⟨tracks, _, _⟩
  refine simulates_bind (check_simulates tracks) ?_
  rintro _ s t ⟨tracks, _⟩
  refine simulates_bind (check_simulates tracks) ?_
  rintro _ s t ⟨tracks, _⟩
  refine simulates_ite (fun _ => ?_) fun _ => modifyWin_simulates tracks (fun _ => rfl) fun _ => rfl
  refine simulates_bind (modifyWin_simulates tracks (fun _ => rfl) fun _ => rfl) fun _ s t tracks => ?_
  exact tabRefCopy_simulates faithful tracks known new

def Layout.numbering (L : Layout) (win : Fin 256) (used : Nat) : Layout :=
  { L with used := Function.update L.used win used }

theorem countTab_simulates {f : Win → Win} {used : Nat} (tracks : Tracks keep L s t)
    (tabs : ∀ w, (f w).tabs = w.tabs) (counted : (f (t.shared.wins win)).tabsUsed = used) :
    Simulates sizeLimit (modifyWin win f) (modifyWin win f) (fun _ => Tracks keep (L.numbering win used)) s t := by
  refine onShared_simulates tracks.shared fun _ _ => ⟨rfl, tracks.coherent, tracks.tables, ?_⟩
  rw [← tracks.layout]
  unfold layout Layout.numbering Program.modify
  simp only [Layout.mk.injEq, and_true]
  refine ⟨funext fun win' => ?_, funext fun win' => ?_⟩
  · rw [Function.update_apply]
    split
    · rename_i here
      rw [here, tabs]
    · rfl
  · rw [Function.update_apply, Function.update_apply]
    split
    · exact counted
    · rfl

theorem Layout.Numbered.parted {L' : Layout} (numbered : L.Numbered) (room : L.used win < 2048)
    (reparted : Reparted win (L.used win) ((L.adding win (L.used win)).numbering win (L.used win + 1)) L') :
    L'.Numbered := by
  have used (win' : Fin 256) : L'.used win' = if win' = win then L.used win + 1 else L.used win' := by
    rw [reparted.used]
    exact Function.update_apply _ _ _ _
  refine ⟨fun win' => ?_, fun win' tab2 => ?_, fun win' tab => ?_⟩
  · rw [used]
    split
    · exact room
    · exact numbered.used_le win'
  · rw [used]
    split
    · rename_i here
      subst here
      rcases reparted.here tab2 with same | new
      · have below := numbered.tabs_lt win' tab2
        rw [same]
        exact Nat.lt_succ_of_lt below
      · omega
    · rename_i away
      rw [reparted.elsewhere win' away]
      exact numbered.tabs_lt win' tab2
  · rw [used, reparted.present]
    change (if win' = win ∧ tab = L.used win then true else L.present win' tab) = true ↔ _
    have before := numbered.present_iff win' tab
    by_cases here : win' = win
    · subst here
      by_cases new : tab = L.used win' <;> simp [new]
      rw [before]
      omega
    · simp [here, before]

/-- What a part does from where its new table is counted, if there is none left. -/
theorem overflow_run {μ : Type} {s : State μ} {tabNew : Nat} (full : ¬ tabNew < 2048) (f : Win → Win)
    (rest : Unit → Operation μ Unit) : ∃ s', (modifyWin win f >>= fun _ => check (tabNew < 2048) .tabOverflow >>= rest) s =
      ⟨.error .tabOverflow, s', 0⟩ := by
  obtain ⟨s', counted⟩ : ∃ s', modifyWin win f s = ⟨.ok (), s', 0⟩ := ⟨_, rfl⟩
  exact ⟨s', (bind_ok counted).trans (bind_error (check_false full _ _))⟩

/-- Where there is no table left, a part ends the process. -/
theorem tabPart_overflows {μ : Type} {m : Mapping μ} {s : State μ} {M : μ} (new : (s.shared.wins win).tabsUsed % 2^16 = tabNew)
    (full : ¬ tabNew < 2048) (create : m.create win tabNew s.map = ⟨.ok (), M, 0⟩)
    (getTabMmap : ∃ M', m.getTabMmap win tabNew M = ⟨.ok (), M', 0⟩ ∨
      m.getTabMmap win tabNew M = ⟨.error .tabOverflow, M', 0⟩) :
    ∃ s', tabPart m cfg win tabOld s = ⟨.error .tabOverflow, s', 0⟩ := by
  have first : getWin win s = ⟨.ok (s.shared.wins win), s, 0⟩ := rfl
  subst new
  rw [tabPart, bind_ok first, bind_ok (onMap_run create)]
  generalize List.finRange 2048 = tabs
  rcases getTabMmap with ⟨M', mapped | stopped⟩
  · rw [bind_ok (onMap_run mapped)]
    exact overflow_run full _ _
  · exact ⟨_, bind_error (onMap_stop stopped)⟩

theorem tabPart_simulates (faithful : Faithful m) (tracks : Tracks keep L s t) (numbered : L.Numbered)
    (none_ : L.old = false) (known : Known keep (.tab win tabOld)) :
    Simulates sizeLimit (tabPart m cfg win tabOld) (tabPart direct cfg win tabOld)
      (fun _ s t => ∃ L', Tracks keep L' s t ∧ L'.Numbered ∧ L'.old = false) s t := by
  have used_le := numbered.used_le win
  have oldUsed : tabOld < L.used win := (numbered.present_iff win tabOld).mp (tracks.present known)
  have absent : L.present win (L.used win) = false := by
    rw [Bool.eq_false_iff]
    intro present
    exact Nat.lt_irrefl _ ((numbered.present_iff win _).mp present)
  by_cases full : L.used win = 2048
  · have used : (t.shared.wins win).tabsUsed % 2^16 = 2048 := by
      have same : (t.shared.wins win).tabsUsed = L.used win := congrFun (congrArg Layout.used tracks.layout) win
      omega
    rw [full] at absent
    have path := tracks.no_path absent
    have created := (congrFun (congrFun (congrFun faithful.create win) 2048) s.map).trans (Disk.create_run path)
    rcases tabPart_overflows (tracks.shared ▸ used) (Nat.lt_irrefl _) created (faithful.beyond tracks.coherent)
      with ⟨s', run⟩
    have created' : direct.create win 2048 t.map = _ := Tables.create_run win 2048 t.map
    rcases tabPart_overflows used (Nat.lt_irrefl _) created'
      ⟨_, .inl (Tables.getTabMmap_run (Tables.set_table_self t.map win 2048 _))⟩ with ⟨t', run'⟩
    exact simulates_stopped run run'
  refine simulates_bind (getWin_simulates tracks) ?_
  rintro w s t ⟨tracks, _, used⟩
  have small : w.tabsUsed % 2^16 = L.used win := by rw [used]; exact Nat.mod_eq_of_lt (by omega)
  simp only [small]
  refine simulates_bind (create_simulates faithful tracks absent (by omega)) fun _ s t tracks => ?_
  refine simulates_bind (getTabMmap_simulates faithful tracks (if_pos ⟨rfl, rfl⟩)) fun _ s t tracks => ?_
  have count : (t.shared.wins win).tabsUsed = L.used win := congrFun (congrArg Layout.used tracks.layout) win
  refine simulates_bind (@countTab_simulates _ _ s t win
    (fun w => { w with tabsParted := w.tabsParted + 1, tabsUsed := (w.tabsUsed + 1) % 2^32 })
    (L.used win + 1) tracks (fun _ => rfl) ?_) fun _ s t tracks => ?_
  · change ((t.shared.wins win).tabsUsed + 1) % 2^32 = _
    rw [count]
    exact Nat.mod_eq_of_lt (by omega)
  refine simulates_bind (check_simulates tracks) ?_
  rintro _ s t ⟨tracks, room⟩
  refine simulates_bind (partRedirects_simulates tracks ⟨rfl, rfl, rfl, fun _ _ => rfl, fun _ => .inl rfl⟩
    (by omega)) ?_
  rintro _ s t ⟨L', tracks, reparted⟩
  have none' : L'.old = false := reparted.old.trans none_
  refine simulates_bind (simulates_forM (Tracks (also keep win (L.used win)) L') (fun _ s t tracks =>
    partRef_simulates faithful tracks (.inl known) (.inr ⟨rfl, rfl⟩)) tracks) fun _ s t tracks => ?_
  refine (tabShrink_simulates faithful tracks (.inl known) none').mono fun _ _ _ tracks => ?_
  exact ⟨L', tracks.forget fun _ _ => .inl, numbered.parted (small ▸ room) reparted, none'⟩

end Part

end Tables

end SharedHashFile.Store
