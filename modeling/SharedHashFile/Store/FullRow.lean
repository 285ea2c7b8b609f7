import SharedHashFile.Store.PutTermination
import SharedHashFile.Store.Steady

namespace SharedHashFile.Store

open Program

def Grown (win : Fin 256) (start many : Nat) (s : State Disk) : Prop :=
  ∃ more ≤ many, (s.shared.wins win).tabsUsed = (start + more) % 2^32

section Growing

variable {cfg : Config} {win : Fin 256} {start many : Nat}

theorem Grown.mono {s : State Disk} {more : Nat} (grown : Grown win start many s) (le : many ≤ more) :
    Grown win start more s := by
  rcases grown with ⟨few, small, used⟩
  exact ⟨few, Nat.le_trans small le, used⟩

theorem mapped_steady : mapped.Steady fun _ => True :=
  ⟨fun _ _ _ _ => trivial, fun _ _ _ _ => trivial, fun _ _ _ _ _ => trivial, fun _ _ => trivial⟩

theorem Keeps.grown {α : Type} {x : Operation Disk α} (keeps : ∀ used, Keeps (Steady used fun _ => True) x) :
    Keeps (Grown win start many) x := by
  rintro s ⟨more, small, used⟩
  have after := keeps (fun win => (s.shared.wins win).tabsUsed) s ⟨fun _ => rfl, trivial⟩
  exact ⟨more, small, (after.used_eq win).trans used⟩

theorem partRest_keeps {win' : Fin 256} {tabOld tabNew : Nat} : Keeps (Grown win start many) (do
    check (tabNew < 2048) .tabOverflow
    partRedirects win' tabOld tabNew (List.finRange 2048) false
    allRefs.forM fun (row, ref) => partRef mapped cfg win' tabOld tabNew row ref
    tabShrink mapped cfg win' tabOld) := by
  refine keeps_bind (keeps_check _ _) fun _ => keeps_bind (Keeps.grown fun _ => partRedirects_keeps) fun _ => ?_
  refine keeps_bind (keeps_forM (fun _ => Keeps.grown fun _ => partRef_keeps mapped_steady) allRefs) fun _ => ?_
  exact Keeps.grown fun _ => tabShrink_keeps mapped_steady fun _ _ _ _ => trivial

theorem countTab_leads (win' : Fin 256) : Leads (Grown win start many) (Grown win start (many + 1))
    (modifyWin win' fun w => { w with tabsParted := w.tabsParted + 1, tabsUsed := (w.tabsUsed + 1) % 2^32 } :
      Operation Disk Unit) := by
  rintro s ⟨more, small, used⟩
  change ∃ more' ≤ many + 1, (Function.update s.shared.wins win' _ win).tabsUsed = _
  rw [Function.update_apply]
  split
  · rename_i here
    refine ⟨more + 1, Nat.succ_le_succ small, ?_⟩
    rw [← here]
    change ((s.shared.wins win).tabsUsed + 1) % 2^32 = _
    rw [used, Nat.mod_add_mod, Nat.add_assoc]
  · exact ⟨more, Nat.le_succ_of_le small, used⟩

theorem tabPart_leads {win' : Fin 256} {tabOld : Nat} :
    Leads (Grown win start many) (Grown win start (many + 1)) (tabPart mapped cfg win' tabOld) := by
  have le (s : State Disk) (grown : Grown win start many s) : Grown win start (many + 1) s := grown.mono (Nat.le_succ _)
  have here (s : State Disk) (grown : Grown win start many s) : Grown win start many s := grown
  refine leads_bind ((Keeps.grown fun _ => getWin_keeps win').leads here) (fun w => ?_) le
  refine leads_bind ((Keeps.grown fun _ => onMap_keeps fun _ _ => trivial).leads here) (fun _ => ?_) le
  refine leads_bind ((Keeps.grown fun _ => onMap_keeps fun _ _ => trivial).leads here) (fun _ => ?_) le
  exact leads_bind (countTab_leads win') (fun _ => partRest_keeps) fun _ grown => grown

theorem putSection_leads {val : PutVal} :
    Leads (Grown win start many) (Grown win start (many + 1)) (putSection mapped cfg val) := by
  have le (s : State Disk) (grown : Grown win start many s) : Grown win start (many + 1) s := grown.mono (Nat.le_succ _)
  have here (s : State Disk) (grown : Grown win start many s) : Grown win start many s := grown
  refine leads_bind ((Keeps.grown fun _ => getTls_keeps).leads here) (fun tls => ?_) le
  refine leads_bind ((Keeps.grown fun _ => getWin_keeps _).leads here) (fun w => ?_) le
  refine leads_bind ((Keeps.grown fun _ => onMap_keeps fun _ _ => trivial).leads here) (fun _ => ?_) le
  refine leads_bind ((Keeps.grown fun _ => tabAt_keeps).leads here) (fun t => ?_) le
  split
  · refine (keeps_bind (Keeps.grown fun _ => tabAppend_keeps mapped_steady) fun pos => ?_).leads le
    refine keeps_bind (Keeps.grown fun _ => modifyTab_keeps mapped_steady) fun _ => ?_
    refine keeps_bind (Keeps.grown fun _ => tabAt_keeps) fun _ => ?_
    refine keeps_bind (keeps_when fun _ => Keeps.grown fun _ => tabShrink_keeps mapped_steady fun _ _ _ _ => trivial) fun _ => ?_
    exact keeps_bind (Keeps.grown fun _ => modifyTls_keeps _) fun _ => keeps_pure _
  · exact leads_bind tabPart_leads (fun _ => keeps_pure _) fun _ grown => grown

theorem putLoop_leads {val : PutVal} (fuel : Nat) :
    Leads (Grown win start many) (Grown win start (many + fuel)) (putLoop mapped cfg val fuel) := by
  induction fuel generalizing many with
  | zero => exact fun _ grown => grown
  | succ fuel ih =>
    refine leads_bind putSection_leads (fun done => ?_) fun _ grown => grown.mono (by omega)
    have more : many + (fuel + 1) = many + 1 + fuel := by omega
    rw [more]
    intro s grown
    split
    · exact grown.mono (Nat.le_add_right _ _)
    · exact ih s grown

end Growing

section Full

variable {cfg : Config} {s : State Disk} {t : State Tables} {val : PutVal}

theorem firstFree_eq_none {row : Fin 16 → Ref} (full : ∀ ref, (row ref).pos ≠ 0) : firstFree row = none := by
  apply List.find?_eq_none.mpr
  intro ref _ free
  exact full ref (of_decide_eq_true free)

theorem pos_of_item {file : File} {tab : Fin 2048} {row : Fin 512} {ref : Fin 16}
    (held : file.tab.itemAt cfg tab row ref ≠ none) : ((Tables.opened file).tab.row row ref).pos ≠ 0 := by
  have row_eq : (Tables.opened file).tab.row = file.tab.row := by
    unfold Tables.opened
    split <;> rfl
  rw [row_eq]
  intro zero
  apply held
  unfold Tab.itemAt
  rw [if_neg fun both => both.1 zero]

theorem itemAt_opened (file : File) (tab : Fin 2048) (row : Fin 512) (ref : Fin 16) :
    (Tables.opened file).tab.itemAt cfg tab row ref = file.tab.itemAt cfg tab row ref := by
  unfold Tables.opened
  split <;> rfl

theorem opening_items {win : Fin 256} {tab file : Nat} (a : Nat → Nat) (b c : Fin 256 → Nat) :
    State.items cfg { s with map := (s.map.opening win tab file).counting a b c } = s.items cfg := by
  funext slot
  obtain ⟨home, home_eq⟩ : ∃ home, (s.shared.wins slot.win).tabs slot.tab = home := ⟨_, rfl⟩
  change ((s.map.path slot.win ((s.shared.wins slot.win).tabs slot.tab)).map (s.map.opening win tab file).files).bind _ =
    ((s.map.path slot.win ((s.shared.wins slot.win).tabs slot.tab)).map s.map.files).bind _
  rw [home_eq]
  cases s.map.path slot.win home with
  | none => rfl
  | some other =>
    rw [Option.map_some, Option.map_some, Option.bind_some, Option.bind_some, Disk.opening, Disk.renewing,
      Disk.setMine_files, Disk.setFile_files]
    split
    · rename_i same
      rw [same]
      exact itemAt_opened _ _ _ _
    · rfl

theorem creating_items {keep : Fin 256 → Nat → Prop} {win : Fin 256} {tab : Nat} (coherent : s.map.Coherent keep)
    (away : ∀ i, (s.shared.wins win).tabs i ≠ tab) :
    State.items cfg { s with map := s.map.creating win tab } = s.items cfg := by
  funext slot
  have path : (s.map.creating win tab).path slot.win ((s.shared.wins slot.win).tabs slot.tab) =
      s.map.path slot.win ((s.shared.wins slot.win).tabs slot.tab) := by
    rw [Disk.creating_path, if_neg]
    rintro ⟨rfl, same⟩
    exact away _ same
  change (((s.map.creating win tab).path slot.win ((s.shared.wins slot.win).tabs slot.tab)).map
    (s.map.creating win tab).files).bind _ =
    ((s.map.path slot.win ((s.shared.wins slot.win).tabs slot.tab)).map s.map.files).bind _
  rw [path]
  cases found : s.map.path slot.win ((s.shared.wins slot.win).tabs slot.tab) with
  | none => rfl
  | some file =>
    have older : (s.map.creating win tab).files file = s.map.files file :=
      Function.update_of_ne (Nat.ne_of_lt (coherent.path_lt found)) _ _
    rw [Option.map_some, Option.map_some, Option.bind_some, Option.bind_some, older]

theorem mapTable_run {keep : Fin 256 → Nat → Prop} {L : Layout} {win : Fin 256} {tab : Nat}
    (tracks : Tracks keep L s t) (present : L.present win tab = true) : ∃ file s' t',
    (s.map.path win tab).map s.map.files = some file ∧
      onMap (mapped.getTabMmap win tab) s = ⟨.ok (), s', 0⟩ ∧ (s'.shared = s.shared ∧ s'.items cfg = s.items cfg ∧
        s'.map.strays = s.map.strays) ∧ Tracks (also keep win tab) L s' t' ∧
      tabAt mapped (.tab win tab) s' = ⟨.ok (Tables.opened file).tab, s', 0⟩ := by
  rcases tracks.path present with ⟨number, path⟩
  have good := (tracks.coherent.sizes path).1
  obtain ⟨s1, run1, tracks1⟩ : ∃ s1, onMap (mapped.getTabMmap win tab) s = ⟨.ok (), s1, 0⟩ ∧
      Tracks (also keep win tab) L s1 _ :=
    (@getTabMmap_simulates 1 _ _ _ _ _ _ _ guarded_faithful tracks present).run (getTabMmap_ends (tracks.table path)) (by decide)
  rcases Disk.getTabMmap_run tracks.coherent path with ⟨_, run, a, b, c, rfl⟩
  have opened : onMap (mapped.getTabMmap win tab) s = ⟨.ok (), { s with map := (s.map.opening win tab number).counting a b c }, 0⟩ :=
    onMap_run run
  have known : Known (also keep win tab) (.tab win tab) := .inr ⟨rfl, rfl⟩
  have held : Held (t.setFile (.tab win tab) (Tables.opened (s.map.files number))) (.tab win tab)
      (Tables.opened (s.map.files number)) := by
    apply State.held
    rw [Disk.opened_size]
    exact Nat.le_trans (by decide) good.low
  rcases (@tabAt_simulates 1 _ _ _ _ _ _ guarded_faithful tracks1 known).run (tabAt_run held) (by decide)
    with ⟨s2, run2, rfl, _⟩
  rw [opened] at run1
  cases run1
  refine ⟨s.map.files number, _, _, ?_, opened, ⟨rfl, opening_items a b c, rfl⟩, tracks1, run2⟩
  rw [path, Option.map_some]

section Parting

variable {keep : Fin 256 → Nat → Prop} {L : Layout} {win : Fin 256} {tabOld : Nat}

theorem part_no_path (tracks : Tracks keep L s t) (numbered : L.Numbered) :
    (s.shared.wins win).tabsUsed % 2^16 = (s.shared.wins win).tabsUsed ∧
      s.map.path win (s.shared.wins win).tabsUsed = none := by
  have used : (s.shared.wins win).tabsUsed = L.used win := by
    rw [tracks.shared, ← tracks.layout]
    rfl
  have used_le := numbered.used_le win
  rw [used]
  refine ⟨Nat.mod_eq_of_lt (by omega), tracks.no_path ?_⟩
  rw [Bool.eq_false_iff]
  intro present
  exact Nat.lt_irrefl _ ((numbered.present_iff win _).mp present)

/-- A part counts its new table before anything else can end it. -/
theorem tabPart_counts (tracks : Tracks keep L s t) (numbered : L.Numbered)
    (inside : ¬ (win.val = 255 ∧ (s.shared.wins win).tabsUsed = 2048 ∧ s.map.strays = true)) :
    Grown win ((s.shared.wins win).tabsUsed + 1) 0 (tabPart mapped cfg win tabOld s).state := by
  rcases @part_no_path _ _ _ _ win tracks numbered with ⟨small, path⟩
  obtain ⟨tabNew, new⟩ : ∃ tabNew, (s.shared.wins win).tabsUsed = tabNew := ⟨_, rfl⟩
  rw [new] at small path inside
  have created : onMap (mapped.create win tabNew) s = ⟨.ok (), { s with map := s.map.creating win tabNew }, 0⟩ :=
    onMap_run (Disk.create_run path)
  have unmapped : (s.map.creating win tabNew).mine win tabNew = none := by
    cases mine : s.map.mine win tabNew with
    | none => exact mine
    | some off =>
      rcases tracks.coherent.off_opened mine with ⟨file, there, _⟩
      rw [path] at there
      cases there
  have at_ : (s.map.creating win tabNew).path win tabNew = some s.map.nextFile := by
    rw [Disk.creating_path, if_pos ⟨rfl, rfl⟩]
  have good : GoodSize ((s.map.creating win tabNew).files s.map.nextFile).size := by
    rw [Disk.creating_fresh]
    exact newTab_good
  have header : ((s.map.creating win tabNew).files s.map.nextFile).tab.tabSize = 0 ∨
      ((s.map.creating win tabNew).files s.map.nextFile).tab.tabSize =
        ((s.map.creating win tabNew).files s.map.nextFile).size := by
    rw [Disk.creating_fresh]
    exact .inl rfl
  rcases @Disk.getTabMmap_unmapped (s.map.creating win tabNew) _ _ _ inside unmapped at_ good header with ⟨M, run, _⟩
  have opened : onMap (mapped.getTabMmap win tabNew) { s with map := s.map.creating win tabNew } =
    ⟨.ok (), { s with map := M }, 0⟩ := onMap_run run
  have counted : Leads (fun s' => s'.shared = s.shared) (Grown win ((s.shared.wins win).tabsUsed + 1) 0) (do
      modifyWin win fun w => { w with tabsParted := w.tabsParted + 1, tabsUsed := (w.tabsUsed + 1) % 2^32 }
      check (tabNew < 2048) .tabOverflow
      partRedirects win tabOld tabNew (List.finRange 2048) false
      allRefs.forM fun (row, ref) => partRef mapped cfg win tabOld tabNew row ref
      tabShrink mapped cfg win tabOld) := by
    refine leads_bind ?_ (fun _ => partRest_keeps) fun _ grown => grown
    intro s' same
    refine ⟨0, Nat.le_refl _, ?_⟩
    change (Function.update s'.shared.wins win _ win).tabsUsed = _
    rw [Function.update_self, same, Nat.add_zero]
  have first : getWin win s = ⟨.ok (s.shared.wins win), s, 0⟩ := rfl
  rw [new] at counted ⊢
  rw [tabPart, state_after first, new, small, state_after created, state_after opened]
  exact counted { s with map := M } rfl

/-- A part whose new table has its cell behind all cells may end the process before. -/
theorem tabPart_strays (tracks : Tracks keep L s t) (numbered : L.Numbered)
    (beyond : win.val = 255 ∧ (s.shared.wins win).tabsUsed = 2048 ∧ s.map.strays = true) :
    tabPart mapped cfg win tabOld s = ⟨.error .tabOverflow, { s with map := s.map.creating win 2048 }, 0⟩ := by
  rcases @part_no_path _ _ _ _ win tracks numbered with ⟨small, path⟩
  rcases beyond with ⟨last, used, strays⟩
  rw [used] at small path
  have created : onMap (mapped.create win 2048) s = ⟨.ok (), { s with map := s.map.creating win 2048 }, 0⟩ :=
    onMap_run (Disk.create_run path)
  have stopped : onMap (mapped.getTabMmap win 2048) { s with map := s.map.creating win 2048 } =
      ⟨.error .tabOverflow, { s with map := s.map.creating win 2048 }, 0⟩ := by
    apply onMap_stop
    refine (bind_ok (get_run _)).trans (bind_error (check_false ?_ _ _))
    exact not_not.mpr ⟨last, rfl, strays⟩
  have first : getWin win s = ⟨.ok (s.shared.wins win), s, 0⟩ := rfl
  rw [tabPart, bind_ok first, used, small, bind_ok created]
  exact bind_error stopped

end Parting

theorem putSection_splits (settled : Settled s t) (full : ∀ ref, s.items cfg (s.shared.tls.hash.slot ref) ≠ none) :
    ∃ keep L s1 t1 tab, Tracks keep L s1 t1 ∧ L.Numbered ∧
      (s1.shared = s.shared ∧ s1.items cfg = s.items cfg ∧ s1.map.strays = s.map.strays) ∧
      putSection mapped cfg val s = (do
        tabPart mapped cfg (s.shared.tls.hash.slot 0).win tab
        pure false : Operation Disk Bool) s1 := by
  rcases settled with ⟨L, tracks, numbered, _⟩
  obtain ⟨slot, slot_eq⟩ : ∃ slot, s.shared.tls.hash.slot 0 = slot := ⟨_, rfl⟩
  have tabs : (s.shared.wins slot.win).tabs = L.tabs slot.win := by
    rw [tracks.shared, ← tracks.layout]
    rfl
  have present : L.present slot.win ((s.shared.wins slot.win).tabs slot.tab) = true := by
    rw [tabs]
    exact (numbered.present_iff _ _).mpr (numbered.tabs_lt _ _)
  rcases @mapTable_run cfg _ _ _ _ _ _ tracks present with ⟨file, s1, t1, there, run1, same1, tracks1, run2⟩
  have here (ref : Fin 16) : ((Tables.opened file).tab.row slot.row ref).pos ≠ 0 := by
    have held := full ref
    have fileOf : s.fileOf (s.shared.tls.hash.slot ref) = some file := by
      rw [← slot_eq] at there
      exact there
    unfold State.items at held
    rw [fileOf, Option.bind_some] at held
    rw [← slot_eq]
    exact pos_of_item held
  have tls : getTls s = ⟨.ok s.shared.tls, s, 0⟩ := rfl
  have win : getWin slot.win s = ⟨.ok (s.shared.wins slot.win), s, 0⟩ := rfl
  refine ⟨_, L, s1, t1, (s.shared.wins slot.win).tabs slot.tab, tracks1, numbered, same1, ?_⟩
  rw [putSection, bind_ok tls, slot_eq, bind_ok win, bind_ok run1, bind_ok run2, firstFree_eq_none here]

/-- A put which finds its row full counts a table more before anything else can end it. -/
theorem putSection_counts (settled : Settled s t) (full : ∀ ref, s.items cfg (s.shared.tls.hash.slot ref) ≠ none)
    (inside : ¬ ((s.shared.tls.hash.slot 0).win.val = 255 ∧ (s.shared.wins (s.shared.tls.hash.slot 0).win).tabsUsed = 2048 ∧
      s.map.strays = true)) :
    Grown (s.shared.tls.hash.slot 0).win ((s.shared.wins (s.shared.tls.hash.slot 0).win).tabsUsed + 1) 0
      (putSection mapped cfg val s).state := by
  rcases @putSection_splits _ _ _ val settled full with ⟨keep, L, s1, t1, tab, tracks, numbered, ⟨shared, _, strays⟩, run⟩
  obtain ⟨win, win_eq⟩ : ∃ win, (s.shared.tls.hash.slot 0).win = win := ⟨_, rfl⟩
  rw [run, win_eq]
  rw [win_eq, ← shared, ← strays] at inside
  rw [← shared]
  have parts : Leads (· = s1) (Grown win ((s1.shared.wins win).tabsUsed + 1) 0) (tabPart mapped cfg win tab) := by
    rintro _ rfl
    exact tabPart_counts tracks numbered inside
  exact leads_bind parts (fun _ => keeps_pure false) (fun _ grown => grown) s1 rfl

/-- It may also end before, in the last window, and has changed nothing then. -/
theorem putSection_strays (settled : Settled s t) (full : ∀ ref, s.items cfg (s.shared.tls.hash.slot ref) ≠ none)
    (beyond : (s.shared.tls.hash.slot 0).win.val = 255 ∧ (s.shared.wins (s.shared.tls.hash.slot 0).win).tabsUsed = 2048 ∧
      s.map.strays = true) :
    ∃ s', putSection mapped cfg val s = ⟨.error .tabOverflow, s', 0⟩ ∧ s'.shared = s.shared ∧ s'.items cfg = s.items cfg := by
  rcases @putSection_splits _ _ _ val settled full with
    ⟨keep, L, s1, t1, tab, tracks, numbered, ⟨shared, items, strays⟩, run⟩
  rw [← shared, ← strays] at beyond
  refine ⟨{ s1 with map := s1.map.creating (s1.shared.tls.hash.slot 0).win 2048 }, ?_, shared, ?_⟩
  · rw [run, ← shared]
    exact bind_error (tabPart_strays tracks numbered beyond)
  · rw [← items]
    refine creating_items tracks.coherent fun i => ?_
    have tabs_lt := numbered.tabs_lt (s1.shared.tls.hash.slot 0).win i
    have used_le := numbered.used_le (s1.shared.tls.hash.slot 0).win
    have tabs : (s1.shared.wins (s1.shared.tls.hash.slot 0).win).tabs = L.tabs (s1.shared.tls.hash.slot 0).win := by
      rw [tracks.shared, ← tracks.layout]
      rfl
    rw [tabs]
    omega

/-- From a full row `shf_put_key_val` leaves more tables than there were. -/
theorem putKeyVal_counts (settled : Settled s t) (full : ∀ ref, s.items cfg (s.shared.tls.hash.slot ref) ≠ none)
    (inside : ¬ ((s.shared.tls.hash.slot 0).win.val = 255 ∧ (s.shared.wins (s.shared.tls.hash.slot 0).win).tabsUsed = 2048 ∧
      s.map.strays = true)) :
    Grown (s.shared.tls.hash.slot 0).win ((s.shared.wins (s.shared.tls.hash.slot 0).win).tabsUsed + 1) 2048
      (putKeyVal mapped cfg val s).state := by
  have counts := @putSection_counts cfg _ t val settled full inside
  obtain ⟨win, win_eq⟩ : ∃ win, (s.shared.tls.hash.slot 0).win = win := ⟨_, rfl⟩
  rw [win_eq] at counts ⊢
  have first : Leads (· = s) (Grown win ((s.shared.wins win).tabsUsed + 1) 0) (putSection mapped cfg val) := by
    rintro _ rfl
    exact counts
  have whole : Leads (· = s) (Grown win ((s.shared.wins win).tabsUsed + 1) (0 + 2048)) (putKeyVal mapped cfg val) :=
    leads_bind first (fun done s' grown => by
      split
      · exact grown.mono (Nat.zero_le _)
      · exact putLoop_leads 2048 s' grown) fun _ grown => grown.mono (Nat.zero_le _)
  exact whole s rfl

end Full

/-- A put which stores nothing leaves the redirections and the entries as they were. -/
def FailsAtomically (cfg : Config) (hashOf : List UInt8 → Hash) (key : List UInt8) (val : PutVal) (s : State Disk) : Prop :=
  let run := (Call.put key val).run mapped cfg hashOf s
  let win := ((hashOf key).slot 0).win
  run.value ≠ .ok retKeyPut ∧ (run.state.shared.wins win).tabs = (s.shared.wins win).tabs ∧
    (run.state.shared.wins win).tabsUsed = (s.shared.wins win).tabsUsed ∧ run.state.items cfg = s.items cfg

def Disk.placed (process : Nat) (strays : Bool) (d : Disk) : Disk := { d.switch process with strays := strays }

section FullRows

variable {cfg : Config} {hashOf : List UInt8 → Hash} {key : List UInt8} {s : State Disk}

theorem modifyTls_own (f : Tls → Tls) (s : State Disk) : ∃ s', modifyTls f s = ⟨.ok (), s', 0⟩ ∧ s'.map = s.map ∧
    s'.shared.wins = s.shared.wins ∧ s'.shared.tls = f s.shared.tls := ⟨_, rfl, rfl, rfl, rfl⟩

theorem State.items_congr {s' : State Disk} (map : s'.map = s.map) (wins : s'.shared.wins = s.shared.wins) :
    s'.items cfg = s.items cfg := by
  unfold State.items State.fileOf
  rw [map, wins]

/-- Where a process's addresses are does not matter between critical sections. -/
theorem Settled.placed {t : State Tables} {process : Nat} (strays : Bool) (settled : Settled s t) :
    Settled { s with map := s.map.placed process strays } t := by
  rcases @Settled.switch _ _ process settled with ⟨L, tracks, rest⟩
  have coherent := tracks.coherent
  refine ⟨L, ⟨tracks.shared, ?_, tracks.tables, tracks.layout⟩, rest⟩
  exact ⟨coherent.path_lt, coherent.path_inj, coherent.tab_lt, coherent.sizes, coherent.off_lt, coherent.off_size,
    coherent.off_home, coherent.off_live, coherent.off_opened, coherent.old_lt, coherent.old_len,
    coherent.old_gone, coherent.old_mine, coherent.kept⟩

/-- A put for a full triple changes the number of tables of its window, but where its process ends before. -/
theorem Settled.put_atomic_iff {t : State Tables} (settled : Settled s t)
    (full : ∀ ref, s.items cfg ((hashOf key).slot ref) ≠ none) (val : PutVal) :
    FailsAtomically cfg hashOf key val s ↔ ((hashOf key).slot 0).win.val = 255 ∧
      (s.shared.wins ((hashOf key).slot 0).win).tabsUsed = 2048 ∧ s.map.strays = true := by
  have used_le : (s.shared.wins ((hashOf key).slot 0).win).tabsUsed ≤ 2048 := by
    rcases settled with ⟨L, tracks, numbered, _⟩
    have used := numbered.used_le ((hashOf key).slot 0).win
    rw [← tracks.layout] at used
    rw [tracks.shared]
    exact used
  rcases modifyTls_own (fun tls => { tls with hash := hashOf key, hashKey := key }) s with ⟨s1, run1, map1, wins1, tls1⟩
  have settled1 : ∃ t1, Settled s1 t1 := by
    rcases (settled.modifyTls (f := fun tls => { tls with hash := hashOf key, hashKey := key })).run
      (modifyTls_run t _) (by decide) with ⟨s2, run2, settled2⟩
    rw [run1] at run2
    cases run2
    exact ⟨_, settled2⟩
  rcases settled1 with ⟨t1, settled1⟩
  have hash_eq : s1.shared.tls.hash = hashOf key := by rw [tls1]
  have items1 : s1.items cfg = s.items cfg := State.items_congr map1 wins1
  rw [← items1] at full
  rw [← map1, ← wins1]
  rw [← wins1] at used_le
  rw [← hash_eq] at full used_le ⊢
  have run : (Call.put key val).run mapped cfg hashOf s = putKeyVal mapped cfg val s1 := by
    rw [Call.run, makeHash, bind_ok run1]
  constructor
  · rintro ⟨_, _, used, _⟩
    by_contra inside
    have counts := @putKeyVal_counts cfg s1 t1 val settled1 full inside
    rcases counts with ⟨more, small, used'⟩
    rw [run, ← hash_eq, used', ← wins1] at used
    omega
  · intro beyond
    rcases @putSection_strays cfg s1 t1 val settled1 full beyond with ⟨s', stopped, shared, items⟩
    have ended : putKeyVal mapped cfg val s1 = ⟨.error .tabOverflow, s', 0⟩ := bind_error stopped
    unfold FailsAtomically
    rw [run, ended]
    refine ⟨nofun, ?_, ?_, items.trans items1⟩
    · rw [shared, wins1]
    · rw [shared, wins1]

theorem Settled.placed_put_atomic_iff {t : State Tables} {process : Nat} {strays : Bool} (settled : Settled s t)
    (full : ∀ ref, s.items cfg ((hashOf key).slot ref) ≠ none) (val : PutVal) :
    FailsAtomically cfg hashOf key val { s with map := s.map.placed process strays } ↔
      ((hashOf key).slot 0).win.val = 255 ∧ (s.shared.wins ((hashOf key).slot 0).win).tabsUsed = 2048 ∧ strays = true :=
  (@Settled.placed _ _ process strays settled).put_atomic_iff full val

/-- From a full row a put fails atomically only where the process ends before it counts a table: in the last window, if
    it has all its tables, and if what follows its cells is no mapping the process can survive. -/
theorem fullRow_atomic_iff (cfg : Config) (linkable : cfg.Linkable) (hashOf : List UInt8 → Hash) (vfs : Nat → Nat)
    (tls : Tls) (sections : List Section) (s : State Disk) (process : Nat) (strays : Bool) (key : List UInt8)
    (val : PutVal) (attained : Attained cfg vfs tls sections s) (fits : ∀ part ∈ sections, part.Fits cfg)
    (full : ∀ ref, s.items cfg ((hashOf key).slot ref) ≠ none) :
    FailsAtomically cfg hashOf key val { s with map := s.map.placed process strays } ↔
      ((hashOf key).slot 0).win.val = 255 ∧ (s.shared.wins ((hashOf key).slot 0).win).tabsUsed = 2048 ∧ strays = true := by
  rcases attained.settled linkable fits with ⟨t, settled⟩
  exact settled.placed_put_atomic_iff full val

end FullRows

def sixteenPuts : List Section :=
  (List.range 16).map fun i => ⟨1, smallTls [UInt8.ofNat i], .put (.copy [10])⟩

def sixteenStored : State Disk :=
  (runProcesses mapped smallConfig sixteenPuts (State.initial (fun _ => 2^40) (smallTls []))).state

theorem sixteenPuts_run :
    (runProcesses mapped smallConfig sixteenPuts (State.initial (fun _ => 2^40) (smallTls []))).peak < 2^32 ∧
    (runProcesses mapped smallConfig sixteenPuts (State.initial (fun _ => 2^40) (smallTls []))).value.isOk = true ∧
    ∀ ref : Fin 16, sixteenStored.items smallConfig ((0 : Hash).slot ref) ≠ none := by
  decide +kernel

theorem sixteenPuts_attain : Attained smallConfig (fun _ => 2^40) (smallTls []) sixteenPuts sixteenStored :=
  ⟨sixteenPuts_run.1, sixteenPuts_run.2.1, rfl⟩

theorem sixteenPuts_fill (ref : Fin 16) : sixteenStored.items smallConfig ((0 : Hash).slot ref) ≠ none :=
  sixteenPuts_run.2.2 ref

theorem seventeenthPut_not_atomic : ¬ FailsAtomically smallConfig (fun _ => 0) [16] (.copy [10])
    { sixteenStored with map := sixteenStored.map.placed 2 true } := by
  intro fails
  have last := (fullRow_atomic_iff _ (Config.linkable_variable rfl) (fun _ => 0) _ _ _ _ 2 true [16] (.copy [10])
    sixteenPuts_attain (fun part _ => part.fits_variable rfl) sixteenPuts_fill).mp fails
  exact absurd last.1 (by decide)

theorem not_fullRow_atomic : ¬ ∀ (cfg : Config) (hashOf : List UInt8 → Hash) (vfs : Nat → Nat) (tls : Tls)
    (sections : List Section) (s : State Disk) (process : Nat) (strays : Bool) (key : List UInt8) (val : PutVal),
    Attained cfg vfs tls sections s → (∀ ref, s.items cfg ((hashOf key).slot ref) ≠ none) →
    FailsAtomically cfg hashOf key val { s with map := s.map.placed process strays } := by
  intro atomic
  have fails := atomic smallConfig (fun _ => 0) _ _ _ _ 2 true [16] (.copy [10]) sixteenPuts_attain sixteenPuts_fill
  rcases sixteenPuts_attain.settled (Config.linkable_variable rfl) fun part _ => part.fits_variable rfl with ⟨t, settled⟩
  have last := (@Settled.placed_put_atomic_iff smallConfig (fun _ => 0) [16] _ t 2 true settled sixteenPuts_fill _).mp fails
  exact absurd last.1 (by decide)

end SharedHashFile.Store
