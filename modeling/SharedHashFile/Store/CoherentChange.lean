import SharedHashFile.Store.CoherentGet

namespace SharedHashFile.Store

open Program

namespace Disk

variable {keep : Fin 256 → Nat → Prop} {d : Disk} {win : Fin 256} {tab file : Nat}

def grown (file : File) (size : Nat) : File where
  size := size
  tab := { (file.truncate size).tab with tabSize := size }

theorem grow_run (at_ : d.path win tab = some file) {size : Nat} (good : GoodSize size) :
    grow win tab size d = ⟨.ok (), d.renewing win tab file (grown (d.files file) size), 0⟩ := by
  have low := good.low
  have trunc : d.truncateAt win tab size = d.setFile file ((d.files file).truncate size) := by
    simp only [truncateAt, at_]
  have mmap := mmapAt_run (show (d.setFile file ((d.files file).truncate size)).path win tab = some file from
    at_) (show size ≠ 0 by omega)
  rw [grow, bind_ok (modify_run _ _), trunc, bind_ok mmap, bind_ok (headerAt_run setMine_self)]
  refine (modify_run _ _).trans ?_
  simp only [store, offAt, setMine_self, good.mod_eq]
  simp only [setFile, setMine_files, Function.update_self, Function.update_idem]
  rfl

theorem Coherent.growing (coherent : d.Coherent keep) (at_ : d.path win tab = some file) {size : Nat}
    (good : GoodSize size) : (d.renewing win tab file (grown (d.files file) size)).Coherent
      fun win' tab' => keep win' tab' ∨ win' = win ∧ tab' = tab := coherent.renewing at_ good rfl

theorem Coherent.forget {keep' : Fin 256 → Nat → Prop} (coherent : d.Coherent keep)
    (fewer : ∀ win tab, keep' win tab → keep win tab) : d.Coherent keep' :=
  ⟨coherent.path_lt, coherent.path_inj, coherent.tab_lt, coherent.sizes, coherent.off_lt, coherent.off_size,
    coherent.off_home, coherent.off_live, coherent.off_opened, coherent.old_lt, coherent.old_len,
    coherent.old_gone, coherent.old_mine, fun kept => coherent.kept (fewer _ _ kept)⟩

def creating (d : Disk) (win : Fin 256) (tab : Nat) : Disk :=
  { (d.setFile d.nextFile ((File.mk 0 emptyTab).truncate (modPage dataOffset))).setPath win tab
      (some d.nextFile) with nextFile := d.nextFile + 1 }

theorem setPath_path (win' : Fin 256) (tab' : Nat) (value : Option Nat) :
    (d.setPath win tab value).path win' tab' =
      if win' = win ∧ tab' = tab then value else d.path win' tab' := by
  simp only [setPath, Function.update_apply]
  by_cases sameWin : win' = win <;> by_cases sameTab : tab' = tab <;> simp [sameWin, sameTab]

theorem create_run (none_ : d.path win tab = none) : create win tab d = ⟨.ok (), d.creating win tab, 0⟩ := by
  rw [create, modify_run]
  simp only [truncateAt, none_]
  rfl

theorem Coherent.creating (coherent : d.Coherent keep) (none_ : d.path win tab = none) (small : tab < 2048) :
    (d.creating win tab).Coherent keep := by
  have path (win' : Fin 256) (tab' : Nat) : (d.creating win tab).path win' tab' =
      if win' = win ∧ tab' = tab then some d.nextFile else d.path win' tab' := setPath_path win' tab' _
  have files (other : Nat) (old : other < d.nextFile) :
      (d.creating win tab).files other = d.files other := Function.update_of_ne (Nat.ne_of_lt old) _ _
  have fresh : (d.creating win tab).files d.nextFile =
      (File.mk 0 emptyTab).truncate (modPage dataOffset) := Function.update_self _ _ _
  have away {win' : Fin 256} {tab' file : Nat} (there : d.path win' tab' = some file) :
      ¬(win' = win ∧ tab' = tab) := by
    rintro ⟨rfl, rfl⟩
    rw [none_] at there
    cases there
  have kept_path {win' : Fin 256} {tab' file : Nat} (there : d.path win' tab' = some file) :
      (d.creating win tab).path win' tab' = some file := by
    rw [path, if_neg (away there)]
    exact there
  have home_path {win' : Fin 256} {tab' file : Nat} (below : file < d.nextFile)
      (there : (d.creating win tab).path win' tab' = some file) : d.path win' tab' = some file := by
    rw [path] at there
    split at there
    · cases there
      omega
    · exact there
  refine ⟨fun {win' tab' file} there => ?_, fun {win1 tab1 win2 tab2 file} one two => ?_, fun {win' tab' file} there => ?_,
    fun there => ?_, fun there => ?_, coherent.off_size, fun there home => ?_, fun there => ?_, fun there => ?_,
    fun there => ?_, fun there => ?_, fun old there => ?_, coherent.old_mine, fun kept => ?_⟩
  · change file < d.nextFile + 1
    rw [path] at there
    split at there
    · cases there
      omega
    · have := coherent.path_lt there
      omega
  · rw [path] at one two
    split at one <;> split at two
    · rename_i here there
      exact ⟨there.1.trans here.1.symm, there.2.trans here.2.symm⟩
    · cases one
      have := coherent.path_lt two
      omega
    · cases two
      have := coherent.path_lt one
      omega
    · exact coherent.path_inj one two
  · rw [path] at there
    split at there
    · rename_i here
      rw [here.2]
      exact small
    · exact coherent.tab_lt there
  · rw [path] at there
    split at there
    · cases there
      rw [fresh]
      exact ⟨newTab_good, .inl rfl⟩
    · rw [files _ (coherent.path_lt there)]
      exact coherent.sizes there
  · exact Nat.lt_succ_of_lt (coherent.off_lt there)
  · exact coherent.off_home there (home_path (coherent.off_lt there) home)
  · rw [files _ (coherent.off_lt there)]
    rcases coherent.off_live there with live | replaced
    · exact .inl (kept_path live)
    · exact .inr replaced
  · obtain ⟨live, at_, used⟩ := coherent.off_opened there
    exact ⟨live, kept_path at_, by rw [files _ (coherent.path_lt at_)]; exact used⟩
  · exact Nat.lt_succ_of_lt (coherent.old_lt there)
  · rw [files _ (coherent.old_lt there)]
    exact coherent.old_len there
  · exact coherent.old_gone old (home_path (coherent.old_lt old) there)
  · obtain ⟨off, own, at_, synced⟩ := coherent.kept kept
    refine ⟨off, own, kept_path at_, ?_⟩
    rw [files _ (coherent.path_lt at_)]
    exact synced

theorem creating_tables (sound : d.Sound keep) :
    (d.creating win tab).tables =
      d.tables.set win tab (some (Tables.resized none (modPage dataOffset))) := by
  have files (other : Nat) (old : other < d.nextFile) :
      (d.creating win tab).files other = d.files other := Function.update_of_ne (Nat.ne_of_lt old) _ _
  have fresh : (d.creating win tab).files d.nextFile =
      (File.mk 0 emptyTab).truncate (modPage dataOffset) := Function.update_self _ _ _
  refine Tables.ext (funext fun win' => funext fun tab' => ?_) ?_
  · have path : (d.creating win tab).path win' tab' =
        if win' = win ∧ tab' = tab then some d.nextFile else d.path win' tab' := setPath_path win' tab' _
    rw [Tables.set_table]
    change ((d.creating win tab).path win' tab').map (d.creating win tab).files = _
    rw [path]
    split
    · rw [Option.map_some, fresh]
      rfl
    · change _ = (d.path win' tab').map d.files
      cases found : d.path win' tab' with
      | none => rfl
      | some file => simp only [Option.map_some, files _ (sound.path_lt found)]
  · change (d.old.map fun off => (d.creating win tab).files off.file) = d.old.map fun off => d.files off.file
    cases found : d.old with
    | none => rfl
    | some old => simp only [Option.map_some, files _ (sound.old_lt found)]

def releasing (d : Disk) (off : Off) : Disk :=
  { d.setFile off.file { d.files off.file with tab := { (d.files off.file).tab with tabSize := 1 } } with
    old := none
    countMmap := Function.update d.countMmap d.me ((d.countMmap d.me + 2^32 - 1) % 2^32) }

theorem release_run {off : Off} (old : d.old = some off) : release d = ⟨.ok (), d.releasing off, 0⟩ := by
  rw [release, bind_ok (get_run d)]
  simp only [old]
  rfl

theorem Coherent.releasing {off : Off} (coherent : d.Coherent keep) (old : d.old = some off) :
    (d.releasing off).Coherent keep := by
  have files (other : Nat) : (d.releasing off).files other =
      if other = off.file then { d.files off.file with tab := { (d.files off.file).tab with tabSize := 1 } }
      else d.files other := setFile_files other
  have live {win' : Fin 256} {tab' file : Nat} (there : d.path win' tab' = some file) :
      (d.releasing off).files file = d.files file := by
    rw [files, if_neg fun same => coherent.old_gone old (same ▸ there)]
  refine ⟨coherent.path_lt, coherent.path_inj, coherent.tab_lt, fun there => ?_, coherent.off_lt, coherent.off_size,
    coherent.off_home, fun there => ?_, fun there => ?_, nofun, nofun, nofun, nofun, fun kept => ?_⟩
  · rw [live there]
    exact coherent.sizes there
  · rcases coherent.off_live there with at_ | replaced | ⟨other, isOld, same⟩
    · exact .inl at_
    · refine .inr (.inl ?_)
      rw [files]
      split
      · rfl
      · exact replaced
    · rw [old] at isOld
      cases isOld
      refine .inr (.inl ?_)
      rw [files, if_pos same.symm]
  · obtain ⟨file, at_, used⟩ := coherent.off_opened there
    exact ⟨file, at_, by rw [live at_]; exact used⟩
  · obtain ⟨mine, own, at_, synced⟩ := coherent.kept kept
    refine ⟨mine, own, at_, ?_⟩
    rw [live at_]
    exact synced

theorem releasing_tables {off : Off} (sound : d.Sound keep) (old : d.old = some off) :
    (d.releasing off).tables = { d.tables with old := none } := by
  refine Tables.ext (funext fun win => funext fun tab => ?_) rfl
  change (d.path win tab).map (d.releasing off).files = (d.path win tab).map d.files
  cases found : d.path win tab with
  | none => rfl
  | some file =>
    have away : file ≠ off.file := fun same => sound.old_gone old (same ▸ found)
    rw [Option.map_some, Option.map_some]
    exact congrArg some ((setFile_files file).trans (if_neg away))

def unlinking (d : Disk) (win : Fin 256) (tab : Nat) (off : Off) : Disk :=
  { (d.setPath win tab none).setMine win tab none with old := some off }

def replacing (d : Disk) (win : Fin 256) (tab : Nat) (off : Off) : Disk :=
  ((d.unlinking win tab off).creating win tab).opening win tab d.nextFile

section Replace

variable {off : Off}

theorem unlinking_path (win' : Fin 256) (tab' : Nat) : (d.unlinking win tab off).path win' tab' =
    if win' = win ∧ tab' = tab then none else d.path win' tab' := setPath_path win' tab' none

theorem unlinking_mine : (d.unlinking win tab off).mine win tab = none :=
  (setMine_self : ((d.setPath win tab none).setMine win tab none).mine win tab = none)

theorem creating_path (win' : Fin 256) (tab' : Nat) : (d.creating win tab).path win' tab' =
    if win' = win ∧ tab' = tab then some d.nextFile else d.path win' tab' := setPath_path win' tab' _

theorem creating_fresh : (d.creating win tab).files d.nextFile =
    (File.mk 0 emptyTab).truncate (modPage dataOffset) := Function.update_self _ _ _

theorem newTable_size : Tables.newTable.size = modPage dataOffset := opened_size _

theorem newTable_header : Tables.newTable.tab.tabSize = modPage dataOffset := rfl

theorem replacing_path (win' : Fin 256) (tab' : Nat) : (d.replacing win tab off).path win' tab' =
    if win' = win ∧ tab' = tab then some d.nextFile else d.path win' tab' := by
  have same : (d.replacing win tab off).path = ((d.unlinking win tab off).creating win tab).path := rfl
  rw [same, creating_path]
  split
  · rfl
  · rename_i elsewhere
    rw [unlinking_path, if_neg elsewhere]

theorem replacing_files (other : Nat) : (d.replacing win tab off).files other =
    if other = d.nextFile then Tables.newTable else d.files other := by
  rw [replacing, opening, renewing, setMine_files, setFile_files]
  split
  · exact congrArg Tables.opened (@creating_fresh (d.unlinking win tab off) win tab)
  · rename_i older
    exact Function.update_of_ne older _ _

theorem replacing_tabs (p : Nat) (win' : Fin 256) (tab' : Nat) :
    (d.replacing win tab off).tabs p win' tab' =
      if p = d.me ∧ win' = win ∧ tab' = tab then
        some ⟨d.nextFile, modPage dataOffset, modPage dataOffset⟩
      else d.tabs p win' tab' := by
  have size : (Tables.opened (((d.unlinking win tab off).creating win tab).files d.nextFile)).size =
      modPage dataOffset := (opened_size _).trans (congrArg File.size (@creating_fresh (d.unlinking win tab off) win tab))
  rw [replacing, opening, renewing, setMine_tabs, size]
  by_cases here : p = d.me ∧ win' = win ∧ tab' = tab
  · rw [if_pos here]
    exact if_pos here
  · rw [if_neg here]
    refine (if_neg here).trans ?_
    exact (setMine_tabs p win' tab').trans (if_neg here)

theorem replacing_mine (win' : Fin 256) (tab' : Nat) : (d.replacing win tab off).mine win' tab' =
    if win' = win ∧ tab' = tab then some ⟨d.nextFile, modPage dataOffset, modPage dataOffset⟩
    else d.mine win' tab' := by
  refine (replacing_tabs d.me win' tab').trans ?_
  simp only [true_and]
  rfl

theorem unlink_run (own : d.mine win tab = some off) (at_ : d.path win tab = some file) :
    unlink win tab d = ⟨.ok (), d.unlinking win tab off, 0⟩ := by
  have isSome : (d.path win tab).isSome = true := by rw [at_]; rfl
  rw [unlink, bind_ok (get_run d), bind_ok (check_true isSome _ _), modify_run, own]
  rfl

theorem replace_run (small : tab < 2048) (own : d.mine win tab = some off) (at_ : d.path win tab = some file) :
    ∃ d', replace win tab d = ⟨.ok (), d', 0⟩ ∧ (d.replacing win tab off).Agrees d' := by
  have gone : (d.unlinking win tab off).path win tab = none := by rw [unlinking_path, if_pos ⟨rfl, rfl⟩]
  have fresh := @creating_fresh (d.unlinking win tab off) win tab
  have unmapped : ((d.unlinking win tab off).creating win tab).mine win tab = none :=
    @unlinking_mine d win tab off
  rw [replace, bind_ok (unlink_run own at_), bind_ok (create_run gone)]
  refine getTabMmap_unmapped (not_strays small) unmapped ?_ ?_ ?_
  · rw [creating_path, if_pos ⟨rfl, rfl⟩]
    rfl
  · exact fresh ▸ newTab_good
  · exact fresh ▸ .inl rfl

theorem Coherent.replacing (coherent : d.Coherent keep) (synced : keep win tab)
    (own : d.mine win tab = some off) (none_ : d.old = none) : (d.replacing win tab off).Coherent keep := by
  obtain ⟨off', own', at_, len, _, _⟩ := coherent.kept synced
  rw [own] at own'
  cases own'
  have files_old {other : Nat} (older : other < d.nextFile) :
      (d.replacing win tab off).files other = d.files other := by
    rw [replacing_files, if_neg (Nat.ne_of_lt older)]
  have files_new : (d.replacing win tab off).files d.nextFile = Tables.newTable := by
    rw [replacing_files, if_pos rfl]
  have nextFile : (d.replacing win tab off).nextFile = d.nextFile + 1 := rfl
  have home_path {win' : Fin 256} {tab' file : Nat} (below : file < d.nextFile)
      (there : (d.replacing win tab off).path win' tab' = some file) :
      d.path win' tab' = some file ∧ ¬(win' = win ∧ tab' = tab) := by
    rw [replacing_path] at there
    split at there
    · cases there
      omega
    · rename_i elsewhere
      exact ⟨there, elsewhere⟩
  have kept_path {win' : Fin 256} {tab' file : Nat} (elsewhere : ¬(win' = win ∧ tab' = tab))
      (there : d.path win' tab' = some file) : (d.replacing win tab off).path win' tab' = some file := by
    rw [replacing_path, if_neg elsewhere]
    exact there
  refine ⟨fun {win' tab' file} there => ?_, fun {win1 tab1 win2 tab2 file} one two => ?_, fun {win' tab' file} there => ?_,
    fun there => ?_, fun there => ?_, fun there => ?_, fun there home => ?_, fun there => ?_, fun there => ?_,
    fun there => ?_, fun there => ?_, fun old there => ?_, fun old there => ?_, fun kept => ?_⟩
  · rw [nextFile]
    rw [replacing_path] at there
    split at there
    · cases there
      omega
    · have := coherent.path_lt there
      omega
  · rw [replacing_path] at one two
    split at one <;> split at two
    · rename_i here there
      exact ⟨there.1.trans here.1.symm, there.2.trans here.2.symm⟩
    · cases one
      have := coherent.path_lt two
      omega
    · cases two
      have := coherent.path_lt one
      omega
    · exact coherent.path_inj one two
  · rw [replacing_path] at there
    split at there
    · rename_i here
      rw [here.2]
      exact coherent.tab_lt at_
    · exact coherent.tab_lt there
  · rw [replacing_path] at there
    split at there
    · cases there
      rw [files_new, newTable_size, newTable_header]
      exact ⟨newTab_good, .inr rfl⟩
    · rw [files_old (coherent.path_lt there)]
      exact coherent.sizes there
  · rw [nextFile]
    rw [replacing_tabs] at there
    split at there
    · cases there
      exact Nat.lt_succ_self _
    · exact Nat.lt_succ_of_lt (coherent.off_lt there)
  · rw [replacing_tabs] at there
    split at there
    · cases there
      exact ⟨newTab_good, rfl⟩
    · exact coherent.off_size there
  · rw [replacing_tabs] at there
    split at there
    · rename_i here
      cases there
      rw [replacing_path] at home
      split at home
      · rename_i same
        exact ⟨same.1.trans here.2.1.symm, same.2.trans here.2.2.symm⟩
      · have := coherent.path_lt home
        exact absurd this (Nat.lt_irrefl _)
    · exact coherent.off_home there (home_path (coherent.off_lt there) home).1
  · rename_i p win' tab' other
    rw [replacing_tabs] at there
    split at there
    · rename_i here
      cases there
      refine .inl ?_
      rw [replacing_path, if_pos here.2]
    · rw [files_old (coherent.off_lt there)]
      rcases coherent.off_live there with live | replaced | ⟨old, isOld, _⟩
      · by_cases here : win' = win ∧ tab' = tab
        · rw [here.1, here.2, at_] at live
          exact .inr (.inr ⟨off, rfl, Option.some.inj live⟩)
        · exact .inl (kept_path here live)
      · exact .inr (.inl replaced)
      · rw [none_] at isOld
        cases isOld
  · rename_i p win' tab' other
    by_cases here : win' = win ∧ tab' = tab
    · refine ⟨d.nextFile, by rw [replacing_path, if_pos here], ?_⟩
      rw [files_new, newTable_header]
      decide
    · rw [replacing_tabs, if_neg fun same => here same.2] at there
      obtain ⟨live, path, used⟩ := coherent.off_opened there
      exact ⟨live, kept_path here path, by rw [files_old (coherent.path_lt path)]; exact used⟩
  · cases there
    exact Nat.lt_succ_of_lt (coherent.path_lt at_)
  · cases there
    rw [files_old (coherent.path_lt at_)]
    exact len
  · cases old
    obtain ⟨path, elsewhere⟩ := home_path (coherent.path_lt at_) there
    exact elsewhere (coherent.path_inj at_ path)
  · cases old
    rw [replacing_mine] at there
    split at there
    · cases there
      exact Nat.ne_of_gt (coherent.path_lt at_)
    · rename_i elsewhere
      intro same
      obtain ⟨sameWin, sameTab⟩ := coherent.off_home there (same ▸ at_)
      exact elsewhere ⟨sameWin.symm, sameTab.symm⟩
  · rename_i win' tab'
    by_cases here : win' = win ∧ tab' = tab
    · refine ⟨_, (replacing_mine win' tab').trans (if_pos here), ?_, ?_⟩
      · rw [replacing_path, if_pos here]
      · rw [files_new, newTable_size, newTable_header]
        exact ⟨rfl, rfl, rfl⟩
    · obtain ⟨mine, isMine, path, rest⟩ := coherent.kept kept
      refine ⟨mine, (replacing_mine win' tab').trans ((if_neg here).trans isMine), kept_path here path, ?_⟩
      rw [files_old (coherent.path_lt path)]
      exact rest

theorem replacing_tables (coherent : d.Coherent keep) (lt : off.file < d.nextFile) :
    (d.replacing win tab off).tables =
      { d.tables.set win tab (some Tables.newTable) with old := some (d.files off.file) } := by
  refine Tables.ext (funext fun win' => funext fun tab' => ?_) ?_
  · change ((d.replacing win tab off).path win' tab').map (d.replacing win tab off).files =
      (d.tables.set win tab (some Tables.newTable)).table win' tab'
    rw [replacing_path, Tables.set_table]
    split
    · rw [Option.map_some, replacing_files, if_pos rfl]
    · change _ = (d.path win' tab').map d.files
      cases found : d.path win' tab' with
      | none => rfl
      | some other =>
        have older := coherent.path_lt found
        rw [Option.map_some, Option.map_some, replacing_files, if_neg (Nat.ne_of_lt older)]
  · change some ((d.replacing win tab off).files off.file) = some (d.files off.file)
    rw [replacing_files, if_neg (Nat.ne_of_lt lt)]

end Replace

end Disk

end SharedHashFile.Store
