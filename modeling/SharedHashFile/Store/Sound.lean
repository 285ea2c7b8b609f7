import SharedHashFile.Store.MappedTables
import SharedHashFile.Store.TableRuns

namespace SharedHashFile.Store

open Program

def File.headed (file : File) (tabSize tabUsed : Nat) : File :=
  { file with tab := { file.tab with tabSize := tabSize, tabUsed := tabUsed } }

def Headed (win : Fin 256) (tab : Nat) (T T' : Tables) : Prop :=
  ∃ file tabSize tabUsed, T.table win tab = some file ∧ T' = T.set win tab (some (file.headed tabSize tabUsed))

theorem Tables.set_self {T : Tables} {win : Fin 256} {tab : Nat} {file : Option File} (same : T.table win tab = file) :
    T.set win tab file = T := by
  subst same
  refine Tables.ext (funext fun win' => funext fun tab' => ?_) rfl
  rw [Tables.set_table]
  split
  · rename_i here
    rw [here.1, here.2]
  · rfl

theorem Headed.refl {win : Fin 256} {tab : Nat} {T : Tables} {file : File} (there : T.table win tab = some file) :
    Headed win tab T T := ⟨file, file.tab.tabSize, file.tab.tabUsed, there, (Tables.set_self there).symm⟩

namespace Disk

variable {keep : Fin 256 → Nat → Prop} {d : Disk} {win : Fin 256} {tab file : Nat} {value : File} {off : Off}

section Changes

theorem Sound.forget {keep' : Fin 256 → Nat → Prop} (sound : d.Sound keep)
    (fewer : ∀ win tab, keep' win tab → keep win tab) : d.Sound keep' :=
  ⟨sound.path_lt, sound.path_inj, sound.pages, sound.off_lt, sound.off_size, sound.off_home, sound.off_live,
    sound.old_lt, sound.old_gone, sound.old_mine, fun kept => sound.kept (fewer _ _ kept)⟩

theorem Sound.counting {a : Nat → Nat} {b c : Fin 256 → Nat} (sound : d.Sound keep) : (d.counting a b c).Sound keep :=
  ⟨sound.path_lt, sound.path_inj, sound.pages, sound.off_lt, sound.off_size, sound.off_home, sound.off_live,
    sound.old_lt, sound.old_gone, sound.old_mine, sound.kept⟩

theorem Sound.setFile_path (sound : d.Sound keep) (at_ : d.path win tab = some file) (page : value.size % 4096 = 0) :
    (d.setFile file value).Sound keep := by
  refine ⟨sound.path_lt, sound.path_inj, fun there => ?_, sound.off_lt, sound.off_size, sound.off_home, fun there => ?_,
    sound.old_lt, sound.old_gone, sound.old_mine, sound.kept⟩
  · rw [setFile_files]
    split
    · exact page
    · exact sound.pages there
  · rcases sound.off_live there with live | replaced | old
    · exact .inl live
    · rename_i p win' tab' off
      by_cases same : off.file = file
      · rcases sound.off_home there (same ▸ at_) with ⟨sameWin, sameTab⟩
        subst sameWin
        subst sameTab
        exact .inl (same ▸ at_)
      · rw [setFile_files, if_neg same]
        exact .inr (.inl replaced)
    · exact .inr (.inr old)

theorem Sound.setFile_old (sound : d.Sound keep) (old : d.old = some off) : (d.setFile off.file value).Sound keep := by
  refine ⟨sound.path_lt, sound.path_inj, fun there => ?_, sound.off_lt, sound.off_size, sound.off_home, fun there => ?_,
    sound.old_lt, sound.old_gone, sound.old_mine, sound.kept⟩
  · rw [setFile_files, if_neg fun same => sound.old_gone old (same ▸ there)]
    exact sound.pages there
  · rename_i p win' tab' off'
    by_cases same : off'.file = off.file
    · exact .inr (.inr ⟨off, old, same.symm⟩)
    · rw [setFile_files, if_neg same]
      exact sound.off_live there

theorem Sound.setMine (sound : d.Sound keep) (at_ : d.path win tab = some off.file) (size : off.tabSize ≠ 1) :
    (d.setMine win tab (some off)).Sound (also keep win tab) := by
  refine ⟨sound.path_lt, sound.path_inj, sound.pages, fun there => ?_, fun there => ?_, fun there home => ?_,
    fun there => ?_, sound.old_lt, sound.old_gone, fun old there => ?_, fun kept => ?_⟩
  · rw [setMine_tabs] at there
    split at there
    · cases there
      exact sound.path_lt at_
    · exact sound.off_lt there
  · rw [setMine_tabs] at there
    split at there
    · cases there
      exact size
    · exact sound.off_size there
  · rw [setMine_tabs] at there
    split at there
    · rename_i here
      cases there
      rw [here.2.1, here.2.2]
      exact sound.path_inj at_ home
    · exact sound.off_home there home
  · rw [setMine_tabs] at there
    split at there
    · rename_i here
      cases there
      rw [here.2.1, here.2.2]
      exact .inl at_
    · exact sound.off_live there
  · rw [setMine_mine] at there
    split at there
    · cases there
      exact fun same => sound.old_gone old (same ▸ at_)
    · exact sound.old_mine old there
  · rename_i win' tab'
    by_cases here : win' = win ∧ tab' = tab
    · rcases here with ⟨rfl, rfl⟩
      exact ⟨off, setMine_self, at_⟩
    · rcases sound.kept (kept.resolve_right here) with ⟨off', own, path⟩
      exact ⟨off', by rw [setMine_mine, if_neg here, own], path⟩

theorem Sound.creating (sound : d.Sound keep) (none_ : d.path win tab = none) : (d.creating win tab).Sound keep := by
  have path (win' : Fin 256) (tab' : Nat) : (d.creating win tab).path win' tab' =
      if win' = win ∧ tab' = tab then some d.nextFile else d.path win' tab' := setPath_path win' tab' _
  have files (other : Nat) (old : other < d.nextFile) :
      (d.creating win tab).files other = d.files other := Function.update_of_ne (Nat.ne_of_lt old) _ _
  have kept_path {win' : Fin 256} {tab' file : Nat} (there : d.path win' tab' = some file) :
      (d.creating win tab).path win' tab' = some file := by
    rw [path, if_neg]
    · exact there
    · rintro ⟨rfl, rfl⟩
      rw [none_] at there
      cases there
  have home_path {win' : Fin 256} {tab' file : Nat} (below : file < d.nextFile)
      (there : (d.creating win tab).path win' tab' = some file) : d.path win' tab' = some file := by
    rw [path] at there
    split at there
    · cases there
      omega
    · exact there
  refine ⟨fun {win' tab' file} there => ?_, fun {win1 tab1 win2 tab2 file} one two => ?_, fun there => ?_,
    fun there => Nat.lt_succ_of_lt (sound.off_lt there), sound.off_size,
    fun there home => sound.off_home there (home_path (sound.off_lt there) home), fun there => ?_,
    fun there => Nat.lt_succ_of_lt (sound.old_lt there),
    fun old there => sound.old_gone old (home_path (sound.old_lt old) there), sound.old_mine, fun kept => ?_⟩
  · change file < d.nextFile + 1
    rw [path] at there
    split at there
    · cases there
      omega
    · exact Nat.lt_succ_of_lt (sound.path_lt there)
  · rw [path] at one two
    split at one <;> split at two
    · rename_i here there
      exact ⟨there.1.trans here.1.symm, there.2.trans here.2.symm⟩
    · cases one
      exact absurd (sound.path_lt two) (Nat.lt_irrefl _)
    · cases two
      exact absurd (sound.path_lt one) (Nat.lt_irrefl _)
    · exact sound.path_inj one two
  · rw [path] at there
    split at there
    · cases there
      rw [creating_fresh]
      exact newTab_good.page
    · rw [files _ (sound.path_lt there)]
      exact sound.pages there
  · rw [files _ (sound.off_lt there)]
    rcases sound.off_live there with live | replaced
    · exact .inl (kept_path live)
    · exact .inr replaced
  · rcases sound.kept kept with ⟨off, own, at_⟩
    exact ⟨off, own, kept_path at_⟩

theorem Sound.unlinking (sound : d.Sound keep) (at_ : d.path win tab = some off.file) (none_ : d.old = none) : (d.unlinking win tab off).Sound fun win' tab' => keep win' tab' ∧ ¬(win' = win ∧ tab' = tab) := by
  have path {win' : Fin 256} {tab' file : Nat} (there : (d.unlinking win tab off).path win' tab' = some file) :
      d.path win' tab' = some file ∧ ¬(win' = win ∧ tab' = tab) := by
    rw [unlinking_path] at there
    split at there
    · cases there
    · rename_i elsewhere
      exact ⟨there, elsewhere⟩
  have tabs {p : Nat} {win' : Fin 256} {tab' : Nat} {other : Off}
      (there : (d.unlinking win tab off).tabs p win' tab' = some other) : d.tabs p win' tab' = some other := by
    have old : (d.unlinking win tab off).tabs p win' tab' =
      if p = d.me ∧ win' = win ∧ tab' = tab then none else d.tabs p win' tab' := setMine_tabs p win' tab'
    rw [old] at there
    split at there
    · cases there
    · exact there
  have mine {win' : Fin 256} {tab' : Nat} (elsewhere : ¬(win' = win ∧ tab' = tab)) :
      (d.unlinking win tab off).mine win' tab' = d.mine win' tab' := by
    change ((d.setPath win tab none).setMine win tab none).mine win' tab' = _
    rw [setMine_mine, if_neg elsewhere]
    rfl
  refine ⟨fun there => sound.path_lt (path there).1, fun one two => sound.path_inj (path one).1 (path two).1,
    fun there => sound.pages (path there).1, fun there => sound.off_lt (tabs there), fun there => sound.off_size (tabs there),
    fun there home => sound.off_home (tabs there) (path home).1, fun there => ?_, fun old => ?_, fun old there => ?_,
    fun old there => ?_, fun kept => ?_⟩
  · rename_i p win' tab' other
    rcases sound.off_live (tabs there) with live | replaced | ⟨old, isOld, _⟩
    · by_cases here : win' = win ∧ tab' = tab
      · rw [here.1, here.2, at_] at live
        exact .inr (.inr ⟨off, rfl, Option.some.inj live⟩)
      · refine .inl ?_
        rw [unlinking_path, if_neg here]
        exact live
    · exact .inr (.inl replaced)
    · rw [none_] at isOld
      cases isOld
  · cases old
    exact sound.path_lt at_
  · cases old
    exact (path there).2 (sound.path_inj at_ (path there).1)
  · cases old
    rename_i win' tab' other
    by_cases here : win' = win ∧ tab' = tab
    · rw [here.1, here.2, unlinking_mine] at there
      cases there
    · intro same
      rcases sound.off_home (tabs there) (same ▸ at_) with ⟨sameWin, sameTab⟩
      exact here ⟨sameWin.symm, sameTab.symm⟩
  · rcases kept with ⟨kept, elsewhere⟩
    rcases sound.kept kept with ⟨other, own', path'⟩
    refine ⟨other, (mine elsewhere).trans own', ?_⟩
    rw [unlinking_path, if_neg elsewhere]
    exact path'

theorem Sound.releasing (sound : d.Sound keep) (old : d.old = some off) : (d.releasing off).Sound keep := by
  have files (other : Nat) : (d.releasing off).files other =
      if other = off.file then { d.files off.file with tab := { (d.files off.file).tab with tabSize := 1 } }
      else d.files other := setFile_files other
  refine ⟨sound.path_lt, sound.path_inj, fun there => ?_, sound.off_lt, sound.off_size, sound.off_home, fun there => ?_,
    nofun, nofun, nofun, sound.kept⟩
  · rw [files, if_neg fun same => sound.old_gone old (same ▸ there)]
    exact sound.pages there
  · rcases sound.off_live there with live | replaced | ⟨other, isOld, same⟩
    · exact .inl live
    · refine .inr (.inl ?_)
      rw [files]
      split
      · rfl
      · exact replaced
    · rw [old] at isOld
      cases isOld
      refine .inr (.inl ?_)
      rw [files, if_pos same.symm]

end Changes

section Programs

variable {limit : Nat}

theorem modPage_page (bytes : Nat) : modPage bytes % 4096 = 0 := by
  unfold modPage
  omega

theorem page_mod (size : Nat) (page : size % 4096 = 0) : size % 2^32 % 4096 = 0 := by omega

theorem page_ne_one {size : Nat} (page : size % 4096 = 0) : size ≠ 1 := by
  rintro rfl
  exact absurd page (by decide)

theorem mmapAt_ends {Q : Unit → Disk → Prop} {len : Nat} (post : ∀ file, d.path win tab = some file →
    Q () (d.setMine win tab (some ⟨file, len, len % 2^32⟩))) : Ends limit (mmapAt win tab len) Q (fun _ _ => True) d := by
  unfold mmapAt
  apply ends_bind
  apply ends_get
  cases at_ : d.path win tab with
  | none => exact ends_stop trivial
  | some file =>
    apply ends_bind
    apply ends_check
    · intro _
      exact ends_modify (post file at_)
    · exact fun _ => trivial

theorem sizeAt_ends {Q : Nat → Disk → Prop} (post : ∀ file, d.path win tab = some file → Q (d.files file).size d) :
    Ends limit (sizeAt win tab) Q (fun _ _ => True) d := by
  unfold sizeAt
  apply ends_bind
  apply ends_get
  cases at_ : d.path win tab with
  | none => exact ends_stop trivial
  | some file => exact ends_pure (post file at_)

theorem touchLast_ends {Q : Unit → Disk → Prop} {size : Nat} (post : Q () d) :
    Ends limit (touchLast win tab size) Q (fun _ _ => True) d := by
  unfold touchLast
  apply ends_bind
  apply ends_get
  cases d.look (.tab win tab) with
  | none => exact ends_stop trivial
  | some view => exact ends_check (fun _ => post) fun _ => trivial

theorem Sound.mapFirst_ends (sound : d.Sound keep) :
    Ends limit (mapFirst win tab) (fun _ d' => d'.Sound (also keep win tab) ∧ d'.tables = d.tables) (fun _ _ => True) d := by
  apply ends_bind
  apply sizeAt_ends
  intro file at_
  have page := page_mod _ (sound.pages at_)
  apply ends_bind
  apply ends_check
  · intro _
    apply ends_bind
    apply mmapAt_ends
    intro file' at'
    rw [at_] at at'
    cases at'
    apply ends_bind
    apply ends_modify
    apply ends_modify
    exact ⟨(sound.setMine at_ (page_ne_one page)).counting, rfl⟩
  · exact fun _ => trivial

theorem Sound.initHeader_ends (sound : d.Sound keep) (own : d.mine win tab = some off) :
    Ends limit (initHeader win tab) (fun _ d' => d'.Sound keep ∧ d'.mine win tab = some off ∧
      (d'.tables = d.tables ∨ Headed win tab d.tables d'.tables)) (fun _ _ => True) d := by
  apply ends_after (headerAt_run own)
  apply ends_when
  · intro fresh
    apply ends_modify
    rcases sound.off_live own with live | replaced | ⟨old, isOld, same⟩
    · have page := sound.pages live
      simp only [store, offAt, own]
      refine ⟨sound.setFile_path live page, own, .inr ⟨d.files off.file, off.tabSize, dataOffset, ?_, ?_⟩⟩
      · change (d.path win tab).map d.files = _
        rw [live]
        rfl
      · exact tables_setFile_path sound live
    · rw [replaced] at fresh
      exact absurd fresh (by decide)
    · exact absurd same.symm (sound.old_mine isOld own)
  · intro _
    exact ⟨sound, own, .inl rfl⟩

theorem Sound.remap_ends (sound : d.Sound keep) (own : d.mine win tab = some off) :
    Ends limit (remap win tab) (fun _ d' => d'.Sound (also keep win tab) ∧ d'.tables = d.tables) (fun _ _ => True) d := by
  have current (used : (d.files off.file).tab.tabSize ≠ 1) : d.path win tab = some off.file := by
    rcases sound.off_live own with live | replaced | ⟨old, isOld, same⟩
    · exact live
    · exact absurd replaced used
    · exact absurd same.symm (sound.old_mine isOld own)
  apply ends_after (headerAt_run own)
  apply ends_when
  · intro differ
    apply ends_ite
    · intro _
      apply ends_bind
      apply sizeAt_ends
      intro file at_
      have page := page_mod _ (page_mod _ (sound.pages at_))
      apply ends_bind
      apply mmapAt_ends
      intro file' at'
      rw [at_] at at'
      cases at'
      apply ends_bind
      apply ends_modify
      apply touchLast_ends
      exact ⟨(sound.setMine at_ (page_ne_one page)).counting, rfl⟩
    · intro used
      apply ends_bind
      apply ends_check
      · intro _
        apply ends_bind
        apply ends_modify
        apply ends_bind
        apply ends_modify
        apply touchLast_ends
        have mapped := @Sound.setMine keep d win tab ⟨off.file, (d.files off.file).tab.tabSize,
          (d.files off.file).tab.tabSize⟩ sound (current used) used
        exact ⟨mapped.counting, rfl⟩
      · exact fun _ => trivial
  · intro same
    have used : (d.files off.file).tab.tabSize ≠ 1 := by
      rw [← not_not.mp same]
      exact sound.off_size own
    have mapped := sound.setMine (current used) (sound.off_size own)
    rw [setMine_same own] at mapped
    exact ⟨mapped, rfl⟩

theorem Sound.getTabMmap_ends (sound : d.Sound keep) : Ends limit (getTabMmap win tab)
    (fun _ d' => d'.Sound (also keep win tab) ∧ Headed win tab d.tables d'.tables) (fun _ _ => True) d := by
  have mapped {keep1 : Fin 256 → Nat → Prop} {d1 : Disk} {off : Off} (sound1 : d1.Sound keep1) (own : d1.mine win tab = some off) (same : d1.tables = d.tables) :
      Ends limit (do initHeader win tab; remap win tab)
        (fun _ d' => d'.Sound (also keep1 win tab) ∧ Headed win tab d.tables d'.tables) (fun _ _ => True) d1 := by
    apply ends_step (sound1.initHeader_ends own) fun _ _ _ => trivial
    rintro _ d2 ⟨sound2, own2, header⟩
    apply (sound2.remap_ends own2).mono _ fun _ _ _ => trivial
    rintro _ d3 ⟨sound3, same3⟩
    refine ⟨sound3, ?_⟩
    rw [same3, ← same]
    rcases header with unchanged | headed
    · rcases sound3.kept (.inr ⟨rfl, rfl⟩) with ⟨off3, _, path3⟩
      rw [unchanged]
      have there : d1.tables.table win tab = some (d3.files off3.file) := by
        rw [← unchanged, ← same3]
        change (d3.path win tab).map d3.files = _
        rw [path3]
        rfl
      exact Headed.refl there
    · exact headed
  unfold getTabMmap
  apply ends_bind
  apply ends_get
  apply ends_bind
  apply ends_check _ fun _ => trivial
  intro _
  apply ends_bind
  apply ends_when
  · intro _
    apply sound.mapFirst_ends.mono _ fun _ _ _ => trivial
    rintro _ d1 ⟨sound1, same1⟩
    rcases sound1.kept (.inr ⟨rfl, rfl⟩) with ⟨off1, own1, _⟩
    apply (mapped sound1 own1 same1).mono _ fun _ _ _ => trivial
    rintro _ d' ⟨sound', header⟩
    exact ⟨sound'.forget fun _ _ kept => .inl kept, header⟩
  · intro mine_
    rcases Option.ne_none_iff_exists'.mp (mt Option.isNone_iff_eq_none.mpr mine_) with ⟨off, own⟩
    exact mapped sound own rfl

theorem Sound.grow_ends {size : Nat} (sound : d.Sound keep) (at_ : d.path win tab = some file) (page : size % 4096 = 0) :
    Ends limit (grow win tab size) (fun _ d' => d'.Sound (also keep win tab) ∧ d'.tables = d.tables.set win tab
      (some (((d.files file).truncate size).headed (size % 2^32) (d.files file).tab.tabUsed))) (fun _ _ => True) d := by
  have trunc : d.truncateAt win tab size = d.setFile file ((d.files file).truncate size) := by
    simp only [truncateAt, at_]
  have written : (d.setFile file ((d.files file).truncate size)).Sound keep := sound.setFile_path at_ page
  unfold grow
  apply ends_bind
  apply ends_modify
  rw [trunc]
  apply ends_bind
  apply mmapAt_ends
  intro file' at'
  have same : file' = file := Option.some.inj (at'.symm.trans at_)
  subst same
  have mapped := @Sound.setMine keep _ win tab ⟨file', size, size % 2^32⟩ written at_ (page_ne_one (page_mod size page))
  generalize begin : ((d.setFile file' ((d.files file').truncate size)).setMine win tab
    (some ⟨file', size, size % 2^32⟩)) = d1 at mapped ⊢
  have own1 : d1.mine win tab = some ⟨file', size, size % 2^32⟩ := by
    rw [← begin]
    exact setMine_self
  have at1 : d1.path win tab = some file' := by
    rw [← begin]
    exact at_
  have file1 : d1.files file' = (d.files file').truncate size := by
    rw [← begin]
    exact Function.update_self _ _ _
  have tables1 : d1.tables = d.tables.set win tab (some ((d.files file').truncate size)) := by
    rw [← begin]
    exact tables_setFile_path sound at_
  apply ends_after (headerAt_run own1)
  apply ends_modify
  simp only [store, offAt, own1, file1]
  refine ⟨mapped.setFile_path at1 page, ?_⟩
  rw [tables_setFile_path mapped at1, tables1]
  exact Tables.setFile_setFile d.tables _ _ (.tab win tab)

theorem Sound.create_ends (sound : d.Sound keep) (none_ : d.path win tab = none) :
    Ends limit (create win tab) (fun _ d' => d'.Sound keep ∧
      d'.tables = d.tables.set win tab (some (Tables.resized none (modPage dataOffset)))) (fun _ _ => True) d :=
  ends_run (create_run none_) fun _ => ⟨sound.creating none_, creating_tables sound⟩

theorem unlinking_tables : (d.unlinking win tab off).tables =
    { d.tables.set win tab none with old := some (d.files off.file) } := by
  refine Tables.ext (funext fun win' => funext fun tab' => ?_) rfl
  change ((d.unlinking win tab off).path win' tab').map d.files = (d.tables.set win tab none).table win' tab'
  rw [unlinking_path, Tables.set_table]
  split
  · rfl
  · rfl

theorem Sound.replace_ends (sound : d.Sound keep) (known : keep win tab) (there : d.tables.table win tab = some value)
    (none_ : d.old = none) : Ends limit (replace win tab) (fun _ d' => d'.Sound keep ∧ ∃ tabSize tabUsed, d'.tables =
      { d.tables.set win tab (some ((Tables.resized none (modPage dataOffset)).headed tabSize tabUsed)) with
        old := some value }) (fun _ _ => True) d := by
  rcases sound.kept known with ⟨off, own, at_⟩
  have value_eq : d.files off.file = value := by
    change (d.path win tab).map d.files = some value at there
    rw [at_] at there
    exact Option.some.inj there
  have gone : (d.unlinking win tab off).path win tab = none := by rw [unlinking_path, if_pos ⟨rfl, rfl⟩]
  have unlinked := sound.unlinking at_ none_
  unfold replace
  apply ends_after (unlink_run own at_)
  apply ends_after (create_run gone)
  apply (unlinked.creating gone).getTabMmap_ends.mono _ fun _ _ _ => trivial
  rintro _ d' ⟨sound', file, tabSize, tabUsed, file_eq, tables⟩
  refine ⟨sound'.forget fun win' tab' kept => ?_, tabSize, tabUsed, ?_⟩
  · by_cases here : win' = win ∧ tab' = tab
    · exact .inr here
    · exact .inl ⟨kept, here⟩
  · rw [creating_tables unlinked, unlinking_tables, value_eq] at file_eq tables
    rw [Tables.set_table, if_pos ⟨rfl, rfl⟩] at file_eq
    rw [tables, ← Option.some.inj file_eq]
    refine Tables.ext (funext fun win' => funext fun tab' => ?_) rfl
    simp only [Tables.set_table]
    split
    · rfl
    · rfl

theorem Sound.release_ends (sound : d.Sound keep) :
    Ends limit release (fun _ d' => d'.Sound keep ∧ d'.tables = { d.tables with old := none }) (fun _ _ => True) d := by
  cases old : d.old with
  | none =>
    unfold release
    apply ends_bind
    apply ends_get
    rw [old]
    exact ends_stop trivial
  | some off => exact ends_run (release_run old) fun _ => ⟨sound.releasing old, releasing_tables sound old⟩

theorem initial_sound : Disk.initial.Sound fun _ _ => False := initial_coherent.sound

theorem Sound.switch {process : Nat} (sound : d.Sound keep) (none_ : d.old = none) :
    (Disk.switch process d).Sound fun _ _ => False := by
  refine ⟨sound.path_lt, sound.path_inj, sound.pages, sound.off_lt, sound.off_size, sound.off_home, sound.off_live,
    sound.old_lt, sound.old_gone, fun old => ?_, nofun⟩
  change d.old = _ at old
  rw [none_] at old
  cases old

end Programs

end Disk

end SharedHashFile.Store
