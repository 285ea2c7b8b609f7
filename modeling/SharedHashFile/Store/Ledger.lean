import SharedHashFile.Store.Sound

namespace SharedHashFile.Store

open ByteMemory Program

/-- A table whose header tells its size, and whose used part lies within. -/
structure Fit (file : File) : Prop where
  size : GoodSize file.size
  header : file.tab.tabSize = file.size
  used_low : dataOffset ≤ file.tab.tabUsed
  used_high : file.tab.tabUsed ≤ file.size

theorem Fit.of_eq {file file' : File} (fit : Fit file) (size : file'.size = file.size)
    (header : file'.tab.tabSize = file.tab.tabSize) (used : file'.tab.tabUsed = file.tab.tabUsed) : Fit file' := by
  rcases fit with ⟨good, same, low, high⟩
  refine ⟨?_, ?_, ?_, ?_⟩
  · rw [size]
    exact good
  · rw [header, size, same]
  · rw [used]
    exact low
  · rw [used, size]
    exact high

def freshFile : File := Tables.resized none (modPage dataOffset)

def Seen (keep : Fin 256 → Nat → Prop) : Ptr → Prop
  | .tab win tab => keep win tab
  | .old => True

/-- What the tables behind a mapping are, whatever data is in them. `sized` says that their sizes are known too, which
    they are while no size reaches the limit. -/
structure Ledger {μ : Type} (m : Mapping μ) (limit : Nat) where
  lowest : m.lowest = dataOffset
  tables : μ → Tables
  Known : (Fin 256 → Nat → Prop) → μ → Prop
  /-- what `SHF_GET_TAB_MMAP` may make of a table -/
  Opens : File → File → Prop
  switch : Nat → μ → μ
  sized : Prop
  sized_limit : sized → limit ≤ sizeLimit
  forget : ∀ {keep keep' M}, Known keep M → (∀ win tab, keep' win tab → keep win tab) → Known keep' M
  opens_headed : ∀ {file file'}, Opens file file' → ∃ tabSize tabUsed, file' = file.headed tabSize tabUsed
  opens_fit : sized → ∀ {file file'}, Opens file file' → Fit file ∨ file = freshFile → Fit file'
  getTabMmap_ends : ∀ {keep M win tab file}, Known keep M → (tables M).table win tab = some file →
    Ends limit (m.getTabMmap win tab) (fun _ M' => Known (also keep win tab) M' ∧ ∃ file', Opens file file' ∧
      tables M' = (tables M).set win tab (some file')) (fun e _ => e = .internal → ¬ sized) M
  look_tab : ∀ {keep M ptr view file}, Known keep M → Seen keep ptr → (tables M).fileAt ptr = some file →
    m.look M ptr = some view → view.tab = file.tab
  store_known : ∀ {keep M ptr file} (tab : Tab), Known keep M → Seen keep ptr → (tables M).fileAt ptr = some file →
    Known keep (m.store M ptr tab) ∧ tables (m.store M ptr tab) = (tables M).setFile { file with tab := tab } ptr
  grow_ends : ∀ {keep M win tab file size}, Known keep M → keep win tab → (tables M).table win tab = some file →
    size % 4096 = 0 → (sized → size ≠ 0) → Ends limit (m.grow win tab size) (fun _ M' => Known keep M' ∧
      tables M' = (tables M).set win tab (some ((file.truncate size).headed (size % 2^32) file.tab.tabUsed)))
      (fun e _ => e = .internal → ¬ sized) M
  create_ends : ∀ {keep M win tab}, Known keep M → (tables M).table win tab = none →
    Ends limit (m.create win tab) (fun _ M' => Known keep M' ∧ tables M' = (tables M).set win tab (some freshFile))
      (fun e _ => e = .internal → ¬ sized) M
  replace_ends : ∀ {keep M win tab file}, Known keep M → keep win tab → (tables M).table win tab = some file →
    (tables M).old = none → Ends limit (m.replace win tab) (fun _ M' => Known keep M' ∧ ∃ file', Opens freshFile file' ∧
      tables M' = { (tables M).set win tab (some file') with old := some file }) (fun e _ => e = .internal → ¬ sized) M
  release_ends : ∀ {keep M}, Known keep M → Ends limit m.release
    (fun _ M' => Known keep M' ∧ tables M' = { tables M with old := none }) (fun e _ => e ≠ .internal) M
  switch_known : ∀ {keep M}, Known keep M → (tables M).old = none → ∀ process,
    Known (fun _ _ => False) (switch process M) ∧ tables (switch process M) = tables M

section Instances

variable {limit : Nat}

theorem Disk.Sound.path_of {keep : Fin 256 → Nat → Prop} {d : Disk} {win : Fin 256} {tab : Nat} {file : File}
    (sound : d.Sound keep) (known : keep win tab) (there : d.tables.table win tab = some file) :
    ∃ off, d.mine win tab = some off ∧ d.path win tab = some off.file ∧ d.files off.file = file := by
  rcases sound.kept known with ⟨off, own, at_⟩
  change (d.path win tab).map d.files = some file at there
  rw [at_] at there
  exact ⟨off, own, at_, Option.some.inj there⟩

theorem Disk.tables_old {d : Disk} {file : File} (there : d.tables.old = some file) :
    ∃ off, d.old = some off ∧ d.files off.file = file := by
  change d.old.map _ = some file at there
  cases old : d.old with
  | none =>
    rw [old] at there
    cases there
  | some off =>
    rw [old] at there
    exact ⟨off, rfl, Option.some.inj there⟩

theorem Disk.Sound.look_tab {keep : Fin 256 → Nat → Prop} {d : Disk} {ptr : Ptr} {view : View} {file : File}
    (sound : d.Sound keep) (seen : Seen keep ptr) (there : d.tables.fileAt ptr = some file)
    (looked : d.look ptr = some view) : view.tab = file.tab := by
  cases ptr with
  | tab win tab =>
    rcases sound.path_of seen there with ⟨off, own, _, rfl⟩
    change (d.mine win tab).map _ = _ at looked
    rw [own] at looked
    cases looked
    rfl
  | old =>
    rcases Disk.tables_old there with ⟨off, old, rfl⟩
    change d.old.map _ = _ at looked
    rw [old] at looked
    cases looked
    rfl

theorem Disk.Sound.store_known {keep : Fin 256 → Nat → Prop} {d : Disk} {ptr : Ptr} {file : File} (tab : Tab)
    (sound : d.Sound keep) (seen : Seen keep ptr) (there : d.tables.fileAt ptr = some file) :
    (d.store ptr tab).Sound keep ∧ (d.store ptr tab).tables = d.tables.setFile { file with tab := tab } ptr := by
  cases ptr with
  | tab win tab' =>
    rcases sound.path_of seen there with ⟨off, own, at_, rfl⟩
    simp only [Disk.store, Disk.offAt, own]
    exact ⟨sound.setFile_path at_ (sound.pages at_), Disk.tables_setFile_path sound at_⟩
  | old =>
    rcases Disk.tables_old there with ⟨off, old, rfl⟩
    simp only [Disk.store, Disk.offAt, old]
    exact ⟨sound.setFile_old old, Disk.tables_setFile_old sound old⟩

/-- The files at the paths, whatever their sizes are. -/
def mappedLedger (limit : Nat) : Ledger mapped.guarded limit where
  lowest := rfl
  tables := Disk.tables
  Known keep d := d.Sound keep
  Opens file file' := ∃ tabSize tabUsed, file' = file.headed tabSize tabUsed
  switch := Disk.switch
  sized := False
  sized_limit := False.elim
  forget sound fewer := sound.forget fewer
  opens_headed := id
  opens_fit := False.elim
  getTabMmap_ends sound there := by
    apply (Disk.Sound.getTabMmap_ends sound).mono _ fun _ _ _ _ => id
    rintro _ d' ⟨sound', file, tabSize, tabUsed, file_eq, tables⟩
    rw [there] at file_eq
    cases file_eq
    exact ⟨sound', _, ⟨tabSize, tabUsed, rfl⟩, tables⟩
  look_tab sound seen there looked := sound.look_tab seen there looked
  store_known tab sound seen there := sound.store_known tab seen there
  grow_ends sound known there page _ := by
    rcases sound.path_of known there with ⟨off, _, at_, rfl⟩
    apply (sound.grow_ends at_ page).mono _ fun _ _ _ _ => id
    rintro _ d' ⟨sound', tables⟩
    exact ⟨sound'.forget fun _ _ kept => .inl kept, tables⟩
  create_ends {keep d win tab} sound none_ := by
    have free : d.path win tab = none := Option.map_eq_none_iff.mp none_
    exact (sound.create_ends free).mono (fun _ _ done => done) fun _ _ _ _ => id
  replace_ends {keep d win tab file} sound known there none_ := by
    have free : d.old = none := Option.map_eq_none_iff.mp none_
    apply (sound.replace_ends known there free).mono _ fun _ _ _ _ => id
    rintro _ d' ⟨sound', tabSize, tabUsed, tables⟩
    exact ⟨sound', _, ⟨tabSize, tabUsed, rfl⟩, tables⟩
  release_ends {keep d} sound := by
    cases old : d.old with
    | none =>
      apply ends_bind
      apply ends_get
      rw [old]
      exact ends_stop nofun
    | some off => exact ends_run (Disk.release_run old) fun _ => ⟨sound.releasing old, Disk.releasing_tables sound old⟩
  switch_known {keep d} sound none_ process := ⟨sound.switch (Option.map_eq_none_iff.mp none_), rfl⟩

theorem opened_headed (file : File) : ∃ tabSize tabUsed, Tables.opened file = file.headed tabSize tabUsed := by
  unfold Tables.opened
  split
  · exact ⟨_, _, rfl⟩
  · exact ⟨file.tab.tabSize, file.tab.tabUsed, rfl⟩

theorem opened_fresh_fit : Fit (Tables.opened freshFile) := by
  have size : (Tables.opened freshFile).size = modPage dataOffset := rfl
  refine ⟨size ▸ newTab_good, ?_, ?_, ?_⟩
  · rfl
  · exact Nat.le_refl _
  · rw [size]
    decide

theorem Fit.opened {file : File} (fit : Fit file) : Tables.opened file = file := by
  have low := fit.size.low
  have header := fit.header
  unfold Tables.opened
  rw [if_neg]
  omega

/-- The tables themselves, within the 32-bit limits. -/
def directLedger (limit : Nat) (limit_le : limit ≤ sizeLimit) : Ledger direct limit where
  lowest := rfl
  tables := id
  Known _ _ := True
  Opens file file' := file' = Tables.opened file
  switch _ T := T
  sized := True
  sized_limit _ := limit_le
  forget _ _ := trivial
  opens_headed {file file'} same := same ▸ opened_headed file
  opens_fit _ {file file'} same fits := by
    subst same
    rcases fits with fit | rfl
    · rw [fit.opened]
      exact fit
    · exact opened_fresh_fit
  getTabMmap_ends _ there := by
    apply ends_bind
    apply ends_get
    change _ = some _ at there
    simp only [id] at there
    rw [there]
    exact ends_modify ⟨trivial, _, rfl, rfl⟩
  look_tab {keep T ptr view file} _ _ there looked := by
    change (T.fileAt ptr).map _ = _ at looked
    change T.fileAt ptr = _ at there
    rw [there] at looked
    cases looked
    rfl
  store_known {keep T ptr file} tab _ _ there := by
    change T.fileAt ptr = _ at there
    change True ∧ T.store ptr tab = T.setFile { file with tab := tab } ptr
    unfold Tables.store
    rw [there]
    exact ⟨trivial, rfl⟩
  grow_ends {keep T win tab file size} _ _ there _ positive := by
    change T.table win tab = _ at there
    apply ends_bind
    apply ends_get
    apply ends_bind
    apply ends_check
    · intro _
      apply ends_modify
      rw [there]
      exact ⟨trivial, rfl⟩
    · exact fun zero => absurd (positive trivial) zero
  create_ends {keep T win tab} _ none_ := by
    change T.table win tab = _ at none_
    apply ends_modify
    rw [none_]
    exact ⟨trivial, rfl⟩
  replace_ends {keep T win tab file} _ _ there _ := by
    change T.table win tab = _ at there
    apply ends_bind
    apply ends_get
    rw [there]
    exact ends_modify ⟨trivial, _, rfl, rfl⟩
  release_ends {keep T} _ := by
    apply ends_bind
    apply ends_get
    cases T.old with
    | none => exact ends_stop nofun
    | some file => exact ends_modify ⟨trivial, rfl⟩
  switch_known _ _ _ := ⟨trivial, rfl⟩

end Instances

end SharedHashFile.Store
