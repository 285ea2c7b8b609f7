import SharedHashFile.Store.CoherentChange

namespace SharedHashFile.Store

open ByteMemory Program

/-- What a mapping of files has to do to be as good as the code's own. -/
structure Faithful (m : Mapping Disk) : Prop where
  lowest : m.lowest = dataOffset
  look : m.look = Disk.look
  store : m.store = Disk.store
  getTabMmap : ∀ {keep d win tab file}, d.Coherent keep → d.path win tab = some file →
    ∃ d', m.getTabMmap win tab d = ⟨.ok (), d', 0⟩ ∧ (d.opening win tab file).Agrees d'
  beyond : ∀ {keep} {d : Disk} {win}, d.Coherent keep → ∃ d', m.getTabMmap win 2048 (d.creating win 2048) = ⟨.ok (), d', 0⟩ ∨
    m.getTabMmap win 2048 (d.creating win 2048) = ⟨.error .tabOverflow, d', 0⟩
  grow : m.grow = Disk.grow
  create : m.create = Disk.create
  replace : ∀ {keep d win tab off}, d.Coherent keep → keep win tab → d.mine win tab = some off →
    d.old = none → ∃ d', m.replace win tab d = ⟨.ok (), d', 0⟩ ∧ (d.replacing win tab off).Agrees d'
  release : m.release = Disk.release

/-- Where the tables of a state are; `old` tells whether a shrink is on the way. -/
structure Layout where
  tabs : Fin 256 → Fin 2048 → Nat
  used : Fin 256 → Nat
  present : Fin 256 → Nat → Bool
  old : Bool

def layout (t : State Tables) : Layout where
  tabs win := (t.shared.wins win).tabs
  used win := (t.shared.wins win).tabsUsed
  present win tab := (t.map.table win tab).isSome
  old := t.map.old.isSome

structure Layout.Numbered (L : Layout) : Prop where
  used_le : ∀ win, L.used win ≤ 2048
  tabs_lt : ∀ win tab2, L.tabs win tab2 < L.used win
  present_iff : ∀ win tab, L.present win tab = true ↔ tab < L.used win

/-- A process's view of the files against the tables themselves. -/
structure Tracks (keep : Fin 256 → Nat → Prop) (L : Layout) (s : State Disk) (t : State Tables) : Prop where
  shared : s.shared = t.shared
  coherent : s.map.Coherent keep
  tables : s.map.tables = t.map
  layout : layout t = L

def Known (keep : Fin 256 → Nat → Prop) : Ptr → Prop
  | .tab win tab => keep win tab
  | .old => True

def also (keep : Fin 256 → Nat → Prop) (win : Fin 256) (tab : Nat) : Fin 256 → Nat → Prop :=
  fun win' tab' => keep win' tab' ∨ win' = win ∧ tab' = tab

section Pointers

variable {keep : Fin 256 → Nat → Prop} {d : Disk} {ptr : Ptr}

theorem Disk.Coherent.look_eq (coherent : d.Coherent keep) (known : Known keep ptr) :
    d.look ptr = d.tables.look ptr := by
  cases ptr with
  | tab win tab =>
    obtain ⟨off, own, path, len, _, _⟩ := coherent.kept known
    simp only [Disk.look, Disk.offAt, own, Option.map_some, Tables.look, Tables.fileAt, Disk.tables, path, len,
      Nat.min_self]
  | old =>
    simp only [Disk.look, Disk.offAt, Tables.look, Tables.fileAt, Disk.tables]
    cases found : d.old with
    | none => rfl
    | some off => simp only [Option.map_some, coherent.old_len found, Nat.min_self]

theorem Disk.Coherent.look_good {win : Fin 256} {tab : Nat} {view : View} (coherent : d.Coherent keep)
    (known : keep win tab) (seen : d.look (.tab win tab) = some view) : GoodSize view.tab.tabSize := by
  obtain ⟨off, own, path, _, _, header⟩ := coherent.kept known
  simp only [Disk.look, Disk.offAt, own, Option.map_some, Option.some.injEq] at seen
  subst seen
  rw [header]
  exact (coherent.sizes path).1

theorem Disk.Coherent.store_both {view : View} {tab : Tab} (coherent : d.Coherent keep)
    (known : Known keep ptr) (seen : d.look ptr = some view) (header : tab.tabSize = view.tab.tabSize) :
    (d.store ptr tab).Coherent keep ∧ (d.store ptr tab).tables = d.tables.store ptr tab := by
  cases ptr with
  | tab win tab' =>
    obtain ⟨off, own, path, _, _, _⟩ := coherent.kept known
    simp only [Disk.look, Disk.offAt, own, Option.map_some, Option.some.injEq] at seen
    subst seen
    simp only [Disk.store, Disk.offAt, own]
    refine ⟨coherent.setFile rfl header, ?_⟩
    rw [Disk.tables_setFile_path coherent.sound path]
    simp only [Tables.store, Tables.fileAt, Disk.tables, path, Option.map_some, Tables.setFile]
  | old =>
    simp only [Disk.look, Disk.offAt] at seen
    cases found : d.old with
    | none => simp [found] at seen
    | some off =>
      simp only [found, Option.map_some, Option.some.injEq] at seen
      subst seen
      simp only [Disk.store, Disk.offAt, found]
      refine ⟨coherent.setFile rfl header, ?_⟩
      rw [Disk.tables_setFile_old coherent.sound found]
      simp only [Tables.store, Tables.fileAt, Disk.tables, found, Option.map_some, Tables.setFile]

theorem layout_store {t : State Tables} (tab : Tab) :
    layout { t with map := t.map.store ptr tab } = layout t := by
  unfold layout Tables.store
  cases ptr with
  | tab win tab' =>
    cases found : t.map.fileAt (.tab win tab') with
    | none => rfl
    | some file =>
      have present : (t.map.table win tab').isSome = true := by
        change (t.map.fileAt (.tab win tab')).isSome = true
        rw [found]
        rfl
      simp only [Tables.setFile, Tables.set_old, Tables.set_table, Layout.mk.injEq, true_and, and_true]
      funext win' tab''
      split
      · rename_i here
        rw [here.1, here.2, present]
        rfl
      · rfl
  | old =>
    cases found : t.map.fileAt .old with
    | none => rfl
    | some file =>
      have present : t.map.old.isSome = true := by
        change (t.map.fileAt .old).isSome = true
        rw [found]
        rfl
      simp only [Tables.setFile, present, Option.isSome_some]

end Pointers

section Primitives

variable {limit : Nat} {α : Type} {s : State Disk} {t : State Tables}

theorem onMap_simulates {x : Program Stop Disk α} {y : Program Stop Tables α}
    {R : α → State Disk → State Tables → Prop}
    (simulates : Simulates limit x y (fun a d T => R a { s with map := d } { t with map := T }) s.map t.map) :
    Simulates limit (onMap x) (onMap y) R s t := simulates

theorem onShared_simulates {x : Program Stop Shared α} {R : α → State Disk → State Tables → Prop}
    (same : s.shared = t.shared) (post : ∀ a, (x t.shared).value = .ok a →
      R a { s with shared := (x t.shared).state } { t with shared := (x t.shared).state }) :
    Simulates limit (onShared x) (onShared x) R s t := by
  intro _
  simp only [onShared, zoom, same]
  exact ⟨trivial, trivial, post⟩

variable {m : Mapping Disk} {keep : Fin 256 → Nat → Prop} {L : Layout} {ptr : Ptr} {win : Fin 256} {tab : Nat}

theorem Tracks.withShared {shared : Shared} (tracks : Tracks keep L s t)
    (tabs : ∀ win, (shared.wins win).tabs = (t.shared.wins win).tabs)
    (used : ∀ win, (shared.wins win).tabsUsed = (t.shared.wins win).tabsUsed) :
    Tracks keep L { s with shared := shared } { t with shared := shared } := by
  refine ⟨rfl, tracks.coherent, tracks.tables, ?_⟩
  rw [← tracks.layout]
  unfold Store.layout
  simp only [tabs, used]

theorem getTls_simulates (tracks : Tracks keep L s t) :
    Simulates limit getTls getTls (fun _ => Tracks keep L) s t :=
  onShared_simulates tracks.shared fun _ _ => tracks.withShared (fun _ => rfl) fun _ => rfl

theorem modifyTls_simulates {f : Tls → Tls} (tracks : Tracks keep L s t) :
    Simulates limit (modifyTls f) (modifyTls f) (fun _ => Tracks keep L) s t :=
  onShared_simulates tracks.shared fun _ _ => tracks.withShared (fun _ => rfl) fun _ => rfl

theorem getWin_simulates (tracks : Tracks keep L s t) : Simulates limit (getWin win) (getWin win)
    (fun w s t => Tracks keep L s t ∧ w.tabs = L.tabs win ∧ w.tabsUsed = L.used win) s t := by
  refine onShared_simulates tracks.shared fun w found => ?_
  cases found
  refine ⟨tracks.withShared (fun _ => rfl) fun _ => rfl, ?_⟩
  rw [← tracks.layout]
  exact ⟨rfl, rfl⟩

theorem vfsAvailable_simulates (tracks : Tracks keep L s t) :
    Simulates limit vfsAvailable vfsAvailable (fun _ => Tracks keep L) s t :=
  onShared_simulates tracks.shared fun _ _ => tracks.withShared (fun _ => rfl) fun _ => rfl

theorem modifyWin_simulates {f : Win → Win} (tracks : Tracks keep L s t) (tabs : ∀ w, (f w).tabs = w.tabs)
    (used : ∀ w, (f w).tabsUsed = w.tabsUsed) :
    Simulates limit (modifyWin win f) (modifyWin win f) (fun _ => Tracks keep L) s t := by
  refine onShared_simulates tracks.shared fun _ _ => tracks.withShared (fun win' => ?_) fun win' => ?_
  · change (Function.update t.shared.wins win (f (t.shared.wins win)) win').tabs = _
    rw [Function.update_apply]
    split
    · rename_i here
      rw [here, tabs]
    · rfl
  · change (Function.update t.shared.wins win (f (t.shared.wins win)) win').tabsUsed = _
    rw [Function.update_apply]
    split
    · rename_i here
      rw [here, used]
    · rfl

theorem check_simulates {condition : Prop} [Decidable condition] {e : Stop} (tracks : Tracks keep L s t) :
    Simulates limit (check condition e) (check condition e) (fun _ s t => Tracks keep L s t ∧ condition) s t :=
  simulates_check fun holds => ⟨tracks, holds⟩

theorem ask_simulates {size : Nat} (tracks : Tracks keep L s t) :
    Simulates limit (ask size : Operation Disk Unit) (ask size : Operation Tables Unit)
      (fun _ s t => Tracks keep L s t ∧ size < limit) s t :=
  simulates_ask fun below => ⟨tracks, below⟩

theorem when_simulates {condition : Prop} [Decidable condition] {x : Operation Disk Unit}
    {y : Operation Tables Unit} (tracks : Tracks keep L s t)
    (yes : condition → Simulates limit x y (fun _ => Tracks keep L) s t) :
    Simulates limit (when condition x) (when condition y) (fun _ => Tracks keep L) s t :=
  simulates_when yes fun _ => tracks

variable (faithful : Faithful m) (tracks : Tracks keep L s t)

section Access

variable (known : Known keep ptr)
include faithful tracks known

theorem viewAt_simulates : Simulates limit (viewAt m ptr) (viewAt direct ptr)
    (fun view s' t' => s' = s ∧ t' = t ∧ s.map.look ptr = some view) s t := by
  refine onMap_simulates ?_
  intro _
  have same : m.look s.map ptr = direct.look t.map ptr := by
    rw [faithful.look, tracks.coherent.look_eq known, tracks.tables]
    rfl
  have own : direct.look t.map ptr = s.map.look ptr := by rw [← same, faithful.look]
  beta_reduce
  rw [same]
  cases found : direct.look t.map ptr with
  | none => exact ⟨rfl, rfl, nofun⟩
  | some view =>
    simp only
    split
    · refine ⟨rfl, rfl, fun a ok => ?_⟩
      cases ok
      exact ⟨rfl, rfl, own.symm.trans found⟩
    · exact ⟨rfl, rfl, nofun⟩

theorem tabAt_simulates : Simulates limit (tabAt m ptr) (tabAt direct ptr)
    (fun tab s' t' => s' = s ∧ t' = t ∧ ∃ view, s.map.look ptr = some view ∧ view.tab = tab) s t := by
  refine simulates_bind (viewAt_simulates faithful tracks known) ?_
  rintro view _ _ ⟨rfl, rfl, seen⟩
  exact simulates_pure ⟨rfl, rfl, view, seen, rfl⟩

theorem modifyTab_simulates {f : Tab → Tab} (header : ∀ tab, (f tab).tabSize = tab.tabSize) :
    Simulates limit (modifyTab m ptr f) (modifyTab direct ptr f) (fun _ => Tracks keep L) s t := by
  refine simulates_bind (viewAt_simulates faithful tracks known) ?_
  rintro view _ _ ⟨rfl, rfl, seen⟩
  refine onMap_simulates (simulates_modify ?_)
  obtain ⟨coherent, tables⟩ := tracks.coherent.store_both known seen (header view.tab)
  rw [faithful.store]
  refine ⟨tracks.shared, coherent, ?_, ?_⟩
  · rw [tables, tracks.tables]
    rfl
  · rw [← tracks.layout]
    exact layout_store _

theorem access_simulates {off len : Nat} : Simulates limit (access m ptr off len) (access direct ptr off len)
    (fun _ s t => Tracks keep L s t ∧ (len = 0 ∨ dataOffset ≤ off)) s t := by
  unfold access
  rw [faithful.lowest]
  refine simulates_bind (viewAt_simulates faithful tracks known) ?_
  rintro view _ _ ⟨rfl, rfl, _⟩
  refine simulates_bind (check_simulates tracks) ?_
  rintro _ s t ⟨tracks, above⟩
  exact simulates_check fun _ => ⟨tracks, above⟩

theorem readMem_simulates {off len : Nat} :
    Simulates limit (readMem m ptr off len) (readMem direct ptr off len) (fun _ => Tracks keep L) s t := by
  refine simulates_bind (access_simulates faithful tracks known) ?_
  rintro _ s t ⟨tracks, _⟩
  refine simulates_bind (tabAt_simulates faithful tracks known) ?_
  rintro tab _ _ ⟨rfl, rfl, _⟩
  exact simulates_pure tracks

theorem writeMem_simulates {off : Nat} {bytes : List UInt8} : Simulates limit (writeMem m ptr off bytes)
    (writeMem direct ptr off bytes) (fun _ => Tracks keep L) s t := by
  refine simulates_bind (access_simulates faithful tracks known) ?_
  rintro _ s t ⟨tracks, above⟩
  refine modifyTab_simulates faithful tracks known fun tab => ?_
  rw [Tab.writeBytes_data above]

theorem readU32_simulates {off : Nat} :
    Simulates limit (readU32 m ptr off) (readU32 direct ptr off) (fun _ => Tracks keep L) s t :=
  simulates_bind (readMem_simulates faithful tracks known) fun _ _ _ tracks => simulates_pure tracks

theorem writeVal_simulates {off : Nat} {val : PutVal} : Simulates limit (writeVal m ptr off val)
    (writeVal direct ptr off val) (fun _ => Tracks keep L) s t := by
  cases val with
  | copy bytes => exact writeMem_simulates faithful tracks known
  | reserve len => exact simulates_pure tracks

end Access

end Primitives

section Files

variable {limit : Nat} {m : Mapping Disk} {keep : Fin 256 → Nat → Prop} {L : Layout} {s : State Disk}
  {t : State Tables} {win : Fin 256} {tab : Nat}

theorem Tracks.path (tracks : Tracks keep L s t) (present : L.present win tab = true) :
    ∃ file, s.map.path win tab = some file := by
  rw [← tracks.layout] at present
  change (t.map.table win tab).isSome = true at present
  rw [← tracks.tables] at present
  change ((s.map.path win tab).map s.map.files).isSome = true at present
  rw [Option.isSome_map, Option.isSome_iff_exists] at present
  exact present

theorem Tracks.no_path (tracks : Tracks keep L s t) (absent : L.present win tab = false) :
    s.map.path win tab = none := by
  rw [← tracks.layout] at absent
  change (t.map.table win tab).isSome = false at absent
  rw [← tracks.tables] at absent
  change ((s.map.path win tab).map s.map.files).isSome = false at absent
  rw [Option.isSome_map] at absent
  exact Option.isSome_eq_false_iff.mp absent |> Option.isNone_iff_eq_none.mp

theorem Tracks.table (tracks : Tracks keep L s t) {file : Nat} (path : s.map.path win tab = some file) :
    t.map.table win tab = some (s.map.files file) := by
  rw [← tracks.tables]
  change (s.map.path win tab).map s.map.files = _
  rw [path, Option.map_some]

theorem Tracks.present (tracks : Tracks keep L s t) (known : keep win tab) : L.present win tab = true := by
  obtain ⟨off, _, path, _⟩ := tracks.coherent.kept known
  rw [← tracks.layout]
  change (t.map.table win tab).isSome = true
  rw [tracks.table path]
  rfl

theorem Tracks.old_none (tracks : Tracks keep L s t) (none_ : L.old = false) : s.map.old = none := by
  rw [← tracks.layout] at none_
  change t.map.old.isSome = false at none_
  rw [← tracks.tables] at none_
  change (s.map.old.map _).isSome = false at none_
  rw [Option.isSome_map] at none_
  exact Option.isNone_iff_eq_none.mp (Option.isSome_eq_false_iff.mp none_)

theorem Tracks.old_some (tracks : Tracks keep L s t) (some_ : L.old = true) : ∃ off, s.map.old = some off := by
  rw [← tracks.layout] at some_
  change t.map.old.isSome = true at some_
  rw [← tracks.tables] at some_
  change (s.map.old.map _).isSome = true at some_
  rw [Option.isSome_map] at some_
  exact Option.isSome_iff_exists.mp some_

theorem Tracks.forget {keep' : Fin 256 → Nat → Prop} (tracks : Tracks keep L s t)
    (fewer : ∀ win tab, keep' win tab → keep win tab) : Tracks keep' L s t :=
  ⟨tracks.shared, tracks.coherent.forget fewer, tracks.tables, tracks.layout⟩

def Layout.adding (L : Layout) (win : Fin 256) (tab : Nat) : Layout :=
  { L with present := fun win' tab' => if win' = win ∧ tab' = tab then true else L.present win' tab' }

theorem layout_set (file : File) : layout { t with map := t.map.set win tab (some file) } =
    (layout t).adding win tab := by
  simp only [layout, Layout.adding, Tables.set_table, Tables.set_old, Layout.mk.injEq, true_and, and_true]
  funext win' tab'
  split <;> rfl

theorem Layout.adding_present (present : L.present win tab = true) : L.adding win tab = L := by
  unfold Layout.adding
  congr 1
  funext win' tab'
  split
  · rename_i here
    rw [here.1, here.2, present]
  · rfl

variable (faithful : Faithful m) (tracks : Tracks keep L s t)
include faithful tracks

theorem getTabMmap_simulates (present : L.present win tab = true) :
    Simulates limit (onMap (m.getTabMmap win tab)) (onMap (direct.getTabMmap win tab))
      (fun _ => Tracks (also keep win tab) L) s t := by
  obtain ⟨file, path⟩ := tracks.path present
  obtain ⟨d', run, a, b, c, rfl⟩ := faithful.getTabMmap tracks.coherent path
  have run' : direct.getTabMmap win tab t.map =
      ⟨.ok (), t.map.set win tab (some (Tables.opened (s.map.files file))), 0⟩ := by
    change Tables.getTabMmap win tab t.map = _
    rw [Tables.getTabMmap, bind_ok (get_run _)]
    simp only [tracks.table path]
    rfl
  refine onMap_simulates (simulates_run run run' ?_)
  refine ⟨tracks.shared, (tracks.coherent.opening path).counting, ?_, ?_⟩
  · rw [Disk.counting_tables, Disk.opening, Disk.renewing_tables tracks.coherent path, tracks.tables]
  · rw [layout_set, tracks.layout, Layout.adding_present present]

theorem grow_simulates {size : Nat} (known : keep win tab) (good : GoodSize size) :
    Simulates limit (onMap (m.grow win tab size)) (onMap (direct.grow win tab size))
      (fun _ => Tracks keep L) s t := by
  have low := good.low
  obtain ⟨off, _, path, _⟩ := tracks.coherent.kept known
  have run := Disk.grow_run path good
  have run' : direct.grow win tab size t.map =
      ⟨.ok (), t.map.set win tab (some (Disk.grown (s.map.files off.file) size)), 0⟩ := by
    change Tables.grow win tab size t.map = _
    rw [Tables.grow, bind_ok (get_run _), bind_ok (check_true (by omega) _ _)]
    simp only [tracks.table path, Tables.resized, Option.getD_some, good.mod_eq]
    rfl
  rw [faithful.grow]
  refine onMap_simulates (simulates_run run run' ⟨tracks.shared, ?_, ?_, ?_⟩)
  · exact (tracks.coherent.growing path good).forget fun _ _ => .inl
  · rw [Disk.renewing_tables tracks.coherent path, tracks.tables]
  · rw [layout_set, tracks.layout, Layout.adding_present (tracks.present known)]

theorem create_simulates (absent : L.present win tab = false) (small : tab < 2048) :
    Simulates limit (onMap (m.create win tab)) (onMap (direct.create win tab))
      (fun _ => Tracks keep (L.adding win tab)) s t := by
  have path := tracks.no_path absent
  have run' : direct.create win tab t.map =
      ⟨.ok (), t.map.set win tab (some (Tables.resized none (modPage dataOffset))), 0⟩ := by
    change Tables.create win tab t.map = _
    have none_ : t.map.table win tab = none := by
      rw [← tracks.tables]
      change (s.map.path win tab).map s.map.files = none
      rw [path, Option.map_none]
    rw [Tables.create, modify_run, none_]
  rw [faithful.create]
  refine onMap_simulates (simulates_run (Disk.create_run path) run' ⟨tracks.shared, ?_, ?_, ?_⟩)
  · exact tracks.coherent.creating path small
  · rw [Disk.creating_tables tracks.coherent.sound, tracks.tables]
  · rw [layout_set, tracks.layout]

theorem replace_simulates (known : keep win tab) (none_ : L.old = false) :
    Simulates limit (onMap (m.replace win tab)) (onMap (direct.replace win tab))
      (fun _ => Tracks keep { L with old := true }) s t := by
  obtain ⟨off, own, path, _⟩ := tracks.coherent.kept known
  obtain ⟨d', run, a, b, c, rfl⟩ := faithful.replace tracks.coherent known own (tracks.old_none none_)
  have run' : direct.replace win tab t.map = ⟨.ok (), { t.map.set win tab
      (some Tables.newTable) with old := some (s.map.files off.file) }, 0⟩ := by
    change Tables.replace win tab t.map = _
    rw [Tables.replace, bind_ok (get_run _)]
    simp only [tracks.table path]
    rfl
  refine onMap_simulates (simulates_run run run' ⟨tracks.shared, ?_, ?_, ?_⟩)
  · exact (tracks.coherent.replacing known own (tracks.old_none none_)).counting
  · rw [Disk.counting_tables, Disk.replacing_tables tracks.coherent (tracks.coherent.path_lt path),
      tracks.tables]
  · have same := @layout_set t win tab Tables.newTable
    rw [tracks.layout, Layout.adding_present (tracks.present known)] at same
    rw [← same]
    rfl

theorem release_simulates (some_ : L.old = true) : Simulates limit (onMap m.release) (onMap direct.release)
    (fun _ => Tracks keep { L with old := false }) s t := by
  obtain ⟨off, old⟩ := tracks.old_some some_
  have run' : direct.release t.map = ⟨.ok (), { t.map with old := none }, 0⟩ := by
    have there : t.map.old = some (s.map.files off.file) := by
      rw [← tracks.tables]
      change s.map.old.map _ = _
      rw [old, Option.map_some]
    change Tables.release t.map = _
    rw [Tables.release, bind_ok (get_run _)]
    simp only [there]
    rfl
  rw [faithful.release]
  refine onMap_simulates (simulates_run (Disk.release_run old) run' ⟨tracks.shared, ?_, ?_, ?_⟩)
  · exact tracks.coherent.releasing old
  · rw [Disk.releasing_tables tracks.coherent.sound old, tracks.tables]
  · rw [← tracks.layout]
    rfl

end Files

end SharedHashFile.Store
