import SharedHashFile.Store.Garbage
import SharedHashFile.Store.ReaderDiscipline

namespace SharedHashFile.Store

open Program

section Storing

variable {μ : Type} (m : Mapping μ) (cfg : Config)

/-- `shf_put_key_val` from `SHF_GET_TAB_MMAP` to its check for a shrink: the ref, and the table as the check sees it. -/
def storeRecord (tls : Tls) (tab : Nat) (val : PutVal) : Operation μ (Option (Fin 16 × Tab)) := do
  let slot := tls.hash.slot 0
  onMap (m.getTabMmap slot.win tab)
  let t ← tabAt m (.tab slot.win tab)
  match firstFree (t.row slot.row) with
  | some ref => do
    let pos ← tabAppend m cfg slot.win tab tls.hashKey val t.tabUsed
    modifyTab m (.tab slot.win tab) fun t => t.setRef slot.row ref ⟨slot.tab, tls.hash.rnd, pos⟩
    let t ← tabAt m (.tab slot.win tab)
    pure (some (ref, t))
  | none => pure none

/-- The rest of `shf_put_key_val`. -/
def afterStore (tls : Tls) (tab : Nat) : Option (Fin 16 × Tab) → Operation μ Bool
  | some (ref, t) => do
    when t.Shrinks (tabShrink m cfg (tls.hash.slot 0).win tab)
    modifyTls fun tls' => { tls' with uid := { tls.hash.slot 0 with ref := ref }.uid }
    pure true
  | none => do
    tabPart m cfg (tls.hash.slot 0).win tab
    pure false

theorem putSection_parts (val : PutVal) : putSection m cfg val = (do
    let tls ← getTls
    let w ← getWin (tls.hash.slot 0).win
    let stored ← storeRecord m cfg tls (w.tabs (tls.hash.slot 0).tab) val
    afterStore m cfg tls (w.tabs (tls.hash.slot 0).tab) stored) := by
  unfold putSection storeRecord
  simp only [bind_assoc]
  refine congrArg _ (funext fun tls => congrArg _ (funext fun w => ?_))
  refine congrArg _ (funext fun _ => congrArg _ (funext fun t => ?_))
  cases firstFree (t.row (tls.hash.slot 0).row) with
  | none => rfl
  | some ref =>
    simp only [bind_assoc]
    rfl

end Storing

def stores : Except Stop (Option (Fin 16 × Tab)) → Bool
  | .ok (some _) => true
  | _ => false

def Section.Stores (cfg : Config) (s : State Disk) (part : Section) (val : PutVal) : Prop :=
  stores (storeRecord mapped cfg part.tls (s.tableOf (part.tls.hash.slot 0)) val (part.enter Disk.switch s)).value = true ∧
    (storeRecord mapped cfg part.tls (s.tableOf (part.tls.hash.slot 0)) val (part.enter Disk.switch s)).peak < 2^32

/-- The put neither copies nor relocates its table if at most a fifth of it is garbage when it checks that. -/
def Section.SparesTable (cfg : Config) (s : State Disk) (part : Section) (val : PutVal) : Prop :=
  let slot := part.tls.hash.slot 0
  let after := (runProcesses mapped cfg [part] s).state
  ∀ ref t, (storeRecord mapped cfg part.tls (s.tableOf slot) val (part.enter Disk.switch s)).value = .ok (some (ref, t)) →
    5 * t.tabDataFree ≤ t.tabDataUsed → (after.shared.wins slot.win).tabsShrunk = (s.shared.wins slot.win).tabsShrunk ∧
      after.map.path slot.win (s.tableOf slot) = s.map.path slot.win (s.tableOf slot)

def Section.UsesAtMost (cfg : Config) (s : State Disk) (part : Section) (val : PutVal) (bound : Nat) : Prop :=
  let slot := part.tls.hash.slot 0
  ∀ file ∈ s.map.tables.table slot.win (s.tableOf slot),
    file.tab.tabDataUsed + cfg.recordLen part.tls.hashKey.length val.len ≤ bound

/-- In stores with variable lengths, puts which use no more than this spare their tables. -/
def SparedTo (bound : Nat) : Prop :=
  ∀ (cfg : Config) (vfs : Nat → Nat) (tls : Tls) (sections : List Section) (s : State Disk),
    cfg.isFixedKeyValLen = false → Attained cfg vfs tls sections s → ∀ (part : Section) (val : PutVal),
      part.work = .put val → part.Stores cfg s val → part.UsesAtMost cfg s val bound → part.SparesTable cfg s val

def Tab.withRecord (t : Tab) (needed : Nat) : Tab := { t with tabDataUsed := (t.tabDataUsed + needed) % 2^32 }

section Trigger

variable {μ : Type} {m : Mapping μ} {cfg : Config} {W : (Fin 256 → Win) → Prop} {J : μ → Prop} {tls : Tls} {tab : Nat} {val : PutVal}

theorem storeRecord_keeps (steady : m.Steady J) : Keeps (Frozen W J) (storeRecord m cfg tls tab val) := by
  refine keeps_bind (Frozen.onMap_keeps (steady.getTabMmap _ _)) fun _ => keeps_bind Frozen.tabAt_keeps fun t => ?_
  split
  · refine keeps_bind (Frozen.tabAppend_keeps steady) fun _ => keeps_bind (Frozen.modifyTab_keeps steady) fun _ => ?_
    exact keeps_bind Frozen.tabAt_keeps fun _ => keeps_pure _
  · exact keeps_pure _

/-- The table of a put, as it is after the record was stored, or when there was no free ref. -/
def Ledger.StoredTo {limit : Nat} (b : Ledger m limit) (cfg : Config) (tls : Tls) (val : PutVal) (stored : Option (Fin 16 × Tab))
    (file : File) : File → Prop :=
  match stored with
  | some (_, t) => fun file' => t = file'.tab ∧
      PutInto b.sized cfg (tls.hash.slot 0) tls.hash.rnd (cfg.recordLen tls.hashKey.length val.len) file file'
  | none => fun file' => file' = file

theorem storeRecord_ends {limit : Nat} {b : Ledger m limit} {s : State μ} (lawful : b.Lawful s) :
    Ends limit (storeRecord m cfg tls (s.tableOf (tls.hash.slot 0)) val) (fun stored s' => ∃ file file1 file',
      (b.tables s.map).table (tls.hash.slot 0).win (s.tableOf (tls.hash.slot 0)) = some file ∧ b.Opens file file1 ∧
        b.StoredTo cfg tls val stored file1 file' ∧ b.Becomes (only (tls.hash.slot 0).win (s.tableOf (tls.hash.slot 0)))
          (.tab (tls.hash.slot 0).win (s.tableOf (tls.hash.slot 0))) file' s s') (fun _ _ => True) s := by
  rcases lawful.at_slot (tls.hash.slot 0) with ⟨file, there⟩
  unfold storeRecord Ledger.StoredTo
  generalize tls.hash.slot 0 = slot at there ⊢
  apply ends_step (@Ledger.open_ends _ _ _ _ cfg _ _ _ _ lawful.known there) fun _ _ _ => trivial
  rintro _ s1 ⟨file1, opens, opened⟩
  have fit1 (sized : b.sized) : Fit file1 := b.opens_fit sized opens (lawful.fit sized _ _ _ there)
  apply ends_step (Ledger.tabAt_ends opened.at_) fun _ _ _ => trivial
  rintro _ s1 ⟨rfl, rfl⟩
  split
  · rename_i ref free
    have placed (sized : b.sized) : file1.tab.tabUsed ≠ 0 := by
      have low := (fit1 sized).used_low
      unfold dataOffset at low
      omega
    apply ends_step (Ledger.tabAppend_ends opened.at_ fit1 placed) fun _ _ _ => trivial
    rintro pos s2 ⟨file2, changed2, appended⟩
    apply ends_step (Ledger.modifyTab_ends (changed2.at_ opened.at_.seen) _) fun _ _ _ => trivial
    intro _ s3 changed3
    apply ends_step (Ledger.tabAt_ends (changed3.at_ opened.at_.seen)) fun _ _ _ => trivial
    rintro _ s3 ⟨rfl, rfl⟩
    refine ends_pure ⟨file, file1, _, there, opens, ⟨rfl, appended.putInto (firstFree_some free)⟩, ?_⟩
    exact opened.trans ((changed2.trans changed3).becomes opened.at_.seen)
  · exact ends_pure ⟨file, file1, file1, there, opens, rfl, opened⟩

theorem afterStore_spares {ref : Fin 16} {t : Tab} {s : State μ} (early : ¬ t.Shrinks) :
    (afterStore m cfg tls tab (some (ref, t)) s).state.shared.wins = s.shared.wins ∧
      (afterStore m cfg tls tab (some (ref, t)) s).state.map = s.map := by
  have kept : Keeps (Frozen (· = s.shared.wins) (· = s.map)) (afterStore m cfg tls tab (some (ref, t))) := by
    refine keeps_bind (keeps_when fun due => absurd due early) fun _ => ?_
    exact keeps_bind (Frozen.modifyTls_keeps _) fun _ => keeps_pure _
  rcases kept s ⟨rfl, rfl⟩ with ⟨wins, map⟩
  exact ⟨wins, map⟩

theorem tabShrink_leads (steady : m.Steady fun _ => True) (replace : ∀ win tab, Keeps (fun _ => True) (m.replace win tab))
    {win : Fin 256} {n : Nat} : Leads (Frozen (fun wins => (wins win).tabsShrunk = n) fun _ => True)
      (Frozen (fun wins => (wins win).tabsShrunk = n + 1) fun _ => True) (tabShrink m cfg win tab) := by
  apply leads_bind _ (fun _ => (Frozen.shrinkRest_keeps steady replace).leads fun _ frozen => frozen) fun _ frozen => frozen
  rintro s ⟨before, _⟩
  refine ⟨?_, trivial⟩
  change (Function.update s.shared.wins win _ win).tabsShrunk = n + 1
  rw [Function.update_self, before]

theorem afterStore_shrinks {ref : Fin 16} {t : Tab} {s : State μ} (steady : m.Steady fun _ => True)
    (replace : ∀ win tab, Keeps (fun _ => True) (m.replace win tab)) (due : t.Shrinks) :
    ((afterStore m cfg tls tab (some (ref, t)) s).state.shared.wins (tls.hash.slot 0).win).tabsShrunk =
      (s.shared.wins (tls.hash.slot 0).win).tabsShrunk + 1 := by
  generalize counter : (s.shared.wins (tls.hash.slot 0).win).tabsShrunk = n
  have leads : Leads (Frozen (fun wins => (wins (tls.hash.slot 0).win).tabsShrunk = n) fun _ => True)
      (Frozen (fun wins => (wins (tls.hash.slot 0).win).tabsShrunk = n + 1) fun _ => True)
      (afterStore m cfg tls tab (some (ref, t))) := by
    refine leads_bind ?_ (fun _ => ?_) fun _ frozen => frozen
    · rw [when, if_pos due]
      exact tabShrink_leads steady replace
    · exact (keeps_bind (Frozen.modifyTls_keeps _) fun _ => keeps_pure _).leads fun _ frozen => frozen
  exact (leads s ⟨counter, trivial⟩).wins

theorem storeRecord_follows (low : m.lowest ≤ dataOffset) :
    Follows .below (storeRecord m cfg tls tab val) (storeRecord m.guarded cfg tls tab val) := by
  refine follows_bind (follows_refl _) fun _ => follows_bind (follows_refl _) fun t => ?_
  split
  · exact follows_bind (tabAppend_follows low _ _ _) fun _ => follows_refl _
  · exact follows_refl _

end Trigger

section Spares

variable {cfg : Config} {s : State Disk} {part : Section} {val : PutVal} {limit : Nat}

/-- A put section does what `shf_put_key_val` does under the lock. -/
theorem put_state {m : Mapping Disk} (work : part.work = .put val) :
    (runProcesses m cfg [part] s).state = (putSection m cfg val (part.enter Disk.switch s)).state := by
  unfold runProcesses
  rw [runSections_entered, work, state_before fun _ _ => rfl]
  exact state_before fun done t => rfl

theorem stored_state {ref : Fin 16} {t : Tab} (work : part.work = .put val)
    (value : (storeRecord mapped cfg part.tls (s.tableOf (part.tls.hash.slot 0)) val (part.enter Disk.switch s)).value =
      .ok (some (ref, t))) : (runProcesses mapped cfg [part] s).state =
        (afterStore mapped cfg part.tls (s.tableOf (part.tls.hash.slot 0)) (some (ref, t))
          (storeRecord mapped cfg part.tls (s.tableOf (part.tls.hash.slot 0)) val (part.enter Disk.switch s)).state).state := by
  rw [put_state work, putSection_parts, state_after (getTls_run _), state_after (getWin_run _ _)]
  exact (bind_ended value).2

theorem InUse.storeRecord_guarded {b : Bindings} (inUse : InUse cfg s b) (linkable : cfg.Linkable) (work : part.work = .put val)
    (fits : part.Fits cfg) (within : (storeRecord mapped cfg part.tls (s.tableOf (part.tls.hash.slot 0)) val
      (part.enter Disk.switch s)).peak < 2^32) :
    storeRecord mapped cfg part.tls (s.tableOf (part.tls.hash.slot 0)) val (part.enter Disk.switch s) =
      storeRecord mapped.guarded cfg part.tls (s.tableOf (part.tls.hash.slot 0)) val (part.enter Disk.switch s) := by
  have entered := @InUse.enter _ _ _ part inUse
  rcases entered with ⟨t, settled, ok⟩
  have fits' : cfg.Fits t.shared.tls.hashKey val.bytes := by
    rw [← settled.tables_eq.2]
    exact fits val work
  have never := (putSection_simulates guarded_faithful settled).ends (putSection_leaves linkable ok fits')
  rcases storeRecord_follows mapped_lowest (part.enter Disk.switch s) with same | ⟨stopped, less⟩
  · exact same
  · have put : putSection mapped.guarded cfg val (part.enter Disk.switch s) = ⟨.error .below,
        (storeRecord mapped.guarded cfg part.tls (s.tableOf (part.tls.hash.slot 0)) val (part.enter Disk.switch s)).state,
        (storeRecord mapped.guarded cfg part.tls (s.tableOf (part.tls.hash.slot 0)) val (part.enter Disk.switch s)).peak⟩ := by
      rw [putSection_parts, bind_ok (getTls_run _), bind_ok (getWin_run _ _)]
      apply bind_error
      rw [← stopped]
      rfl
    have stops := never (by rw [put]; exact lt_of_le_of_lt less within)
    rw [put] at stops
    rcases stops with ⟨_, refused⟩
    exact absurd rfl refused.ne_below

/-- A put spares its table where the check does not fire with a fifth of garbage or less. -/
theorem Ledger.Lawful.spares_iff {b : Bindings} (variable_ : cfg.isFixedKeyValLen = false)
    (lawful : (mappedLedger limit).Lawful s) (inUse : InUse cfg s b) (work : part.work = .put val)
    (stored : part.Stores cfg s val) : part.SparesTable cfg s val ↔
      ∀ file ∈ s.map.tables.table (part.tls.hash.slot 0).win (s.tableOf (part.tls.hash.slot 0)),
        let t := file.tab.withRecord (cfg.recordLen part.tls.hashKey.length val.len)
        5 * t.tabDataFree ≤ t.tabDataUsed → ¬ t.Shrinks := by
  have guarded := inUse.storeRecord_guarded (Config.linkable_variable variable_) work (part.fits_variable variable_) stored.2
  unfold Section.SparesTable
  dsimp only
  unfold Section.Stores at stored
  replace stored := stored.1
  cases value : (storeRecord mapped cfg part.tls (s.tableOf (part.tls.hash.slot 0)) val (part.enter Disk.switch s)).value with
  | error e =>
    rw [value] at stored
    cases stored
  | ok found =>
    rw [value] at stored
    cases found with
    | none => cases stored
    | some found =>
      rcases found with ⟨ref, t⟩
      have ends := @storeRecord_ends _ mapped.guarded cfg part.tls val
        ((storeRecord mapped.guarded cfg part.tls (s.tableOf (part.tls.hash.slot 0)) val (part.enter Disk.switch s)).peak + 1)
        (mappedLedger _) (part.enter Disk.switch s) ((lawful.limited _).enter part)
      rcases ends.ran (guarded ▸ value) (Nat.lt_succ_self _) with ⟨file, file1, file2, there, opens, ⟨rfl, into⟩, _⟩
      rcases opens with ⟨tabSize, tabUsed, rfl⟩
      have used : file2.tab.tabDataUsed =
        (file.tab.tabDataUsed + cfg.recordLen part.tls.hashKey.length val.len) % 2^32 := into.dataUsed
      have free : file2.tab.tabDataFree = file.tab.tabDataFree := into.dataFree (Config.lenLen_ne_zero variable_)
      rcases Option.map_eq_some_iff.mp there with ⟨off, path, _⟩
      have kept := @storeRecord_keeps _ mapped cfg (· = s.shared.wins) _ part.tls (s.tableOf (part.tls.hash.slot 0)) val
        (@mapped_steady_path _ _ off) (part.enter Disk.switch s) ⟨rfl, path⟩
      rcases kept with ⟨wins1, path1⟩
      have state := stored_state work value
      generalize storeRecord mapped cfg part.tls (s.tableOf (part.tls.hash.slot 0)) val (part.enter Disk.switch s) = first at *
      have here : s.map.tables.table (part.tls.hash.slot 0).win (s.tableOf (part.tls.hash.slot 0)) = some file := there
      rw [here]
      have seen : (5 * file2.tab.tabDataFree ≤ file2.tab.tabDataUsed → ¬ file2.tab.Shrinks) ↔
          (5 * file.tab.tabDataFree ≤ (file.tab.withRecord (cfg.recordLen part.tls.hashKey.length val.len)).tabDataUsed →
            ¬ (file.tab.withRecord (cfg.recordLen part.tls.hashKey.length val.len)).Shrinks) := by
        unfold Tab.Shrinks Tab.withRecord
        rw [used, free]
      constructor
      · intro spares other same
        cases same
        apply seen.mp
        intro few due
        have shrunk := @afterStore_shrinks _ mapped cfg part.tls (s.tableOf (part.tls.hash.slot 0)) ref file2.tab first.state
          mapped_steady (fun _ _ _ _ => trivial) due
        have same := (spares ref file2.tab rfl few).1
        rw [state, shrunk, wins1] at same
        omega
      · intro spared ref' t' value' few
        cases value'
        rcases @afterStore_spares _ mapped cfg part.tls (s.tableOf (part.tls.hash.slot 0)) ref file2.tab first.state
          (seen.mpr (spared file rfl) few) with ⟨wins, map⟩
        rw [state, wins, wins1, map]
        exact ⟨rfl, path1.trans path.symm⟩

end Spares

/-- Below this the product of the check does not wrap. -/
theorem Tab.spared_of_few {t : Tab} {needed bound : Nat} (few : t.tabDataUsed + needed ≤ bound) (small : 20 * bound < 2^32)
    (little : 5 * t.tabDataFree ≤ (t.withRecord needed).tabDataUsed) : ¬ (t.withRecord needed).Shrinks := by
  unfold Tab.withRecord at little ⊢
  dsimp only at little ⊢
  unfold Tab.Shrinks
  dsimp only
  rw [Nat.mod_eq_of_lt (by omega : t.tabDataUsed + needed < 2^32)] at little ⊢
  rw [Nat.mod_eq_of_lt (by omega : (t.tabDataUsed + needed) * 20 < 2^32)]
  omega

def thirdPut : Section := ⟨1, smallTls [3], .put (.copy [30])⟩

/-- A table with so much in use that twenty times that wraps to almost nothing. -/
def wrapSections : List Section :=
  [⟨1, smallTls [1], .put (.copy [10])⟩, ⟨1, smallTls [2], .put (.reserve 214748344)⟩,
    ⟨1, smallTls [1], .find uidNone .delete⟩]

def wrapStored : State Disk := (runProcesses mapped smallConfig wrapSections (State.initial (fun _ => 2^40) (smallTls []))).state

theorem wrapSections_run :
    (runProcesses mapped smallConfig wrapSections (State.initial (fun _ => 2^40) (smallTls []))).peak < 2^32 ∧
    (runProcesses mapped smallConfig wrapSections (State.initial (fun _ => 2^40) (smallTls []))).value.isOk = true ∧
    thirdPut.Stores smallConfig wrapStored (.copy [30]) ∧
    thirdPut.UsesAtMost smallConfig wrapStored (.copy [30]) 214748365 ∧
    ¬ ∀ file ∈ wrapStored.map.tables.table (thirdPut.tls.hash.slot 0).win (wrapStored.tableOf (thirdPut.tls.hash.slot 0)),
      let t := file.tab.withRecord (smallConfig.recordLen thirdPut.tls.hashKey.length (PutVal.copy [30]).len)
      5 * t.tabDataFree ≤ t.tabDataUsed → ¬ t.Shrinks := by
  unfold Section.Stores Section.UsesAtMost
  decide +kernel

theorem wrapStored_attained : Attained smallConfig (fun _ => 2^40) (smallTls []) wrapSections wrapStored :=
  ⟨wrapSections_run.1, wrapSections_run.2.1, rfl⟩

theorem wrapStored_not_spared : ¬ thirdPut.SparesTable smallConfig wrapStored (.copy [30]) := by
  rcases wrapSections_run with ⟨_, _, stored, _, fires⟩
  have linkable : smallConfig.Linkable := Config.linkable_variable rfl
  have fits : ∀ part ∈ wrapSections, part.Fits smallConfig := fun part _ => part.fits_variable rfl
  rcases wrapStored_attained.inUse linkable fits with ⟨b, inUse⟩
  exact fun spares => fires (((wrapStored_attained.lawful linkable fits).spares_iff rfl inUse rfl stored).mp spares)

/-- Puts spare their tables up to the uses of which twenty times does not wrap, and not beyond. -/
theorem sparedTo_iff (bound : Nat) : SparedTo bound ↔ 20 * bound < 2^32 := by
  constructor
  · intro spared
    by_contra wraps
    rcases wrapSections_run with ⟨_, _, stored, uses, _⟩
    refine wrapStored_not_spared (spared _ _ _ _ _ rfl wrapStored_attained thirdPut _ rfl stored fun file there => ?_)
    exact Nat.le_trans (uses file there) (by omega)
  · intro small cfg vfs tls sections s variable_ attained part val work stored uses
    have linkable := Config.linkable_variable variable_
    have fits : ∀ part ∈ sections, part.Fits cfg := fun part _ => part.fits_variable variable_
    rcases attained.inUse linkable fits with ⟨b, inUse⟩
    apply ((attained.lawful linkable fits).spares_iff variable_ inUse work stored).mpr
    exact fun file there little => Tab.spared_of_few (uses file there) small little

theorem not_sparesTable : ¬ ∀ (cfg : Config) (vfs : Nat → Nat) (tls : Tls) (sections : List Section) (s : State Disk),
    cfg.isFixedKeyValLen = false → Attained cfg vfs tls sections s → ∀ (part : Section) (val : PutVal),
      part.work = .put val → part.Stores cfg s val → part.SparesTable cfg s val := by
  intro all
  exact wrapStored_not_spared (all _ _ _ _ _ rfl wrapStored_attained thirdPut _ rfl wrapSections_run.2.2.1)

end SharedHashFile.Store
