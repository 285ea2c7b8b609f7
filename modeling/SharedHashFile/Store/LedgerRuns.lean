import SharedHashFile.Store.FindSpec
import SharedHashFile.Store.LedgerCalls
import SharedHashFile.Store.PutSpec
import SharedHashFile.Store.Residues
import SharedHashFile.Store.SectionSpec

namespace SharedHashFile.Store

open ByteMemory Program

attribute [local irreducible] allRefs halved File.unreffed

def Work.slot (tls : Tls) : Work → Slot
  | .put _ => tls.hash.slot 0
  | .find uid _ => tls.slotOf uid

def State.tableOf {μ : Type} (s : State μ) (slot : Slot) : Nat := (s.shared.wins slot.win).tabs slot.tab

/-- The tables which the running process has looked at since it got the lock. -/
def only (win : Fin 256) (tab : Nat) : Fin 256 → Nat → Prop := also (fun _ _ => False) win tab

section Refs

variable {cfg : Config} {file file' : File} {sized shrinks : Prop} {row row' : Fin 512} {ref ref' : Fin 16} {what : FindKeyAnd}

theorem goes_of_uses {old : Tab} {goes : Fin 512 × Fin 16 → Bool}
    (filled : Filled sized cfg old goes allRefs file) (uses : file.tab.uses (row, ref) = true) :
    goes (row, ref) = true ∧ (file.tab.row row ref).tab = (old.row row ref).tab := by
  cases going : goes (row, ref) with
  | true =>
    rcases filled.moved (mem_allRefs row ref) going with ⟨pos, same, _⟩
    rw [same]
    exact ⟨rfl, rfl⟩
  | false =>
    have none_ := filled.empty fun both => Bool.false_ne_true (going.symm.trans both.2)
    unfold Tab.uses at uses
    rw [none_] at uses
    exact absurd rfl (of_decide_eq_true uses)

def RefsOf (file file' : File) : Prop := ∀ row ref, file'.tab.uses (row, ref) = true →
  file.tab.uses (row, ref) = true ∧ (file'.tab.row row ref).tab = (file.tab.row row ref).tab

theorem RefsOf.refl (file : File) : RefsOf file file := fun _ _ uses => ⟨uses, rfl⟩

theorem MaybeShrunk.refsOf (maybe : MaybeShrunk sized cfg shrinks file file') : RefsOf file file' := by
  rcases maybe with ⟨_, filled⟩ | ⟨_, rfl⟩
  · exact fun row ref uses => goes_of_uses filled uses
  · exact RefsOf.refl _

theorem MaybeShrunk.fit (maybe : MaybeShrunk sized cfg shrinks file file') (fit : sized → Fit file)
    (holds : sized) : Fit file' := by
  rcases maybe with ⟨_, filled⟩ | ⟨_, rfl⟩
  · exact filled.fit holds
  · exact fit holds

theorem unreffed_uses {len first : Nat} {data : Memory} :
    (file.unreffed row ref len data first).tab.uses (row', ref') = true ↔
      ¬(row' = row ∧ ref' = ref) ∧ file.tab.uses (row', ref') = true := by
  unfold Tab.uses
  rw [File.unreffed, cleared_row, Tab.setRef_row]
  split
  · rename_i here
    exact iff_of_false (fun uses => absurd rfl (of_decide_eq_true uses)) fun both => both.1 here
  · rename_i elsewhere
    exact (and_iff_right elsewhere).symm

theorem unreffed_refsOf (row : Fin 512) (ref : Fin 16) (len first : Nat) (data : Memory) :
    RefsOf file (file.unreffed row ref len data first) := by
  intro row' ref' uses
  rw [unreffed_uses] at uses
  refine ⟨uses.2, ?_⟩
  rw [File.unreffed, cleared_row, Tab.setRef_row, if_neg uses.1]

theorem FindKeyAnd.Acts.refsOf (acts : what.Acts sized cfg row ref file file') : RefsOf file file' := by
  cases what with
  | copyKey => exact MaybeShrunk.refsOf acts
  | copyVal => exact MaybeShrunk.refsOf acts
  | delete =>
    rcases acts with rfl | ⟨len, data, first, rfl⟩
    · exact RefsOf.refl _
    · exact unreffed_refsOf row ref len first data
  | addr =>
    rcases acts with ⟨data, rfl⟩
    exact RefsOf.refl _
  | atomAdd =>
    rcases acts with ⟨data, rfl⟩
    exact RefsOf.refl _
  | update =>
    rcases acts with ⟨data, rfl⟩
    exact RefsOf.refl _

theorem FindKeyAnd.Acts.fit (acts : what.Acts sized cfg row ref file file') (fit : sized → Fit file) (holds : sized) : Fit file' := by
  have same (data : Memory) : Fit (file.withData data) := by
    rcases fit holds with ⟨size, header, low, high⟩
    exact ⟨size, header, low, high⟩
  cases what with
  | copyKey => exact MaybeShrunk.fit acts fit holds
  | copyVal => exact MaybeShrunk.fit acts fit holds
  | delete =>
    rcases acts with rfl | ⟨len, data, first, rfl⟩
    · exact fit holds
    · rw [File.unreffed]
      exact (fit holds).cleared
  | addr =>
    rcases acts with ⟨data, rfl⟩
    exact same data
  | atomAdd =>
    rcases acts with ⟨data, rfl⟩
    exact same data
  | update =>
    rcases acts with ⟨data, rfl⟩
    exact same data

end Refs

namespace Ledger

variable {μ : Type} {m : Mapping μ} {limit : Nat} (b : Ledger m limit)

/-- A store between critical sections, whatever data is in its tables. -/
structure Lawful (s : State μ) : Prop where
  known : b.Known (fun _ _ => False) s.map
  none_ : (b.tables s.map).old = none
  absent : ∀ win tab, (s.shared.wins win).tabsUsed ≤ tab → (b.tables s.map).table win tab = none
  there : ∀ win tab, tab < (s.shared.wins win).tabsUsed → ∃ file, (b.tables s.map).table win tab = some file
  redirected : ∀ win, Redirected (s.shared.wins win).tabs (s.shared.wins win).tabsUsed
  refs : ∀ win tab file, (b.tables s.map).table win tab = some file → ∀ row ref, file.tab.uses (row, ref) = true →
    (s.shared.wins win).tabs (file.tab.row row ref).tab = tab
  fit : b.sized → ∀ win tab file, (b.tables s.map).table win tab = some file → Fit file ∨ file = freshFile

def StoredIn (cfg : Config) (slot : Slot) (rnd needed : Nat) (s s' : State μ) : Prop :=
  ∃ file file1 file2 file', (b.tables s.map).table slot.win (s.tableOf slot) = some file ∧ b.Opens file file1 ∧
    PutInto b.sized cfg slot rnd needed file1 file2 ∧ MaybeShrunk b.sized cfg file2.tab.Shrinks file2 file' ∧
    b.Becomes (only slot.win (s.tableOf slot)) (.tab slot.win (s.tableOf slot)) file' s s'

def PartedIn (cfg : Config) (slot : Slot) (s s' : State μ) : Prop :=
  ∃ file file1, (b.tables s.map).table slot.win (s.tableOf slot) = some file ∧ b.Opens file file1 ∧
    (∀ ref, file1.tab.uses (slot.row, ref) = true) ∧ Parted b cfg slot.win (s.tableOf slot)
      (s.shared.wins slot.win).tabsUsed (s.shared.wins slot.win).tabs file1 s s'

def FoundIn (cfg : Config) (slot : Slot) (what : FindKeyAnd) (result : Nat) (s s' : State μ) : Prop :=
  ∃ file file1 file', (b.tables s.map).table slot.win (s.tableOf slot) = some file ∧ b.Opens file file1 ∧
    b.Becomes (only slot.win (s.tableOf slot)) (.tab slot.win (s.tableOf slot)) file' s s' ∧
    (result = retKeyNone ∧ file' = file1 ∨ ∃ ref, file1.tab.uses (slot.row, ref) = true ∧
      what.Acts b.sized cfg slot.row ref file1 file' ∧ (what.Copies → result = retKeyFound))

/-- What a critical section does to the tables and redirections. -/
def Effect (cfg : Config) (tls : Tls) (work : Work) (result : Option Nat) (s s' : State μ) : Prop :=
  match work with
  | .put val => result = some retKeyPut ∧ b.StoredIn cfg (work.slot tls) tls.hash.rnd
      (cfg.recordLen tls.hashKey.length val.len) s s' ∨ result = none ∧ b.PartedIn cfg (work.slot tls) s s'
  | .find _ what => ∃ code, result = some code ∧ b.FoundIn cfg (work.slot tls) what code s s'

variable {b} {cfg : Config} {s s' : State μ} {win : Fin 256} {tab : Nat} {file file' : File} {e e' : Stop}

section Opening

theorem Lawful.at_slot (lawful : b.Lawful s) (slot : Slot) :
    ∃ file, (b.tables s.map).table slot.win (s.tableOf slot) = some file :=
  lawful.there _ _ ((lawful.redirected slot.win).below slot.tab)

theorem open_ends (known : b.Known (fun _ _ => False) s.map) (there : (b.tables s.map).table win tab = some file) :
    Ends limit (onMap (m.getTabMmap win tab)) (fun _ s' => ∃ file', b.Opens file file' ∧
      b.Becomes (only win tab) (.tab win tab) file' s s') (fun e _ => b.Stops cfg e) s := by
  apply ends_zoom
  apply (b.getTabMmap_ends known there).mono _ fun _ _ => Stops.of_unsized
  rintro _ M ⟨known', file', opens, tables⟩
  have changed : b.Changed (only win tab) (.tab win tab) file' s { s with map := M } := ⟨known', tables, rfl⟩
  exact ⟨file', opens, changed.becomes (.inr ⟨rfl, rfl⟩)⟩

theorem Becomes.none_ (becomes : b.Becomes (only win tab) (.tab win tab) file s s') (none_ : (b.tables s.map).old = none) :
    (b.tables s'.map).old = none := (becomes.within.files .old nofun).trans none_

theorem opens_uses {file1 : File} (opens : b.Opens file file1) : file1.tab.uses = file.tab.uses := by
  rcases b.opens_headed opens with ⟨tabSize, tabUsed, rfl⟩
  rfl

theorem opens_row {file1 : File} (opens : b.Opens file file1) : file1.tab.row = file.tab.row := by
  rcases b.opens_headed opens with ⟨tabSize, tabUsed, rfl⟩
  rfl

theorem findKeyInternal_ends (lawful : b.Lawful s) {uid : Nat} {what : FindKeyAnd} : Ends limit (findKeyInternal m cfg uid what)
    (fun result s' => b.FoundIn cfg (s.shared.tls.slotOf uid) what result s s') (fun _ _ => True) s := by
  rcases lawful.at_slot (s.shared.tls.slotOf uid) with ⟨file, there⟩
  apply ends_after (getTls_run s)
  rw [← Tls.slotOf]
  generalize s.shared.tls.slotOf uid = slot at there ⊢
  apply ends_after (getWin_run s slot.win)
  apply ends_step (@open_ends _ _ _ _ cfg _ _ _ _ lawful.known there) fun _ _ _ => trivial
  rintro _ s1 ⟨file1, opens, opened⟩
  apply ends_step (findKeyOrUid_ends opened.at_) fun _ _ stops => stops
  rintro found s2 ⟨within, used⟩
  have looked := opened.trans (opened.at_.becomes within)
  cases found with
  | none =>
    apply ends_step (modifyTls_ends looked.at_.known _) fun _ (_ : State μ) (stops : True) => stops
    intro _ s3 within3
    exact ends_pure ⟨file, file1, file1, there, opens, looked.trans (looked.at_.becomes within3), .inl ⟨rfl, rfl⟩⟩
  | some record =>
    apply (actOn_ends looked.at_ (looked.none_ lawful.none_)).mono _ fun _ _ stops => stops
    rintro result s3 ⟨file', acted, acts⟩
    exact ⟨file, file1, file', there, opens, looked.trans acted, .inr ⟨record.ref, decide_eq_true (used record rfl), acts⟩⟩

theorem Lawful.partable {slot : Slot} {file1 : File} {s1 : State μ} (lawful : b.Lawful s)
    (there : (b.tables s.map).table slot.win (s.tableOf slot) = some file) (opens : b.Opens file file1)
    (opened : b.Becomes (only slot.win (s.tableOf slot)) (.tab slot.win (s.tableOf slot)) file1 s s1) :
    Partable b (only slot.win (s.tableOf slot)) slot.win (s.tableOf slot) (s.shared.wins slot.win).tabsUsed
      (s.shared.wins slot.win).tabs file1 s1 := by
  have redirected := lawful.redirected slot.win
  have inUse := redirected.below slot.tab
  have away : Ptr.tab slot.win (s.shared.wins slot.win).tabsUsed ≠ .tab slot.win (s.tableOf slot) :=
    fun same => Nat.ne_of_gt inUse (Ptr.tab.inj same).2
  refine ⟨opened.at_, opened.none_ lawful.none_, opened.within.tabs _, opened.within.used _, redirected.used_le,
    redirected.below, inUse, ?_, fun row ref uses => ?_⟩
  · exact (opened.within.files _ away).trans (lawful.absent _ _ (Nat.le_refl _))
  · rw [opens_uses opens] at uses
    rw [opens_row opens]
    exact lawful.refs _ _ file there row ref uses

theorem putSectionOr_ends (lawful : b.Lawful s) {val : PutVal} : Ends limit (putSectionOr m cfg e val)
    (fun done s' => done = true ∧ b.StoredIn cfg (s.shared.tls.hash.slot 0) s.shared.tls.hash.rnd
        (cfg.recordLen s.shared.tls.hashKey.length val.len) s s' ∨
      done = false ∧ b.PartedIn cfg (s.shared.tls.hash.slot 0) s s') (fun e _ => b.Stops cfg e) s := by
  rcases lawful.at_slot (s.shared.tls.hash.slot 0) with ⟨file, there⟩
  apply ends_after (getTls_run s)
  generalize s.shared.tls.hash.slot 0 = slot at there ⊢
  apply ends_after (getWin_run s slot.win)
  apply ends_step (open_ends lawful.known there) fun _ _ stops => stops
  rintro _ s1 ⟨file1, opens, opened⟩
  have fit1 (sized : b.sized) : Fit file1 := b.opens_fit sized opens (lawful.fit sized _ _ _ there)
  apply ends_step (tabAt_ends opened.at_) fun _ _ => Stops.of_ne
  rintro _ s1 ⟨rfl, rfl⟩
  split
  · rename_i ref free
    have placed (sized : b.sized) : file1.tab.tabUsed ≠ 0 := by
      have low := (fit1 sized).used_low
      unfold dataOffset at low
      omega
    apply ends_step (tabAppend_ends opened.at_ fit1 placed) fun _ _ stops => stops
    rintro pos s2 ⟨file2, changed2, appended⟩
    apply ends_step (modifyTab_ends (changed2.at_ opened.at_.seen) _) fun _ _ => Stops.of_ne
    intro _ s3 changed3
    have put : b.Becomes (only slot.win (s.tableOf slot)) (.tab slot.win (s.tableOf slot)) _ s s3 :=
      opened.trans ((changed2.trans changed3).becomes opened.at_.seen)
    have into : PutInto b.sized cfg slot s.shared.tls.hash.rnd _ file1 _ := appended.putInto (firstFree_some free)
    apply ends_step (tabAt_ends put.at_) fun _ _ => Stops.of_ne
    rintro _ s3 ⟨rfl, rfl⟩
    apply ends_step (maybeShrink_ends put.at_ (put.none_ lawful.none_)) fun _ _ stops => stops
    rintro _ s4 ⟨file', shrunk, maybe⟩
    apply ends_step (modifyTls_ends shrunk.at_.known _) fun _ (_ : State μ) stops => stops
    intro _ s5 within
    exact ends_pure (.inl ⟨rfl, file, file1, _, file', there, opens, into, maybe,
      put.trans (shrunk.trans (shrunk.at_.becomes within))⟩)
  · rename_i full
    apply ends_step (tabPartOr_ends (lawful.partable there opens opened)) fun _ _ stops => stops
    intro _ s2 parted
    refine ends_pure (.inr ⟨rfl, file, file1, there, opens, fun ref => decide_eq_true (firstFree_none full ref), ?_⟩)
    refine ⟨parted.room, parted.known, parted.old, parted.new, fun ptr awayOld awayNew => ?_, parted.tabs_eq, parted.used_eq,
      fun win' away => ?_⟩
    · exact (parted.files ptr awayOld awayNew).trans (opened.within.files ptr awayOld)
    · rw [(parted.others win' away).1, (parted.others win' away).2, opened.within.tabs, opened.within.used]
      exact ⟨rfl, rfl⟩

theorem putSectionOr_runsAs (lawful : b.Lawful s) {val : PutVal} :
    RunsAs limit (putSectionOr m cfg e val) (putSectionOr m cfg e' val) s := by
  rcases lawful.at_slot (s.shared.tls.hash.slot 0) with ⟨file, there⟩
  apply runsAs_bind (runsAs_refl _ _)
  apply ends_run (getTls_run s)
  intro _
  generalize s.shared.tls.hash.slot 0 = slot at there ⊢
  apply runsAs_bind (runsAs_refl _ _)
  apply ends_run (getWin_run s slot.win)
  intro _
  apply runsAs_bind (runsAs_refl _ _)
  apply (@open_ends _ _ _ _ cfg _ _ _ _ lawful.known there).mono _ fun _ _ _ => trivial
  rintro _ s1 ⟨file1, opens, opened⟩
  apply runsAs_bind (runsAs_refl _ _)
  apply (tabAt_ends opened.at_).mono _ fun _ _ _ => trivial
  rintro _ s1 ⟨rfl, rfl⟩
  split
  · exact runsAs_refl _ _
  · apply runsAs_bind (tabPartOr_runsAs (lawful.partable there opens opened))
    intro _
    split
    · exact runsAs_refl _ _
    · trivial

theorem work_ends (lawful : b.Lawful s) {work : Work} : Ends limit (work.runOr m cfg e)
    (fun result s' => b.Effect cfg s.shared.tls work result s s')
    (fun stop _ => (∃ val, work = .put val) → b.Stops cfg stop) s := by
  cases work with
  | put val =>
    apply ends_step (putSectionOr_ends lawful) fun _ _ stops _ => stops
    rintro done s' (⟨rfl, stored⟩ | ⟨rfl, parted⟩)
    · exact ends_pure (.inl ⟨rfl, stored⟩)
    · exact ends_pure (.inr ⟨rfl, parted⟩)
  | find uid what =>
    apply ends_step (findKeyInternal_ends lawful) fun _ _ _ put => nomatch put
    exact fun code s' found => ends_pure ⟨code, rfl, found⟩

end Opening

section Keeping

theorem Lawful.becomes (lawful : b.Lawful s) (there : (b.tables s.map).table win tab = some file)
    (becomes : b.Becomes (only win tab) (.tab win tab) file' s s')
    (refs : ∀ row ref, file'.tab.uses (row, ref) = true → (s.shared.wins win).tabs (file'.tab.row row ref).tab = tab)
    (fit : b.sized → Fit file') : b.Lawful s' := by
  have at_ (win' : Fin 256) (tab' : Nat) (away : ¬(win' = win ∧ tab' = tab)) :
      (b.tables s'.map).table win' tab' = (b.tables s.map).table win' tab' := by
    refine becomes.within.files (.tab win' tab') fun same => away ?_
    exact ⟨(Ptr.tab.inj same).1, (Ptr.tab.inj same).2⟩
  have here : (b.tables s'.map).table win tab = some file' := becomes.at_.there
  refine ⟨b.forget becomes.within.known fun _ _ => False.elim, becomes.none_ lawful.none_, fun win' tab' above => ?_,
    fun win' tab' below => ?_, fun win' => ?_, fun win' tab' other found row ref uses => ?_, fun sized win' tab' other found => ?_⟩
  · rw [becomes.within.used] at above
    have none_ := lawful.absent win' tab' above
    rw [at_ win' tab', none_]
    rintro ⟨rfl, rfl⟩
    rw [there] at none_
    cases none_
  · rw [becomes.within.used] at below
    by_cases this : win' = win ∧ tab' = tab
    · rw [this.1, this.2]
      exact ⟨file', here⟩
    · rw [at_ win' tab' this]
      exact lawful.there win' tab' below
  · rw [becomes.within.tabs, becomes.within.used]
    exact lawful.redirected win'
  · rw [becomes.within.tabs]
    by_cases this : win' = win ∧ tab' = tab
    · rcases this with ⟨rfl, rfl⟩
      rw [here] at found
      cases found
      exact refs row ref uses
    · rw [at_ win' tab' this] at found
      exact lawful.refs win' tab' other found row ref uses
  · by_cases this : win' = win ∧ tab' = tab
    · rcases this with ⟨rfl, rfl⟩
      rw [here] at found
      cases found
      exact .inl (fit sized)
    · rw [at_ win' tab' this] at found
      exact lawful.fit sized win' tab' other found

theorem Lawful.stored {slot : Slot} {rnd needed : Nat} (lawful : b.Lawful s) (stored : b.StoredIn cfg slot rnd needed s s') :
    b.Lawful s' := by
  rcases stored with ⟨file, file1, file2, file', there, opens, into, maybe, becomes⟩
  apply lawful.becomes there becomes
  · intro row ref uses
    rcases maybe.refsOf row ref uses with ⟨uses2, same⟩
    rcases into.row_eq with ⟨free, pos, _, row_eq, _⟩
    have occupied : (file2.tab.row row ref).pos ≠ 0 := of_decide_eq_true uses2
    rw [row_eq, Tab.setRef_row] at occupied
    rw [same, row_eq, Tab.setRef_row]
    split
    · rfl
    · rename_i elsewhere
      rw [if_neg elsewhere, opens_row opens] at occupied
      rw [opens_row opens]
      exact lawful.refs _ _ file there row ref (decide_eq_true occupied)
  · exact maybe.fit into.fit

theorem Lawful.found {slot : Slot} {what : FindKeyAnd} {result : Nat} (lawful : b.Lawful s)
    (found : b.FoundIn cfg slot what result s s') : b.Lawful s' := by
  rcases found with ⟨file, file1, file', there, opens, becomes, effect⟩
  have fit1 (sized : b.sized) : Fit file1 := b.opens_fit sized opens (lawful.fit sized _ _ _ there)
  have refsOf : RefsOf file1 file' := by
    rcases effect with ⟨_, rfl⟩ | ⟨ref, _, acts, _⟩
    · exact RefsOf.refl _
    · exact acts.refsOf
  apply lawful.becomes there becomes
  · intro row ref uses
    rcases refsOf row ref uses with ⟨uses1, same⟩
    rw [opens_uses opens] at uses1
    rw [same, opens_row opens]
    exact lawful.refs _ _ file there row ref uses1
  · intro sized
    rcases effect with ⟨_, rfl⟩ | ⟨ref, _, acts, _⟩
    · exact fit1 sized
    · exact acts.fit fit1 sized

theorem Lawful.parted {slot : Slot} (lawful : b.Lawful s) (parted : b.PartedIn cfg slot s s') : b.Lawful s' := by
  rcases parted with ⟨file, file1, there, opens, _, parted⟩
  have inUse := (lawful.redirected slot.win).below slot.tab
  change s.tableOf slot < _ at inUse
  generalize s.tableOf slot = tab at there parted inUse
  rcases parted.old with ⟨fileOld, thereOld, filledOld⟩
  rcases parted.new with ⟨fileNew, thereNew, filledNew⟩
  have at_ (win' : Fin 256) (tab' : Nat) (awayOld : ¬(win' = slot.win ∧ tab' = tab))
      (awayNew : ¬(win' = slot.win ∧ tab' = (s.shared.wins slot.win).tabsUsed)) :
      (b.tables s'.map).table win' tab' = (b.tables s.map).table win' tab' := by
    refine parted.files (.tab win' tab') (fun same => awayOld ?_) fun same => awayNew ?_
    · exact ⟨(Ptr.tab.inj same).1, (Ptr.tab.inj same).2⟩
    · exact ⟨(Ptr.tab.inj same).1, (Ptr.tab.inj same).2⟩
  have goes {fileTo : File} {goal : Nat} (filled : Filled b.sized cfg file1.tab
      (file1.tab.usesIn (halved tab (s.shared.wins slot.win).tabsUsed (s.shared.wins slot.win).tabs) goal) allRefs fileTo)
      {row : Fin 512} {ref : Fin 16} (uses : fileTo.tab.uses (row, ref) = true) :
      (s'.shared.wins slot.win).tabs (fileTo.tab.row row ref).tab = goal := by
    rcases goes_of_uses filled uses with ⟨going, same⟩
    rw [parted.tabs_eq, same]
    exact of_decide_eq_true (Bool.and_eq_true_iff.mp going).2
  refine ⟨parted.known, (parted.files .old nofun nofun).trans lawful.none_, fun win' tab' above => ?_,
    fun win' tab' below => ?_, fun win' => ?_, fun win' tab' other found row ref uses => ?_, fun sized win' tab' other found => ?_⟩
  · by_cases here : win' = slot.win
    · subst here
      rw [parted.used_eq] at above
      rw [at_ _ _ (by omega) (by omega)]
      exact lawful.absent _ tab' (Nat.le_of_succ_le above)
    · rw [(parted.others win' here).2] at above
      rw [at_ _ _ (fun both => here both.1) fun both => here both.1]
      exact lawful.absent win' tab' above
  · by_cases isOld : win' = slot.win ∧ tab' = tab
    · rw [isOld.1, isOld.2]
      exact ⟨fileOld, thereOld⟩
    · by_cases isNew : win' = slot.win ∧ tab' = (s.shared.wins slot.win).tabsUsed
      · rw [isNew.1, isNew.2]
        exact ⟨fileNew, thereNew⟩
      · rw [at_ _ _ isOld isNew]
        refine lawful.there win' tab' ?_
        by_cases here : win' = slot.win
        · subst here
          rw [parted.used_eq] at below
          omega
        · rw [(parted.others win' here).2] at below
          exact below
  · by_cases here : win' = slot.win
    · subst here
      rw [parted.tabs_eq, parted.used_eq]
      exact (lawful.redirected _).part parted.room tab inUse
    · rw [(parted.others win' here).1, (parted.others win' here).2]
      exact lawful.redirected win'
  · by_cases isOld : win' = slot.win ∧ tab' = tab
    · rcases isOld with ⟨rfl, rfl⟩
      rw [thereOld] at found
      cases found
      exact goes filledOld uses
    · by_cases isNew : win' = slot.win ∧ tab' = (s.shared.wins slot.win).tabsUsed
      · rcases isNew with ⟨rfl, rfl⟩
        rw [thereNew] at found
        cases found
        exact goes filledNew uses
      · rw [at_ _ _ isOld isNew] at found
        have before := lawful.refs win' tab' other found row ref uses
        by_cases here : win' = slot.win
        · subst here
          rw [parted.tabs_eq]
          rcases @halved_cases tab (s.shared.wins slot.win).tabsUsed (s.shared.wins slot.win).tabs (other.tab.row row ref).tab
            with same | moved
          · exact same.trans before
          · exact absurd ⟨rfl, before.symm.trans moved.1⟩ isOld
        · rw [(parted.others win' here).1]
          exact before
  · by_cases isOld : win' = slot.win ∧ tab' = tab
    · rcases isOld with ⟨rfl, rfl⟩
      rw [thereOld] at found
      cases found
      exact .inl (filledOld.fit sized)
    · by_cases isNew : win' = slot.win ∧ tab' = (s.shared.wins slot.win).tabsUsed
      · rcases isNew with ⟨rfl, rfl⟩
        rw [thereNew] at found
        cases found
        exact .inl (filledNew.fit sized)
      · rw [at_ _ _ isOld isNew] at found
        exact lawful.fit sized win' tab' other found

/-- A critical section leaves a store. -/
theorem Lawful.effect {tls : Tls} {work : Work} {result : Option Nat} (lawful : b.Lawful s)
    (effect : b.Effect cfg tls work result s s') : b.Lawful s' := by
  cases work with
  | put val =>
    rcases effect with ⟨_, stored⟩ | ⟨_, parted⟩
    · exact lawful.stored stored
    · exact lawful.parted parted
  | find uid what =>
    rcases effect with ⟨code, _, found⟩
    exact lawful.found found

end Keeping

section Runs

variable {part : Section} {sections : List Section}

theorem Lawful.enter (lawful : b.Lawful s) (part : Section) : b.Lawful (part.enter b.switch s) := by
  rcases b.switch_known lawful.known lawful.none_ part.process with ⟨known, same⟩
  have tables : b.tables (part.enter b.switch s).map = b.tables s.map := same
  refine ⟨known, ?_, ?_, ?_, lawful.redirected, ?_, ?_⟩
  · rw [tables]
    exact lawful.none_
  · rw [tables]
    exact lawful.absent
  · rw [tables]
    exact lawful.there
  · rw [tables]
    exact lawful.refs
  · rw [tables]
    exact lawful.fit

theorem section_ends (lawful : b.Lawful s) : Ends limit (runSectionsOr m cfg e b.switch [part])
    (fun results s' => ∃ result tls, results = [(result, tls)] ∧ tls = s'.shared.tls ∧
      b.Effect cfg part.tls part.work result (part.enter b.switch s) s')
    (fun stop _ => (∃ val, part.work = .put val) → b.Stops cfg stop) s := by
  have switched : onMap (modify (b.switch part.process)) s = ⟨.ok (), ⟨s.shared, b.switch part.process s.map⟩, 0⟩ := rfl
  have set : modifyTls (fun _ => part.tls) ⟨s.shared, b.switch part.process s.map⟩ =
    ⟨.ok (), part.enter b.switch s, 0⟩ := rfl
  apply ends_after switched
  apply ends_after set
  apply ends_step (work_ends (lawful.enter part)) fun _ _ stops => stops
  intro result s1 effect
  apply ends_after (getTls_run s1)
  exact ends_pure ⟨result, _, rfl, rfl, effect⟩

/-- Whatever critical sections keep between them holds after a run. -/
theorem sections_ends {I : State μ → Prop} {sections : List Section} (lawful : b.Lawful s) (start : I s)
    (step : ∀ part ∈ sections, ∀ s result s', b.Lawful s → I s →
      b.Effect cfg part.tls part.work result (part.enter b.switch s) s' → I s') :
    Ends limit (runSectionsOr m cfg e b.switch sections) (fun _ s' => b.Lawful s' ∧ I s') (fun _ _ => True) s := by
  induction sections generalizing s with
  | nil => exact ends_pure ⟨lawful, start⟩
  | cons part rest ih =>
    have entered := lawful.enter part
    have switched : onMap (modify (b.switch part.process)) s = ⟨.ok (), ⟨s.shared, b.switch part.process s.map⟩, 0⟩ := rfl
    have set : modifyTls (fun _ => part.tls) ⟨s.shared, b.switch part.process s.map⟩ =
      ⟨.ok (), part.enter b.switch s, 0⟩ := rfl
    apply ends_after switched
    apply ends_after set
    apply ends_step (work_ends entered) fun _ _ _ => trivial
    intro result s1 effect
    apply ends_after (getTls_run s1)
    have holds := step part List.mem_cons_self s result s1 lawful start effect
    apply ends_step (ih (entered.effect effect) holds fun other member => step other (List.mem_cons_of_mem _ member))
      fun _ _ stops => stops
    exact fun _ s2 after => ends_pure after

/-- The assertions in the loops of `shf_tab_part` hold in every run. -/
theorem sections_runsAs {sections : List Section} (lawful : b.Lawful s) :
    RunsAs limit (runSectionsOr m cfg e b.switch sections) (runSectionsOr m cfg e' b.switch sections) s := by
  induction sections generalizing s with
  | nil => exact runsAs_refl _ _
  | cons part rest ih =>
    have entered := lawful.enter part
    have switched : onMap (modify (b.switch part.process)) s = ⟨.ok (), ⟨s.shared, b.switch part.process s.map⟩, 0⟩ := rfl
    have set : modifyTls (fun _ => part.tls) ⟨s.shared, b.switch part.process s.map⟩ =
      ⟨.ok (), part.enter b.switch s, 0⟩ := rfl
    apply runsAs_bind (runsAs_refl _ _)
    apply ends_run switched
    intro _
    apply runsAs_bind (runsAs_refl _ _)
    apply ends_run set
    intro _
    have same : RunsAs limit (part.work.runOr m cfg e) (part.work.runOr m cfg e') (part.enter b.switch s) := by
      cases work : part.work with
      | put val =>
        apply runsAs_bind (putSectionOr_runsAs entered)
        intro _
        split
        · exact runsAs_refl _ _
        · trivial
      | find uid what => exact runsAs_refl _ _
    apply runsAs_bind same
    apply (work_ends entered).mono _ fun _ _ _ => trivial
    intro result s1 effect
    apply runsAs_bind (runsAs_refl _ _)
    apply ends_run (getTls_run s1)
    intro _
    apply runsAs_bind (ih (entered.effect effect))
    intro _
    split
    · exact runsAs_refl _ _
    · trivial

end Runs

end Ledger

end SharedHashFile.Store
