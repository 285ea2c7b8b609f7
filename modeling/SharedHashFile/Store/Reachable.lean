import SharedHashFile.Store.ActSpec
import SharedHashFile.Store.MappedTables
import SharedHashFile.Store.PutSpec

namespace SharedHashFile.Store

open ByteMemory Program

section Variable

variable {cfg : Config} (variable_ : cfg.isFixedKeyValLen = false)
include variable_

theorem Config.linkable_variable : cfg.Linkable := by
  intro fixed
  rw [lenLen_variable variable_] at fixed
  cases fixed

theorem Config.accepts_variable (key : List UInt8) (val : PutVal) : cfg.Accepts key val := by
  constructor <;>
  · intro fixed
    rw [lenLen_variable variable_] at fixed
    cases fixed

end Variable

def Onward (t t' : State Tables) : Prop :=
  ∀ win, (∀ i, (t.shared.wins win).tabs i ≤ (t'.shared.wins win).tabs i) ∧
    (t.shared.wins win).tabsUsed ≤ (t'.shared.wins win).tabsUsed

theorem Onward.refl (t : State Tables) : Onward t t := fun _ => ⟨fun _ => Nat.le_refl _, Nat.le_refl _⟩

theorem Onward.trans {t t' t'' : State Tables} (first : Onward t t') (second : Onward t' t'') : Onward t t'' :=
  fun win => ⟨fun i => Nat.le_trans ((first win).1 i) ((second win).1 i), Nat.le_trans (first win).2 (second win).2⟩

theorem Frame.onward {touched : Ptr → Prop} {t t' : State Tables} (frame : Frame touched t t') : Onward t t' := by
  intro win
  rw [frame.tabs, frame.used]
  exact ⟨fun _ => Nat.le_refl _, Nat.le_refl _⟩

/-- Any store, in use or not, and what became of it. -/
structure Kept (cfg : Config) (t t' : State Tables) : Prop where
  ok : ∃ b, StoreOk cfg t' b
  onward : Onward t t'

section Acts

variable {cfg : Config} {t : State Tables} {b : Bindings} {slot : Slot} {tab : Nat} {record : Found}
  {binding : Binding} {file : File} {c : Contents} {free : List Nat}

theorem readU32_ends {limit off : Nat} {ptr : Ptr} (held : Held t ptr file) (low : dataOffset ≤ off) :
    Ends limit (readU32 direct ptr off) (fun _ t' => t = t') (fun e _ => e ≠ .below) t := by
  have above : 4 = 0 ∨ direct.lowest ≤ off := .inr low
  refine ends_bind (ends_bind (ends_after (viewAt_run held) (ends_after (check_true above _ _) ?_)))
  refine ends_check (fun _ => ?_) fun _ => by decide
  exact ends_after (tabAt_run held) (ends_pure (ends_pure rfl))

variable (atRecord : AtRecord cfg t b slot tab record binding file c free)
include atRecord

theorem actOn_kept (linkable : cfg.Linkable) (what : FindKeyAnd) :
    Ends sizeLimit (actOn direct cfg slot tab record what) (fun _ => Kept cfg t) (fun e _ => e ≠ .below) t := by
  by_cases ready : what.Ready t.shared.tls
  · refine (actOn_ends atRecord linkable ready).mono ?_ fun _ _ refused => refused.ne_below
    rintro _ t' ⟨_, acted⟩
    exact ⟨⟨_, acted.ok⟩, acted.frame.onward⟩
  · cases what with
    | delete =>
      refine ends_after (getTls_run t) (ends_ite (fun _ => ?_) fun none_ => absurd (not_not.mp none_) ready)
      refine ends_step (readU32_ends atRecord.held atRecord.valAddr_low) (fun _ _ other => other) ?_
      rintro ttl _ rfl
      refine ends_ite (fun _ => ?_) fun _ => ?_
      · rcases modifyTls_step t fun tls => { tls with ttl := 0 } with ⟨t', run, map, _, frame⟩
        exact ends_after run (ends_pure ⟨⟨b, atRecord.ok.untouched map frame⟩, frame.onward⟩)
      · rcases copyVal_run atRecord with ⟨t1, run1, map1, tls1, frame1⟩
        have atRecord1 := atRecord.withTls map1 frame1 (by rw [tls1]) (by rw [tls1])
        rcases deleteFound_run atRecord1 linkable with ⟨t2, run2, acted⟩
        exact ends_after run1 (ends_after run2 (ends_pure ⟨⟨_, acted.ok⟩, frame1.onward.trans acted.frame.onward⟩))
    | update =>
      rcases modifyTls_step t fun tls => { tls with updCallbackFailsafe := tls.updCallbackFailsafe + 1 } with
        ⟨t1, run1, _, tls1, _⟩
      refine ends_bind (ends_after run1 (ends_after (getTls_run t1) (ends_bind (ends_check (fun one => ?_) fun _ => by decide))))
      rw [tls1] at one
      exact absurd (Nat.succ.inj one) ready
    | addr => exact absurd trivial ready
    | copyKey => exact absurd trivial ready
    | copyVal => exact absurd trivial ready
    | atomAdd => exact absurd trivial ready

end Acts

section Sections

variable {cfg : Config} {t : State Tables} {b : Bindings}

theorem findKeyInternal_kept (linkable : cfg.Linkable) (ok : StoreOk cfg t b) (uid : Nat) (what : FindKeyAnd) :
    Ends sizeLimit (findKeyInternal direct cfg uid what) (fun _ => Kept cfg t) (fun e _ => e ≠ .below) t := by
  rcases findKeyInternal_reaches what ok with ⟨t', keyAddr, valAddr, ok', frame, tls, next⟩
  split at next
  · rcases modifyTls_step t' fun tls => { tls with valAddr := none } with ⟨t2, run, map, _, frame2⟩
    exact ends_congr next (ends_after run (ends_pure ⟨⟨b, ok'.untouched map frame2⟩, frame.onward.trans frame2.onward⟩))
  · rcases next with ⟨slot, tab, record, binding, file, c, free, _, atRecord, run⟩
    refine ends_congr run ((actOn_kept atRecord linkable what).mono ?_ fun _ _ other => other)
    rintro _ t2 ⟨ok2, onward⟩
    exact ⟨ok2, frame.onward.trans onward⟩

theorem halved_le {tabOld used : Nat} {tabs : Fin 2048 → Nat} (below : ∀ i, tabs i < used) (i : Fin 2048) :
    tabs i ≤ halved tabOld used tabs i := by
  rcases @repointed_cases tabOld used (List.finRange 2048) false tabs i with same | moved
  · rw [halved, same]
  · rw [halved, moved.2]
    exact Nat.le_of_lt (below i)

theorem Split.onward {t' : State Tables} (ok : StoreOk cfg t b) (split : Split cfg t b t') : Onward t t' := by
  intro win
  by_cases here : win = (t.shared.tls.hash.slot 0).win
  · rw [here, split.tabs_eq, split.used_eq]
    exact ⟨halved_le (ok.tabs_lt _), Nat.le_succ _⟩
  · rcases split.others win here with ⟨tabs, used, _⟩
    rw [tabs, used]
    exact ⟨fun _ => Nat.le_refl _, Nat.le_refl _⟩

/-- What a section's put must fit, if the store has fixed lengths; it may reserve its value. -/
def Section.Fits (cfg : Config) (part : Section) : Prop :=
  ∀ val, part.work = .put val → cfg.Fits part.tls.hashKey val.bytes

/-- Its value is known too, when the store has fixed lengths. -/
def Section.Accepted (cfg : Config) (part : Section) : Prop :=
  ∀ val, part.work = .put val → cfg.Accepts part.tls.hashKey val

theorem Section.Accepted.fits {part : Section} (accepted : part.Accepted cfg) : part.Fits cfg :=
  fun val put => (accepted val put).1

theorem Section.accepted_variable (variable_ : cfg.isFixedKeyValLen = false) (part : Section) : part.Accepted cfg :=
  fun _ _ => Config.accepts_variable variable_ _ _

theorem Section.fits_variable (variable_ : cfg.isFixedKeyValLen = false) (part : Section) : part.Fits cfg :=
  (part.accepted_variable variable_).fits

theorem work_kept (linkable : cfg.Linkable) (ok : StoreOk cfg t b) (work : Work)
    (fits : ∀ val, work = .put val → cfg.Fits t.shared.tls.hashKey val.bytes) :
    Ends sizeLimit (work.run direct cfg) (fun _ => Kept cfg t) (fun e _ => e ≠ .below) t := by
  cases work with
  | put val =>
    refine ends_step (putSection_leaves linkable ok (fits val rfl)) (fun _ _ refused => refused.ne_below) ?_
    rintro done t' (⟨rfl, _, _, ref, placed⟩ | ⟨rfl, split⟩)
    · exact ends_pure ⟨⟨_, placed.ok⟩, placed.frame.onward⟩
    · exact ends_pure ⟨⟨b, split.ok⟩, split.onward ok⟩
  | find uid what =>
    refine ends_step (findKeyInternal_kept linkable ok uid what) (fun _ _ other => other) fun _ t' kept => ends_pure kept

/-- Critical sections of any processes leave a store. -/
theorem runSections_kept (linkable : cfg.Linkable) {sections : List Section} (ok : StoreOk cfg t b)
    (fits : ∀ part ∈ sections, part.Fits cfg) :
    Ends sizeLimit (runSections direct cfg (fun _ T => T) sections) (fun _ => Kept cfg t) (fun e _ => e ≠ .below) t := by
  induction sections generalizing t b with
  | nil => exact ends_pure ⟨⟨b, ok⟩, Onward.refl t⟩
  | cons part rest ih =>
    have switched : onMap (modify fun T : Tables => T) t = ⟨.ok (), t, 0⟩ := onMap_run (modify_run _ _)
    rcases modifyTls_step t fun _ => part.tls with ⟨t1, run1, map1, tls1, frame1⟩
    have ok1 := ok.untouched map1 frame1
    refine ends_after switched (ends_after run1 ?_)
    refine ends_step (work_kept linkable ok1 part.work ?_) (fun _ _ other => other) ?_
    · intro val same
      rw [tls1]
      exact fits part List.mem_cons_self val same
    · rintro result t2 ⟨⟨b2, ok2⟩, onward2⟩
      refine ends_after (getTls_run t2) (ends_step (ih ok2 fun other member =>
        fits other (List.mem_cons_of_mem _ member)) (fun _ _ other => other) ?_)
      rintro results t3 ⟨ok3, onward3⟩
      exact ends_pure ⟨ok3, frame1.onward.trans (onward2.trans onward3)⟩

/-- Files and mappings of a store in use: they are those of tables which hold `b`. -/
def InUse (cfg : Config) (s : State Disk) (b : Bindings) : Prop := ∃ t, Settled s t ∧ StoreOk cfg t b

theorem resized_none (size : Nat) : Tables.resized none size = ⟨size, emptyTab⟩ := by
  simp only [Tables.resized, Option.getD_none, File.truncate, emptyTab, ite_self]

theorem initial_storeOk (cfg : Config) (vfs : Nat → Nat) (tls : Tls) :
    StoreOk cfg (State.initialTables vfs tls) fun _ => none := by
  refine ⟨fun _ => (by decide : 1 ≤ 2048), fun _ _ => (by decide : 0 < 1), rfl, fun win tab above => ?_,
    fun win tab below => ?_⟩
  · cases found : (State.initialTables vfs tls).map.table win tab with
    | none => rfl
    | some file =>
      rcases Option.map_eq_some_iff.mp found with ⟨number, path, _⟩
      have first := (Disk.initial_path path).1
      change 1 ≤ tab at above
      omega
  · have first : tab = 0 := Nat.lt_one_iff.mp below
    subst first
    have opened : TableOk cfg (Tables.opened ⟨modPage dataOffset, emptyTab⟩) (fun _ _ => none) [] := by
      rw [← resized_none]
      exact newTable_ok
    refine ⟨_, _, [], rfl, opened, fun row ref e => ?_⟩
    constructor
    · intro found
      cases found
    · rintro ⟨_, bound⟩
      cases bound

theorem initial_inUse (cfg : Config) (vfs : Nat → Nat) (tls : Tls) :
    InUse cfg (State.initial vfs tls) fun _ => none :=
  ⟨_, initial_settled vfs tls, initial_storeOk cfg vfs tls⟩

theorem InUse.guarded_ends {s : State Disk} {sections : List Section} (inUse : InUse cfg s b) (linkable : cfg.Linkable)
    (fits : ∀ part ∈ sections, part.Fits cfg) : Ends sizeLimit (runProcesses mapped.guarded cfg sections)
      (fun _ s' => ∃ b', InUse cfg s' b') (fun e _ => e ≠ .below) s := by
  rcases inUse with ⟨t, settled, ok⟩
  refine ((runSections_simulates guarded_faithful settled).ends (runSections_kept linkable ok fits)).mono ?_ ?_
  · rintro _ s' ⟨t', settled', ⟨b', ok'⟩, _⟩
    exact ⟨b', t', settled', ok'⟩
  · rintro e _ ⟨_, other⟩
    exact other

/-- What any processes do leaves files and mappings of a store in use. -/
theorem InUse.processes {s : State Disk} {sections : List Section} (inUse : InUse cfg s b) (linkable : cfg.Linkable)
    (fits : ∀ part ∈ sections, part.Fits cfg) : Ends sizeLimit (runProcesses mapped cfg sections)
      (fun _ s' => ∃ b', InUse cfg s' b') (fun e _ => e ≠ .below) s :=
  (runSections_follows mapped_lowest _ _).ends (inUse.guarded_ends linkable fits) fun _ never => never rfl

/-- In a store in use header and rows are never taken for data. -/
theorem InUse.runs_guarded {s : State Disk} {sections : List Section} (inUse : InUse cfg s b) (linkable : cfg.Linkable)
    (fits : ∀ part ∈ sections, part.Fits cfg) (within : (runProcesses mapped cfg sections s).peak < 2^32) :
    runProcesses mapped cfg sections s = runProcesses mapped.guarded cfg sections s :=
  (runSections_follows mapped_lowest _ _).same (inUse.guarded_ends linkable fits) (fun _ never => never rfl) within

theorem InUse.ends_guarded {s : State Disk} {sections : List Section} {Q : List (Option Nat × Tls) → State Disk → Prop}
    {E : Stop → State Disk → Prop} (inUse : InUse cfg s b) (linkable : cfg.Linkable)
    (fits : ∀ part ∈ sections, part.Fits cfg) (ends : Ends sizeLimit (runProcesses mapped.guarded cfg sections) Q E s) :
    Ends sizeLimit (runProcesses mapped cfg sections) Q E s := by
  intro within
  have guarded := inUse.runs_guarded linkable fits within
  rw [guarded] at within ⊢
  exact ends within

/-- The processes of a new store get here with these critical sections, within the 32-bit limits. -/
structure Attained (cfg : Config) (vfs : Nat → Nat) (tls : Tls) (sections : List Section) (s : State Disk) : Prop where
  within : (runProcesses mapped cfg sections (State.initial vfs tls)).peak < 2^32
  ended : (runProcesses mapped cfg sections (State.initial vfs tls)).value.isOk = true
  state : (runProcesses mapped cfg sections (State.initial vfs tls)).state = s

theorem initial_attained (cfg : Config) (vfs : Nat → Nat) (tls : Tls) : Attained cfg vfs tls [] (State.initial vfs tls) :=
  ⟨show 0 < 2^32 by decide, rfl, rfl⟩

section Attaining

variable {vfs : Nat → Nat} {tls : Tls} {sections : List Section} {s : State Disk}

theorem Attained.inUse (attained : Attained cfg vfs tls sections s) (linkable : cfg.Linkable)
    (fits : ∀ part ∈ sections, part.Fits cfg) : ∃ b, InUse cfg s b := by
  rcases attained with ⟨within, ended, rfl⟩
  have ends := (initial_inUse cfg vfs tls).processes linkable fits within
  cases value : (runProcesses mapped cfg sections (State.initial vfs tls)).value with
  | ok results =>
    rw [value] at ends
    exact ends
  | error e =>
    rw [value] at ended
    cases ended

theorem Attained.settled (attained : Attained cfg vfs tls sections s) (linkable : cfg.Linkable)
    (fits : ∀ part ∈ sections, part.Fits cfg) : ∃ t, Settled s t := by
  rcases attained.inUse linkable fits with ⟨_, t, settled, _⟩
  exact ⟨t, settled⟩

theorem Attained.runs_guarded (attained : Attained cfg vfs tls sections s) (linkable : cfg.Linkable)
    (fits : ∀ part ∈ sections, part.Fits cfg) : runProcesses mapped cfg sections (State.initial vfs tls) =
      runProcesses mapped.guarded cfg sections (State.initial vfs tls) :=
  (initial_inUse cfg vfs tls).runs_guarded linkable fits attained.within

end Attaining

end Sections

def smallConfig : Config := ⟨false, 0, 0, 1, oneFactor_lt⟩
def smallTls (key : List UInt8) : Tls where
  ttl := 0
  uid := uidNone
  valLong := 0
  valAddr := none
  keyAddr := none
  hash := 0
  hashKey := key
  val := []
  valLen := 0
  valSize := 4096
  key := []
  keyLen := 0
  keySize := 4096
  updCallbackFailsafe := 0
  updCallbackCopyVal := []

/-- The first process finds what the second put. -/
def smallSections : List Section :=
  [⟨1, smallTls [1], .put (.copy [10, 11])⟩, ⟨2, smallTls [2], .put (.copy [20])⟩,
    ⟨1, smallTls [1], .find uidNone .delete⟩, ⟨1, smallTls [2], .find uidNone .addr⟩]

end SharedHashFile.Store
