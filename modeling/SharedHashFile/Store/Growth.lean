import SharedHashFile.Store.SectionSpec
import SharedHashFile.Transition.Reachability

namespace SharedHashFile.Store

open Program

attribute [local irreducible] allRefs

/-- A value of `shf_data_needed_factor`. -/
structure Factor where
  factor : Nat
  factor_lt : factor < 2^32

def Factor.one : Factor := ⟨1, by decide⟩

/-- `shf_set_data_need_factor`: what is asserted is about the value before. -/
def setDataNeedFactor (dataNeededFactor factor : Factor) : Option Factor :=
  if dataNeededFactor.factor > 0 then some factor else none

def Config.withFactor (cfg : Config) (factor : Factor) : Config :=
  { cfg with dataNeededFactor := factor.factor, dataNeededFactor_lt := factor.factor_lt }

/-- The processes of a store, each with its own `shf_data_needed_factor`. -/
structure Factors where
  factors : Nat → Factor
  store : State Disk

def Factors.initial (vfs : Nat → Nat) (tls : Tls) : Factors := ⟨fun _ => Factor.one, State.initial vfs tls⟩

/-- A process has a factor accepted, or ends a critical section, in which it puts what the store takes. -/
inductive Factors.Step (cfg : Config) : Factors → Factors → Prop
  | set {σ : Factors} (process : Nat) (factor : Factor) {accepted : Factor}
      (sets : setDataNeedFactor (σ.factors process) factor = some accepted) :
      Step cfg σ { σ with factors := Function.update σ.factors process accepted }
  | work {σ : Factors} (part : Section) (fits : part.Fits cfg)
      (completes : Completes (2^32) (runProcesses mapped (cfg.withFactor (σ.factors part.process)) [part]) σ.store) :
      Step cfg σ { σ with
        store := (runProcesses mapped (cfg.withFactor (σ.factors part.process)) [part] σ.store).state }

def Factors.Reachable (cfg : Config) (vfs : Nat → Nat) (tls : Tls) : Factors → Prop :=
  Transition.Reachable (· = Factors.initial vfs tls) (Factors.Step cfg)

section Growing

variable {μ : Type} (m : Mapping μ) (cfg : Config)

def fillTab (win : Fin 256) (tab : Nat) (copies : Bool) (records : List (List UInt8 × PutVal)) : Operation μ Unit := do
  onMap (m.getTabMmap win tab)
  when copies (onMap (m.replace win tab))
  records.forM fun record => do
    let t ← tabAt m (.tab win tab)
    let _ ← tabAppend m cfg win tab record.1 record.2 t.tabUsed
    pure ()

/-- Then it grows for one more; the table as the assertions after that see it. -/
def fillAndGrow (win : Fin 256) (tab : Nat) (copies : Bool) (records : List (List UInt8 × PutVal)) (dataNeeded : Nat) :
    Operation μ Tab := do
  fillTab m cfg win tab copies records
  ask dataNeeded
  growTab m cfg win tab dataNeeded
  tabAt m (.tab win tab)

def copyTab (win : Fin 256) (tab : Nat) : Operation μ Unit := do
  onMap (m.getTabMmap win tab)
  tabShrink m cfg win tab

theorem fillAndGrow_follows (low : m.lowest ≤ dataOffset) (win : Fin 256) (tab : Nat) (copies : Bool)
    (records : List (List UInt8 × PutVal)) (dataNeeded : Nat) : Follows .below
      (fillAndGrow m cfg win tab copies records dataNeeded) (fillAndGrow m.guarded cfg win tab copies records dataNeeded) := by
  refine follows_bind ?_ fun _ => follows_refl _
  refine follows_bind (follows_refl _) fun _ => follows_bind (follows_refl _) fun _ => ?_
  refine follows_forM (fun record => ?_) records
  exact follows_bind (follows_refl _) fun _ => follows_bind (tabAppend_follows low _ _ _) fun _ => follows_refl _

theorem copyTab_follows (low : m.lowest ≤ dataOffset) (win : Fin 256) (tab : Nat) :
    Follows .below (copyTab m cfg win tab) (copyTab m.guarded cfg win tab) :=
  follows_bind (follows_refl _) fun _ => tabShrink_follows low

end Growing

/-- A process's growth of tables is sufficient. -/
structure Factors.GrowsEnough (cfg : Config) (σ : Factors) (process : Nat) : Prop where
  grows : ∀ win tab copies records dataNeeded t, tab < (σ.store.shared.wins win).tabsUsed →
    (∀ record ∈ records, cfg.Fits record.1 record.2.bytes) →
    let run := fillAndGrow mapped (cfg.withFactor (σ.factors process)) win tab copies records dataNeeded
      { σ.store with map := σ.store.map.switch process }
    run.peak < 2^32 → run.value = .ok t → t.tabSize % 4096 = 0 ∧ t.tabUsed + dataNeeded ≤ t.tabSize
  copies : ∀ win tab, tab < (σ.store.shared.wins win).tabsUsed →
    let run := copyTab mapped (cfg.withFactor (σ.factors process)) win tab
      { σ.store with map := σ.store.map.switch process }
    run.peak < 2^32 → run.value ≠ .error .internal
  puts : ∀ part val, part.process = process → part.work = .put val → part.Fits cfg →
    let run := runProcesses mapped (cfg.withFactor (σ.factors process)) [part] σ.store
    run.peak < 2^32 → run.value ≠ .error .internal

section Tables

variable {cfg : Config} {t : State Tables} {b : Bindings} {win : Fin 256} {tab dataNeeded : Nat} {file : File} {c : Contents}
  {free : List Nat} {copies : Bool} {records : List (List UInt8 × PutVal)} {e : Stop}

theorem Refused.internal {vfs : Nat → Nat} (refused : Refused cfg vfs e) (stops : e = .internal) : cfg.dataNeededFactor = 0 := by
  subst stops
  rcases refused with ⟨same, _⟩ | ⟨_, zero⟩
  · cases same
  · exact zero

theorem PutRefused.internal {vfs : Nat → Nat} (refused : PutRefused cfg t b vfs e) (stops : e = .internal) : cfg.dataNeededFactor = 0 := by
  rcases refused with ⟨same, _⟩ | refused
  · rw [stops] at same
    cases same
  · exact refused.internal stops

def HasTable (cfg : Config) (win : Fin 256) (tab : Nat) (t : State Tables) : Prop :=
  ∃ file c free, t.map.fileAt (.tab win tab) = some file ∧ TableOk cfg file c free

theorem fillTab_ends (ok : StoreOk cfg t b) (inUse : tab < (t.shared.wins win).tabsUsed)
    (fits : ∀ record ∈ records, cfg.Fits record.1 record.2.bytes) :
    Ends sizeLimit (fillTab direct cfg win tab copies records) (fun _ => HasTable cfg win tab) (fun e t' => Refused cfg t'.shared.vfs e) t := by
  rcases ok.tables win tab inUse with ⟨file, c, free, there, tableOk, _⟩
  apply ends_after (getTabMmap_ends there)
  have opened : HasTable cfg win tab (t.setFile (.tab win tab) (Tables.opened file)) :=
    ⟨_, c, free, State.fileAt_setFile _ _ _, tableOk⟩
  have replaced : Ends sizeLimit (when copies (onMap (direct.replace win tab)) : Operation Tables Unit)
      (fun _ => HasTable cfg win tab) (fun e t' => Refused cfg t'.shared.vfs e) (t.setFile (.tab win tab) (Tables.opened file)) := by
    refine ends_when (fun _ => ?_) fun _ => opened
    have away : Ptr.tab win tab ≠ .old := nofun
    refine ends_run (replace_ends (State.fileAt_setFile _ _ _)) fun _ => ⟨_, _, [], ?_, newTable_ok⟩
    exact (Tables.fileAt_setFile_of_ne _ away).trans (State.fileAt_setFile _ _ _)
  apply ends_step replaced fun _ _ refused => refused
  intro _ t2 start
  apply ends_forM (fun _ => HasTable cfg win tab) _ start
  rintro done record rest t3 whole ⟨file, c, free, there, tableOk⟩
  apply ends_after (tabAt_run (tableOk.held there))
  have member : record ∈ records := whole ▸ List.mem_append_right _ List.mem_cons_self
  apply ends_step (tabAppend_leaves there tableOk (fits record member)) fun _ _ refused => refused
  rintro pos t4 ⟨bytes, _, file', free', moves, ok', _⟩
  exact ends_pure ⟨file', c, free', moves.there, ok'⟩

/-- With a factor which is not 0, what is grown is enough. -/
theorem fillAndGrow_ends (ok : StoreOk cfg t b) (inUse : tab < (t.shared.wins win).tabsUsed)
    (fits : ∀ record ∈ records, cfg.Fits record.1 record.2.bytes) (positive : 0 < cfg.dataNeededFactor) :
    Ends sizeLimit (fillAndGrow direct cfg win tab copies records dataNeeded)
      (fun grown _ => grown.tabSize % 4096 = 0 ∧ grown.tabUsed + dataNeeded ≤ grown.tabSize) (fun e t' => Refused cfg t'.shared.vfs e) t := by
  apply ends_step (fillTab_ends ok inUse fits) fun _ _ refused => refused
  rintro _ t1 ⟨file, c, free, there, tableOk⟩
  apply ends_bind
  apply ends_ask
  intro below
  apply ends_step (growTab_ends there tableOk below) fun _ _ refused => refused
  rintro _ t2 ⟨size, _, good, larger, moves⟩
  have high := tableOk.used_high
  have grown : file.size ≤ size := Nat.le_trans (Nat.le_add_right _ _) larger
  have held : Held t2 (.tab win tab) ⟨size, { file.tab with tabSize := size }⟩ :=
    ⟨moves.there, Nat.le_trans tableOk.used_low (Nat.le_trans high grown)⟩
  refine ends_run (tabAt_run held) fun _ => ⟨good.page, ?_⟩
  have more := Nat.le_mul_of_pos_right dataNeeded positive
  exact show file.tab.tabUsed + dataNeeded ≤ size by omega

theorem copyTab_ends (linkable : cfg.Linkable) (ok : StoreOk cfg t b) (inUse : tab < (t.shared.wins win).tabsUsed) :
    Ends sizeLimit (copyTab direct cfg win tab) (fun _ _ => True) (fun e t' => Refused cfg t'.shared.vfs e) t := by
  rcases ok.tables win tab inUse with ⟨file, c, free, there, tableOk, _⟩
  apply ends_after (getTabMmap_ends there)
  have none_ : (t.setFile (.tab win tab) (Tables.opened file)).map.old = none := ok.old
  exact (tabShrink_ends linkable (State.fileAt_setFile _ _ _) tableOk none_).mono (fun _ _ _ => trivial)
    fun _ _ refused => refused

/-- With the factor 0 a table does not grow. -/
theorem growTab_still (there : t.map.fileAt (.tab win tab) = some file) (ok : TableOk cfg file c free)
    (zero : cfg.dataNeededFactor = 0) : growTab direct cfg win tab dataNeeded t = ⟨.ok (), (asked t).setFile (.tab win tab)
      ⟨file.size, { (file.truncate file.size).tab with tabSize := file.size }⟩, file.size⟩ := by
  have high := ok.size.high
  have same : modPage ((file.tab.tabSize + dataNeeded * cfg.dataNeededFactor) % 2^64) = file.size := by
    rw [zero, ok.header, Nat.mul_zero, Nat.add_zero, Nat.mod_eq_of_lt (by omega), ok.size.modPage_eq]
  have room : (file.size + 2^64 - file.tab.tabSize) % 2^64 ≤ t.shared.vfs t.shared.vfsAsked % 2^64 := by
    rw [ok.header]
    omega
  have ask_run : (ask file.size : Operation Tables Unit) (asked t) = ⟨.ok (), asked t, file.size⟩ := rfl
  rw [growTab, bind_ok (tabAt_run (ok.held there))]
  dsimp only
  rw [same, bind_ok (vfsAvailable_run t), bind_ok (check_true room _ _)]
  have whole := bind_run (f := fun _ => onMap (direct.grow win tab file.size)) ask_run
    (onMap_run (grow_run (t := asked t) there ok.size))
  rw [Nat.max_zero] at whole
  exact whole

theorem fillAndGrow_still (ok : StoreOk cfg t b) (inUse : tab < (t.shared.wins win).tabsUsed)
    (zero : cfg.dataNeededFactor = 0) : ∃ dataNeeded grown, Completes (2^32) (fillAndGrow direct cfg win tab false [] dataNeeded) t ∧
      (fillAndGrow direct cfg win tab false [] dataNeeded t).value = .ok grown ∧ ¬ grown.tabUsed + dataNeeded ≤ grown.tabSize := by
  rcases ok.tables win tab inUse with ⟨file, c, free, there, tableOk, _⟩
  have opened : onMap (direct.getTabMmap win tab) t = _ := getTabMmap_ends there
  generalize Tables.opened file = file1 at tableOk opened
  have filled : fillTab direct cfg win tab false [] t = ⟨.ok (), t.setFile (.tab win tab) file1, 0⟩ := by
    rw [fillTab, bind_ok opened]
    rfl
  have there1 : (t.setFile (.tab win tab) file1).map.fileAt (.tab win tab) = some file1 := State.fileAt_setFile _ _ _
  have grown := @growTab_still cfg _ win tab file1.size file1 c free there1 tableOk zero
  have ask_run : (ask file1.size : Operation Tables Unit) (t.setFile (.tab win tab) file1) =
    ⟨.ok (), t.setFile (.tab win tab) file1, file1.size⟩ := rfl
  have low := tableOk.used_low
  have after := tabAt_run (@State.held (asked (t.setFile (.tab win tab) file1)) (.tab win tab)
    ⟨file1.size, { (file1.truncate file1.size).tab with tabSize := file1.size }⟩ (Nat.le_trans low tableOk.used_high))
  have whole := bind_run (f := fun _ => (do
    growTab direct cfg win tab file1.size
    tabAt direct (.tab win tab) : Operation Tables Tab)) ask_run (bind_run grown after)
  have high := tableOk.size.high
  unfold dataOffset at low
  refine ⟨file1.size, { (file1.truncate file1.size).tab with tabSize := file1.size }, ?_, ?_, ?_⟩
  · unfold Completes
    rw [fillAndGrow, bind_ok filled, whole, Nat.max_zero, Nat.max_self]
    exact ⟨rfl, high⟩
  · rw [fillAndGrow, bind_ok filled, whole]
  · change ¬ file1.tab.tabUsed + file1.size ≤ file1.size
    omega

/-- A put whose process has a factor which is not 0 stops at no internal assertion. -/
theorem put_stops {part : Section} {val : PutVal} (linkable : cfg.Linkable) (ok : StoreOk cfg t b) (fits : part.Fits cfg)
    (work : part.work = .put val) : Ends sizeLimit (runSections direct cfg (fun _ T => T) [part]) (fun _ _ => True)
      (fun e _ => e ≠ .below ∧ (e = .internal → cfg.dataNeededFactor = 0)) t := by
  have switched : onMap (modify fun T : Tables => T) t = ⟨.ok (), t, 0⟩ := onMap_run (modify_run _ _)
  rcases modifyTls_step t fun _ => part.tls with ⟨t1, run1, map1, tls1, frame1⟩
  refine ends_after switched (ends_after run1 ?_)
  have fits1 : cfg.Fits t1.shared.tls.hashKey val.bytes := by
    rw [tls1]
    exact fits val work
  have stored : Ends sizeLimit ((Work.put val).run direct cfg) (fun _ _ => True)
      (fun e _ => e ≠ .below ∧ (e = .internal → cfg.dataNeededFactor = 0)) t1 :=
    ends_step (putSection_leaves linkable (ok.untouched map1 frame1) fits1)
      (fun _ _ refused => ⟨refused.ne_below, refused.internal⟩) fun _ _ _ => ends_pure trivial
  rw [work]
  exact ends_step stored (fun _ _ stops => stops) fun _ t2 _ => ends_after (getTls_run t2) (ends_pure trivial)

end Tables

section Processes

variable {cfg : Config} {s : State Disk} {t : State Tables} {b : Bindings} {win : Fin 256} {tab dataNeeded : Nat}
  {copies : Bool} {records : List (List UInt8 × PutVal)} {factor : Factor}

theorem Settled.present (settled : Settled s t) (inUse : tab < (t.shared.wins win).tabsUsed) :
    ∃ L, Tracks (fun _ _ => False) L s t ∧ L.old = false ∧ L.present win tab = true := by
  rcases settled with ⟨L, tracks, numbered, none_⟩
  refine ⟨L, tracks, none_, (numbered.present_iff win tab).mpr ?_⟩
  rw [← tracks.layout]
  exact inUse

theorem fillAndGrow_simulates (settled : Settled s t) (inUse : tab < (t.shared.wins win).tabsUsed) :
    Simulates sizeLimit (fillAndGrow mapped.guarded cfg win tab copies records dataNeeded)
      (fillAndGrow direct cfg win tab copies records dataNeeded) (fun _ _ _ => True) s t := by
  rcases settled.present inUse with ⟨L, tracks, none_, present⟩
  have seen : also (fun _ _ => False) win tab win tab := .inr ⟨rfl, rfl⟩
  have known : Known (also (fun _ _ => False) win tab) (.tab win tab) := seen
  have filled : Simulates sizeLimit (fillTab mapped.guarded cfg win tab copies records) (fillTab direct cfg win tab copies records)
      (fun _ s t => ∃ L, Tracks (also (fun _ _ => False) win tab) L s t) s t := by
    refine simulates_bind (getTabMmap_simulates guarded_faithful tracks present) fun _ s t tracks => ?_
    refine simulates_bind (P := fun _ s t => ∃ L, Tracks (also (fun _ _ => False) win tab) L s t)
      (simulates_when (fun _ => ?_) fun _ => ⟨L, tracks⟩) fun _ s t later => ?_
    · exact (replace_simulates guarded_faithful tracks seen none_).mono fun _ _ _ tracks => ⟨_, tracks⟩
    · refine simulates_forM (fun s t => ∃ L, Tracks (also (fun _ _ => False) win tab) L s t) ?_ later
      rintro record s t ⟨L, tracks⟩
      refine simulates_bind (tabAt_simulates guarded_faithful tracks known) ?_
      rintro view _ _ ⟨rfl, rfl, _⟩
      refine simulates_bind (tabAppend_simulates guarded_faithful tracks known) fun _ s t tracks => ?_
      exact simulates_pure ⟨L, tracks⟩
  refine simulates_bind filled ?_
  rintro _ s t ⟨L, tracks⟩
  refine simulates_bind (ask_simulates tracks) ?_
  rintro _ s t ⟨tracks, below⟩
  refine simulates_bind (growTab_simulates guarded_faithful tracks known below) fun _ s t tracks => ?_
  exact (tabAt_simulates guarded_faithful tracks known).mono fun _ _ _ _ => trivial

theorem copyTab_simulates (settled : Settled s t) (inUse : tab < (t.shared.wins win).tabsUsed) :
    Simulates sizeLimit (copyTab mapped.guarded cfg win tab) (copyTab direct cfg win tab) (fun _ _ _ => True) s t := by
  rcases settled.present inUse with ⟨L, tracks, none_, present⟩
  refine simulates_bind (getTabMmap_simulates guarded_faithful tracks present) fun _ s t tracks => ?_
  exact (tabShrink_simulates guarded_faithful tracks (.inr ⟨rfl, rfl⟩) none_).mono fun _ _ _ _ => trivial

theorem StoreOk.withFactor (ok : StoreOk cfg t b) (factor : Factor) : StoreOk (cfg.withFactor factor) t b := by
  refine ⟨ok.used_le, ok.tabs_lt, ok.old, ok.absent, fun win tab inUse => ?_⟩
  rcases ok.tables win tab inUse with ⟨file, c, free, there, tableOk, shows_⟩
  refine ⟨file, c, free, there, ?_, shows_⟩
  refine { tableOk with live := fun found => ?_ }
  rcases tableOk.live found with ⟨tab_eq, rnd_eq, stored⟩
  exact ⟨tab_eq, rnd_eq, { stored with record := { stored.record with } }⟩

theorem StoreOk.of_withFactor (ok : StoreOk (cfg.withFactor factor) t b) : StoreOk cfg t b :=
  ok.withFactor ⟨cfg.dataNeededFactor, cfg.dataNeededFactor_lt⟩

theorem InUse.withFactor (inUse : InUse cfg s b) (factor : Factor) : InUse (cfg.withFactor factor) s b := by
  rcases inUse with ⟨t, settled, ok⟩
  exact ⟨t, settled, ok.withFactor factor⟩

/-- A process's growth is sufficient if and only if its factor is not 0. -/
theorem InUse.grows_iff {factors : Nat → Factor} (inUse : InUse cfg s b) (linkable : cfg.Linkable) (process : Nat) :
    Factors.GrowsEnough cfg ⟨factors, s⟩ process ↔ (factors process).factor ≠ 0 := by
  rcases inUse with ⟨t, settled, ok⟩
  have ok := ok.withFactor (factors process)
  have linkable : (cfg.withFactor (factors process)).Linkable := linkable
  have shared : s.shared = t.shared := settled.tables_eq.2
  have switched := @Settled.switch _ _ process settled
  constructor
  · intro enough zero
    have inUse : 0 < (t.shared.wins 0).tabsUsed := Nat.lt_of_le_of_lt (Nat.zero_le _) (ok.tabs_lt 0 0)
    rcases fillAndGrow_still ok inUse zero with ⟨dataNeeded, grown, completes, value, less⟩
    rcases @fillAndGrow_simulates (cfg.withFactor (factors process)) _ _ _ _ dataNeeded false [] switched inUse
      (.inr completes.2) with ⟨peak, same, _⟩
    have ran := (fillAndGrow_follows _ _ mapped_lowest 0 0 false [] dataNeeded).completes
      (⟨same ▸ completes.1, peak ▸ completes.2⟩ : Completes (2^32) _ _)
    refine less (enough.grows 0 0 false [] dataNeeded grown ?_ nofun ?_ ?_).2
    · change 0 < (s.shared.wins 0).tabsUsed
      rw [shared]
      exact inUse
    · rw [ran, peak]
      exact completes.2
    · rw [ran, same]
      exact value
  · intro positive
    refine ⟨fun win tab copies records dataNeeded grown inUse fits => ?_, fun win tab inUse => ?_, fun part val same work fits => ?_⟩
    · intro run within value
      rw [shared] at inUse
      have ends := (fillAndGrow_follows mapped (cfg.withFactor (factors process)) mapped_lowest win tab copies records
        dataNeeded).ends_simulated (fillAndGrow_simulates switched inUse)
        (fillAndGrow_ends ok inUse fits (Nat.pos_of_ne_zero positive)) fun _ refused => refused.ne_below rfl
      rcases Ends.ran ends value within with ⟨_, _, enough⟩
      exact enough
    · intro run within internal
      rw [shared] at inUse
      have ends := (copyTab_follows mapped (cfg.withFactor (factors process)) mapped_lowest win tab).ends_simulated
        (copyTab_simulates switched inUse) (copyTab_ends linkable ok inUse) (fun _ refused => refused.ne_below rfl) within
      have value : (copyTab mapped (cfg.withFactor (factors process)) win tab
        { s with map := s.map.switch process }).value = .error .internal := internal
      rw [value] at ends
      rcases ends with ⟨_, refused⟩
      exact positive (refused.internal rfl)
    · intro run within internal
      have ends := (@runSections_follows _ mapped (cfg.withFactor (factors process)) mapped_lowest Disk.switch
        [part]).ends_simulated (runSections_simulates guarded_faithful settled) (put_stops linkable ok fits work)
        (fun _ stops => stops.1 rfl) within
      have value : (runProcesses mapped (cfg.withFactor (factors process)) [part] s).value = .error .internal := internal
      rw [runProcesses] at value
      rw [value] at ends
      rcases ends with ⟨_, stops⟩
      exact positive (stops.2 rfl)

theorem Factors.Reachable.inUse {vfs : Nat → Nat} {tls : Tls} {σ : Factors} (reached : Factors.Reachable cfg vfs tls σ)
    (linkable : cfg.Linkable) : ∃ b, InUse cfg σ.store b := by
  apply @Transition.Reachable.invariant _ _ _ (fun σ : Factors => ∃ b, InUse cfg σ.store b) _ _ _ reached
  · rintro _ rfl
    exact ⟨_, initial_inUse cfg vfs tls⟩
  · rintro σ _ ⟨b, inUse⟩ step
    cases step with
    | set process factor sets => exact ⟨b, inUse⟩
    | work part fits completes =>
      have linkable' : (cfg.withFactor (σ.factors part.process)).Linkable := linkable
      have sections := (inUse.withFactor (σ.factors part.process)).processes linkable' (List.forall_mem_singleton.mpr fits)
      rcases completes.ended with ⟨results, value⟩
      rcases Ends.ran sections value completes.2 with ⟨b', t', settled', ok'⟩
      exact ⟨b', t', settled', ok'.of_withFactor⟩

end Processes

/-- Whatever factors the processes have had accepted, growth is sufficient for those which have not had 0 last. -/
theorem growsEnough_iff (cfg : Config) (linkable : cfg.Linkable) (vfs : Nat → Nat) (tls : Tls) (σ : Factors)
    (reached : σ.Reachable cfg vfs tls) (process : Nat) : σ.GrowsEnough cfg process ↔ (σ.factors process).factor ≠ 0 := by
  rcases reached.inUse linkable with ⟨b, inUse⟩
  exact inUse.grows_iff linkable process

theorem initial_growsEnough : (Factors.initial (fun _ => 2^40) (smallTls [])).GrowsEnough smallConfig 1 ↔
    ((Factors.initial (fun _ => 2^40) (smallTls [])).factors 1).factor ≠ 0 :=
  growsEnough_iff smallConfig (Config.linkable_variable rfl) (fun _ => 2^40) (smallTls []) _ (.start rfl) 1

/-- The factor 0 is accepted. -/
theorem not_growsEnough : ¬ ∀ (cfg : Config) (vfs : Nat → Nat) (tls : Tls) (σ : Factors), σ.Reachable cfg vfs tls →
    ∀ process, σ.GrowsEnough cfg process := by
  intro all
  have start : Factors.Reachable smallConfig (fun _ => 2^40) (smallTls []) (Factors.initial (fun _ => 2^40) (smallTls [])) :=
    .start rfl
  have sets : setDataNeedFactor Factor.one ⟨0, by decide⟩ = some ⟨0, by decide⟩ := rfl
  have reached := Transition.Reachable.next start (Factors.Step.set 1 ⟨0, by decide⟩ sets)
  have enough := all _ _ _ _ reached 1
  apply ((initial_inUse smallConfig (fun _ => 2^40) (smallTls [])).grows_iff (Config.linkable_variable rfl) 1).mp enough
  rw [Function.update_self]

end SharedHashFile.Store
