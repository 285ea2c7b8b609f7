import SharedHashFile.Store.Readers

namespace SharedHashFile.Store

open ByteMemory Program

def AtEach (cfg : Config) (P : State Disk → Section → Prop) : List Section → State Disk → Prop
  | [], _ => True
  | part :: rest, s => P s part ∧ ((runProcesses mapped cfg [part] s).value.isOk = true →
      AtEach cfg P rest (runProcesses mapped cfg [part] s).state)

def Section.Reads (part : Section) (uid : Nat) (what : FindKeyAnd) : Prop :=
  part.work = .find uid what ∧ what.lockMode = .reader

/-- A section with the reader's lock has nothing to do to its table. -/
def Section.Spared (cfg : Config) (s : State Disk) (part : Section) : Prop :=
  ∀ uid what, part.Reads uid what → Store.Spared cfg uid what (part.enter Disk.switch s)

/-- A section with the reader's lock does what it would if no table could be changed, and leaves them all as they
    were, but for the counter of an atomic add. -/
def Section.Disciplined (cfg : Config) (s : State Disk) (part : Section) : Prop :=
  ∀ uid what, part.Reads uid what →
    let s := part.enter Disk.switch s
    let run := findKeyInternal mapped cfg uid what s
    let dry := findKeyInternal readOnly cfg uid what s
    run.value = dry.value ∧ run.state.shared = dry.state.shared ∧
      Wrote what (s.shared.tls.slotOf uid).win (s.tabOf uid) run.state.shared.tls s.map run.state.map

/-- A key which is found before the sections is found after them. -/
def StillFound (cfg : Config) (sections : List Section) (s : State Disk) : Prop :=
  ∀ first later : Section, first.work = .find uidNone .addr → later.work = .find uidNone .addr →
    later.tls.hash = first.tls.hash → later.tls.hashKey = first.tls.hashKey →
    (∃ tls, (runProcesses mapped cfg [first] s).value = .ok [(some retKeyFound, tls)]) →
    ∀ results, (runProcesses mapped cfg sections s).value = .ok results →
      ∃ tls, (runProcesses mapped cfg [later] (runProcesses mapped cfg sections s).state).value =
        .ok [(some retKeyFound, tls)]

section Discipline

variable {cfg : Config} {s : State Disk} {b : Bindings} {part : Section}

theorem InUse.enter (inUse : InUse cfg s b) : InUse cfg (part.enter Disk.switch s) b := by
  rcases inUse with ⟨t, settled, ok⟩
  have switched := @Settled.switch _ _ part.process settled
  rcases switched with ⟨L, tracks, rest⟩
  refine ⟨t.withTls fun _ => part.tls, ⟨L, ?_, rest⟩, ok.withTls _⟩
  have shared : s.shared = t.shared := tracks.shared
  unfold Section.enter State.withTls
  rw [shared]
  exact tracks.withShared (fun _ => rfl) fun _ => rfl

theorem InUse.disciplined (inUse : InUse cfg s b) (spared : part.Spared cfg s) : part.Disciplined cfg s := by
  intro uid what reads
  have alike := (@InUse.enter cfg s b part inUse).alike reads.2 (spared uid what reads)
  have kept := @readOnly_keeps cfg uid what (fun win => ((part.enter Disk.switch s).shared.wins win).tabsUsed)
    (part.enter Disk.switch s).map.files (part.enter Disk.switch s).map.path reads.2 (part.enter Disk.switch s)
    ⟨fun _ => rfl, rfl, rfl⟩
  rcases kept.map with ⟨files, path⟩
  refine ⟨alike.value, alike.shared, ?_⟩
  have wrote := alike.wrote
  unfold Wrote at wrote ⊢
  rw [files, path] at wrote
  exact wrote

def SameKeys (b b' : Bindings) : Prop :=
  ∀ slot, (b' slot).map (fun binding => (binding.rnd, binding.key)) = (b slot).map fun binding => (binding.rnd, binding.key)

theorem SameKeys.locate {b' : Bindings} (same : SameKeys b b') (uid : Nat) (hash : Hash) (key : List UInt8) :
    b'.locate uid hash key = b.locate uid hash key := by
  have isAt : b'.isAt hash key = b.isAt hash key := by
    funext ref
    have here := same (hash.slot ref)
    unfold Bindings.isAt
    cases before : b (hash.slot ref) with
    | none =>
      rw [before] at here
      rw [Option.map_eq_none_iff.mp here]
    | some binding =>
      rw [before] at here
      rcases Option.map_eq_some_iff.mp here with ⟨binding', after, equal⟩
      rw [after]
      simp only [Prod.mk.injEq] at equal
      simp only [equal.1, equal.2]
  have isSome : (b' (uidSlot uid)).isSome = (b (uidSlot uid)).isSome := by
    have here := congrArg Option.isSome (same (uidSlot uid))
    rwa [Option.isSome_map, Option.isSome_map] at here
  unfold Bindings.locate
  rw [isAt, isSome]

theorem SameKeys.trans {b' b'' : Bindings} (first : SameKeys b b') (second : SameKeys b' b'') : SameKeys b b'' :=
  fun slot => (second slot).trans (first slot)

theorem FindKeyAnd.Outcome.sameKeys {what : FindKeyAnd} {uid result : Nat} {tls tls' : Tls} {b' : Bindings}
    (reader : what.lockMode = .reader) (outcome : what.Outcome b uid tls result tls' b') : SameKeys b b' := by
  unfold FindKeyAnd.Outcome at outcome
  split at outcome
  · rcases outcome with ⟨_, rfl, _⟩
    exact fun _ => rfl
  · rename_i place located
    rcases outcome with ⟨binding, keyAddr, valAddr, bound, effect, b'_eq⟩
    have after : b' place = (what.effect (tls.lookedUp uid (some place) keyAddr valAddr) binding).2.2 :=
      congrArg (fun all => all.2.2) effect
    have there : ∃ binding', (what.effect (tls.lookedUp uid (some place) keyAddr valAddr) binding).2.2 = some binding' := by
      generalize tls.lookedUp uid (some place) keyAddr valAddr = tls1
      cases what with
      | addr => exact ⟨_, rfl⟩
      | copyVal => exact ⟨_, rfl⟩
      | atomAdd =>
        simp only [FindKeyAnd.effect]
        split <;> exact ⟨_, rfl⟩
      | copyKey => cases reader
      | delete => cases reader
      | update => cases reader
    rcases there with ⟨binding', effect'⟩
    rcases FindKeyAnd.effect_binding effect' with ⟨key, rnd⟩
    intro slot
    rw [b'_eq, Function.update_apply]
    split
    · rename_i here
      rw [here, after, effect', bound, Option.map_some, Option.map_some, key, rnd]
    · rfl

theorem InUse.readers {sections : List Section} (linkable : cfg.Linkable) (inUse : InUse cfg s b)
    (readers : ∀ part ∈ sections, ∃ uid what, part.Reads uid what)
    (within : (runProcesses mapped cfg sections s).peak < 2^32) {results : List (Option Nat × Tls)}
    (value : (runProcesses mapped cfg sections s).value = .ok results) :
    ∃ b', InUse cfg (runProcesses mapped cfg sections s).state b' ∧ SameKeys b b' := by
  induction sections generalizing s b results with
  | nil => exact ⟨b, inUse, fun _ => rfl⟩
  | cons part rest ih =>
    rcases readers part List.mem_cons_self with ⟨uid, what, work, reader⟩
    rcases runSections_cons value with ⟨result, tls, others, rfl, first, next, state⟩
    have ready : part.work.Ready cfg part.tls := by
      rw [work]
      cases what with
      | delete => cases reader
      | update => cases reader
      | _ => trivial
    rcases inUse.section_outcome linkable (lt_of_le_of_lt runSections_peak_first within) first ready with
      ⟨b1, inUse1, outcome⟩
    rw [work] at outcome
    rcases outcome with ⟨code, _, outcome⟩
    rcases ih inUse1 (fun other member => readers other (List.mem_cons_of_mem _ member))
      (lt_of_le_of_lt (runSections_peak_rest first) within) next with ⟨b', inUse', same⟩
    refine ⟨b', ?_, (outcome.sameKeys reader).trans same⟩
    change InUse cfg (runSections mapped cfg Disk.switch (part :: rest) s).state b'
    rw [state]
    exact inUse'

theorem InUse.addr_section (inUse : InUse cfg s b) (work : part.work = .find uidNone .addr) :
    ∃ tls, (runProcesses mapped cfg [part] s).value = .ok
      [(some (if (b.locate uidNone part.tls.hash part.tls.hashKey).isSome then retKeyFound else retKeyNone), tls)] := by
  rcases inUse with ⟨t, settled, ok⟩
  have switched : onMap (modify fun T : Tables => T) t = ⟨.ok (), t, 0⟩ := onMap_run (modify_run _ _)
  rcases modifyTls_step t fun _ => part.tls with ⟨t1, run1, map1, tls1, frame1⟩
  have found : ∃ t2, findKeyInternal direct cfg uidNone .addr t1 = ⟨.ok
      (if (b.locate uidNone part.tls.hash part.tls.hashKey).isSome then retKeyFound else retKeyNone), t2, 0⟩ := by
    rcases @findKeyInternal_reaches cfg t1 b uidNone .addr (ok.untouched map1 frame1) with
      ⟨t2, keyAddr, valAddr, _, _, _, next⟩
    rw [tls1] at next
    split at next
    · rename_i located
      rw [located]
      exact ⟨_, next⟩
    · rename_i located
      rcases next with ⟨_, _, _, _, _, _, _, _, _, run⟩
      rw [located]
      exact ⟨t2, run⟩
  rcases found with ⟨t2, run2⟩
  have worked : part.work.run direct cfg t1 = ⟨.ok (some
      (if (b.locate uidNone part.tls.hash part.tls.hashKey).isSome then retKeyFound else retKeyNone)), t2, 0⟩ := by
    rw [work]
    exact bind_ok run2
  have whole : runSections direct cfg (fun _ T => T) [part] t = ⟨.ok [(some
      (if (b.locate uidNone part.tls.hash part.tls.hashKey).isSome then retKeyFound else retKeyNone), t2.shared.tls)],
      t2, 0⟩ := by
    rw [runSections, bind_ok switched, bind_ok run1, bind_ok worked, bind_ok (getTls_run t2)]
    rfl
  rcases (runSections_simulates guarded_faithful settled).run whole (by decide) with ⟨s', run, _⟩
  refine ⟨t2.shared.tls, ?_⟩
  rw [runProcesses, (runSections_follows mapped_lowest Disk.switch [part]).run run]

end Discipline

section Replacing

variable {win win' : Fin 256} {tab tab' file : Nat}

theorem mmapAt_path {len : Nat} : Keeps (fun d => d.path win tab = some file) (Disk.mmapAt win' tab' len) := by
  refine keeps_bind keeps_get fun d => ?_
  split
  · exact keeps_bind (keeps_check _ _) fun _ => keeps_modify fun _ same => same
  · exact keeps_stop _

theorem sizeAt_path : Keeps (fun d => d.path win tab = some file) (Disk.sizeAt win' tab') := by
  refine keeps_bind keeps_get fun d => ?_
  split
  · exact keeps_pure _
  · exact keeps_stop _

theorem headerAt_path : Keeps (fun d => d.path win tab = some file) (Disk.headerAt win' tab') := by
  refine keeps_bind keeps_get fun d => ?_
  split
  · exact keeps_pure _
  · exact keeps_stop _

theorem touchLast_path {size : Nat} : Keeps (fun d => d.path win tab = some file) (Disk.touchLast win' tab' size) := by
  refine keeps_bind keeps_get fun d => ?_
  split
  · exact keeps_check _ _
  · exact keeps_stop _

theorem Disk.store_path (d : Disk) (ptr : Ptr) (t : Tab) : (d.store ptr t).path = d.path := by
  unfold Disk.store
  split <;> rfl

theorem Disk.truncateAt_path {d : Disk} {size : Nat} (at_ : d.path win tab = some file) :
    (d.truncateAt win' tab' size).path win tab = some file := by
  unfold Disk.truncateAt
  split
  · exact at_
  · rename_i none_
    refine (setPath_path win tab _).trans ?_
    rw [if_neg]
    · exact at_
    · rintro ⟨rfl, rfl⟩
      rw [none_] at at_
      cases at_

theorem getTabMmap_path : Keeps (fun d => d.path win tab = some file) (Disk.getTabMmap win' tab') := by
  refine keeps_bind keeps_get fun d => keeps_bind (keeps_check _ _) fun _ => keeps_bind (keeps_when fun _ => ?_) fun _ => keeps_bind ?_ fun _ => ?_
  · refine keeps_bind sizeAt_path fun _ => keeps_bind (keeps_check _ _) fun _ => keeps_bind mmapAt_path fun _ => ?_
    exact keeps_bind (keeps_modify fun _ same => same) fun _ => keeps_modify fun _ same => same
  · refine keeps_bind headerAt_path fun _ => keeps_when fun _ => keeps_modify fun d same => ?_
    rw [Disk.store_path]
    exact same
  · refine keeps_bind headerAt_path fun _ => keeps_when fun _ => keeps_ite (fun _ => ?_) fun _ => ?_
    · refine keeps_bind sizeAt_path fun _ => keeps_bind mmapAt_path fun _ => ?_
      exact keeps_bind (keeps_modify fun _ same => same) fun _ => touchLast_path
    · refine keeps_bind (keeps_check _ _) fun _ => keeps_bind (keeps_modify fun _ same => same) fun _ => ?_
      exact keeps_bind (keeps_modify fun _ same => same) fun _ => touchLast_path

theorem mapped_steady_path : mapped.Steady fun d => d.path win tab = some file where
  getTabMmap _ _ := getTabMmap_path
  store d ptr t same := by
    rw [show mapped.store d ptr t = d.store ptr t from rfl, Disk.store_path]
    exact same
  grow _ _ _ := by
    refine keeps_bind (keeps_modify fun _ same => Disk.truncateAt_path same) fun _ => keeps_bind mmapAt_path fun _ => ?_
    refine keeps_bind headerAt_path fun _ => keeps_modify fun d same => ?_
    rw [Disk.store_path]
    exact same
  release := by
    refine keeps_bind keeps_get fun d => ?_
    split
    · exact keeps_modify fun _ same => same
    · exact keeps_stop _

variable {cfg : Config} {s : State Disk} {t : State Tables} {b : Bindings} {uid : Nat}

attribute [local irreducible] allRefs in
theorem tabShrink_replaces {L : Layout} (tracks : Tracks (also (fun _ _ => False) win tab) L s t)
    (at_ : s.map.path win tab = some file) : (tabShrink mapped cfg win tab s).state.map.path win tab ≠ some file := by
  have below := tracks.coherent.path_lt at_
  obtain ⟨s0, counted, map0⟩ : ∃ s0, modifyWin win (fun w => { w with tabsShrunk := w.tabsShrunk + 1 }) s =
    ⟨.ok (), s0, 0⟩ ∧ s0.map = s.map := ⟨_, rfl, rfl⟩
  obtain ⟨d1, run1, coherent1, next1⟩ : ∃ d1, Disk.getTabMmap win tab s0.map = ⟨.ok (), d1, 0⟩ ∧
      d1.Coherent (also (also (fun _ _ => False) win tab) win tab) ∧ d1.nextFile = s.map.nextFile := by
    rcases Disk.getTabMmap_run tracks.coherent at_ with ⟨_, run1, _, _, _, rfl⟩
    rw [map0]
    exact ⟨_, run1, (tracks.coherent.opening at_).counting, rfl⟩
  rcases coherent1.kept (.inr ⟨rfl, rfl⟩) with ⟨off, own, at1, _⟩
  obtain ⟨d2, run2, path2⟩ : ∃ d2, Disk.replace win tab d1 = ⟨.ok (), d2, 0⟩ ∧ d2.path win tab = some s.map.nextFile := by
    rcases Disk.replace_run (coherent1.tab_lt at1) own at1 with ⟨_, run2, _, _, _, rfl⟩
    rw [← next1]
    exact ⟨_, run2, (Disk.replacing_path win tab).trans (if_pos ⟨rfl, rfl⟩)⟩
  have got : onMap (mapped.getTabMmap win tab) s0 = ⟨.ok (), ⟨s0.shared, d1⟩, 0⟩ := onMap_run run1
  have replaced : onMap (mapped.replace win tab) ⟨s0.shared, d1⟩ = ⟨.ok (), ⟨s0.shared, d2⟩, 0⟩ := onMap_run run2
  rw [tabShrink, state_after counted, state_after got, state_after replaced]
  have kept := (@shrinkLoop_keeps _ mapped cfg (fun win => (s0.shared.wins win).tabsUsed)
    (fun d => d.path win tab = some s.map.nextFile) win tab mapped_steady_path) ⟨s0.shared, d2⟩ ⟨fun _ => rfl, path2⟩
  intro same
  have final := kept.map.symm.trans same
  simp only [Option.some.injEq] at final
  omega

theorem state_before_pure {α β : Type} (x : Operation Disk α) (a : β) :
    ((do
      let _ ← x
      pure a : Operation Disk β) s).state = (x s).state := by
  change (Program.bind x (fun _ => (pure a : Operation Disk β)) s).state = _
  unfold Program.bind
  cases (x s).value <;> rfl

/-- To copy a value out of a table with much deleted is to replace the table. -/
theorem InUse.copyVal_replaces (inUse : InUse cfg s b)
    (dirty : ∀ file ∈ s.fileOf (s.shared.tls.slotOf uid), file.tab.tabDataUsed / 4 < file.tab.tabDataFree) :
    (findKeyInternal mapped cfg uid .copyVal s).value = .ok retKeyNone ∨
      (findKeyInternal mapped cfg uid .copyVal s).state.map.path ≠ s.map.path := by
  rcases inUse.looked uid with ⟨slot, tab, file, found, s1, s2, t, looked⟩
  have slot_eq := looked.slot_eq
  have home := looked.home
  have path := looked.path
  unfold State.fileOf at dirty
  rw [slot_eq, home, path, Option.map_some] at dirty
  have much := dirty _ rfl
  rw [looked.call .copyVal mapped looked.getTabMmap looked.search]
  cases located : b.locate uid s.shared.tls.hash s.shared.tls.hashKey with
  | none =>
    have none_ := looked.record
    rw [located] at none_
    subst none_
    exact .inl rfl
  | some place =>
    right
    rcases looked.considers located with ⟨record, s3, t3, L, rfl, run3, run4, paths, _, tracks⟩
    have act : actOn mapped cfg slot tab record .copyVal = (do
        copyVal mapped slot.win tab record.valLen
        considerTabShrink mapped cfg slot.win tab
        pure retKeyFound : Operation Disk Nat) := rfl
    have large : (Tables.opened (s.map.files file)).tab.tabDataUsed / 4 <
        (Tables.opened (s.map.files file)).tab.tabDataFree := by
      unfold Tables.opened
      split <;> exact much
    have shrinks : considerTabShrink mapped cfg slot.win tab s3 = tabShrink mapped cfg slot.win tab s3 := by
      rw [considerTabShrink, bind_ok run4]
      exact congrFun (if_pos large) s3
    change (actOn mapped cfg slot tab record .copyVal s2).state.map.path ≠ _
    rw [act, state_after run3, state_before_pure, shrinks]
    intro same
    apply tabShrink_replaces tracks (paths ▸ path)
    rw [same, path]

end Replacing

/-- Calls with the reader's lock which are spared of opening, mapping anew and shrinking their tables only read. -/
theorem readers_disciplined (cfg : Config) (linkable : cfg.Linkable) (vfs : Nat → Nat) (tls : Tls)
    (sections : List Section) (s : State Disk) (attained : Attained cfg vfs tls sections s)
    (accepted : ∀ part ∈ sections, part.Accepted cfg) (lookups : List Section)
    (readers : ∀ part ∈ lookups, ∃ uid what, part.Reads uid what)
    (within : (runProcesses mapped cfg lookups s).peak < 2^32) (spared : AtEach cfg (Section.Spared cfg) lookups s) :
    AtEach cfg (Section.Disciplined cfg) lookups s ∧ StillFound cfg lookups s := by
  rcases attained.inUse linkable fun part member => (accepted part member).fits with ⟨b, inUse⟩
  constructor
  · clear attained
    induction lookups generalizing s b with
    | nil => trivial
    | cons part rest ih =>
      refine ⟨inUse.disciplined spared.1, fun ended => ?_⟩
      cases value : (runProcesses mapped cfg [part] s).value with
      | error e =>
        rw [value] at ended
        cases ended
      | ok results =>
        rcases inUse.readers linkable (fun other member => readers other (by
          rw [List.mem_singleton.mp member]
          exact List.mem_cons_self)) (lt_of_le_of_lt runSections_peak_first within) value with ⟨b', inUse', _⟩
        exact ih _ (fun other member => readers other (List.mem_cons_of_mem _ member))
          (lt_of_le_of_lt (runSections_peak_rest value) within) (spared.2 ended) b' inUse'
  · intro first later firstWork laterWork hash key found results value
    rcases inUse.addr_section firstWork with ⟨tls1, value1⟩
    rcases found with ⟨tls2, value2⟩
    rw [value1] at value2
    rcases inUse.readers linkable readers within value with ⟨b', inUse', same⟩
    rcases inUse'.addr_section laterWork with ⟨tls3, value3⟩
    rw [same.locate, hash, key] at value3
    refine ⟨tls3, ?_⟩
    rw [value3]
    simp only [Except.ok.injEq, List.cons.injEq, Prod.mk.injEq, Option.some.injEq, and_true] at value2
    rw [value2.1]

theorem Section.spared_of {cfg : Config} {s : State Disk} {part : Section} {uid : Nat} {what : FindKeyAnd}
    (work : part.work = .find uid what) (spared : Store.Spared cfg uid what (part.enter Disk.switch s)) :
    part.Spared cfg s := by
  intro uid' what' reads
  have same := work.symm.trans reads.1
  cases same
  exact spared

def counterStored : State Disk :=
  (runProcesses mapped smallConfig [⟨1, smallTls [1], .put (.copy (leBytes 8 5))⟩]
    (State.initial (fun _ => 2^40) (smallTls []))).state

def counterLookups : List Section :=
  [⟨2, smallTls [1], .find uidNone .copyVal⟩, ⟨1, smallTls [1], .find uidNone .atomAdd⟩]

theorem counterLookups_spared : AtEach smallConfig (Section.Spared smallConfig) counterLookups counterStored := by
  refine ⟨Section.spared_of rfl ⟨?_, ?_, ?_⟩, fun _ => ⟨Section.spared_of rfl ⟨?_, ?_, nofun⟩, fun _ => trivial⟩⟩
  · decide +kernel
  · decide +kernel
  · intro _ _
    decide +kernel
  · decide +kernel
  · decide +kernel

theorem counterLookups_disciplined : AtEach smallConfig (Section.Disciplined smallConfig) counterLookups counterStored ∧
    StillFound smallConfig counterLookups counterStored := by
  refine readers_disciplined smallConfig (Config.linkable_variable rfl) (fun _ => 2^40) (smallTls []) _ _
    ⟨by decide +kernel, by decide +kernel, rfl⟩ ?_ _ ?_ (by decide +kernel) counterLookups_spared
  · intro part _ val _
    exact Config.accepts_variable rfl _ _
  · intro part member
    rcases List.mem_cons.mp member with rfl | other
    · exact ⟨_, _, rfl, rfl⟩
    · rw [List.mem_singleton.mp other]
      exact ⟨_, _, rfl, rfl⟩

def halfDeletedBy : List Section :=
  [⟨1, smallTls [1], .put (.copy [10])⟩, ⟨1, smallTls [2], .put (.copy [20])⟩, ⟨1, smallTls [1], .find uidNone .delete⟩]

def halfDeleted : State Disk :=
  (runProcesses mapped smallConfig halfDeletedBy (State.initial (fun _ => 2^40) (smallTls []))).state

/-- Who copies the other one's value replaces the table, with the reader's lock. -/
theorem halfDeleted_not_disciplined : ¬ (AtEach smallConfig (Section.Disciplined smallConfig)
      [⟨2, smallTls [2], .find uidNone .copyVal⟩] halfDeleted ∧
    StillFound smallConfig [⟨2, smallTls [2], .find uidNone .copyVal⟩] halfDeleted) := by
  rintro ⟨⟨disciplined, _⟩, _⟩
  rcases disciplined uidNone .copyVal ⟨rfl, rfl⟩ with ⟨value, _, wrote⟩
  have dry : (findKeyInternal readOnly smallConfig uidNone .copyVal
    (Section.enter ⟨2, smallTls [2], .find uidNone .copyVal⟩ Disk.switch halfDeleted)).value = .error .wild := by
    decide +kernel
  have attained : Attained smallConfig (fun _ => 2^40) (smallTls []) halfDeletedBy halfDeleted :=
    ⟨by decide +kernel, by decide +kernel, rfl⟩
  rcases attained.inUse (Config.linkable_variable rfl) fun part _ => part.fits_variable rfl with ⟨b, inUse⟩
  have entered := @InUse.enter smallConfig halfDeleted b ⟨2, smallTls [2], .find uidNone .copyVal⟩ inUse
  rcases @InUse.copyVal_replaces _ _ _ uidNone entered (by decide +kernel) with none_ | replaced
  · rw [none_, dry] at value
    cases value
  · exact replaced wrote.1

end SharedHashFile.Store
