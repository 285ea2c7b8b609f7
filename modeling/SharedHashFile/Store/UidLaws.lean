import SharedHashFile.Store.SectionSpec
import SharedHashFile.Store.ClientLaws
import SharedHashFile.Store.Entries

namespace SharedHashFile.Store

open Program

/-- An operation with a UID does to the entry at the slot what it does to an entry, and nothing else. -/
def ActsOn (cfg : Config) (s : State Disk) (uid : Nat) (slot : Slot) (item : Item) : Prop :=
  ∀ (process : Nat) (tls : Tls) (what : FindKeyAnd) (results : List (Option Nat × Tls)), what.Ready tls →
    (runProcesses mapped cfg [⟨process, tls, .find uid what⟩] s).peak < 2^32 →
    (runProcesses mapped cfg [⟨process, tls, .find uid what⟩] s).value = .ok results →
    ∃ keyAddr valAddr rnd code tls' after,
      what.effect (tls.lookedUp uid (some slot) keyAddr valAddr) ⟨rnd, item.key, item.val⟩ = (code, tls', after) ∧
      results = [(some code, tls')] ∧ (runProcesses mapped cfg [⟨process, tls, .find uid what⟩] s).state.items cfg =
        Function.update (s.items cfg) slot (after.map fun binding => ⟨binding.key, binding.val⟩)

/-- The UID which a put leaves is no sentinel, and stands for the entry just put. -/
def PutNamed (cfg : Config) (s : State Disk) (part : Section) (val : PutVal) (uid : Nat) : Prop :=
  uid ≠ uidNone ∧ ∃ slot, s.items cfg slot = none ∧
    (runProcesses mapped cfg [part] s).state.items cfg =
      Function.update (s.items cfg) slot (some ⟨part.tls.hashKey, val.bytes⟩) ∧
    ActsOn cfg (runProcesses mapped cfg [part] s).state uid slot ⟨part.tls.hashKey, val.bytes⟩

/-- The slot whose UID is `SHF_UID_NONE` is the next one for the hash. -/
def LastSlot (s : State Disk) (hash : Hash) : Prop :=
  (hash.slot 15).uid = uidNone ∧ ∀ file ∈ s.fileOf (hash.slot 0), ∀ ref : Fin 16, ref < 15 →
    (file.tab.row (hash.slot 0).row ref).pos ≠ 0

/-- `SHF_UID_NONE` would be a UID with the last ref. -/
theorem Slot.ref_of_uid_none {slot : Slot} (none_ : slot.uid = uidNone) : slot.ref = 15 := by
  rcases slot with ⟨win, tab, row, ref⟩
  have := win.isLt
  have := tab.isLt
  have := row.isLt
  have := ref.isLt
  simp only [uid, uidNone] at none_
  exact Fin.ext (by omega : ref.val = 15)

section Puts

variable {cfg : Config} {s : State Disk} {t : State Tables} {b : Bindings} {part : Section} {val : PutVal}

theorem firstFree_least {row : Fin 16 → Ref} {ref other : Fin 16} (found : firstFree row = some ref) (before : other < ref) :
    (row other).pos ≠ 0 := by
  rcases List.find?_eq_some_iff_append.mp found with ⟨_, first, rest, split, used⟩
  have sorted := List.pairwise_lt_finRange 16
  have member := List.mem_finRange other
  rw [split] at sorted member
  rcases List.mem_append.mp member with early | late
  · have used := used other early
    exact fun free => by rw [decide_eq_true free] at used; cases used
  · rcases List.mem_cons.mp late with same | later
    · exact absurd same (Fin.ne_of_lt before)
    · have after := (List.pairwise_cons.mp (List.pairwise_append.mp sorted).2.1).1 other later
      exact absurd before (Fin.lt_asymm after)

theorem ends_any {limit : Nat} {ε σ α : Type} (x : Program ε σ α) (s : σ) :
    Ends limit x (fun _ _ => True) (fun _ _ => True) s := by
  intro _
  split <;> trivial

/-- The UID which a put leaves is the one of the first free ref of its row. -/
theorem putSection_uid (ok : StoreOk cfg t b) : Ends sizeLimit (putSection direct cfg val) (fun done t' => done = true →
    ∃ file ref, t.map.fileAt (.tab (t.shared.tls.hash.slot 0).win t.home) = some file ∧
      firstFree (file.tab.row (t.shared.tls.hash.slot 0).row) = some ref ∧
      t'.shared.tls.uid = (t.shared.tls.hash.slot ref).uid) (fun _ _ => True) t := by
  refine ends_after (getTls_run t) (ends_after (getWin_run t _) ?_)
  have home : (t.shared.wins (t.shared.tls.hash.slot 0).win).tabs (t.shared.tls.hash.slot 0).tab = t.home := rfl
  have homeUsed := ok.tabs_lt (t.shared.tls.hash.slot 0).win (t.shared.tls.hash.slot 0).tab
  rw [home] at homeUsed ⊢
  rcases ok.tables _ _ homeUsed with ⟨file, c, free, there, tableOk, _⟩
  have there : t.map.fileAt (.tab (t.shared.tls.hash.slot 0).win t.home) = some file := there
  have moves := Moves.set t (.tab (t.shared.tls.hash.slot 0).win t.home) (Tables.opened file)
  refine ends_after (getTabMmap_ends there) (ends_after (tabAt_run (tableOk.held moves.there)) ?_)
  have row : (Tables.opened file).tab.row = file.tab.row := by
    unfold Tables.opened
    split <;> rfl
  rw [row]
  generalize t.setFile (.tab (t.shared.tls.hash.slot 0).win t.home) (Tables.opened file) = t1
  cases found : firstFree (file.tab.row (t.shared.tls.hash.slot 0).row) with
  | some ref =>
    refine ends_step (ends_any _ _) (fun _ _ _ => trivial) fun pos t2 _ => ?_
    refine ends_step (ends_any _ _) (fun _ _ _ => trivial) fun _ t3 _ => ?_
    refine ends_step (ends_any _ _) (fun _ _ _ => trivial) fun table t4 _ => ?_
    refine ends_step (ends_any _ _) (fun _ _ _ => trivial) fun _ t5 _ => ?_
    refine ends_after (modifyTls_run t5 fun tls => { tls with uid := (t.shared.tls.hash.slot ref).uid }) ?_
    exact ends_pure fun _ => ⟨file, ref, there, found, rfl⟩
  | none => exact ends_step (ends_any _ _) (fun _ _ _ => trivial) fun _ _ _ => ends_pure nofun

theorem InUse.put_uid {tls : Tls} (inUse : InUse cfg s b) (linkable : cfg.Linkable) (accepts : part.Accepted cfg)
    (work : part.work = .put val) (within : (runProcesses mapped cfg [part] s).peak < 2^32)
    (value : (runProcesses mapped cfg [part] s).value = .ok [(some retKeyPut, tls)]) : ∃ file ref,
      s.fileOf (part.tls.hash.slot 0) = some file ∧ firstFree (file.tab.row (part.tls.hash.slot 0).row) = some ref ∧
      tls.uid = (part.tls.hash.slot ref).uid := by
  have guarded : runProcesses mapped cfg [part] s = runProcesses mapped.guarded cfg [part] s :=
    inUse.runs_guarded linkable (fun other member => List.eq_of_mem_singleton member ▸ accepts.fits) within
  rw [guarded] at within value
  rcases inUse with ⟨t, settled, ok⟩
  have named : Ends sizeLimit (runSections direct cfg (fun _ T => T) [part]) (fun results _ => ∀ tls,
      results = [(some retKeyPut, tls)] → ∃ file ref, t.map.table (part.tls.hash.slot 0).win
        ((t.shared.wins (part.tls.hash.slot 0).win).tabs (part.tls.hash.slot 0).tab) = some file ∧
        firstFree (file.tab.row (part.tls.hash.slot 0).row) = some ref ∧
        tls.uid = (part.tls.hash.slot ref).uid) (fun _ _ => True) t := by
    have switched : onMap (modify fun T : Tables => T) t = ⟨.ok (), t, 0⟩ := onMap_run (modify_run _ _)
    rcases modifyTls_step t fun _ => part.tls with ⟨t1, run1, map1, tls1, frame1⟩
    have put := @putSection_uid cfg t1 b val (ok.untouched map1 frame1)
    unfold State.home at put
    rw [tls1, map1, frame1.tabs] at put
    refine ends_after switched (ends_after run1 ?_)
    rw [work]
    refine ends_bind (ends_step put (fun _ _ _ => trivial) fun done t2 uid => ends_pure ?_)
    refine ends_after (getTls_run t2) (ends_pure ?_)
    intro tls same
    cases done with
    | true =>
      cases same
      exact uid rfl
    | false => cases same
  have uid := (runSections_simulates guarded_faithful settled).ends named within
  rw [value] at uid
  rcases uid with ⟨_, _, uid⟩
  rcases uid tls rfl with ⟨file, ref, there, found, uid⟩
  rcases settled with ⟨L, tracks, _⟩
  refine ⟨file, ref, ?_, found, uid⟩
  rw [← tracks.tables] at there
  unfold State.fileOf
  rw [tracks.shared]
  exact there

theorem InUse.actsOn {slot : Slot} {uid : Nat} {binding : Binding} (inUse : InUse cfg s b) (linkable : cfg.Linkable)
    (at_ : uidSlot uid = slot) (bound : b slot = some binding) (real : uid ≠ uidNone) :
    ActsOn cfg s uid slot ⟨binding.key, binding.val⟩ := by
  intro process tls what results ready within value
  obtain ⟨part, part_eq⟩ : ∃ part : Section, part = ⟨process, tls, .find uid what⟩ := ⟨_, rfl⟩
  rw [← part_eq] at within value ⊢
  rcases runSections_cons value with ⟨result, tls', others, rfl, first, rest, _⟩
  have ended : others = [] := (Except.ok.inj rest).symm
  rw [ended] at value ⊢
  have promised : part.work.Ready cfg part.tls := by
    rw [part_eq]
    exact ready
  rcases inUse.section_outcome linkable within first promised with ⟨b', inUse', outcome⟩
  rw [part_eq] at outcome
  rcases outcome with ⟨code, rfl, outcome⟩
  have located : b.locate uid tls.hash tls.hashKey = some slot := by
    rw [Bindings.locate, if_neg real, at_, if_pos (by rw [bound]; rfl)]
  unfold FindKeyAnd.Outcome at outcome
  rw [located] at outcome
  rcases outcome with ⟨binding', keyAddr, valAddr, bound', effect, after⟩
  rw [bound] at bound'
  cases bound'
  refine ⟨keyAddr, valAddr, binding.rnd, code, tls', b' slot, effect.symm, rfl, ?_⟩
  rw [inUse'.items, inUse.items, ← Bindings.items_update, ← after]

/-- The UID which a put leaves stands for its entry, but where the last slot of all is the next one. -/
theorem put_named (cfg : Config) (linkable : cfg.Linkable) (vfs : Nat → Nat) (tls : Tls) (sections : List Section)
    (s : State Disk) (attained : Attained cfg vfs tls sections s) (accepted : ∀ part ∈ sections, part.Accepted cfg)
    (part : Section) (val : PutVal) (work : part.work = .put val) (accepts : part.Accepted cfg)
    (within : (runProcesses mapped cfg [part] s).peak < 2^32) (tls' : Tls)
    (put : (runProcesses mapped cfg [part] s).value = .ok [(some retKeyPut, tls')]) :
    PutNamed cfg s part val tls'.uid ↔ ¬ LastSlot s part.tls.hash := by
  rcases attained.inUse linkable fun part member => (accepted part member).fits with ⟨b, inUse⟩
  rcases inUse.put_uid linkable accepts work within put with ⟨file, ref, there, found, uid⟩
  have ready : part.work.Ready cfg part.tls := by
    rw [work]
    exact accepts val work
  rcases inUse.section_outcome linkable within put ready with ⟨b', inUse', outcome⟩
  rw [work] at outcome
  rcases outcome with ⟨again, _⟩ | ⟨ref', _, free, after, tls_eq⟩
  · cases again
  have sameSlot : part.tls.hash.slot ref' = part.tls.hash.slot ref := by
    apply Slot.uid_injective
    rw [← uid, tls_eq]
  rw [sameSlot] at free after
  constructor
  · rintro ⟨real, _⟩ ⟨last, used⟩
    apply real
    by_cases before : ref < 15
    · exact absurd (firstFree_some found) (used file there ref before)
    · rw [uid, ← last, show ref = 15 by omega]
  · intro notLast
    have real : tls'.uid ≠ uidNone := by
      rw [uid]
      intro none_
      apply notLast
      have last : ref = 15 := Slot.ref_of_uid_none none_
      rw [last] at none_ found
      refine ⟨none_, fun file' there' ref' before => ?_⟩
      rw [there] at there'
      cases there'
      exact firstFree_least found before
    refine ⟨real, part.tls.hash.slot ref, ?_, ?_, ?_⟩
    · rw [inUse.items, Bindings.items_none]
      exact free
    · rw [inUse'.items, inUse.items, after, Bindings.items_update]
      rfl
    · rw [uid] at real ⊢
      exact inUse'.actsOn linkable (uidSlot_uid _) (by rw [after, Function.update_self]) real

end Puts

def lastTls (key : List UInt8) : Tls := { smallTls key with hash := BitVec.ofNat 128 (2^48 - 1) }

def lastPut (i : Nat) : Section := ⟨1, lastTls [UInt8.ofNat i], .put (.copy [10])⟩

def fifteenStored : State Disk :=
  (runProcesses mapped smallConfig ((List.range 15).map lastPut) (State.initial (fun _ => 2^40) (smallTls []))).state

theorem result_of {value : Except Stop (List (Option Nat × Tls))} {code uid : Nat}
    (results : value.toOption.map (List.map fun result => (result.1, result.2.uid)) = some [(some code, uid)]) :
    ∃ tls, value = .ok [(some code, tls)] ∧ tls.uid = uid := by
  cases value with
  | error e => cases results
  | ok answers =>
    change some (answers.map _) = _ at results
    rw [Option.some.injEq, List.map_eq_singleton_iff] at results
    rcases results with ⟨⟨result, tls⟩, rfl, same⟩
    have parts := Prod.mk.inj same
    rw [show result = some code from parts.1]
    exact ⟨tls, rfl, parts.2⟩

theorem firstPut_named : ∃ tls : Tls, tls.uid = 0 ∧ PutNamed smallConfig (State.initial (fun _ => 2^40) (smallTls []))
    ⟨1, smallTls [1], .put (.copy [10])⟩ (.copy [10]) tls.uid := by
  have results : (runProcesses mapped smallConfig [⟨1, smallTls [1], .put (.copy [10])⟩]
      (State.initial (fun _ => 2^40) (smallTls []))).value.toOption.map (List.map fun result =>
        (result.1, result.2.uid)) = some [(some retKeyPut, 0)] := by decide +kernel
  rcases result_of results with ⟨tls, value, uid⟩
  refine ⟨tls, uid, (put_named smallConfig (Config.linkable_variable rfl) (fun _ => 2^40) (smallTls []) [] _
    (initial_attained _ _ _) (fun _ => nofun) ⟨1, smallTls [1], .put (.copy [10])⟩ (.copy [10]) rfl
    (fun _ _ => Config.accepts_variable rfl _ _) (by decide +kernel) tls value).mpr ?_⟩
  rintro ⟨last, _⟩
  exact absurd last (by decide +kernel)

theorem sixteenthPut_run :
    (runProcesses mapped smallConfig ((List.range 15).map lastPut) (State.initial (fun _ => 2^40) (smallTls []))).peak < 2^32 ∧
    (runProcesses mapped smallConfig ((List.range 15).map lastPut)
      (State.initial (fun _ => 2^40) (smallTls []))).value.isOk = true ∧
    (runProcesses mapped smallConfig [lastPut 15] fifteenStored).peak < 2^32 ∧
    (runProcesses mapped smallConfig [lastPut 15] fifteenStored).value.toOption.map (List.map fun result =>
      (result.1, result.2.uid)) = some [(some retKeyPut, uidNone)] := by
  decide +kernel

/-- The last slot of all gets the UID which stands for none. -/
theorem sixteenthPut_not_named : ¬ ∀ (cfg : Config) (vfs : Nat → Nat) (tls : Tls) (sections : List Section)
    (s : State Disk) (part : Section) (val : PutVal) (tls' : Tls), Attained cfg vfs tls sections s →
    part.work = .put val → (runProcesses mapped cfg [part] s).peak < 2^32 →
    (runProcesses mapped cfg [part] s).value = .ok [(some retKeyPut, tls')] → PutNamed cfg s part val tls'.uid := by
  intro named
  rcases sixteenthPut_run with ⟨before, ended, within, results⟩
  rcases result_of results with ⟨tls', value, uid⟩
  exact (named _ _ _ _ _ (lastPut 15) (.copy [10]) tls' ⟨before, ended, rfl⟩ rfl within value).1 uid

end SharedHashFile.Store
