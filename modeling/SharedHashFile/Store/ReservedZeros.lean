import SharedHashFile.Store.CounterLaws
import SharedHashFile.Store.TtlLaws

namespace SharedHashFile.Store

open Program

def FindKeyAnd.Reads : FindKeyAnd → Prop
  | .addr | .copyKey | .copyVal => True
  | .atomAdd | .delete | .update => False

/-- A section which does not put the key, nor changes or deletes its entry, which has the UID. -/
def Section.Spares (part : Section) (key : List UInt8) (uid : Nat) : Prop :=
  match part.work with
  | .put _ => part.tls.hashKey ≠ key
  | .find other what => what.Reads ∨ if other = uidNone then part.tls.hashKey ≠ key else uidSlot other ≠ uidSlot uid

def File.ZeroTail (file : File) : Prop := ∀ i, dataOffset ≤ i → file.tab.tabUsed ≤ i → i < file.size → file.tab.data i = 0

def State.ZeroTails (s : State Disk) : Prop :=
  ∀ win tab file, tab < (s.shared.wins win).tabsUsed → s.map.path win tab = some file → (s.map.files file).ZeroTail

/-- What is reserved for an absent key reads as zeros after any sections which spare its entry, if the reading ends. -/
def State.ReservesZeros (cfg : Config) (s : State Disk) : Prop :=
  ∀ (process reader : Nat) (tls putTls readerTls : Tls) (len : Nat) (later : List Section),
    (s.items cfg).Missing tls.hash tls.hashKey →
    (runProcesses mapped cfg [⟨process, tls, .put (.reserve len)⟩] s).value = .ok [(some retKeyPut, putTls)] →
    (∀ part ∈ later, part.Spares tls.hashKey putTls.uid) →
    (runProcesses mapped cfg (⟨process, tls, .put (.reserve len)⟩ :: later) s).value.isOk = true →
    (runProcesses mapped cfg (⟨process, tls, .put (.reserve len)⟩ :: later) s).peak < 2^32 →
    readerTls.hash = tls.hash → readerTls.hashKey = tls.hashKey →
    Ends sizeLimit (runProcesses mapped cfg [⟨reader, readerTls, .find uidNone .copyVal⟩])
      (fun results _ => ∃ tls', results = [(some retKeyFound, tls')] ∧ tls'.val = List.replicate len 0 ∧ tls'.valLen = len)
      (fun e _ => Refused cfg s.shared.vfs e) (runProcesses mapped cfg (⟨process, tls, .put (.reserve len)⟩ :: later) s).state

section Touching

variable {cfg : Config} {t : State Tables} {b b' : Bindings} {hash : Hash} {key val : List UInt8}

/-- What becomes of what is bound when one section finds an entry: at most that one is changed, and keeps its key. -/
def FindKeyAnd.Touches (what : FindKeyAnd) (b : Bindings) (uid : Nat) (tls : Tls) (b' : Bindings) : Prop :=
  b' = b ∨ ¬ what.Reads ∧ ∃ place binding after, b.locate uid tls.hash tls.hashKey = some place ∧ b place = some binding ∧
    b' = Function.update b place after ∧ ∀ binding', after = some binding' → binding'.key = binding.key

theorem FindKeyAnd.effect_reads {what : FindKeyAnd} {tls : Tls} {binding : Binding} (reads : what.Reads) :
    (what.effect tls binding).2.2 = some binding := by
  cases what with
  | addr | copyKey | copyVal => rfl
  | atomAdd | delete | update => cases reads

theorem actOn_touches {slot : Slot} {tab uid : Nat} {record : Found} {binding : Binding} {file : File} {c : Contents}
    {free : List Nat} {tls : Tls} (atRecord : AtRecord cfg t b slot tab record binding file c free) (linkable : cfg.Linkable)
    (what : FindKeyAnd) (located : b.locate uid tls.hash tls.hashKey = some { slot with ref := record.ref }) :
    Ends sizeLimit (actOn direct cfg slot tab record what)
      (fun _ t' => ∃ b', StoreOk cfg t' b' ∧ what.Touches b uid tls b') (fun _ _ => True) t := by
  by_cases ready : what.Ready t.shared.tls
  · apply (actOn_ends atRecord linkable ready).mono _ fun _ _ _ => trivial
    rintro _ t' ⟨_, acted⟩
    refine ⟨_, acted.ok, ?_⟩
    by_cases reads : what.Reads
    · rw [FindKeyAnd.effect_reads reads, ← atRecord.bound, Function.update_eq_self]
      exact .inl rfl
    · exact .inr ⟨reads, _, binding, _, located, atRecord.bound, rfl, fun _ after => (FindKeyAnd.effect_binding after).1⟩
  · cases what with
    | delete =>
      apply ends_after (getTls_run t)
      refine ends_ite (fun _ => ?_) fun none_ => absurd (not_not.mp none_) ready
      refine ends_step (readU32_ends atRecord.held atRecord.valAddr_low) (fun _ _ _ => trivial) ?_
      rintro ttl _ rfl
      refine ends_ite (fun _ => ?_) fun _ => ?_
      · rcases modifyTls_step t fun tls => { tls with ttl := 0 } with ⟨t', run, map, _, frame⟩
        exact ends_after run (ends_pure ⟨b, atRecord.ok.untouched map frame, .inl rfl⟩)
      · rcases copyVal_run atRecord with ⟨t1, run1, map1, tls1, frame1⟩
        have atRecord1 := atRecord.withTls map1 frame1 (by rw [tls1]) (by rw [tls1])
        rcases deleteFound_run atRecord1 linkable with ⟨t2, run2, acted⟩
        refine ends_after run1 (ends_after run2 (ends_pure ⟨_, acted.ok, .inr ⟨id, ?_⟩⟩))
        exact ⟨_, binding, _, located, atRecord.bound, rfl, nofun⟩
    | update =>
      rcases modifyTls_step t fun tls => { tls with updCallbackFailsafe := tls.updCallbackFailsafe + 1 } with
        ⟨t1, run1, _, tls1, _⟩
      refine ends_bind (ends_after run1 (ends_after (getTls_run t1) (ends_bind (ends_check (fun one => ?_) fun _ => trivial))))
      rw [tls1] at one
      exact absurd (Nat.succ.inj one) ready
    | addr | copyKey | copyVal | atomAdd => exact absurd trivial ready

theorem findKeyInternal_touches (linkable : cfg.Linkable) (ok : StoreOk cfg t b) (uid : Nat) (what : FindKeyAnd) :
    Ends sizeLimit (findKeyInternal direct cfg uid what)
      (fun _ t' => ∃ b', StoreOk cfg t' b' ∧ what.Touches b uid t.shared.tls b') (fun _ _ => True) t := by
  rcases findKeyInternal_reaches what ok with ⟨t', keyAddr, valAddr, ok', _, _, next⟩
  cases located : b.locate uid t.shared.tls.hash t.shared.tls.hashKey with
  | none =>
    rw [located] at next
    rcases modifyTls_step t' fun tls => { tls with valAddr := none } with ⟨t2, run, map, _, frame2⟩
    exact ends_congr next (ends_after run (ends_pure ⟨b, ok'.untouched map frame2, .inl rfl⟩))
  | some place =>
    rw [located] at next
    rcases next with ⟨slot, tab, record, binding, file, c, free, rfl, atRecord, run⟩
    exact ends_congr run (actOn_touches atRecord linkable what located)

structure Bindings.Only (b : Bindings) (hash : Hash) (key val : List UInt8) (ref : Fin 16) : Prop where
  bound : b (hash.slot ref) = some ⟨hash.rnd, key, val⟩
  alone : ∀ other binding, b (hash.slot other) = some binding → binding.key = key → other = ref

variable {ref : Fin 16}

theorem Bindings.Only.locate (only : b.Only hash key val ref) : b.locate uidNone hash key = some (hash.slot ref) := by
  cases located : b.locate uidNone hash key with
  | some place =>
    rcases Bindings.locate_in_triple located with ⟨other, binding, rfl, bound, same⟩
    rw [only.alone other binding bound same]
  | none =>
    rw [Bindings.locate, if_pos rfl] at located
    have missed := List.find?_eq_none.mp (Option.map_eq_none_iff.mp located) ref (List.mem_finRange ref)
    unfold Bindings.isAt at missed
    rw [only.bound] at missed
    exact absurd (decide_eq_true ⟨rfl, rfl⟩) missed

theorem Bindings.Only.put {other : Hash} {place : Fin 16} {binding : Binding} (only : b.Only hash key val ref)
    (free : b (other.slot place) = none) (spares : binding.key ≠ key) :
    Bindings.Only (Function.update b (other.slot place) (some binding)) hash key val ref := by
  constructor
  · rw [Function.update_of_ne, only.bound]
    intro same
    rw [← same, only.bound] at free
    cases free
  · intro other' binding' bound same
    rw [Function.update_apply] at bound
    split at bound
    · cases bound
      exact absurd same spares
    · exact only.alone other' binding' bound same

theorem Bindings.Only.touched {what : FindKeyAnd} {uid : Nat} {tls : Tls} (only : b.Only hash key val ref)
    (touches : what.Touches b uid tls b')
    (spares : what.Reads ∨ if uid = uidNone then tls.hashKey ≠ key else uidSlot uid ≠ hash.slot ref) :
    b'.Only hash key val ref := by
  rcases touches with rfl | ⟨writes, place, binding, after, located, bound, rfl, keeps⟩
  · exact only
  · have away := spares.resolve_left writes
    have other : hash.slot ref ≠ place := by
      rintro rfl
      by_cases byKey : uid = uidNone
      · subst byKey
        rw [if_pos rfl] at away
        rcases Bindings.locate_some located with ⟨binding', bound', same⟩
        rw [only.bound] at bound'
        cases bound'
        exact away same.symm
      · rw [if_neg byKey] at away
        rw [Bindings.locate, if_neg byKey] at located
        split at located
        · exact away (Option.some.inj located)
        · cases located
    constructor
    · rw [Function.update_of_ne other]
      exact only.bound
    · intro other' binding' bound' same
      rw [Function.update_apply] at bound'
      split at bound'
      · rename_i here
        have key_eq : binding.key = key := (keeps _ bound').symm.trans same
        rw [← here] at bound
        exact only.alone other' binding bound key_eq
      · exact only.alone other' binding' bound' same

theorem work_touches (linkable : cfg.Linkable) (ok : StoreOk cfg t b) (only : b.Only hash key val ref) {part : Section}
    (accepted : part.Accepted cfg) (spares : part.Spares key (hash.slot ref).uid) (tls : t.shared.tls = part.tls) :
    Ends sizeLimit (part.work.run direct cfg) (fun _ t' => ∃ b', StoreOk cfg t' b' ∧ b'.Only hash key val ref)
      (fun _ _ => True) t := by
  unfold Section.Spares at spares
  unfold Section.Accepted at accepted
  rw [uidSlot_uid, ← tls] at spares
  rw [← tls] at accepted
  cases work : part.work with
  | put value =>
    rw [work] at spares
    refine ends_step (putSection_ends linkable ok (accepted value work)) (fun _ _ _ => trivial) ?_
    rintro done t' (⟨rfl, other, placed⟩ | ⟨rfl, split⟩)
    · exact ends_pure ⟨_, placed.ok, only.put (placed.free _ rfl) spares⟩
    · exact ends_pure ⟨b, split.ok, only⟩
  | find uid what =>
    rw [work] at spares
    refine ends_step (findKeyInternal_touches linkable ok uid what) (fun _ _ _ => trivial) ?_
    rintro result t' ⟨b', ok', touches⟩
    exact ends_pure ⟨b', ok', only.touched touches spares⟩

theorem runSections_touches (linkable : cfg.Linkable) {sections : List Section} (ok : StoreOk cfg t b)
    (only : b.Only hash key val ref) (accepted : ∀ part ∈ sections, part.Accepted cfg)
    (spares : ∀ part ∈ sections, part.Spares key (hash.slot ref).uid) :
    Ends sizeLimit (runSections direct cfg (fun _ T => T) sections)
      (fun _ t' => ∃ b', StoreOk cfg t' b' ∧ b'.Only hash key val ref) (fun _ _ => True) t := by
  induction sections generalizing t b with
  | nil => exact ends_pure ⟨b, ok, only⟩
  | cons part rest ih =>
    have switched : onMap (modify fun T : Tables => T) t = ⟨.ok (), t, 0⟩ := onMap_run (modify_run _ _)
    rcases modifyTls_step t fun _ => part.tls with ⟨t1, run1, map1, tls1, frame1⟩
    rw [List.forall_mem_cons] at accepted spares
    refine ends_after switched (ends_after run1 ?_)
    refine ends_step (work_touches linkable (ok.untouched map1 frame1) only accepted.1 spares.1 tls1) (fun _ _ _ => trivial) ?_
    rintro result t2 ⟨b2, ok2, only2⟩
    refine ends_after (getTls_run t2) (ends_step (ih ok2 only2 accepted.2 spares.2) (fun _ _ _ => trivial) ?_)
    exact fun _ _ kept => ends_pure kept

end Touching

section Reserved

variable {cfg : Config} {s : State Disk} {b : Bindings}

theorem InUse.zeroTails (inUse : InUse cfg s b) : s.ZeroTails := by
  rcases inUse with ⟨t, ⟨L, tracks, _⟩, ok⟩
  intro win tab number below path i low unused _
  rw [tracks.shared] at below
  rcases ok.tables win tab below with ⟨file, c, free, there, tableOk, _⟩
  rw [← tracks.tables] at there
  change (s.map.path win tab).map s.map.files = some file at there
  rw [path, Option.map_some] at there
  rcases Option.some.inj there with rfl
  have tail := tableOk.tail i
  unfold Tables.opened at tail
  split at tail
  · exact tail low
  · exact tail unused

/-- An entry which is the only one of its key stays so over sections which spare it. -/
theorem InUse.only_stays {hash : Hash} {key val : List UInt8} {ref : Fin 16} {later : List Section}
    (inUse : InUse cfg s b) (linkable : cfg.Linkable) (only : b.Only hash key val ref)
    (accepted : ∀ part ∈ later, part.Accepted cfg) (spares : ∀ part ∈ later, part.Spares key (hash.slot ref).uid) :
    Ends sizeLimit (runProcesses mapped cfg later) (fun _ s' => ∃ b', InUse cfg s' b' ∧ b'.Only hash key val ref)
      (fun _ _ => True) s := by
  apply inUse.ends_guarded linkable fun part member => (accepted part member).fits
  rcases inUse with ⟨t, settled, ok⟩
  refine ((runSections_simulates guarded_faithful settled).ends (runSections_touches linkable ok only accepted spares)).mono ?_
    fun _ _ _ => trivial
  rintro _ s' ⟨t', settled', b', ok', only'⟩
  exact ⟨b', ⟨t', settled', ok'⟩, only'⟩

theorem Items.Missing.put {hash : Hash} {key val : List UInt8} {ref : Fin 16} (missing : b.items.Missing hash key) :
    Bindings.Only (Function.update b (hash.slot ref) (some ⟨hash.rnd, key, val⟩)) hash key val ref := by
  constructor
  · exact Function.update_self _ _ _
  · intro other binding bound same
    by_contra away
    have differ : hash.slot other ≠ hash.slot ref := fun equal => away (congrArg Slot.ref equal)
    rw [Function.update_of_ne differ] at bound
    have there : b.items (hash.slot other) = some ⟨binding.key, binding.val⟩ := by
      unfold Bindings.items
      rw [bound]
      rfl
    exact missing other ⟨binding.key, binding.val⟩ there same

theorem InUse.lookup_ends (inUse : InUse cfg s b) (linkable : cfg.Linkable) {process uid : Nat} {tls : Tls} {what : FindKeyAnd}
    (ready : what.Ready tls) : Ends sizeLimit (runProcesses mapped cfg [⟨process, tls, .find uid what⟩])
      (fun results s' => ∃ code tls' b', results = [(some code, tls')] ∧ InUse cfg s' b' ∧ what.Outcome b uid tls code tls' b')
      (fun e s' => Refused cfg s'.shared.vfs e) s := by
  apply ends_congr runSections_entered
  have found := (inUse.takenBy process tls).find_ends linkable uid what ready
  have work : Ends sizeLimit (Work.run mapped cfg (.find uid what)) (fun result s' => ∃ code b', result = some code ∧
      InUse cfg s' b' ∧ what.Outcome b uid tls code s'.shared.tls b') (fun e s' => Refused cfg s'.shared.vfs e)
      (s.takenBy process tls) := by
    refine ends_step found (fun _ _ refused => refused) ?_
    rintro code s' ⟨b', inUse', outcome⟩
    exact ends_pure ⟨code, b', rfl, inUse', outcome⟩
  refine ends_step work (fun _ _ refused => refused) ?_
  rintro _ s' ⟨code, b', rfl, inUse', outcome⟩
  exact ends_after (getTls_ends s') (ends_pure ⟨code, _, b', rfl, inUse', outcome⟩)

/-- What was put for a missing key stays its only entry, as long as it is spared. -/
theorem InUse.put_only (inUse : InUse cfg s b) (variable_ : cfg.isFixedKeyValLen = false) {process : Nat}
    {tls putTls : Tls} {val : PutVal} {later : List Section} (missing : b.items.Missing tls.hash tls.hashKey)
    (stored : (runProcesses mapped cfg [⟨process, tls, .put val⟩] s).value = .ok [(some retKeyPut, putTls)])
    (spares : ∀ part ∈ later, part.Spares tls.hashKey putTls.uid)
    (ended : (runProcesses mapped cfg (⟨process, tls, .put val⟩ :: later) s).value.isOk = true)
    (within : (runProcesses mapped cfg (⟨process, tls, .put val⟩ :: later) s).peak < 2^32) :
    ∃ b' ref, InUse cfg (runProcesses mapped cfg (⟨process, tls, .put val⟩ :: later) s).state b' ∧
      b'.Only tls.hash tls.hashKey val.bytes ref := by
  have linkable := Config.linkable_variable variable_
  have accepts := Config.accepts_variable variable_
  obtain ⟨results, value⟩ : ∃ results, (runProcesses mapped cfg (⟨process, tls, .put val⟩ :: later) s).value = .ok results := by
    cases value : (runProcesses mapped cfg (⟨process, tls, .put val⟩ :: later) s).value with
    | ok results => exact ⟨results, rfl⟩
    | error e =>
      rw [value] at ended
      cases ended
  rcases runSections_cons value with ⟨_, _, others, rfl, _, rest, state⟩
  have first := Nat.lt_of_le_of_lt runSections_peak_first within
  rcases inUse.section_outcome linkable first stored (accepts _ _) with ⟨b1, inUse1, ⟨none_, _⟩ | ⟨ref, _, _, rfl, rfl⟩⟩
  · cases none_
  · have stays := inUse1.only_stays linkable missing.put (fun part _ value _ => accepts _ value) spares
      (Nat.lt_of_le_of_lt (runSections_peak_rest stored) within)
    unfold runProcesses at stays ⊢
    rw [rest] at stays
    rw [state]
    rcases stays with ⟨b2, inUse2, only⟩
    exact ⟨b2, ref, inUse2, only⟩

variable {hash : Hash} {key val : List UInt8} {ref : Fin 16} {process : Nat} {tls : Tls}

theorem InUse.reads_only (inUse : InUse cfg s b) (linkable : cfg.Linkable) (only : b.Only hash key val ref)
    (hashed : tls.hash = hash) (keyed : tls.hashKey = key) :
    Ends sizeLimit (runProcesses mapped cfg [⟨process, tls, .find uidNone .copyVal⟩])
      (fun results _ => ∃ tls', results = [(some retKeyFound, tls')] ∧ tls'.val = val ∧ tls'.valLen = val.length)
      (fun e _ => Refused cfg s.shared.vfs e) s := by
  have ready : FindKeyAnd.copyVal.Ready tls := trivial
  refine ((inUse.lookup_ends linkable ready).keeping (runSections_answers _ _) rfl).mono ?_ ?_
  · rintro _ _ ⟨⟨code, tls', b', rfl, _, outcome⟩, _⟩
    unfold FindKeyAnd.Outcome at outcome
    rw [hashed, keyed, only.locate] at outcome
    rcases outcome with ⟨binding, keyAddr, valAddr, bound, effect, _⟩
    rw [only.bound] at bound
    cases bound
    rw [FindKeyAnd.effect, Prod.mk.injEq, Prod.mk.injEq] at effect
    rcases effect with ⟨rfl, rfl, _⟩
    exact ⟨_, rfl, rfl, rfl⟩
  · rintro e s' ⟨refused, same⟩
    rw [same] at refused
    exact refused

theorem InUse.deletes_only (inUse : InUse cfg s b) (linkable : cfg.Linkable) (only : b.Only hash key val ref)
    (ready : tls.For hash key) : Ends sizeLimit (runProcesses mapped cfg [⟨process, tls, .find uidNone .delete⟩])
      (fun results s' => (∃ tls', results = [(some retKeyFound, tls')]) ∧ ∃ b', InUse cfg s' b' ∧
        b'.locate uidNone hash key = none)
      (fun e s' => Refused cfg s'.shared.vfs e) s := by
  have unlocked : FindKeyAnd.delete.Ready tls := ready.ttl
  refine (inUse.lookup_ends linkable unlocked).mono ?_ fun _ _ refused => refused
  rintro _ s' ⟨code, tls', b', rfl, inUse', outcome⟩
  rcases delete_some ready only.locate outcome with ⟨_, _, rfl⟩
  unfold FindKeyAnd.Outcome at outcome
  rw [ready.hashed, ready.keyed, only.locate] at outcome
  rcases outcome with ⟨binding, keyAddr, valAddr, _, effect, _⟩
  simp only [FindKeyAnd.effect, Prod.mk.injEq] at effect
  refine ⟨⟨tls', by rw [effect.1]⟩, _, inUse', locate_none_iff.mpr fun other => ?_⟩
  cases there : Bindings.isAt (Function.update b (hash.slot ref) none) hash key other with
  | false => rfl
  | true =>
    rcases isAt_iff.mp there with ⟨binding', bound, _, same⟩
    rw [update_slot] at bound
    split at bound
    · cases bound
    · rename_i away
      exact absurd (only.alone other binding' bound same) away

theorem InUse.reads_none (inUse : InUse cfg s b) (linkable : cfg.Linkable) (none_ : b.locate uidNone hash key = none)
    (hashed : tls.hash = hash) (keyed : tls.hashKey = key) :
    Ends sizeLimit (runProcesses mapped cfg [⟨process, tls, .find uidNone .copyVal⟩])
      (fun results _ => ∃ tls', results = [(some retKeyNone, tls')]) (fun e s' => Refused cfg s'.shared.vfs e) s := by
  have ready : FindKeyAnd.copyVal.Ready tls := trivial
  refine (inUse.lookup_ends linkable ready).mono ?_ fun _ _ refused => refused
  rintro _ s' ⟨code, tls', b', rfl, _, outcome⟩
  unfold FindKeyAnd.Outcome at outcome
  rw [hashed, keyed, none_] at outcome
  exact ⟨tls', by rw [outcome.1]⟩

end Reserved

/-- Values put as `NULL` are zeros until their entries are changed, and so is all that is not used of the tables. -/
theorem reserved_zeros (cfg : Config) (variable_ : cfg.isFixedKeyValLen = false) (vfs : Nat → Nat) (first : Tls)
    (sections : List Section) (s : State Disk) (attained : Attained cfg vfs first sections s) :
    s.ZeroTails ∧ s.ReservesZeros cfg := by
  have linkable := Config.linkable_variable variable_
  rcases attained.inUse linkable fun part _ => part.fits_variable variable_ with ⟨b, inUse⟩
  refine ⟨inUse.zeroTails, ?_⟩
  intro process reader tls putTls readerTls len later missing stored spares ended within hash key
  rw [inUse.items] at missing
  rcases inUse.put_only variable_ missing stored spares ended within with ⟨b', ref, inUse', only⟩
  have answers : (runProcesses mapped cfg (⟨process, tls, .put (.reserve len)⟩ :: later) s).state.shared.vfs = s.shared.vfs :=
    runSections_answers _ _ s rfl
  have reads := @InUse.reads_only _ _ _ _ _ _ _ reader readerTls inUse' linkable only hash key
  rw [answers] at reads
  refine reads.mono ?_ fun _ _ refused => refused
  rintro results _ ⟨tls', results_eq, read, length⟩
  exact ⟨tls', results_eq, read, length.trans (List.length_replicate ..)⟩

/-- In every state which any processes attain, what is put for a missing key is read back by any of them, and after one
    deletion it is no longer found. -/
theorem Attained.putThenGet {cfg : Config} {vfs : Nat → Nat} {first : Tls} {sections : List Section} {s : State Disk}
    (attained : Attained cfg vfs first sections s) (variable_ : cfg.isFixedKeyValLen = false) {process : Nat}
    {tls putTls : Tls} {val : PutVal} (missing : (s.items cfg).Missing tls.hash tls.hashKey)
    (stored : (runProcesses mapped cfg [⟨process, tls, .put val⟩] s).value = .ok [(some retKeyPut, putTls)])
    (within : (runProcesses mapped cfg [⟨process, tls, .put val⟩] s).peak < 2^32) (reader deleter : Nat)
    {readerTls deleterTls : Tls} (hashed : readerTls.hash = tls.hash) (keyed : readerTls.hashKey = tls.hashKey)
    (ready : deleterTls.For tls.hash tls.hashKey) :
    let get := runProcesses mapped cfg [⟨reader, readerTls, .find uidNone .copyVal⟩]
    let stored := (runProcesses mapped cfg [⟨process, tls, .put val⟩] s).state
    Ends sizeLimit get (fun results _ => ∃ tls', results = [(some retKeyFound, tls')] ∧ tls'.val = val.bytes ∧
      tls'.valLen = val.bytes.length) (fun e _ => Refused cfg stored.shared.vfs e) stored ∧
    Ends sizeLimit (runProcesses mapped cfg [⟨deleter, deleterTls, .find uidNone .delete⟩])
      (fun results deleted => (∃ tls', results = [(some retKeyFound, tls')]) ∧
        Ends sizeLimit get (fun results _ => ∃ tls', results = [(some retKeyNone, tls')])
          (fun e s' => Refused cfg s'.shared.vfs e) deleted) (fun e s' => Refused cfg s'.shared.vfs e) stored := by
  have linkable := Config.linkable_variable variable_
  rcases attained.inUse linkable fun part _ => part.fits_variable variable_ with ⟨b, inUse⟩
  rw [inUse.items] at missing
  rcases inUse.put_only variable_ missing stored (List.forall_mem_nil _) (congrArg Except.isOk stored) within with ⟨b', ref, inUse', only⟩
  refine ⟨inUse'.reads_only linkable only hashed keyed, ?_⟩
  refine (inUse'.deletes_only linkable only ready).mono ?_ fun _ _ refused => refused
  rintro results deleted ⟨found, b'', inUse'', none_⟩
  exact ⟨found, inUse''.reads_none linkable none_ hashed keyed⟩

/-- Three bytes reserved, and another key's value behind them. -/
theorem newStore_reserves : Ends sizeLimit (runProcesses mapped smallConfig [⟨1, smallTls [1], .find uidNone .copyVal⟩])
    (fun results _ => ∃ tls', results = [(some retKeyFound, tls')] ∧ tls'.val = List.replicate 3 0 ∧ tls'.valLen = 3)
    (fun e _ => Refused smallConfig newStore.shared.vfs e)
    (runProcesses mapped smallConfig [⟨0, smallTls [1], .put (.reserve 3)⟩, ⟨1, smallTls [2], .put (.copy [5])⟩] newStore).state := by
  have zeros := (reserved_zeros smallConfig rfl (fun _ => 2^40) (smallTls []) [] newStore (initial_attained _ _ _)).2
  have spares : ∀ part ∈ [(⟨1, smallTls [2], .put (.copy [5])⟩ : Section)], ∀ uid, part.Spares [1] uid := by
    intro part member uid
    rw [List.mem_singleton.mp member]
    exact (by decide : ([2] : List UInt8) ≠ [1])
  have missing : (newStore.items smallConfig).Missing (smallTls [1]).hash (smallTls [1]).hashKey := initial_missing _ _ _ _ _
  have ended : (runProcesses mapped smallConfig [⟨0, smallTls [1], .put (.reserve 3)⟩, ⟨1, smallTls [2], .put (.copy [5])⟩]
      newStore).value.isOk = true := by decide +kernel
  have within : (runProcesses mapped smallConfig [⟨0, smallTls [1], .put (.reserve 3)⟩, ⟨1, smallTls [2], .put (.copy [5])⟩]
      newStore).peak < 2^32 := by decide +kernel
  have answered : (runProcesses mapped smallConfig [⟨0, smallTls [1], .put (.reserve 3)⟩] newStore).value.toOption.map
      (List.map Prod.fst) = some [some retKeyPut] := by decide +kernel
  cases value : (runProcesses mapped smallConfig [⟨0, smallTls [1], .put (.reserve 3)⟩] newStore).value with
  | error e =>
    rw [value] at answered
    cases answered
  | ok results =>
    rw [value] at answered
    rcases List.map_eq_singleton_iff.mp (Option.some.inj answered) with ⟨⟨_, putTls⟩, rfl, rfl⟩
    generalize newStore = s at zeros missing ended within value ⊢
    generalize smallConfig = cfg at zeros missing ended within value ⊢
    exact zeros 0 1 (smallTls [1]) putTls (smallTls [1]) 3 [⟨1, smallTls [2], .put (.copy [5])⟩] missing value (fun part member => spares part member _) ended within rfl rfl

end SharedHashFile.Store
