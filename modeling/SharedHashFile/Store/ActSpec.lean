import SharedHashFile.Store.FindSpec

namespace SharedHashFile.Store

open ByteMemory Program

/-- What `shf_find_key_internal` does with the record it found: the result, the thread's variables, and what is
    bound at the record's slot afterwards. -/
def FindKeyAnd.effect (tls : Tls) (binding : Binding) : FindKeyAnd → Nat × Tls × Option Binding
  | .addr => (retKeyFound, tls, some binding)
  | .copyKey => (retKeyFound, { tls with
      key := binding.key
      keyLen := binding.key.length
      keySize := copySize tls.keySize binding.key.length }, some binding)
  | .copyVal => (retKeyFound, { tls with
      val := binding.val
      valLen := binding.val.length
      valSize := copySize tls.valSize binding.val.length }, some binding)
  | .atomAdd =>
    if 8 ≤ binding.val.length then
      let sum := (leValue (binding.val.take 8) + tls.valLong) % 2^64
      (retKeyFound, { tls with valLong := sum }, some { binding with val := leBytes 8 sum ++ binding.val.drop 8 })
    else (retKeyFound ||| retBadVal, tls, some binding)
  | .delete => (retKeyFound, { tls with uid := uidNone, ttl := 0 }, none)
  | .update =>
    if binding.val.length = tls.updCallbackCopyVal.length then
      (retKeyFound, tls, some { binding with val := tls.updCallbackCopyVal })
    else (retKeyFound ||| retBadCb, tls, some binding)

/-- An action has had an effect at a slot. -/
structure Acted (cfg : Config) (t : State Tables) (b : Bindings) (place : Slot) (binding : Option Binding) (tls : Tls)
    (t' : State Tables) : Prop where
  ok : StoreOk cfg t' (Function.update b place binding)
  frame : Frame (fun _ => True) t t'
  tls : t'.shared.tls = tls

structure AtRecord (cfg : Config) (t : State Tables) (b : Bindings) (slot : Slot) (tab : Nat) (record : Found)
    (binding : Binding) (file : File) (c : Contents) (free : List Nat) : Prop where
  ok : StoreOk cfg t b
  home : (t.shared.wins slot.win).tabs slot.tab = tab
  there : t.map.fileAt (.tab slot.win tab) = some file
  tableOk : TableOk cfg file c free
  shows_ : Shows c slot.win tab (t.shared.wins slot.win).tabs b
  bound : b { slot with ref := record.ref } = some binding
  found : FoundAt cfg file slot.row binding record t.shared.tls

section Acts

variable {cfg : Config} {t : State Tables} {b : Bindings} {slot : Slot} {tab : Nat} {record : Found}
  {binding : Binding} {file : File} {c : Contents} {free : List Nat}
  (atRecord : AtRecord cfg t b slot tab record binding file c free)
include atRecord

theorem AtRecord.entry : c slot.row record.ref = some ⟨slot.tab, binding.rnd, binding.key, binding.val⟩ :=
  (atRecord.shows_.binding atRecord.home).mp atRecord.bound

theorem AtRecord.stored : Stored cfg file.tab record.pos binding.key binding.val := by
  rw [atRecord.found.pos]
  exact (atRecord.tableOk.live atRecord.entry).2.2

theorem AtRecord.held : Held t (.tab slot.win tab) file := atRecord.tableOk.held atRecord.there

theorem AtRecord.used : tab < (t.shared.wins slot.win).tabsUsed := by
  rw [← atRecord.home]
  exact atRecord.ok.tabs_lt _ _

theorem AtRecord.unchanged : Function.update b { slot with ref := record.ref } (some binding) = b := by
  rw [← atRecord.bound]
  exact Function.update_eq_self _ _

theorem AtRecord.changing {t' : State Tables} {file' : File} {free' : List Nat} {binding' : Option Binding}
    (moves : Moves (.tab slot.win tab) file' t t') (tableOk : TableOk cfg file' (c.set slot.row record.ref
      (binding'.map fun bound => ⟨slot.tab, bound.rnd, bound.key, bound.val⟩)) free') :
    StoreOk cfg t' (Function.update b { slot with ref := record.ref } binding') := by
  refine atRecord.ok.change moves tableOk atRecord.used
    (atRecord.shows_.set atRecord.home (fun e there => ?_) binding') fun other away => ?_
  · rw [atRecord.entry] at there
    cases there
    rfl
  · apply Function.update_of_ne
    rintro rfl
    exact away ⟨rfl, atRecord.home⟩

theorem AtRecord.valAddr_low : dataOffset ≤ t.shared.tls.valAddr.getD 0 := by
  have low := atRecord.stored.low
  rw [atRecord.found.valAddr, Option.getD_some]
  omega

theorem AtRecord.readVal_run {len : Nat} (short : len ≤ binding.val.length) :
    readMem direct (.tab slot.win tab) (t.shared.tls.valAddr.getD 0) len t =
      ⟨.ok (binding.val.take len), t, 0⟩ := by
  have stored := atRecord.stored
  have low := stored.low
  have high := stored.high
  have used := atRecord.tableOk.used_high
  unfold Config.recordLen at high
  rw [atRecord.found.valAddr, Option.getD_some, readMem_run atRecord.held (.inr ⟨by omega, by omega⟩),
    ← read_take short, stored.record.valBytes]

theorem AtRecord.writeVal_run {bytes : List UInt8} (short : bytes.length ≤ binding.val.length) :
    ∃ t', writeMem direct (.tab slot.win tab) (t.shared.tls.valAddr.getD 0) bytes t = ⟨.ok (), t', 0⟩ ∧
      Acted cfg t b { slot with ref := record.ref }
        (some { binding with val := bytes ++ binding.val.drop bytes.length }) t.shared.tls t' := by
  have stored := atRecord.stored
  have low := stored.low
  have high := stored.high
  have used := atRecord.tableOk.used_high
  unfold Config.recordLen at high
  have length : (bytes ++ binding.val.drop bytes.length).length = binding.val.length := by
    rw [List.length_append, List.length_drop]
    omega
  have run := @writeMem_run _ _ _ (record.pos + 1 + cfg.lenLen + binding.key.length + cfg.lenLen) bytes
    atRecord.held (.inr ⟨by omega, by omega⟩)
  rw [write_over stored.record.valBytes short] at run
  have updated := atRecord.tableOk.updating atRecord.entry length
  rw [← atRecord.found.pos] at updated
  refine ⟨_, ?_, atRecord.changing (Moves.set t _ _) updated, (Frame.setFile t _ _).mono fun _ _ => trivial, rfl⟩
  rw [atRecord.found.valAddr, Option.getD_some]
  exact run

theorem copyKey_run : ∃ t', copyKey direct slot.win tab record.keyLen t = ⟨.ok (), t', 0⟩ ∧
    t'.map = t.map ∧ t'.shared.tls = { t.shared.tls with
      key := binding.key
      keyLen := binding.key.length
      keySize := copySize t.shared.tls.keySize binding.key.length } ∧ Frame (fun _ => False) t t' := by
  have stored := atRecord.stored
  have low := stored.low
  have high := stored.high
  have used := atRecord.tableOk.used_high
  unfold Config.recordLen at high
  have read := @readMem_run _ _ _ (record.pos + 1 + cfg.lenLen) binding.key.length atRecord.held
    (.inr ⟨by omega, by omega⟩)
  rw [stored.record.keyBytes] at read
  rcases modifyTls_step t fun tls => { tls with
      key := binding.key
      keyLen := binding.key.length
      keySize := copySize tls.keySize binding.key.length } with ⟨t', run, same⟩
  refine ⟨t', ?_, same⟩
  rw [copyKey, bind_ok (getTls_run t), atRecord.found.keyAddr, Option.getD_some, atRecord.found.keyLen, bind_ok read]
  exact run

theorem copyVal_run : ∃ t', copyVal direct slot.win tab record.valLen t = ⟨.ok (), t', 0⟩ ∧
    t'.map = t.map ∧ t'.shared.tls = { t.shared.tls with
      val := binding.val
      valLen := binding.val.length
      valSize := copySize t.shared.tls.valSize binding.val.length } ∧ Frame (fun _ => False) t t' := by
  have read := atRecord.readVal_run (Nat.le_refl _)
  rw [List.take_length] at read
  rcases modifyTls_step t fun tls => { tls with
      val := binding.val
      valLen := binding.val.length
      valSize := copySize tls.valSize binding.val.length } with ⟨t', run, same⟩
  refine ⟨t', ?_, same⟩
  rw [copyVal, bind_ok (getTls_run t), atRecord.found.valLen, bind_ok read]
  exact run

theorem atomAdd_run : ∃ t', atomAdd direct slot.win tab record.valLen t =
    ⟨.ok (FindKeyAnd.atomAdd.effect t.shared.tls binding).1, t', 0⟩ ∧
      Acted cfg t b { slot with ref := record.ref } (FindKeyAnd.atomAdd.effect t.shared.tls binding).2.2
        (FindKeyAnd.atomAdd.effect t.shared.tls binding).2.1 t' := by
  unfold atomAdd FindKeyAnd.effect
  rw [atRecord.found.valLen]
  by_cases long : 8 ≤ binding.val.length
  · rw [if_pos long, if_pos long]
    generalize sum_eq : (leValue (binding.val.take 8) + t.shared.tls.valLong) % 2^64 = sum
    have short : (leBytes 8 sum).length ≤ binding.val.length := by
      rw [leBytes_length]
      exact long
    rcases atRecord.writeVal_run short with ⟨t1, run, acted⟩
    rw [leBytes_length] at acted
    rcases modifyTls_step t1 fun tls => { tls with valLong := sum } with ⟨t2, run2, map2, tls2, frame2⟩
    refine ⟨t2, ?_, acted.ok.untouched map2 frame2, acted.frame.trans (frame2.mono fun _ => False.elim), ?_⟩
    · refine (bind_ok (getTls_run t)).trans ((bind_ok (atRecord.readVal_run long)).trans ?_)
      rw [sum_eq, bind_ok run, bind_ok run2]
      rfl
    · rw [tls2, acted.tls]
  · rw [if_neg long, if_neg long]
    refine ⟨t, rfl, ?_, Frame.refl t, rfl⟩
    rw [atRecord.unchanged]
    exact atRecord.ok

theorem deleteFound_run (linkable : cfg.Linkable) : ∃ t', deleteFound direct cfg slot tab record t = ⟨.ok (), t', 0⟩ ∧
    Acted cfg t b { slot with ref := record.ref } none { t.shared.tls with uid := uidNone, ttl := 0 } t' := by
  rcases tabRefMarkAsDeleted_run atRecord.there atRecord.tableOk linkable atRecord.entry with
    ⟨file', free', run1, tableOk'⟩
  have marked : tabRefMarkAsDeleted direct cfg (.tab slot.win tab) slot.row record.ref binding.key.length
    binding.val.length t = ⟨.ok (), t.setFile (.tab slot.win tab) file', 0⟩ := run1
  have ok1 : StoreOk cfg (t.setFile (.tab slot.win tab) file') (Function.update b { slot with ref := record.ref } none) :=
    atRecord.changing (Moves.set t _ file') tableOk'
  have frame1 : Frame (fun _ => True) t (t.setFile (.tab slot.win tab) file') :=
    (Frame.setFile t _ file').mono fun _ _ => trivial
  rcases modifyTls_step (t.setFile (.tab slot.win tab) file') fun tls => { tls with uid := uidNone, ttl := 0 } with
    ⟨t2, run2, map2, tls2, frame2⟩
  refine ⟨t2, ?_, ok1.untouched map2 frame2, frame1.trans (frame2.mono fun _ => False.elim), tls2⟩
  rw [deleteFound, atRecord.found.keyLen, atRecord.found.valLen, bind_ok marked]
  exact run2

theorem deleteKey_run (linkable : cfg.Linkable) (ttl : t.shared.tls.ttl = 0) : ∃ t',
    deleteKey direct cfg slot tab record t = ⟨.ok (FindKeyAnd.delete.effect t.shared.tls binding).1, t', 0⟩ ∧
      Acted cfg t b { slot with ref := record.ref } (FindKeyAnd.delete.effect t.shared.tls binding).2.2
        (FindKeyAnd.delete.effect t.shared.tls binding).2.1 t' := by
  rcases deleteFound_run atRecord linkable with ⟨t', deleted, acted⟩
  refine ⟨t', ?_, acted⟩
  refine (bind_ok (getTls_run t)).trans ?_
  rw [if_neg (not_not.mpr ttl), bind_ok deleted]
  rfl

theorem AtRecord.withTls {t' : State Tables} (map : t'.map = t.map) (frame : Frame (fun _ => False) t t')
    (keyAddr : t'.shared.tls.keyAddr = t.shared.tls.keyAddr) (valAddr : t'.shared.tls.valAddr = t.shared.tls.valAddr) :
    AtRecord cfg t' b slot tab record binding file c free := by
  refine ⟨atRecord.ok.untouched map frame, ?_, ?_, atRecord.tableOk, ?_, atRecord.bound, atRecord.found.pos,
    atRecord.found.keyLen, atRecord.found.valLen, keyAddr.trans atRecord.found.keyAddr,
    valAddr.trans atRecord.found.valAddr⟩
  · rw [frame.tabs]
    exact atRecord.home
  · rw [map]
    exact atRecord.there
  · rw [frame.tabs]
    exact atRecord.shows_

theorem writeCopy_run {val : List UInt8} (val_eq : t.shared.tls.updCallbackCopyVal = val) : ∃ t',
    when (binding.val.length = val.length) (writeMem direct (.tab slot.win tab) (t.shared.tls.valAddr.getD 0) val) t =
      ⟨.ok (), t', 0⟩ ∧ Acted cfg t b { slot with ref := record.ref }
        (FindKeyAnd.update.effect t.shared.tls binding).2.2 t.shared.tls t' := by
  unfold FindKeyAnd.effect
  rw [val_eq]
  by_cases length : binding.val.length = val.length
  · rcases atRecord.writeVal_run (Nat.le_of_eq length.symm) with ⟨t', run, acted⟩
    rw [List.drop_of_length_le (Nat.le_of_eq length), List.append_nil] at acted
    rw [when_true length, if_pos length]
    exact ⟨t', run, acted⟩
  · rw [when_false length, if_neg length]
    refine ⟨t, rfl, ?_, Frame.refl t, rfl⟩
    rw [atRecord.unchanged]
    exact atRecord.ok

theorem updCallbackCopy_run (ready : t.shared.tls.updCallbackFailsafe = 0) : ∃ result t',
    updCallbackCopy direct slot.win tab record.valLen t = ⟨.ok result, t', 0⟩ ∧
      retKeyFound ||| result = (FindKeyAnd.update.effect t.shared.tls binding).1 ∧
      Acted cfg t b { slot with ref := record.ref } (FindKeyAnd.update.effect t.shared.tls binding).2.2
        (FindKeyAnd.update.effect t.shared.tls binding).2.1 t' := by
  rcases modifyTls_step t fun tls => { tls with updCallbackFailsafe := tls.updCallbackFailsafe + 1 } with
    ⟨t1, run1, map1, tls1, frame1⟩
  have atRecord1 := atRecord.withTls map1 frame1 (by rw [tls1]) (by rw [tls1])
  have one : t1.shared.tls.updCallbackFailsafe = 1 := by rw [tls1, ready]
  have copy_eq : t1.shared.tls.updCallbackCopyVal = t.shared.tls.updCallbackCopyVal := by rw [tls1]
  rcases writeCopy_run atRecord1 copy_eq with ⟨t2, run2, acted⟩
  rcases modifyTls_step t2 fun tls => { tls with updCallbackFailsafe := tls.updCallbackFailsafe - 1 } with
    ⟨t3, run3, map3, tls3, frame3⟩
  have binding_eq : (FindKeyAnd.update.effect t1.shared.tls binding).2.2 =
      (FindKeyAnd.update.effect t.shared.tls binding).2.2 := by
    simp only [FindKeyAnd.effect, copy_eq]
    split <;> rfl
  have tls_eq : (FindKeyAnd.update.effect t.shared.tls binding).2.1 = t.shared.tls := by
    simp only [FindKeyAnd.effect]
    split <;> rfl
  refine ⟨if binding.val.length = t.shared.tls.updCallbackCopyVal.length then 0 else retBadCb, t3, ?_, ?_, ?_,
    (frame1.mono fun _ => False.elim).trans (acted.frame.trans (frame3.mono fun _ => False.elim)), ?_⟩
  · rw [updCallbackCopy, bind_ok run1]
    refine (bind_ok (getTls_run t1)).trans ?_
    rw [bind_ok (check_true one _ _), atRecord.found.valLen, copy_eq, bind_ok run2, bind_ok run3]
    rfl
  · simp only [FindKeyAnd.effect]
    split <;> rfl
  · rw [← binding_eq]
    exact acted.ok.untouched map3 frame3
  · rw [tls3, acted.tls, tls1, tls_eq]
    exact congrArg (fun many => { t.shared.tls with updCallbackFailsafe := many }) (Nat.add_sub_cancel _ 1)

/-- A shrink after a lookup changes no binding. -/
theorem considerTabShrink_ends (linkable : cfg.Linkable) : Ends sizeLimit (considerTabShrink direct cfg slot.win tab)
    (fun _ t' => StoreOk cfg t' b ∧ Frame (fun _ => True) t t' ∧ t'.shared.tls = t.shared.tls)
    (fun e t' => Refused cfg t'.shared.vfs e) t := by
  refine ends_after (tabAt_run atRecord.held) (ends_when (fun _ => ?_) fun _ =>
    ⟨atRecord.ok, Frame.refl t, rfl⟩)
  refine (tabShrink_ends linkable atRecord.there atRecord.tableOk atRecord.ok.old).mono ?_ fun _ _ refused => refused
  rintro _ t' ⟨file', free', moves, tableOk'⟩
  exact ⟨atRecord.ok.change moves tableOk' atRecord.used atRecord.shows_ fun _ _ => rfl,
    moves.frame.mono fun _ _ => trivial, moves.tls⟩

/-- What a call may do with the record it finds: a deletion asks for no time to live, an update runs alone. -/
def FindKeyAnd.Ready (tls : Tls) : FindKeyAnd → Prop
  | .delete => tls.ttl = 0
  | .update => tls.updCallbackFailsafe = 0
  | _ => True

theorem actOn_ends (linkable : cfg.Linkable) {what : FindKeyAnd} (ready : what.Ready t.shared.tls) :
    Ends sizeLimit (actOn direct cfg slot tab record what)
      (fun result t' => result = (what.effect t.shared.tls binding).1 ∧
        Acted cfg t b { slot with ref := record.ref } (what.effect t.shared.tls binding).2.2
          (what.effect t.shared.tls binding).2.1 t') (fun e t' => Refused cfg t'.shared.vfs e) t := by
  cases what with
  | addr =>
    refine ends_pure ⟨rfl, ?_, Frame.refl t, rfl⟩
    change StoreOk cfg t (Function.update b _ (some binding))
    rw [atRecord.unchanged]
    exact atRecord.ok
  | copyKey =>
    rcases copyKey_run atRecord with ⟨t1, run, map1, tls1, frame1⟩
    have atRecord1 := atRecord.withTls map1 frame1 (by rw [tls1]) (by rw [tls1])
    refine ends_after run (ends_step (considerTabShrink_ends atRecord1 linkable) (fun _ _ refused => refused) ?_)
    rintro _ t2 ⟨ok2, frame2, tls2⟩
    refine ends_pure ⟨rfl, ?_, (frame1.mono fun _ => False.elim).trans frame2, tls2.trans tls1⟩
    change StoreOk cfg t2 (Function.update b _ (some binding))
    rw [atRecord.unchanged]
    exact ok2
  | copyVal =>
    rcases copyVal_run atRecord with ⟨t1, run, map1, tls1, frame1⟩
    have atRecord1 := atRecord.withTls map1 frame1 (by rw [tls1]) (by rw [tls1])
    refine ends_after run (ends_step (considerTabShrink_ends atRecord1 linkable) (fun _ _ refused => refused) ?_)
    rintro _ t2 ⟨ok2, frame2, tls2⟩
    refine ends_pure ⟨rfl, ?_, (frame1.mono fun _ => False.elim).trans frame2, tls2.trans tls1⟩
    change StoreOk cfg t2 (Function.update b _ (some binding))
    rw [atRecord.unchanged]
    exact ok2
  | atomAdd =>
    rcases atomAdd_run atRecord with ⟨t', run, acted⟩
    exact ends_run run fun _ => ⟨rfl, acted⟩
  | delete =>
    rcases deleteKey_run atRecord linkable ready with ⟨t', run, acted⟩
    exact ends_run run fun _ => ⟨rfl, acted⟩
  | update =>
    rcases updCallbackCopy_run atRecord ready with ⟨result, t', run, result_eq, acted⟩
    exact ends_after run (ends_pure ⟨result_eq, acted⟩)

end Acts

section Find

variable {cfg : Config} {t : State Tables} {b : Bindings} {uid : Nat} {what : FindKeyAnd}

def FoundKey (cfg : Config) (t : State Tables) (b : Bindings) (uid : Nat) (what : FindKeyAnd) (result : Nat)
    (t' : State Tables) : Prop :=
  match b.locate uid t.shared.tls.hash t.shared.tls.hashKey with
  | none => result = retKeyNone ∧ StoreOk cfg t' b ∧ Frame (fun _ => True) t t' ∧
      ∃ keyAddr, t'.shared.tls = t.shared.tls.lookedUp uid none keyAddr none
  | some place => ∃ binding keyAddr valAddr, b place = some binding ∧
      result = (what.effect (t.shared.tls.lookedUp uid (some place) keyAddr valAddr) binding).1 ∧
      Acted cfg t b place (what.effect (t.shared.tls.lookedUp uid (some place) keyAddr valAddr) binding).2.2
        (what.effect (t.shared.tls.lookedUp uid (some place) keyAddr valAddr) binding).2.1 t'

/-- The lookup of `shf_find_key_internal`, up to where it found nothing or acts on a record. -/
structure Reaches (cfg : Config) (t : State Tables) (b : Bindings) (uid : Nat) (what : FindKeyAnd) (t' : State Tables)
    (keyAddr valAddr : Option Nat) : Prop where
  ok : StoreOk cfg t' b
  frame : Frame (fun _ => True) t t'
  tls : t'.shared.tls =
    t.shared.tls.lookedUp uid (b.locate uid t.shared.tls.hash t.shared.tls.hashKey) keyAddr valAddr
  next : match b.locate uid t.shared.tls.hash t.shared.tls.hashKey with
    | none => findKeyInternal direct cfg uid what t = (do
        modifyTls fun tls => { tls with valAddr := none }
        pure retKeyNone : Operation Tables Nat) t'
    | some place => ∃ slot tab record binding file c free, place = { slot with ref := record.ref } ∧
        AtRecord cfg t' b slot tab record binding file c free ∧
        findKeyInternal direct cfg uid what t = actOn direct cfg slot tab record what t'

/-- A lookup opens its table and changes no other. -/
theorem findKeyInternal_opens (what : FindKeyAnd) (ok : StoreOk cfg t b) : ∃ t' keyAddr valAddr ptr file,
    Reaches cfg t b uid what t' keyAddr valAddr ∧ t.map.fileAt ptr = some file ∧
      t'.map = (t.setFile ptr (Tables.opened file)).map := by
  obtain ⟨slot, slot_eq⟩ : ∃ slot, t.shared.tls.slotOf uid = slot := ⟨_, rfl⟩
  obtain ⟨tab, home⟩ : ∃ tab, (t.shared.wins slot.win).tabs slot.tab = tab := ⟨_, rfl⟩
  have used : tab < (t.shared.wins slot.win).tabsUsed := home ▸ ok.tabs_lt _ _
  rcases ok.tables slot.win tab used with ⟨file0, c, free, there0, tableOk, shows_⟩
  have mapped : onMap (direct.getTabMmap slot.win tab) t = _ := getTabMmap_ends there0
  have moves1 := Moves.set t (.tab slot.win tab) (Tables.opened file0)
  have ok1 := ok.change moves1 tableOk used shows_ fun _ _ => rfl
  obtain ⟨file, file_eq⟩ : ∃ file, Tables.opened file0 = file := ⟨_, rfl⟩
  obtain ⟨t1, t1_eq⟩ : ∃ t1, t.setFile (.tab slot.win tab) (Tables.opened file0) = t1 := ⟨_, rfl⟩
  rw [file_eq] at tableOk
  rw [t1_eq] at mapped
  rw [t1_eq, file_eq] at moves1
  rw [t1_eq] at ok1
  have slot1 : t1.shared.tls.slotOf uid = slot := by rw [moves1.tls, slot_eq]
  rcases findKeyOrUid_run slot1 moves1.there tableOk shows_ home with ⟨found, t2, run, looked⟩
  have ok2 := ok1.untouched looked.map looked.frame
  have tabs2 (win : Fin 256) : (t2.shared.wins win).tabs = (t.shared.wins win).tabs :=
    (looked.frame.tabs win).trans (moves1.frame.tabs win)
  have result := looked.found
  rcases looked.tls with ⟨keyAddr, valAddr, tls2⟩
  rw [moves1.tls] at result tls2
  refine ⟨t2, keyAddr, valAddr, .tab slot.win tab, file0, ⟨ok2, (moves1.frame.mono fun _ _ => trivial).trans
    (looked.frame.mono fun _ => False.elim), tls2, ?_⟩, there0, by rw [looked.map, t1_eq]⟩
  have opened : findKeyInternal direct cfg uid what t = (found.elim (do
        modifyTls fun tls => { tls with valAddr := none }
        pure retKeyNone : Operation Tables Nat) fun record => actOn direct cfg slot tab record what) t2 := by
    rw [findKeyInternal, bind_ok (getTls_run t), bind_ok (getWin_run t _), ← Tls.slotOf, slot_eq, home, bind_ok mapped,
      bind_ok run]
    cases found <;> rfl
  cases located : b.locate uid t.shared.tls.hash t.shared.tls.hashKey with
  | none =>
    rw [located] at result
    cases result
    exact opened
  | some place =>
    rw [located] at result
    rcases result with ⟨record, binding, rfl, rfl, bound, foundAt⟩
    have there2 : t2.map.fileAt (.tab slot.win tab) = some file := by
      rw [looked.map]
      exact moves1.there
    exact ⟨slot, tab, record, binding, file, c, free, rfl,
      ⟨ok2, by rw [tabs2]; exact home, there2, tableOk, by rw [tabs2]; exact shows_, bound, foundAt⟩, opened⟩

theorem findKeyInternal_reaches (what : FindKeyAnd) (ok : StoreOk cfg t b) : ∃ t' keyAddr valAddr,
    Reaches cfg t b uid what t' keyAddr valAddr := by
  rcases @findKeyInternal_opens _ _ _ uid what ok with ⟨t', keyAddr, valAddr, _, _, reaches, _⟩
  exact ⟨t', keyAddr, valAddr, reaches⟩

theorem findKeyInternal_ends (linkable : cfg.Linkable) (ok : StoreOk cfg t b) (ready : what.Ready t.shared.tls) :
    Ends sizeLimit (findKeyInternal direct cfg uid what) (FoundKey cfg t b uid what) (fun e t' => Refused cfg t'.shared.vfs e) t := by
  rcases findKeyInternal_reaches what ok with ⟨t2, keyAddr, valAddr, ok2, frame2, tls2, next⟩
  unfold FoundKey
  cases located : b.locate uid t.shared.tls.hash t.shared.tls.hashKey with
  | none =>
    rw [located] at next tls2
    rcases modifyTls_step t2 fun tls => { tls with valAddr := none } with ⟨t3, run3, map3, tls3, frame3⟩
    refine ends_congr next (ends_after run3 (ends_pure ⟨rfl, ok2.untouched map3 frame3,
      frame2.trans (frame3.mono fun _ => False.elim), keyAddr, ?_⟩))
    rw [tls3, tls2]
    rfl
  | some place =>
    rw [located] at next tls2
    rcases next with ⟨slot, tab, record, binding, file, c, free, rfl, atRecord, run⟩
    have ready2 : what.Ready t2.shared.tls := by
      rw [tls2]
      exact ready
    refine ends_congr run ((actOn_ends atRecord linkable ready2).mono ?_ fun _ _ refused => refused)
    rintro result t3 ⟨same, acted⟩
    rw [tls2] at same acted
    exact ⟨binding, keyAddr, valAddr, atRecord.bound, same, acted.ok, frame2.trans acted.frame, acted.tls⟩

end Find

end SharedHashFile.Store
