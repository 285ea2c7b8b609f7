import SharedHashFile.Store.PutSpec

namespace SharedHashFile.Store

open ByteMemory Program

def Bindings.isAt (b : Bindings) (hash : Hash) (key : List UInt8) (ref : Fin 16) : Bool :=
  match b (hash.slot ref) with
  | some binding => binding.rnd = hash.rnd ∧ binding.key = key
  | none => false

/-- The slot a lookup ends at, by key or by UID. -/
def Bindings.locate (b : Bindings) (uid : Nat) (hash : Hash) (key : List UInt8) : Option Slot :=
  if uid = uidNone then ((List.finRange 16).find? (b.isAt hash key)).map hash.slot
  else if (b (uidSlot uid)).isSome then some (uidSlot uid)
  else none

/-- A lookup has moved the thread's addresses, and counted its misses. -/
structure Located (t t' : State Tables) : Prop where
  map : t'.map = t.map
  frame : Frame (fun _ => False) t t'
  tls : ∃ keyAddr valAddr, t'.shared.tls = { t.shared.tls with keyAddr := keyAddr, valAddr := valAddr }

structure FoundAt (cfg : Config) (file : File) (row : Fin 512) (binding : Binding) (record : Found) (tls : Tls) :
    Prop where
  pos : record.pos = (file.tab.row row record.ref).pos
  keyLen : record.keyLen = binding.key.length
  valLen : record.valLen = binding.val.length
  keyAddr : tls.keyAddr = some (record.pos + 1 + cfg.lenLen)
  valAddr : tls.valAddr = some (record.pos + 1 + cfg.lenLen + binding.key.length + cfg.lenLen)

section Search

variable {cfg : Config} {t : State Tables} {win : Fin 256} {tab : Nat} {file : File} {c : Contents}
  {free : List Nat} {row : Fin 512} {ref : Fin 16} {entry : Entry}

theorem Located.refl (t : State Tables) : Located t t := ⟨rfl, Frame.refl t, _, _, rfl⟩

theorem Located.trans {t' t'' : State Tables} (first : Located t t') (second : Located t' t'') : Located t t'' := by
  rcases first.tls with ⟨_, _, tls⟩
  rcases second.tls with ⟨keyAddr, valAddr, tls'⟩
  refine ⟨second.map.trans first.map, first.frame.trans second.frame, keyAddr, valAddr, ?_⟩
  rw [tls', tls]

def State.at_ (t : State Tables) (keyAddr valAddr : Option Nat) : State Tables :=
  t.withTls fun tls => { tls with keyAddr := keyAddr, valAddr := valAddr }

theorem Located.at_ (t : State Tables) (keyAddr valAddr : Option Nat) : Located t (t.at_ keyAddr valAddr) :=
  ⟨rfl, Frame.withTls t _, keyAddr, valAddr, rfl⟩

theorem Located.miss {f : Win → Win} (t : State Tables) (win : Fin 256)
    (same : ∀ w, (f w).tabs = w.tabs ∧ (f w).tabsUsed = w.tabsUsed ∧ (f w).tabsParted = w.tabsParted) :
    Located t (t.withWin win f) := ⟨rfl, Frame.withWin same, _, _, rfl⟩

theorem loadRecord_run {pos : Nat} {key val : List UInt8} (there : t.map.fileAt (.tab win tab) = some file)
    (ok : TableOk cfg file c free) (stored : Stored cfg file.tab pos key val) :
    loadRecord direct cfg win tab pos t = ⟨.ok (key.length, val.length),
      t.at_ (some (pos + 1 + cfg.lenLen)) (some (pos + 1 + cfg.lenLen + key.length + cfg.lenLen)), 0⟩ := by
  have low := stored.low
  have high := stored.high
  have used := ok.used_high
  have small := ok.size.high
  have header := ok.header
  unfold Config.recordLen at high
  have first : (pos + 1 + cfg.lenLen) % 2^32 = pos + 1 + cfg.lenLen := Nat.mod_eq_of_lt (by omega)
  have second : (pos + 1 + cfg.lenLen + key.length + cfg.lenLen) % 2^32 =
      pos + 1 + cfg.lenLen + key.length + cfg.lenLen := Nat.mod_eq_of_lt (by omega)
  have third : (pos + 1 + cfg.lenLen + key.length) % 2^32 ≤ file.tab.tabSize :=
    Nat.le_trans (Nat.mod_le _ _) (by omega)
  have fourth : (pos + 1 + cfg.lenLen + key.length + cfg.lenLen + val.length) % 2^32 ≤ file.tab.tabSize :=
    Nat.le_trans (Nat.mod_le _ _) (by omega)
  have held := ok.held there
  rw [loadRecord, bind_ok (tabAt_run held), bind_ok (check_true (show pos < file.tab.tabSize by omega) _ _),
    bind_ok (access_run held (.inr ⟨low, by omega⟩)), bind_ok (recordLens_run there ok stored)]
  simp only [first, second]
  rw [bind_ok (check_true third _ _), bind_ok (check_true fourth _ _), bind_ok (modifyTls_run t _)]
  rfl

section Row

variable {b : Bindings} {hash : Hash} {key : List UInt8} {tabs : Fin 2048 → Nat}
  (ok : TableOk cfg file c free) (shows_ : Shows c (hash.slot 0).win tab tabs b)
  (home : tabs (hash.slot 0).tab = tab)
include ok shows_ home

theorem looksRight_iff : ((file.tab.row (hash.slot 0).row ref).pos ≠ 0 ∧
    (file.tab.row (hash.slot 0).row ref).rnd = hash.rnd ∧
    (file.tab.row (hash.slot 0).row ref).tab = (hash.slot 0).tab) ↔
    ∃ binding, b (hash.slot ref) = some binding ∧ binding.rnd = hash.rnd := by
  constructor
  · rintro ⟨used, sameRnd, sameTab⟩
    rcases Option.ne_none_iff_exists'.mp (mt ok.pos_zero_iff.mpr used) with ⟨e, there⟩
    rcases ok.live there with ⟨tab_eq, rnd_eq, _⟩
    have bound := ((shows_ _ _ e).mp there).2
    rw [tab_eq] at sameTab
    rw [sameTab] at bound
    exact ⟨e.binding, bound, rnd_eq.symm.trans sameRnd⟩
  · rintro ⟨binding, bound, sameRnd⟩
    have there := (shows_.binding home).mp bound
    rcases ok.live there with ⟨tab_eq, rnd_eq, _⟩
    exact ⟨ok.occupied there, rnd_eq.trans sameRnd, tab_eq⟩

/-- How a search of some refs for a key ends. -/
def Searched (cfg : Config) (file : File) (b : Bindings) (hash : Hash) (key : List UInt8) (refs : List (Fin 16))
    (t : State Tables) (found : Option Found) (t' : State Tables) : Prop :=
  Located t t' ∧ match refs.find? (b.isAt hash key) with
    | none => found = none
    | some ref => ∃ record binding, found = some record ∧ record.ref = ref ∧ b (hash.slot ref) = some binding ∧
        FoundAt cfg file (hash.slot 0).row binding record t'.shared.tls

/-- The search ends at the first ref bound to the key. -/
theorem searchRow_run (refs : List (Fin 16)) (there : t.map.fileAt (.tab (hash.slot 0).win tab) = some file)
    (key_eq : t.shared.tls.hashKey = key) : ∃ found t',
    searchRow direct cfg (hash.slot 0) tab hash.rnd refs t = ⟨.ok found, t', 0⟩ ∧
      Searched cfg file b hash key refs t found t' := by
  induction refs generalizing t with
  | nil => exact ⟨none, t, rfl, Located.refl t, rfl⟩
  | cons ref rest ih =>
    -- where the ref is not the key's, the rest of the row is searched from a state the ref has led to
    have skip {t1 : State Tables} (located : Located t t1) (not : b.isAt hash key ref = false)
        (run : searchRow direct cfg (hash.slot 0) tab hash.rnd (ref :: rest) t =
          searchRow direct cfg (hash.slot 0) tab hash.rnd rest t1) : ∃ found t',
        searchRow direct cfg (hash.slot 0) tab hash.rnd (ref :: rest) t = ⟨.ok found, t', 0⟩ ∧
          Searched cfg file b hash key (ref :: rest) t found t' := by
      rcases located.tls with ⟨_, _, tls⟩
      have there1 : t1.map.fileAt (.tab (hash.slot 0).win tab) = some file := by
        rw [located.map]
        exact there
      have key1 : t1.shared.tls.hashKey = key := by
        rw [tls]
        exact key_eq
      rcases ih there1 key1 with ⟨found, t', rest_run, located', result⟩
      refine ⟨found, t', run.trans rest_run, located.trans located', ?_⟩
      rw [List.find?_cons, not]
      exact result
    have held := ok.held there
    by_cases right : (file.tab.row (hash.slot 0).row ref).pos ≠ 0 ∧
        (file.tab.row (hash.slot 0).row ref).rnd = hash.rnd ∧
        (file.tab.row (hash.slot 0).row ref).tab = (hash.slot 0).tab
    · rcases (looksRight_iff ok shows_ home).mp right with ⟨binding, bound, sameRnd⟩
      have here : c (hash.slot 0).row ref = some ⟨(hash.slot 0).tab, binding.rnd, binding.key, binding.val⟩ :=
        (shows_.binding home).mp bound
      have stored : Stored cfg file.tab (file.tab.row (hash.slot 0).row ref).pos binding.key binding.val :=
        (ok.live here).2.2
      have loaded := loadRecord_run there ok stored
      generalize next : t.at_ _ _ = t1 at loaded
      have located : Located t t1 := next ▸ Located.at_ t _ _
      have key1 : t1.shared.tls.hashKey = key := by
        rw [← next]
        exact key_eq
      have there1 : t1.map.fileAt (.tab (hash.slot 0).win tab) = some file := by
        rw [located.map]
        exact there
      have isAt_eq : b.isAt hash key ref = decide (binding.key = key) := by
        simp only [Bindings.isAt, bound, sameRnd, true_and]
      by_cases length : binding.key.length = key.length
      · have read := readKey_run there1 ok stored
        by_cases same : binding.key = key
        · refine ⟨some ⟨ref, (file.tab.row (hash.slot 0).row ref).pos, binding.key.length, binding.val.length⟩, t1,
            (bind_ok (tabAt_run held)).trans ?_, located, ?_⟩
          · rw [if_pos right, bind_ok loaded]
            refine (bind_ok (getTls_run t1)).trans ?_
            rw [key1, if_neg (not_not.mpr length), ← length, bind_ok read, if_neg (not_not.mpr same)]
            rfl
          · rw [List.find?_cons, isAt_eq, decide_eq_true same]
            exact ⟨_, binding, rfl, rfl, bound, rfl, rfl, rfl, by rw [← next]; rfl, by rw [← next]; rfl⟩
        · have missed : Located t1 (t1.withWin (hash.slot 0).win fun w => { w with memcmpMisses := w.memcmpMisses + 1 }) :=
            Located.miss t1 _ fun _ => ⟨rfl, rfl, rfl⟩
          refine skip (located.trans missed) (isAt_eq.trans (decide_eq_false same))
            ((bind_ok (tabAt_run held)).trans ?_)
          rw [if_pos right, bind_ok loaded]
          refine (bind_ok (getTls_run t1)).trans ?_
          rw [key1, if_neg (not_not.mpr length), ← length, bind_ok read, if_pos same, bind_ok (modifyWin_run t1 _ _)]
      · have missed : Located t1 (t1.withWin (hash.slot 0).win fun w => { w with keylenMisses := w.keylenMisses + 1 }) :=
          Located.miss t1 _ fun _ => ⟨rfl, rfl, rfl⟩
        refine skip (located.trans missed) (isAt_eq.trans (decide_eq_false fun same => length (by rw [same])))
          ((bind_ok (tabAt_run held)).trans ?_)
        rw [if_pos right, bind_ok loaded]
        refine (bind_ok (getTls_run t1)).trans ?_
        rw [key1, if_pos length, bind_ok (modifyWin_run t1 _ _)]
    · refine skip (Located.refl t) ?_ ((bind_ok (tabAt_run held)).trans (by rw [if_neg right]))
      cases bound : b (hash.slot ref) with
      | none => simp only [Bindings.isAt, bound]
      | some binding =>
        simp only [Bindings.isAt, bound]
        exact decide_eq_false fun both =>
          right ((looksRight_iff ok shows_ home).mpr ⟨binding, bound, both.1⟩)

end Row

def Tls.lookedUp (tls : Tls) (uid : Nat) (place : Option Slot) (keyAddr valAddr : Option Nat) : Tls :=
  { tls with
    uid := if uid = uidNone then (place.map Slot.uid).getD uidNone else tls.uid
    keyAddr := keyAddr
    valAddr := valAddr }

section LookedUp

variable (tls : Tls) (uid : Nat) (place : Option Slot) (keyAddr valAddr : Option Nat)

@[simp] theorem Tls.lookedUp_ttl : (tls.lookedUp uid place keyAddr valAddr).ttl = tls.ttl := rfl
@[simp] theorem Tls.lookedUp_valLong : (tls.lookedUp uid place keyAddr valAddr).valLong = tls.valLong := rfl
@[simp] theorem Tls.lookedUp_failsafe :
    (tls.lookedUp uid place keyAddr valAddr).updCallbackFailsafe = tls.updCallbackFailsafe := rfl
@[simp] theorem Tls.lookedUp_copyVal :
    (tls.lookedUp uid place keyAddr valAddr).updCallbackCopyVal = tls.updCallbackCopyVal := rfl

end LookedUp

structure LookedUp (cfg : Config) (file : File) (b : Bindings) (uid : Nat) (slot : Slot) (t : State Tables)
    (found : Option Found) (t' : State Tables) : Prop where
  map : t'.map = t.map
  frame : Frame (fun _ => False) t t'
  tls : ∃ keyAddr valAddr, t'.shared.tls =
    t.shared.tls.lookedUp uid (b.locate uid t.shared.tls.hash t.shared.tls.hashKey) keyAddr valAddr
  found : match b.locate uid t.shared.tls.hash t.shared.tls.hashKey with
    | none => found = none
    | some place => ∃ record binding, found = some record ∧ place = { slot with ref := record.ref } ∧
        b place = some binding ∧ FoundAt cfg file slot.row binding record t'.shared.tls

section Lookup

variable {b : Bindings} {tabs : Fin 2048 → Nat}

theorem findKey_run (there : t.map.fileAt (.tab (t.shared.tls.hash.slot 0).win tab) = some file)
    (ok : TableOk cfg file c free) (shows_ : Shows c (t.shared.tls.hash.slot 0).win tab tabs b)
    (home : tabs (t.shared.tls.hash.slot 0).tab = tab) : ∃ found t',
    findKey direct cfg (t.shared.tls.hash.slot 0) tab t = ⟨.ok found, t', 0⟩ ∧
      LookedUp cfg file b uidNone (t.shared.tls.hash.slot 0) t found t' := by
  rcases modifyTls_step t fun tls => { tls with uid := uidNone } with ⟨t1, start, map1, tls1, cleared⟩
  have there1 : t1.map.fileAt (.tab (t.shared.tls.hash.slot 0).win tab) = some file := by
    rw [map1]
    exact there
  have key1 : t1.shared.tls.hashKey = t.shared.tls.hashKey := by rw [tls1]
  have hash1 : t1.shared.tls.hash = t.shared.tls.hash := by rw [tls1]
  rcases searchRow_run ok shows_ home (List.finRange 16) there1 key1 with ⟨found, t2, run, located, result⟩
  rcases located.tls with ⟨keyAddr, valAddr, tls2⟩
  have begin : findKey direct cfg (t.shared.tls.hash.slot 0) tab t = _ :=
    (bind_ok start).trans ((bind_ok (getTls_run t1)).trans (by rw [hash1, bind_ok run]))
  have locate_eq : b.locate uidNone t.shared.tls.hash t.shared.tls.hashKey =
      ((List.finRange 16).find? (b.isAt t.shared.tls.hash t.shared.tls.hashKey)).map t.shared.tls.hash.slot :=
    if_pos rfl
  have tls_eq (place : Option Slot) : t.shared.tls.lookedUp uidNone place keyAddr valAddr =
      { t.shared.tls with uid := (place.map Slot.uid).getD uidNone, keyAddr := keyAddr, valAddr := valAddr } := by
    rw [Tls.lookedUp, if_pos rfl]
  cases search : (List.finRange 16).find? (b.isAt t.shared.tls.hash t.shared.tls.hashKey) with
  | none =>
    rw [search] at result locate_eq
    cases result
    refine ⟨none, t2, begin, located.map.trans map1, cleared.trans located.frame, ⟨keyAddr, valAddr, ?_⟩, ?_⟩
    · rw [tls2, tls1, locate_eq, tls_eq]
      rfl
    · rw [locate_eq]
      rfl
  | some ref =>
    rw [search] at result locate_eq
    rcases result with ⟨record, binding, rfl, rfl, bound, at_⟩
    rcases modifyTls_step t2 fun tls => { tls with uid := (t.shared.tls.hash.slot record.ref).uid }
      with ⟨t3, named, map3, tls3, frame3⟩
    refine ⟨some record, t3, begin.trans (bind_ok named), map3.trans (located.map.trans map1),
      (cleared.trans located.frame).trans frame3, ⟨keyAddr, valAddr, ?_⟩, ?_⟩
    · rw [tls3, tls2, tls1, locate_eq, tls_eq, Option.map_some, Option.map_some, Option.getD_some]
    · rw [locate_eq]
      refine ⟨record, binding, rfl, rfl, bound, at_.pos, at_.keyLen, at_.valLen, ?_, ?_⟩
      · rw [tls3]
        exact at_.keyAddr
      · rw [tls3]
        exact at_.valAddr

theorem findUid_run {uid : Nat} (byUid : uid ≠ uidNone)
    (there : t.map.fileAt (.tab (uidSlot uid).win tab) = some file) (ok : TableOk cfg file c free)
    (shows_ : Shows c (uidSlot uid).win tab tabs b) (home : tabs (uidSlot uid).tab = tab) : ∃ found t',
    findUid direct cfg (uidSlot uid) tab t = ⟨.ok found, t', 0⟩ ∧
      LookedUp cfg file b uid (uidSlot uid) t found t' := by
  have held := ok.held there
  have locate_eq : b.locate uid t.shared.tls.hash t.shared.tls.hashKey =
      if (b (uidSlot uid)).isSome then some (uidSlot uid) else none := if_neg byUid
  have tls_eq (place : Option Slot) (keyAddr valAddr : Option Nat) : t.shared.tls.lookedUp uid place keyAddr valAddr =
      { t.shared.tls with keyAddr := keyAddr, valAddr := valAddr } := by
    rw [Tls.lookedUp, if_neg byUid]
  cases bound : b (uidSlot uid) with
  | none =>
    have wrong : ¬((file.tab.row (uidSlot uid).row (uidSlot uid).ref).pos ≠ 0 ∧
        (file.tab.row (uidSlot uid).row (uidSlot uid).ref).tab = (uidSlot uid).tab) := by
      rintro ⟨used, sameTab⟩
      rcases Option.ne_none_iff_exists'.mp (mt ok.pos_zero_iff.mpr used) with ⟨e, here⟩
      have found := ((shows_ _ _ e).mp here).2
      rw [← (ok.live here).1, sameTab] at found
      exact Option.some_ne_none _ (found.symm.trans bound)
    refine ⟨none, t, (bind_ok (tabAt_run held)).trans (by rw [if_neg wrong]; rfl), rfl, Frame.refl t,
      ⟨t.shared.tls.keyAddr, t.shared.tls.valAddr, ?_⟩, ?_⟩
    · rw [tls_eq]
    · rw [locate_eq, bound]
      rfl
  | some binding =>
    have here : c (uidSlot uid).row (uidSlot uid).ref =
        some ⟨(uidSlot uid).tab, binding.rnd, binding.key, binding.val⟩ := (shows_.binding home).mp bound
    have stored : Stored cfg file.tab (file.tab.row (uidSlot uid).row (uidSlot uid).ref).pos binding.key binding.val :=
      (ok.live here).2.2
    have right : (file.tab.row (uidSlot uid).row (uidSlot uid).ref).pos ≠ 0 ∧
        (file.tab.row (uidSlot uid).row (uidSlot uid).ref).tab = (uidSlot uid).tab :=
      ⟨ok.occupied here, (ok.live here).1⟩
    have run : findUid direct cfg (uidSlot uid) tab t = _ :=
      (bind_ok (tabAt_run held)).trans (by rw [if_pos right, bind_ok (loadRecord_run there ok stored)])
    refine ⟨_, _, run, rfl, Frame.withTls t _, ⟨_, _, (tls_eq _ _ _).symm⟩, ?_⟩
    · rw [locate_eq, bound]
      exact ⟨_, binding, rfl, rfl, bound, rfl, rfl, rfl, rfl, rfl⟩

def Tls.slotOf (tls : Tls) (uid : Nat) : Slot := if uid = uidNone then tls.hash.slot 0 else uidSlot uid

theorem findKeyOrUid_run {uid : Nat} {slot : Slot} (slot_eq : t.shared.tls.slotOf uid = slot)
    (there : t.map.fileAt (.tab slot.win tab) = some file) (ok : TableOk cfg file c free)
    (shows_ : Shows c slot.win tab tabs b) (home : tabs slot.tab = tab) : ∃ found t',
    findKeyOrUid direct cfg uid slot tab t = ⟨.ok found, t', 0⟩ ∧ LookedUp cfg file b uid slot t found t' := by
  unfold Tls.slotOf at slot_eq
  unfold findKeyOrUid
  split at slot_eq
  · rename_i byKey
    subst byKey
    subst slot_eq
    rw [if_pos rfl]
    exact findKey_run there ok shows_ home
  · rename_i byUid
    subst slot_eq
    rw [if_neg byUid]
    exact findUid_run byUid there ok shows_ home

end Lookup

end Search

end SharedHashFile.Store
