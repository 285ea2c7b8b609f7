import SharedHashFile.Store.AddSpec

namespace SharedHashFile.Store

open ByteMemory Program

section Definitions

variable (tab : Tab) (slot : Slot) (rnd : Nat) (key : List UInt8) (ref : Fin 16)

abbrev Tab.LooksRight : Prop :=
  (tab.row slot.row ref).pos ≠ 0 ∧ (tab.row slot.row ref).rnd = rnd ∧ (tab.row slot.row ref).tab = slot.tab

abbrev Tab.LeadsTo : Prop :=
  tab.LooksRight slot rnd ref ∧ read tab.data ((tab.row slot.row ref).pos + 1) key.length = key

end Definitions

/-- The check of `shf_find_key_internal` on where the value of a record of fixed lengths ends. -/
abbrev Config.Checks (cfg : Config) (tab : Tab) (pos : Nat) : Prop := (pos + cfg.fixedLen) % 2^32 ≤ tab.tabSize

/-- A table whose row can be searched: its refs lead behind the rows, to keys within the table. -/
structure Searchable (cfg : Config) (file : File) (row : Fin 512) : Prop where
  size : GoodSize file.size
  header : file.tab.tabSize = file.size
  inside : ∀ ref, (file.tab.row row ref).pos ≠ 0 →
    dataOffset ≤ (file.tab.row row ref).pos ∧ (file.tab.row row ref).pos + 1 + cfg.fixedKeyLen ≤ file.size

section Search

variable {cfg : Config} {t : State Tables} {tab : Nat} {file : File} {slot : Slot} {rnd : Nat} {key : List UInt8}

theorem Searchable.opened (searchable : Searchable cfg file slot.row) : Tables.opened file = file := by
  have low := searchable.size.low
  have header := searchable.header
  exact if_neg (by omega)

theorem Searchable.held {ptr : Ptr} (searchable : Searchable cfg file slot.row) (there : t.map.fileAt ptr = some file) :
    Held t ptr file := by
  have low := searchable.size.low
  exact ⟨there, by unfold dataOffset; omega⟩

def SearchEnds (cfg : Config) (tab : Tab) (slot : Slot) (rnd : Nat) (key : List UInt8) (refs : List (Fin 16))
    (tls : Tls) : Except Stop (Option Found) → Prop
  | .ok none => ∀ ref ∈ refs, ¬ tab.LeadsTo slot rnd key ref
  | .ok (some record) => refs.find? (tab.LeadsTo slot rnd key) = some record.ref ∧
      record = ⟨record.ref, (tab.row slot.row record.ref).pos, cfg.fixedKeyLen, cfg.fixedValLen⟩ ∧
      cfg.Checks tab record.pos ∧ tls.valAddr = some (record.pos + 1 + cfg.fixedKeyLen)
  | .error e => e ≠ .below ∧ ∃ ref ∈ refs, tab.LooksRight slot rnd ref ∧ ¬ cfg.Checks tab (tab.row slot.row ref).pos

/-- The checks on a record of fixed lengths, all but the last of which it passes. -/
theorem loadRecord_fixed {pos : Nat} (fixed : cfg.lenLen = 0) (searchable : Searchable cfg file slot.row)
    (there : t.map.fileAt (.tab slot.win tab) = some file) (low : dataOffset ≤ pos) (high : pos + 1 + cfg.fixedKeyLen ≤ file.size) :
    loadRecord direct cfg slot.win tab pos t = if cfg.Checks file.tab pos
      then ⟨.ok (cfg.fixedKeyLen, cfg.fixedValLen), t.at_ (some (pos + 1)) (some (pos + 1 + cfg.fixedKeyLen)), 0⟩
      else ⟨.error .internal, t, 0⟩ := by
  have held := searchable.held there
  have small := searchable.size.high
  have header := searchable.header
  have lens : recordLens direct cfg (.tab slot.win tab) pos t = ⟨.ok (cfg.fixedKeyLen, cfg.fixedValLen), t, 0⟩ := by
    rw [recordLens, if_pos fixed]
    rfl
  have first : (pos + 1 + cfg.lenLen + cfg.fixedKeyLen) % 2^32 ≤ file.tab.tabSize := Nat.le_trans (Nat.mod_le _ _) (by omega)
  have last : pos + 1 + cfg.lenLen + cfg.fixedKeyLen + cfg.lenLen + cfg.fixedValLen = pos + cfg.fixedLen := by
    unfold Config.fixedLen Config.recordLen
    omega
  have addr : (pos + 1 + cfg.lenLen) % 2^32 = pos + 1 := by
    rw [fixed]
    exact Nat.mod_eq_of_lt (by omega)
  have valAddr : (pos + 1 + cfg.lenLen + cfg.fixedKeyLen + cfg.lenLen) % 2^32 = pos + 1 + cfg.fixedKeyLen := by
    rw [fixed]
    exact Nat.mod_eq_of_lt (by omega)
  rw [loadRecord, bind_ok (tabAt_run held), bind_ok (check_true (show pos < file.tab.tabSize by omega) _ _),
    bind_ok (access_run held (.inr ⟨low, by omega⟩)), bind_ok lens]
  simp only [addr, valAddr]
  rw [bind_ok (check_true first _ _)]
  split
  · rename_i passes
    rw [Config.Checks, ← last] at passes
    rw [bind_ok (check_true passes _ _), bind_ok (modifyTls_run t _)]
    rfl
  · rename_i fails
    rw [Config.Checks, ← last] at fails
    exact bind_error (check_false fails _ _)

theorem searchRow_fixed (fixed : cfg.lenLen = 0) (searchable : Searchable cfg file slot.row) (refs : List (Fin 16))
    (there : t.map.fileAt (.tab slot.win tab) = some file) (keyed : t.shared.tls.hashKey = key)
    (keyLen : key.length = cfg.fixedKeyLen) : ∃ outcome t',
    searchRow direct cfg slot tab rnd refs t = ⟨outcome, t', 0⟩ ∧ Located t t' ∧
      SearchEnds cfg file.tab slot rnd key refs t'.shared.tls outcome := by
  induction refs generalizing t with
  | nil => exact ⟨_, t, rfl, Located.refl t, fun _ => nofun⟩
  | cons ref rest ih =>
    have held := searchable.held there
    -- where the ref does not lead to the key, the rest of the row is searched
    have skip {t1 : State Tables} (located : Located t t1) (not : ¬ file.tab.LeadsTo slot rnd key ref)
        (run : searchRow direct cfg slot tab rnd (ref :: rest) t = searchRow direct cfg slot tab rnd rest t1) :
        ∃ outcome t', searchRow direct cfg slot tab rnd (ref :: rest) t = ⟨outcome, t', 0⟩ ∧ Located t t' ∧
          SearchEnds cfg file.tab slot rnd key (ref :: rest) t'.shared.tls outcome := by
      rcases located.tls with ⟨_, _, tls⟩
      rcases ih (located.map ▸ there) (by rw [tls]; exact keyed) with ⟨outcome, t', rest_run, located', ends⟩
      refine ⟨outcome, t', run.trans rest_run, located.trans located', ?_⟩
      match outcome, ends with
      | .ok none, none_ => exact List.forall_mem_cons.mpr ⟨not, none_⟩
      | .ok (some record), ⟨found, same⟩ =>
        refine ⟨?_, same⟩
        rw [List.find?_cons, decide_eq_false not]
        exact found
      | .error e, ⟨other, bad, member, fails⟩ => exact ⟨other, bad, List.mem_cons_of_mem _ member, fails⟩
    by_cases right : file.tab.LooksRight slot rnd ref
    · rcases searchable.inside ref right.1 with ⟨low, high⟩
      have loaded := @loadRecord_fixed _ _ _ _ _ (file.tab.row slot.row ref).pos fixed searchable there low high
      have begin : searchRow direct cfg slot tab rnd (ref :: rest) t = _ :=
        (bind_ok (tabAt_run held)).trans (by rw [if_pos right])
      by_cases passes : cfg.Checks file.tab (file.tab.row slot.row ref).pos
      · rw [if_pos passes] at loaded
        have small := searchable.size.high
        have there1 : (t.at_ (some ((file.tab.row slot.row ref).pos + 1)) (some ((file.tab.row slot.row ref).pos + 1 +
          cfg.fixedKeyLen))).map.fileAt (.tab slot.win tab) = some file := there
        generalize next : t.at_ _ _ = t1 at loaded there1
        have located : Located t t1 := next ▸ Located.at_ t _ _
        have keyed1 : t1.shared.tls.hashKey = key := by
          rw [← next]
          exact keyed
        have whole : ((file.tab.row slot.row ref).pos + 1 + cfg.lenLen) % 2^32 = (file.tab.row slot.row ref).pos + 1 := by
          rw [fixed]
          exact Nat.mod_eq_of_lt (by omega)
        have read_ := @readMem_run _ _ _ ((file.tab.row slot.row ref).pos + 1) key.length (searchable.held there1)
          (.inr ⟨by omega, by omega⟩)
        have begin1 := begin.trans ((bind_ok loaded).trans (bind_ok (getTls_run t1)))
        rw [keyed1, if_neg (not_not.mpr keyLen.symm), whole, bind_ok read_] at begin1
        by_cases same : read file.tab.data ((file.tab.row slot.row ref).pos + 1) key.length = key
        · rw [if_neg (not_not.mpr same)] at begin1
          refine ⟨_, t1, begin1, located, ?_, rfl, passes, ?_⟩
          · rw [List.find?_cons, decide_eq_true ⟨right, same⟩]
          · rw [← next]
            rfl
        · rw [if_pos same, bind_ok (modifyWin_run t1 _ _)] at begin1
          have missed : Located t1 (t1.withWin slot.win fun w => { w with memcmpMisses := w.memcmpMisses + 1 }) :=
            Located.miss t1 _ fun _ => ⟨rfl, rfl, rfl⟩
          exact skip (located.trans missed) (fun leads => same leads.2) begin1
      · rw [if_neg passes] at loaded
        rw [bind_error loaded] at begin
        exact ⟨_, t, begin, Located.refl t, by decide, ref, List.mem_cons_self, right, passes⟩
    · exact skip (Located.refl t) (fun leads => right leads.1) ((bind_ok (tabAt_run held)).trans (by rw [if_neg right]))

structure AfterSearch (t t' : State Tables) : Prop where
  frame : Frame (fun _ => True) t t'
  hash : t'.shared.tls.hash = t.shared.tls.hash
  hashKey : t'.shared.tls.hashKey = t.shared.tls.hashKey
  ttl : t'.shared.tls.ttl = t.shared.tls.ttl
  valLong : t'.shared.tls.valLong = t.shared.tls.valLong

theorem AfterSearch.trans {t' t'' : State Tables} (first : AfterSearch t t') (second : AfterSearch t' t'') : AfterSearch t t'' :=
  ⟨first.frame.trans second.frame, second.hash.trans first.hash, second.hashKey.trans first.hashKey,
    second.ttl.trans first.ttl, second.valLong.trans first.valLong⟩

theorem Located.after {t' : State Tables} (located : Located t t') : AfterSearch t t' := by
  rcases located.tls with ⟨_, _, tls⟩
  refine ⟨located.frame.mono fun _ => False.elim, ?_, ?_, ?_, ?_⟩ <;> rw [tls]

theorem AfterSearch.named {t' : State Tables} {uid : Nat} (tls : t'.shared.tls = { t.shared.tls with uid := uid })
    (frame : Frame (fun _ => False) t t') : AfterSearch t t' := by
  refine ⟨frame.mono fun _ => False.elim, ?_, ?_, ?_, ?_⟩ <;> rw [tls]

theorem findKey_fixed (fixed : cfg.lenLen = 0) (keyLen : t.shared.tls.hashKey.length = cfg.fixedKeyLen)
    (there : t.map.fileAt (.tab slot.win tab) = some file) (searchable : Searchable cfg file slot.row) : ∃ outcome t',
    findKey direct cfg slot tab t = ⟨outcome, t', 0⟩ ∧ t'.map = t.map ∧ AfterSearch t t' ∧
      SearchEnds cfg file.tab slot t.shared.tls.hash.rnd t.shared.tls.hashKey (List.finRange 16) t'.shared.tls outcome := by
  rcases modifyTls_step t fun tls => { tls with uid := uidNone } with ⟨t1, start, map1, tls1, frame1⟩
  have after1 := AfterSearch.named tls1 frame1
  unfold findKey
  generalize List.finRange 16 = refs
  rcases @searchRow_fixed _ t1 tab _ slot t.shared.tls.hash.rnd _ fixed searchable refs (map1 ▸ there) after1.hashKey keyLen with
    ⟨outcome, t2, run, located, ends⟩
  have after2 := after1.trans located.after
  rw [← after1.hash] at run
  cases outcome with
  | error e => exact ⟨.error e, t2, (bind_ok start).trans ((bind_ok (getTls_run t1)).trans (bind_error run)),
      located.map.trans map1, after2, ends⟩
  | ok found =>
    have begin {rest : Option Found → Operation Tables (Option Found)} :
        (modifyTls (fun tls => { tls with uid := uidNone }) >>= fun _ => getTls >>= fun tls =>
          searchRow direct cfg slot tab tls.hash.rnd refs >>= rest) t = rest found t2 :=
      (bind_ok start).trans ((bind_ok (getTls_run t1)).trans (bind_ok run))
    cases found with
    | none => exact ⟨.ok none, t2, begin, located.map.trans map1, after2, ends⟩
    | some record =>
      rcases modifyTls_step t2 fun tls => { tls with uid := ({ slot with ref := record.ref } : Slot).uid } with
        ⟨t3, named, map3, tls3, frame3⟩
      have valAddr3 : t3.shared.tls.valAddr = t2.shared.tls.valAddr := by rw [tls3]
      refine ⟨.ok (some record), t3, begin.trans (bind_ok named), map3.trans (located.map.trans map1),
        after2.trans (AfterSearch.named tls3 frame3), ?_⟩
      unfold SearchEnds at ends ⊢
      rw [valAddr3]
      exact ends

/-- What `shf_find_key_internal` does after its search. -/
def afterSearch (cfg : Config) (slot : Slot) (tab : Nat) (what : FindKeyAnd) : Except Stop (Option Found) → Operation Tables Nat
  | .error e => stop e
  | .ok none => do
    modifyTls fun tls => { tls with valAddr := none }
    pure retKeyNone
  | .ok (some record) => actOn direct cfg slot tab record what

theorem findKeyInternal_fixed (fixed : cfg.lenLen = 0) (keyLen : t.shared.tls.hashKey.length = cfg.fixedKeyLen)
    (there : t.map.fileAt (.tab (t.shared.tls.hash.slot 0).win t.home) = some file)
    (searchable : Searchable cfg (Tables.opened file) (t.shared.tls.hash.slot 0).row) : ∃ outcome t',
    t'.map = (t.setFile (.tab (t.shared.tls.hash.slot 0).win t.home) (Tables.opened file)).map ∧ AfterSearch t t' ∧
    SearchEnds cfg (Tables.opened file).tab (t.shared.tls.hash.slot 0) t.shared.tls.hash.rnd t.shared.tls.hashKey
      (List.finRange 16) t'.shared.tls outcome ∧
    ∀ what, findKeyInternal direct cfg uidNone what t = afterSearch cfg (t.shared.tls.hash.slot 0) t.home what outcome t' := by
  have mapped := getTabMmap_ends there
  have moves1 := Moves.set t (.tab (t.shared.tls.hash.slot 0).win t.home) (Tables.opened file)
  generalize mapped_eq : t.setFile (.tab (t.shared.tls.hash.slot 0).win t.home) (Tables.opened file) = t1 at mapped moves1 ⊢
  have tls1 := moves1.tls
  have after1 : AfterSearch t t1 := by refine ⟨moves1.frame.mono fun _ _ => trivial, ?_, ?_, ?_, ?_⟩ <;> rw [tls1]
  rcases @findKey_fixed _ t1 t.home _ (t.shared.tls.hash.slot 0) fixed (tls1 ▸ keyLen) moves1.there searchable with
    ⟨outcome, t2, run, map2, after2, ends⟩
  rw [tls1] at ends
  refine ⟨outcome, t2, map2, after1.trans after2, ends, fun what => ?_⟩
  rw [findKeyInternal, bind_ok (getTls_run t), bind_ok (getWin_run t _), if_pos rfl]
  refine (bind_ok mapped).trans ?_
  rw [findKeyOrUid, if_pos rfl]
  cases outcome with
  | error e => exact bind_error run
  | ok found =>
    refine (bind_ok run).trans ?_
    cases found with
    | none => rfl
    | some record => rfl

end Search

end SharedHashFile.Store
