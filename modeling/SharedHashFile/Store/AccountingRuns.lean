import SharedHashFile.Store.Accounting

namespace SharedHashFile.Store

open ByteMemory Program LinkedList

def State.Counted (cfg : Config) (t : State Tables) : Prop :=
  ∀ ptr file, t.map.fileAt ptr = some file → ∃ c free, Store.Counted cfg (Tables.opened file) c free

theorem allRefs_nodup : allRefs.Nodup := by
  unfold allRefs
  rw [List.nodup_flatMap]
  constructor
  · intro row _
    exact (List.nodup_finRange 16).map fun _ _ same => (Prod.mk.inj same).2
  · refine (List.nodup_finRange 512).imp fun differ => ?_
    rw [Function.onFun, List.disjoint_left]
    intro place here there
    rcases List.mem_map.mp here with ⟨_, _, rfl⟩
    rcases List.mem_map.mp there with ⟨_, _, same⟩
    exact differ (Prod.mk.inj same).1.symm

attribute [local irreducible] allRefs

section Tables

variable {cfg : Config} {t t' : State Tables} {ptr : Ptr} {file : File} {c : Contents} {free : List Nat} {limit : Nat}

theorem State.Counted.congr (counted : t.Counted cfg) (map : t'.map = t.map) : t'.Counted cfg := by
  unfold State.Counted
  rw [map]
  exact counted

theorem State.Counted.change (counted : t.Counted cfg) (each : ∀ ptr, t'.map.fileAt ptr = t.map.fileAt ptr ∨
    ∃ file c free, t'.map.fileAt ptr = some file ∧ Store.Counted cfg file c free) : t'.Counted cfg := by
  intro ptr file there
  rcases each ptr with same | ⟨file', c, free, there', here⟩
  · rw [same] at there
    exact counted ptr file there
  · rw [there'] at there
    cases there
    rw [here.ok.opened]
    exact ⟨c, free, here⟩

theorem State.Counted.moves (counted : t.Counted cfg) (moves : Moves ptr file t t') (here : Store.Counted cfg file c free) :
    t'.Counted cfg := by
  apply counted.change
  intro other
  by_cases same : other = ptr
  · rw [same]
    exact .inr ⟨file, c, free, moves.there, here⟩
  · exact .inl (moves.frame.files other same)

theorem ends_modifyTls {α : Type} {f : Tls → Tls} {g : Unit → Operation Tables α} {Q : α → State Tables → Prop}
    {E : Stop → State Tables → Prop} (next : ∀ t', t'.map = t.map → Ends limit (g ()) Q E t') :
    Ends limit (modifyTls f >>= g) Q E t := by
  rcases modifyTls_step t f with ⟨t', run, map, _⟩
  exact ends_after run (next t' map)

theorem ends_tabAt {α : Type} {f : Tab → Operation Tables α} {Q : α → State Tables → Prop}
    (next : ∀ file, t.map.fileAt ptr = some file → Ends limit (f file.tab) Q (fun _ _ => True) t) :
    Ends limit (tabAt direct ptr >>= f) Q (fun _ _ => True) t := by
  cases there : t.map.fileAt ptr with
  | none =>
    have look : direct.look t.map ptr = none := by
      change (t.map.fileAt ptr).map _ = none
      rw [there]
      rfl
    have run : viewAt direct ptr t = ⟨.error .wild, t, 0⟩ := by
      simp only [viewAt, onMap, zoom, look]
    have stopped : tabAt direct ptr t = ⟨.error .wild, t, 0⟩ := bind_error run
    intro _
    rw [bind_error stopped]
    trivial
  | some file =>
    by_cases size : dataOffset ≤ file.size
    · exact ends_after (tabAt_run ⟨there, size⟩) (next file there)
    · have look : direct.look t.map ptr = some ⟨file.tab, file.size⟩ := by
        change (t.map.fileAt ptr).map _ = _
        rw [there]
        rfl
      have run : viewAt direct ptr t = ⟨.error .wild, t, 0⟩ := by
        simp only [viewAt, onMap, zoom, look, if_neg size]
      have stopped : tabAt direct ptr t = ⟨.error .wild, t, 0⟩ := bind_error run
      intro _
      rw [bind_error stopped]
      trivial

end Tables

section Copies

variable {cfg : Config} {t0 t t' : State Tables} {win : Fin 256} {tab : Nat} {from_ : Ptr} {row : Fin 512} {ref : Fin 16}
  {todo todo' : Set (Fin 512 × Fin 16)}

/-- Two tables, one of which takes records from the other, with their counters; nothing is at the refs still to do. -/
structure Counting (cfg : Config) (into from_ : Ptr) (t0 : State Tables) (todo : Set (Fin 512 × Fin 16)) (t : State Tables) :
    Prop where
  counted : t.Counted cfg
  others : ∀ ptr, ptr ≠ into → ptr ≠ from_ → t.map.fileAt ptr = t0.map.fileAt ptr
  new : ∃ file c, t.map.fileAt into = some file ∧ Packed cfg file c ∧ ∀ row ref, (row, ref) ∈ todo → c row ref = none
  old : ∃ file c free, t.map.fileAt from_ = some file ∧ Counted cfg file c free

theorem Counting.mono {into : Ptr} (counting : Counting cfg into from_ t0 todo t) (fewer : todo' ⊆ todo) :
    Counting cfg into from_ t0 todo' t := by
  rcases counting with ⟨counted, others, ⟨file, c, there, packed, empty⟩, old⟩
  exact ⟨counted, others, ⟨file, c, there, packed, fun row ref member => empty row ref (fewer member)⟩, old⟩

theorem Counting.withWin {into : Ptr} (counting : Counting cfg into from_ t0 todo t) (f : Win → Win) :
    Counting cfg into from_ t0 todo (t.withWin win f) :=
  ⟨counting.counted.congr (State.withWin_map t win f), counting.others, counting.new, counting.old⟩

/-- A copied record is counted in the new table and no longer in the old one. -/
theorem tabRefCopy_counts (linkable : cfg.Linkable) (away : from_ ≠ .tab win tab)
    (counting : Counting cfg (.tab win tab) from_ t0 todo t) (member : (row, ref) ∈ todo) {file : File}
    (there : t.map.fileAt from_ = some file) (occupied : (file.tab.row row ref).pos ≠ 0) :
    Ends sizeLimit (tabRefCopy direct cfg win tab from_ row ref)
      (fun _ => Counting cfg (.tab win tab) from_ t0 (todo \ {(row, ref)})) (fun _ _ => True) t := by
  rcases counting.new with ⟨fNew, cNew, thereNew, packedNew, empty⟩
  have countedNew := packedNew.counted
  rcases counting.old with ⟨fOld, cOld, freeOld, thereOld, countedOld⟩
  rw [there] at thereOld
  cases thereOld
  rcases Option.ne_none_iff_exists'.mp (mt countedOld.ok.pos_zero_iff.mpr occupied) with ⟨entry, some_⟩
  rcases countedOld.ok.live some_ with ⟨sameTab, sameRnd, stored⟩
  have accepts : cfg.Accepts entry.key (.copy entry.val) := ⟨stored.record.fits, fun _ => ⟨_, rfl⟩⟩
  refine ends_after (tabAt_run (countedNew.ok.held thereNew)) (ends_after (tabAt_run (countedOld.ok.held there)) ?_)
  refine ends_after (recordLens_run there countedOld.ok stored) (ends_after (readKey_run there countedOld.ok stored) ?_)
  refine ends_after (readVal_run there countedOld.ok stored) ?_
  refine ends_step (tabAppend_records thereNew countedNew.ok accepts) (fun _ _ _ => trivial) ?_
  rintro pos t1 ⟨fNew1, freeNew1, moves, okNew1, pending, takes, _, dataUsed⟩
  have thereOld1 : t1.map.fileAt from_ = some file := (moves.frame.files _ away).trans there
  rcases tabRefMarkAsDeleted_gives thereOld1 countedOld.ok linkable some_ with ⟨fOld2, freeOld2, run, okOld2, gives⟩
  refine ends_after run ?_
  have thereNew2 : (t1.setFile from_ fOld2).map.fileAt (.tab win tab) = some fNew1 :=
    (Tables.fileAt_setFile_of_ne _ (Ne.symm away)).trans moves.there
  have countedOld2 := countedOld.erasing some_ okOld2 gives
  have copied : ({ file.tab.row row ref with pos := pos } : Ref) = ⟨entry.tab, entry.rnd, pos⟩ := by
    rw [← sameTab, ← sameRnd]
  obtain rfl : freeNew1 = [] := by
    cases takes with
    | append _ _ _ _ _ => rfl
  have packedNew2 := @Packed.placing _ _ _ _ _ row ref _ _ _ entry.tab entry.rnd ((fNew1.tab.tabRefsUsed + 1) % 2^32)
    packedNew okNew1 pending takes dataUsed (empty row ref member)
  rw [← copied] at packedNew2
  have countedNew3 := packedNew2.counted
  have others {file' : File} (other : Ptr) (isNew : other ≠ .tab win tab) (isOld : other ≠ from_) :
      ((t1.setFile from_ fOld2).setFile (.tab win tab) file').map.fileAt other = t.map.fileAt other :=
    calc _ = (t1.setFile from_ fOld2).map.fileAt other := Tables.fileAt_setFile_of_ne _ isNew
      _ = t1.map.fileAt other := Tables.fileAt_setFile_of_ne _ isOld
      _ = t.map.fileAt other := moves.frame.files other isNew
  refine ends_run (modifyTab_run (okNew1.held thereNew2) _) fun _ => ⟨?_, fun other isNew isOld =>
    (others other isNew isOld).trans (counting.others other isNew isOld), ⟨_, _, State.fileAt_setFile _ _ _, packedNew2,
    fun row' ref' member' => ?_⟩, fOld2, _, freeOld2,
    (Tables.fileAt_setFile_of_ne _ away).trans (State.fileAt_setFile _ _ _), countedOld2⟩
  · apply counting.counted.change
    intro other
    by_cases isNew : other = .tab win tab
    · rw [isNew]
      exact .inr ⟨_, _, _, State.fileAt_setFile _ _ _, countedNew3⟩
    · by_cases isOld : other = from_
      · rw [isOld]
        exact .inr ⟨_, _, _, (Tables.fileAt_setFile_of_ne _ away).trans (State.fileAt_setFile _ _ _), countedOld2⟩
      · exact .inl (others other isNew isOld)
  · rcases member' with ⟨member', other⟩
    rw [Contents.set_apply, if_neg fun here => other (Prod.ext here.1 here.2)]
    exact empty row' ref' member'

/-- A loop which comes to every ref once. -/
theorem countingLoop_ends {into : Ptr} {f : Fin 512 × Fin 16 → Operation Tables Unit}
    (body : ∀ row ref todo t, (row, ref) ∈ todo → Counting cfg into from_ t0 todo t → Ends sizeLimit (f (row, ref))
      (fun _ => Counting cfg into from_ t0 (todo \ {(row, ref)})) (fun _ _ => True) t)
    (start : Counting cfg into from_ t0 Set.univ t) :
    Ends sizeLimit (allRefs.forM f) (fun _ => Counting cfg into from_ t0 ∅) (fun _ _ => True) t := by
  refine Ends.mono (E := fun _ _ => True) (ends_forM (fun done => Counting cfg into from_ t0 {place | place ∉ done}) ?_ ?_) ?_
    fun _ _ _ => trivial
  · rintro done ⟨row, ref⟩ rest t whole counting
    have fresh : (row, ref) ∉ done := by
      have distinct := allRefs_nodup
      rw [← whole, List.nodup_append] at distinct
      exact fun member => distinct.2.2 _ member _ List.mem_cons_self rfl
    refine (body row ref _ t fresh counting).mono (fun _ _ counting => counting.mono ?_) fun _ _ _ => trivial
    intro place outside
    rw [Set.mem_ofPred_eq, List.mem_append, List.mem_singleton, not_or] at outside
    exact ⟨outside.1, outside.2⟩
  · refine start.mono fun _ _ => trivial
  · exact fun _ _ counting => counting.mono (Set.empty_subset _)

theorem shrinkLoop_counts (linkable : cfg.Linkable) (start : Counting cfg (.tab win tab) .old t0 Set.univ t) :
    Ends sizeLimit (allRefs.forM fun (row, ref) => do
      let tOld ← tabAt direct .old
      when ((tOld.row row ref).pos ≠ 0) (tabRefCopy direct cfg win tab .old row ref))
      (fun _ => Counting cfg (.tab win tab) .old t0 ∅) (fun _ _ => True) t := by
  refine countingLoop_ends (fun row ref todo t member counting => ?_) start
  refine ends_tabAt fun file there => ends_when (fun occupied => ?_) fun _ => counting.mono Set.sdiff_subset
  exact tabRefCopy_counts linkable nofun counting member there occupied

theorem partLoop_counts {tabOld tabNew : Nat} (linkable : cfg.Linkable) (differ : tabOld ≠ tabNew)
    (start : Counting cfg (.tab win tabNew) (.tab win tabOld) t0 Set.univ t) :
    Ends sizeLimit (allRefs.forM fun (row, ref) => partRef direct cfg win tabOld tabNew row ref)
      (fun _ => Counting cfg (.tab win tabNew) (.tab win tabOld) t0 ∅) (fun _ _ => True) t := by
  have away : Ptr.tab win tabOld ≠ .tab win tabNew := fun same => differ (Ptr.tab.inj same).2
  refine countingLoop_ends (fun row ref todo t member counting => ?_) start
  refine ends_tabAt fun file there => ends_when (fun occupied => ?_) fun _ => counting.mono Set.sdiff_subset
  refine ends_after (getWin_run t win) (ends_bind (ends_check (fun _ => ?_) fun _ => trivial))
  refine ends_bind (ends_check (fun _ => ?_) fun _ => trivial)
  refine ends_ite (fun _ => ?_) fun _ => ?_
  · exact ends_after (modifyWin_run t win _) (tabRefCopy_counts linkable away (counting.withWin _) member there occupied)
  · exact ends_run (modifyWin_run t win _) fun _ => (counting.withWin _).mono Set.sdiff_subset

end Copies

section Shrink

variable {cfg : Config} {t : State Tables} {win : Fin 256} {tab : Nat} {file : File} {c : Contents} {free : List Nat}

def Cleared (cfg : Config) (ptr : Ptr) (t : State Tables) : Prop := ∃ file c, t.map.fileAt ptr = some file ∧ Packed cfg file c

theorem tabShrink_counted (linkable : cfg.Linkable) (counted : t.Counted cfg) (there : t.map.fileAt (.tab win tab) = some file)
    (here : Counted cfg file c free) : Ends sizeLimit (tabShrink direct cfg win tab)
      (fun _ t' => t'.Counted cfg ∧ Cleared cfg (.tab win tab) t' ∧
        ∀ win' tab', Ptr.tab win' tab' ≠ .tab win tab → t'.map.fileAt (.tab win' tab') = t.map.fileAt (.tab win' tab'))
      (fun _ _ => True) t := by
  refine ends_after (modifyWin_run t win _) ?_
  have there1 : (t.withWin win fun w => { w with tabsShrunk := w.tabsShrunk + 1 }).map.fileAt (.tab win tab) =
      some file := there
  have counted1 : (t.withWin win fun w => { w with tabsShrunk := w.tabsShrunk + 1 }).Counted cfg := counted.congr rfl
  have map1 : (t.withWin win fun w => { w with tabsShrunk := w.tabsShrunk + 1 }).map = t.map := rfl
  generalize t.withWin win (fun w => { w with tabsShrunk := w.tabsShrunk + 1 }) = t1 at *
  have mapped := getTabMmap_ends there1
  rw [here.ok.opened, (here.ok.held there1).setFile_self] at mapped
  refine ends_after mapped (ends_after (replace_ends there1) ?_)
  have away : Ptr.tab win tab ≠ .old := nofun
  have new2 : ((t1.setFile (.tab win tab) Tables.newTable).setFile .old file).map.fileAt (.tab win tab) =
      some Tables.newTable := (Tables.fileAt_setFile_of_ne _ away).trans (State.fileAt_setFile _ _ _)
  have start : Counting cfg (.tab win tab) .old t Set.univ ((t1.setFile (.tab win tab) Tables.newTable).setFile .old file) := by
    refine ⟨?_, fun ptr isNew isOld => ?_, ⟨_, _, new2, newTable_packed, fun _ _ _ => rfl⟩, file, c, free, State.fileAt_setFile _ _ _, here⟩
    · exact (counted1.moves (Moves.set _ _ _) newTable_counted).moves (Moves.set _ _ _) here
    · rw [← map1]
      exact (Tables.fileAt_setFile_of_ne _ isOld).trans (Tables.fileAt_setFile_of_ne _ isNew)
  refine ends_step (shrinkLoop_counts linkable start) (fun _ _ _ => trivial) ?_
  rintro _ t3 ⟨counted3, others, ⟨fNew, cNew, thereNew, packedNew, _⟩, fOld, _, _, thereOld, _⟩
  refine ends_run (release_run thereOld) fun _ => ⟨fun ptr file there => ?_, ⟨fNew, cNew, thereNew, packedNew⟩,
    fun win' tab' away => others (.tab win' tab') away nofun⟩
  cases ptr with
  | old => cases there
  | tab win' tab' => exact counted3 (.tab win' tab') file there

theorem tabPart_counted {tabOld used : Nat} (linkable : cfg.Linkable) (counted : t.Counted cfg)
    (there : t.map.fileAt (.tab win tabOld) = some file) (here : Counted cfg file c free)
    (used_eq : (t.shared.wins win).tabsUsed = used) (below : ∀ i, (t.shared.wins win).tabs i < used) (oldBelow : tabOld < used) (used_le : used ≤ 2048)
    (absent : t.map.table win used = none) : Ends sizeLimit (tabPart direct cfg win tabOld)
      (fun _ t' => t'.Counted cfg ∧ Cleared cfg (.tab win tabOld) t' ∧ Cleared cfg (.tab win used) t') (fun _ _ => True) t := by
  refine ends_after (getWin_run t win) ?_
  rw [used_eq, Nat.mod_eq_of_lt (show used < 2^16 by omega)]
  refine ends_after (create_run absent) ?_
  have mapped := getTabMmap_ends (t.fileAt_setFile (.tab win used) (Tables.resized none (modPage dataOffset)))
  rw [State.setFile_setFile, ← Tables.newTable] at mapped
  refine ends_after mapped (ends_after (modifyWin_run _ win _) ?_)
  have differ : Ptr.tab win tabOld ≠ .tab win used := fun same => Nat.ne_of_lt oldBelow (Ptr.tab.inj same).2
  have start {t1 : State Tables} (map : t1.map = (t.setFile (.tab win used) Tables.newTable).map) :
      Counting cfg (.tab win used) (.tab win tabOld) t Set.univ t1 := by
    refine ⟨(counted.moves (Moves.set _ _ _) newTable_counted).congr map, fun ptr isNew _ => ?_,
      ⟨_, _, ?_, newTable_packed, fun _ _ _ => rfl⟩, file, c, free, ?_, here⟩
    · rw [map]
      exact Tables.fileAt_setFile_of_ne _ isNew
    · rw [map]
      exact State.fileAt_setFile _ _ _
    · rw [map]
      exact (Tables.fileAt_setFile_of_ne _ differ).trans there
  generalize begin : (t.setFile (.tab win used) Tables.newTable).withWin win _ = t1
  have below1 (i : Fin 2048) : (t1.shared.wins win).tabs i < used := by
    rw [← begin, State.withWin_wins, if_pos rfl]
    exact below i
  have start1 : Counting cfg (.tab win used) (.tab win tabOld) t Set.univ t1 := by
    apply start
    rw [← begin, State.withWin_map]
  clear begin
  refine ends_bind (ends_check (fun room => ?_) fun _ => trivial)
  have run := @partRedirects_all tabOld used _ t1 win below1
  generalize List.finRange 2048 = items at run
  refine ends_after run (ends_step (partLoop_counts linkable (Nat.ne_of_lt oldBelow) (start1.withWin _))
    (fun _ _ _ => trivial) ?_)
  rintro _ t3 ⟨counted3, _, ⟨fileNew, cNew, thereNew, packedNew, _⟩, fileOld, cOld, freeOld, thereOld, countedOld⟩
  refine (tabShrink_counted linkable counted3 thereOld countedOld).mono ?_ fun _ _ _ => trivial
  rintro _ t4 ⟨counted4, cleared, others⟩
  exact ⟨counted4, cleared, fileNew, cNew, (others win used (Ne.symm differ)).trans thereNew, packedNew⟩

end Shrink

section Put

variable {cfg : Config} {t : State Tables} {b : Bindings} {val : PutVal} {file : File} {c c' : Contents}
  {free free' : List Nat}

theorem TableOk.contents_eq (ok : TableOk cfg file c free) (other : TableOk cfg file c' free') : c = c' := by
  funext row ref
  cases there : c row ref with
  | none => exact (other.pos_zero_iff.mp (ok.pos_zero_iff.mpr there)).symm
  | some e =>
    rcases Option.ne_none_iff_exists'.mp (mt other.pos_zero_iff.mpr (ok.occupied there)) with ⟨e', there'⟩
    rcases ok.live there with ⟨tab, rnd, stored⟩
    rcases other.live there' with ⟨tab', rnd', stored'⟩
    have same := stored.record.item.symm.trans stored'.record.item
    rw [there', Option.some.injEq]
    rcases e with ⟨_, _, _, _⟩
    rcases e' with ⟨_, _, _, _⟩
    simp only [Item.mk.injEq] at same
    simp only [Entry.mk.injEq]
    exact ⟨tab.symm.trans tab', rnd.symm.trans rnd', same.1, same.2⟩

theorem tabShrink_keeps_bytes (linkable : cfg.Linkable) (counted : t.Counted cfg) (none_ : t.map.old = none) {win : Fin 256}
    {tab : Nat} (there : t.map.fileAt (.tab win tab) = some file) (here : Counted cfg file c free) :
    Ends sizeLimit (tabShrink direct cfg win tab) (fun _ t' => t'.Counted cfg ∧ ∃ file', Moves (.tab win tab) file' t t' ∧
      file'.tab.tabUsed = dataOffset + c.bytes cfg) (fun _ _ => True) t := by
  have both := (tabShrink_ends linkable there here.ok none_).and (tabShrink_counted linkable counted there here)
  refine both.mono ?_ fun _ _ _ => trivial
  rintro _ t' ⟨⟨file', free', moves, ok⟩, counted', ⟨fileNew, cNew, thereNew, packedNew⟩, _⟩
  rw [moves.there] at thereNew
  cases thereNew
  refine ⟨counted', file', moves, ?_⟩
  rw [packedNew.used, ok.contents_eq packedNew.counted.ok]

theorem Contents.bytes_on (places : Set (Fin 512 × Fin 16)) : (c.on places).bytes cfg ≤ c.bytes cfg := by
  apply Finset.sum_le_sum
  intro row _
  apply Finset.sum_le_sum
  intro ref _
  unfold Contents.on
  split
  · exact Nat.le_refl _
  · exact Nat.zero_le _

def Raises (t t' : State Tables) : Prop :=
  ∀ ptr before after, t.map.fileAt ptr = some before → t'.map.fileAt ptr = some after → before.tab.tabSize ≠ 0 →
    before.tab.tabUsed < after.tab.tabUsed → before.tab.tabDataFreePos = 0

theorem Raises.congr {t' t'' : State Tables} (raises : Raises t t') (map : t''.map = t'.map) : Raises t t'' := by
  unfold Raises
  rw [map]
  exact raises

theorem raises_of {t' : State Tables} {ptr new : Ptr} {after : File} (there : t.map.fileAt ptr = some file)
    (there' : t'.map.fileAt ptr = some after) (absent : new ≠ ptr → t.map.fileAt new = none)
    (others : ∀ other, other ≠ ptr → other ≠ new → t'.map.fileAt other = t.map.fileAt other)
    (low : file.tab.tabDataFreePos ≠ 0 → after.tab.tabUsed ≤ (Tables.opened file).tab.tabUsed) : Raises t t' := by
  intro other first last there1 there2 opened more
  by_cases same : other = ptr
  · rw [same] at there1 there2
    rw [there] at there1
    rw [there'] at there2
    cases there1
    cases there2
    by_contra some_
    have low := low some_
    unfold Tables.opened at low
    rw [if_neg opened] at low
    exact Nat.not_lt.mpr low more
  · by_cases isNew : other = new
    · rw [isNew, absent fun eq => same (isNew.trans eq)] at there1
      cases there1
    · rw [others other same isNew, there1] at there2
      cases there2
      exact absurd more (Nat.lt_irrefl _)

theorem putSection_counted (linkable : cfg.Linkable) (ok : StoreOk cfg t b) (counted : t.Counted cfg)
    (fits : cfg.Fits t.shared.tls.hashKey val.bytes) : Ends sizeLimit (putSection direct cfg val)
      (fun _ t' => t'.Counted cfg ∧ Raises t t') (fun _ _ => True) t := by
  refine ends_after (getTls_run t) (ends_after (getWin_run t _) ?_)
  have home : (t.shared.wins (t.shared.tls.hash.slot 0).win).tabs (t.shared.tls.hash.slot 0).tab = t.home := rfl
  have homeUsed := ok.tabs_lt (t.shared.tls.hash.slot 0).win (t.shared.tls.hash.slot 0).tab
  rw [home] at homeUsed ⊢
  rcases ok.tables _ _ homeUsed with ⟨before, c0, free0, there, tableOk0, shows_⟩
  have there : t.map.fileAt (.tab (t.shared.tls.hash.slot 0).win t.home) = some before := there
  rcases counted _ _ there with ⟨c, free, here⟩
  rw [tableOk0.contents_eq here.ok] at shows_
  have moves1 := Moves.set t (.tab (t.shared.tls.hash.slot 0).win t.home) (Tables.opened before)
  have counted1 := counted.moves moves1 here
  refine ends_after (getTabMmap_ends there) (ends_after (tabAt_run (here.ok.held moves1.there)) ?_)
  have none1 : (t.setFile (.tab (t.shared.tls.hash.slot 0).win t.home) (Tables.opened before)).map.old = none := ok.old
  generalize t.setFile (.tab (t.shared.tls.hash.slot 0).win t.home) (Tables.opened before) = t1 at moves1 counted1 none1 ⊢
  have listed : before.tab.tabDataFreePos ≠ 0 → free ≠ [] := by
    rintro listed rfl
    have first := here.ok.chain.first_eq
    unfold Tables.opened at first
    split at first <;> exact listed first
  have used0 := here.used
  have dataUsed0 := here.dataUsed
  cases found : firstFree ((Tables.opened before).tab.row (t.shared.tls.hash.slot 0).row) with
  | some ref =>
    have none_ := here.ok.pos_zero_iff.mp (firstFree_some found)
    refine ends_step (tabAppend_leaves moves1.there here.ok fits) (fun _ _ _ => trivial) ?_
    rintro pos t2 ⟨bytes, leaves, file2, free2, moves2, ok2, pending, takes, _, dataUsed⟩
    rw [← leaves.1] at dataUsed
    refine ends_after (modifyTab_run (ok2.held moves2.there) _) ?_
    have placed := @Counted.placing _ _ _ _ _ _ (t.shared.tls.hash.slot 0).row ref _ _ _ (t.shared.tls.hash.slot 0).tab
      t.shared.tls.hash.rnd here ok2 pending takes dataUsed none_
    have moves3 := moves2.trans (Moves.set t2 _ ⟨file2.size, file2.tab.setRef (t.shared.tls.hash.slot 0).row ref
      ⟨(t.shared.tls.hash.slot 0).tab, t.shared.tls.hash.rnd, pos⟩⟩)
    have none3 := (moves3.frame.files .old nofun).trans none1
    have counted3 := counted1.moves moves3 placed
    have used3 : before.tab.tabDataFreePos ≠ 0 → file2.tab.tabUsed ≤ (Tables.opened before).tab.tabUsed := by
      intro some_
      cases takes with
      | append _ spent _ _ _ =>
        cases free with
        | nil => exact absurd rfl (listed some_)
        | cons p free => exact absurd (spent here.ok.slotted.1) (List.cons_ne_nil p free)
      | reuse _ used _ => exact Nat.le_of_eq used
    refine ends_after (tabAt_run (placed.ok.held moves3.there)) ?_
    generalize t2.setFile _ _ = t3 at moves3 none3 counted3
    have raises {t' : State Tables} {file' : File} (moves : Moves (.tab (t.shared.tls.hash.slot 0).win t.home) file' t1 t')
        (low : before.tab.tabDataFreePos ≠ 0 → file'.tab.tabUsed ≤ (Tables.opened before).tab.tabUsed) : Raises t t' := by
      refine raises_of there moves.there (fun differ => absurd rfl differ) (fun other away _ => ?_) low
      exact (moves.frame.files other away).trans (moves1.frame.files other away)
    have shrunk : Ends sizeLimit (tabShrink direct cfg (t.shared.tls.hash.slot 0).win t.home) _ _ t3 :=
      tabShrink_keeps_bytes linkable counted3 none3 moves3.there placed
    refine @ends_step _ _ _ _ _ (fun _ => _) _ _ _ _ (fun _ t4 => t4.Counted cfg ∧ Raises t t4) (fun _ _ => True)
      (ends_when (fun _ => shrunk.mono ?_ fun _ _ _ => trivial) fun _ => ⟨counted3, raises moves3 used3⟩)
      (fun _ _ _ => trivial) ?_
    · rintro _ t4 ⟨counted4, file4, moves4, used4⟩
      refine ⟨counted4, raises (moves3.trans moves4) fun some_ => ?_⟩
      have after := used3 some_
      have dataUsed' := placed.dataUsed
      have used' := placed.used
      change file2.tab.tabDataUsed = _ at dataUsed'
      change file2.tab.tabUsed = _ + file2.tab.tabDataUsed + _ at used'
      omega
    · rintro _ t4 ⟨counted4, raises4⟩
      exact ends_modifyTls fun t5 map5 => ends_pure ⟨counted4.congr map5, raises4.congr map5⟩
  | none =>
    have tabs1 := moves1.frame.tabs (t.shared.tls.hash.slot 0).win
    have absent : t.map.fileAt (.tab (t.shared.tls.hash.slot 0).win (t.shared.wins (t.shared.tls.hash.slot 0).win).tabsUsed) =
        none := ok.absent _ _ (Nat.le_refl _)
    have away : Ptr.tab (t.shared.tls.hash.slot 0).win (t.shared.wins (t.shared.tls.hash.slot 0).win).tabsUsed ≠
        .tab (t.shared.tls.hash.slot 0).win t.home := fun same => Nat.ne_of_gt homeUsed (Ptr.tab.inj same).2
    have absent1 := (moves1.frame.files _ away).trans absent
    have parting := tabPart_ends linkable moves1.there here.ok (fun there => ((shows_ _ _ _).mp there).1) tabs1
      (moves1.frame.used _) (ok.tabs_lt _) homeUsed (ok.used_le _) absent1 none1
    have counting := tabPart_counted linkable counted1 moves1.there here (moves1.frame.used _)
      (fun i => by rw [tabs1]; exact ok.tabs_lt _ i) homeUsed (ok.used_le _) absent1
    refine ends_step (parting.and counting) (fun _ _ _ => trivial) ?_
    rintro _ t' ⟨parted, counted', ⟨fileNew, cNew, thereNew, packedNew⟩, _⟩
    rcases parted.old with ⟨file', free', thereOld, okOld⟩
    rw [thereOld] at thereNew
    cases thereNew
    refine ends_pure ⟨counted', raises_of there thereOld (fun _ => absent) (fun other notOld notNew => ?_) fun _ => ?_⟩
    · exact (parted.files other notOld notNew).trans (moves1.frame.files other notOld)
    · have fewer := @Contents.bytes_on cfg c (leaving c (t'.shared.wins (t.shared.tls.hash.slot 0).win).tabs
        (t.shared.wins (t.shared.tls.hash.slot 0).win).tabsUsed)ᶜ
      rw [okOld.contents_eq packedNew.counted.ok] at fewer
      have used := packedNew.used
      omega

end Put

section Acts

variable {cfg : Config} {t t' : State Tables} {b : Bindings} {slot : Slot} {tab : Nat} {record : Found} {binding : Binding}
  {file : File} {c : Contents} {free : List Nat} (atRecord : AtRecord cfg t b slot tab record binding file c free)
include atRecord

theorem AtRecord.counted (counted : t.Counted cfg) : Counted cfg file c free := by
  rcases counted _ _ atRecord.there with ⟨c', free', here⟩
  rw [atRecord.tableOk.opened] at here
  have sameFree : free = free' := atRecord.tableOk.chain.unique here.ok.chain
  rwa [← atRecord.tableOk.contents_eq here.ok, ← sameFree] at here

theorem AtRecord.write_counted (counted : t.Counted cfg) {bytes : List UInt8} (short : bytes.length ≤ binding.val.length) :
    ∃ t', writeMem direct (.tab slot.win tab) (t.shared.tls.valAddr.getD 0) bytes t = ⟨.ok (), t', 0⟩ ∧ t'.Counted cfg := by
  have stored := atRecord.stored
  have low := stored.low
  have high := stored.high
  have used := atRecord.tableOk.used_high
  unfold Config.recordLen at high
  have length : (bytes ++ binding.val.drop bytes.length).length = binding.val.length := by
    rw [List.length_append, List.length_drop]
    omega
  have run := @writeMem_run _ _ _ (record.pos + 1 + cfg.lenLen + binding.key.length + cfg.lenLen) bytes
    atRecord.held (.inr ⟨by omega, by omega⟩)
  rw [write_over stored.record.valBytes short] at run
  have updated := (atRecord.counted counted).updating atRecord.entry length
  rw [← atRecord.found.pos] at updated
  refine ⟨_, ?_, counted.moves (Moves.set t (.tab slot.win tab) _) updated⟩
  rw [atRecord.found.valAddr, Option.getD_some]
  exact run

theorem considerTabShrink_counted (linkable : cfg.Linkable) (counted : t.Counted cfg) :
    Ends sizeLimit (considerTabShrink direct cfg slot.win tab) (fun _ t' => t'.Counted cfg) (fun _ _ => True) t := by
  refine ends_after (tabAt_run atRecord.held) (ends_when (fun _ => ?_) fun _ => counted)
  exact (tabShrink_counted linkable counted atRecord.there (atRecord.counted counted)).mono (fun _ _ both => both.1)
    fun _ _ _ => trivial

theorem deleteFound_counted (linkable : cfg.Linkable) (counted : t.Counted cfg) :
    Ends sizeLimit (deleteFound direct cfg slot tab record) (fun _ t' => t'.Counted cfg) (fun _ _ => True) t := by
  rcases tabRefMarkAsDeleted_gives atRecord.there atRecord.tableOk linkable atRecord.entry with
    ⟨file', free', run, ok', gives⟩
  have marked : tabRefMarkAsDeleted direct cfg (.tab slot.win tab) slot.row record.ref record.keyLen record.valLen t =
      ⟨.ok (), t.setFile (.tab slot.win tab) file', 0⟩ := by
    rw [atRecord.found.keyLen, atRecord.found.valLen]
    exact run
  have erased := (atRecord.counted counted).erasing atRecord.entry ok' gives
  refine ends_after marked (ends_run (modifyTls_run _ _) fun _ => ?_)
  exact (counted.moves (Moves.set t (.tab slot.win tab) _) erased).congr rfl

theorem actOn_counted (linkable : cfg.Linkable) (counted : t.Counted cfg) (what : FindKeyAnd) :
    Ends sizeLimit (actOn direct cfg slot tab record what) (fun _ t' => t'.Counted cfg) (fun _ _ => True) t := by
  cases what with
  | addr => exact ends_pure counted
  | copyKey =>
    rcases copyKey_run atRecord with ⟨t1, run, map1, tls1, frame1⟩
    have atRecord1 := atRecord.withTls map1 frame1 (by rw [tls1]) (by rw [tls1])
    refine ends_after run (ends_step (considerTabShrink_counted atRecord1 linkable (counted.congr map1)) (fun _ _ _ => trivial) ?_)
    exact fun _ _ counted2 => ends_pure counted2
  | copyVal =>
    rcases copyVal_run atRecord with ⟨t1, run, map1, tls1, frame1⟩
    have atRecord1 := atRecord.withTls map1 frame1 (by rw [tls1]) (by rw [tls1])
    refine ends_after run (ends_step (considerTabShrink_counted atRecord1 linkable (counted.congr map1)) (fun _ _ _ => trivial) ?_)
    exact fun _ _ counted2 => ends_pure counted2
  | atomAdd =>
    refine ends_ite (fun long => ends_after (getTls_run t) ?_) fun _ => ends_pure counted
    rw [atRecord.found.valLen] at long
    refine ends_after (atRecord.readVal_run long) ?_
    generalize (leValue _ + t.shared.tls.valLong) % 2^64 = sum
    have short : (leBytes 8 sum).length ≤ binding.val.length := by
      rw [leBytes_length]
      exact long
    rcases atRecord.write_counted counted short with ⟨t1, run, counted1⟩
    exact ends_after run (ends_modifyTls fun t2 map2 => ends_pure (counted1.congr map2))
  | delete =>
    refine ends_after (getTls_run t) (ends_ite (fun _ => ?_) fun _ => ?_)
    · refine ends_step (readU32_ends atRecord.held atRecord.valAddr_low) (fun _ _ _ => trivial) ?_
      rintro ttl _ rfl
      refine ends_ite (fun _ => ?_) fun _ => ?_
      · exact ends_modifyTls fun t1 map1 => ends_pure (counted.congr map1)
      · rcases copyVal_run atRecord with ⟨t1, run, map1, tls1, frame1⟩
        have atRecord1 := atRecord.withTls map1 frame1 (by rw [tls1]) (by rw [tls1])
        refine ends_after run (ends_step (deleteFound_counted atRecord1 linkable (counted.congr map1)) (fun _ _ _ => trivial) ?_)
        exact fun _ _ counted2 => ends_pure counted2
    · refine ends_step (deleteFound_counted atRecord linkable counted) (fun _ _ _ => trivial) ?_
      exact fun _ _ counted2 => ends_pure counted2
  | update =>
    rcases modifyTls_step t fun tls => { tls with updCallbackFailsafe := tls.updCallbackFailsafe + 1 } with
      ⟨t1, run1, map1, tls1, frame1⟩
    have atRecord1 := atRecord.withTls map1 frame1 (by rw [tls1]) (by rw [tls1])
    have counted1 := counted.congr map1
    refine ends_bind (ends_after run1 (ends_after (getTls_run t1) (ends_bind (ends_check (fun _ => ?_) fun _ => trivial))))
    have copied : Ends sizeLimit (when (record.valLen = t1.shared.tls.updCallbackCopyVal.length)
        (writeMem direct (.tab slot.win tab) (t1.shared.tls.valAddr.getD 0) t1.shared.tls.updCallbackCopyVal))
        (fun _ t2 => t2.Counted cfg) (fun _ _ => True) t1 := by
      refine ends_when (fun same => ?_) fun _ => counted1
      rw [atRecord.found.valLen] at same
      rcases atRecord1.write_counted counted1 (Nat.le_of_eq same.symm) with ⟨t2, run2, counted2⟩
      exact ends_run run2 fun _ => counted2
    refine ends_step copied (fun _ _ _ => trivial) fun _ t2 counted2 => ?_
    exact ends_modifyTls fun t3 map3 => ends_pure (ends_pure (counted2.congr map3))

end Acts

section Sections

variable {cfg : Config} {t : State Tables} {b : Bindings}

theorem findKeyInternal_counted (linkable : cfg.Linkable) (ok : StoreOk cfg t b) (counted : t.Counted cfg) (uid : Nat)
    (what : FindKeyAnd) :
    Ends sizeLimit (findKeyInternal direct cfg uid what) (fun _ t' => t'.Counted cfg) (fun _ _ => True) t := by
  rcases @findKeyInternal_opens _ _ _ uid what ok with ⟨t1, keyAddr, valAddr, ptr, file, ⟨ok1, frame, tls, next⟩, there, map1⟩
  rcases counted ptr file there with ⟨c, free, here⟩
  have counted1 : t1.Counted cfg := (counted.moves (Moves.set t ptr _) here).congr map1
  split at next
  · exact ends_congr next (ends_modifyTls fun t2 map2 => ends_pure (counted1.congr map2))
  · rcases next with ⟨slot, tab, record, binding, file, c, free, _, atRecord, run⟩
    exact ends_congr run (actOn_counted atRecord linkable counted1 what)

theorem Raises.refl (t : State Tables) : Raises t t := by
  intro ptr before after there there' _ more
  rw [there] at there'
  cases there'
  exact absurd more (Nat.lt_irrefl _)

structure Accounted (cfg : Config) (t : State Tables) : Prop where
  ok : ∃ b, StoreOk cfg t b
  counted : t.Counted cfg

theorem Accounted.untouched {t' : State Tables} {touched : Ptr → Prop} (accounted : Accounted cfg t) (map : t'.map = t.map)
    (frame : Frame touched t t') : Accounted cfg t' := by
  rcases accounted with ⟨⟨b, ok⟩, counted⟩
  exact ⟨⟨b, ok.untouched map frame⟩, counted.congr map⟩

theorem work_accounted (linkable : cfg.Linkable) (accounted : Accounted cfg t) (work : Work)
    (fits : ∀ val, work = .put val → cfg.Fits t.shared.tls.hashKey val.bytes) : Ends sizeLimit (work.run direct cfg)
      (fun _ t' => Accounted cfg t' ∧ ((∃ val, work = .put val) → Raises t t')) (fun _ _ => True) t := by
  rcases accounted with ⟨⟨b, ok⟩, counted⟩
  cases work with
  | put val =>
    have both := (putSection_leaves linkable ok (fits val rfl)).and (putSection_counted linkable ok counted (fits val rfl))
    refine ends_step both (fun _ _ _ => trivial) ?_
    rintro done t' ⟨⟨_, _, _, _, placed⟩ | ⟨_, split⟩, counted', raises⟩
    · exact ends_pure ⟨⟨⟨_, placed.ok⟩, counted'⟩, fun _ => raises⟩
    · exact ends_pure ⟨⟨⟨_, split.ok⟩, counted'⟩, fun _ => raises⟩
  | find uid what =>
    have both := (findKeyInternal_kept linkable ok uid what).and (findKeyInternal_counted linkable ok counted uid what)
    refine ends_step both (fun _ _ _ => trivial) ?_
    rintro result t' ⟨kept, counted'⟩
    exact ends_pure ⟨⟨kept.ok, counted'⟩, fun ⟨_, put⟩ => nomatch put⟩

theorem section_accounted (linkable : cfg.Linkable) (accounted : Accounted cfg t) {part : Section} (fits : part.Fits cfg) :
    Ends sizeLimit (runSections direct cfg (fun _ T => T) [part])
      (fun _ t' => Accounted cfg t' ∧ ((∃ val, part.work = .put val) → Raises t t')) (fun _ _ => True) t := by
  have switched : onMap (modify fun T : Tables => T) t = ⟨.ok (), t, 0⟩ := onMap_run (modify_run _ _)
  rcases modifyTls_step t fun _ => part.tls with ⟨t1, run1, map1, tls1, frame1⟩
  have work := @work_accounted cfg t1 linkable (accounted.untouched map1 frame1) part.work
  rw [tls1] at work
  refine ends_after switched (ends_after run1 (ends_step (work fits) (fun _ _ _ => trivial) ?_))
  rintro result t2 ⟨accounted2, raises⟩
  refine ends_after (getTls_run t2) (ends_pure ⟨accounted2, fun put => ?_⟩)
  have raises := raises put
  unfold Raises at raises ⊢
  rwa [map1] at raises

theorem runSections_accounted (linkable : cfg.Linkable) {sections : List Section} (accounted : Accounted cfg t)
    (fits : ∀ part ∈ sections, part.Fits cfg) :
    Ends sizeLimit (runSections direct cfg (fun _ T => T) sections) (fun _ => Accounted cfg) (fun _ _ => True) t := by
  induction sections generalizing t with
  | nil => exact ends_pure accounted
  | cons part rest ih =>
    have switched : onMap (modify fun T : Tables => T) t = ⟨.ok (), t, 0⟩ := onMap_run (modify_run _ _)
    rcases modifyTls_step t fun _ => part.tls with ⟨t1, run1, map1, tls1, frame1⟩
    have work := @work_accounted cfg t1 linkable (accounted.untouched map1 frame1) part.work
    rw [tls1] at work
    refine ends_after switched (ends_after run1 (ends_step (work (fits part List.mem_cons_self)) (fun _ _ _ => trivial) ?_))
    rintro result t2 ⟨accounted2, _⟩
    refine ends_after (getTls_run t2) (ends_step (ih accounted2 fun other member =>
      fits other (List.mem_cons_of_mem _ member)) (fun _ _ _ => trivial) ?_)
    exact fun results t3 accounted3 => ends_pure accounted3

theorem initial_accounted (cfg : Config) (vfs : Nat → Nat) (tls : Tls) : Accounted cfg (State.initialTables vfs tls) := by
  refine ⟨⟨_, initial_storeOk cfg vfs tls⟩, fun ptr file there => ?_⟩
  have new : file = Tables.resized none (modPage dataOffset) := by
    cases ptr with
    | old => cases there
    | tab win tab =>
      rcases Option.map_eq_some_iff.mp there with ⟨number, _, file_eq⟩
      rw [← file_eq, resized_none]
      rfl
  rw [new]
  exact ⟨_, _, newTable_counted⟩

/-- Sections of any processes leave the counters of a new store right. -/
theorem Attained.accounted {vfs : Nat → Nat} {tls : Tls} {sections : List Section} {s : State Disk}
    (attained : Attained cfg vfs tls sections s) (linkable : cfg.Linkable) (fits : ∀ part ∈ sections, part.Fits cfg) :
    ∃ t, Settled s t ∧ Accounted cfg t := by
  have guarded := attained.runs_guarded linkable fits
  rcases attained with ⟨within, ended, rfl⟩
  rw [guarded] at within ended ⊢
  have ends := (runSections_simulates guarded_faithful (initial_settled vfs tls)).ends
    (runSections_accounted linkable (initial_accounted cfg vfs tls) fits) within
  cases value : (runProcesses mapped.guarded cfg sections (State.initial vfs tls)).value with
  | ok results =>
    rw [value] at ends
    rcases ends with ⟨t, settled, accounted⟩
    exact ⟨t, settled, accounted⟩
  | error e =>
    rw [value] at ended
    cases ended

end Sections

end SharedHashFile.Store
