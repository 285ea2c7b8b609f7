import SharedHashFile.Store.AccountingRuns
import SharedHashFile.Store.LedgerTables

namespace SharedHashFile.Store

open ByteMemory Program

attribute [local irreducible] allRefs

def File.cleared (file : File) (row : Fin 512) (ref : Fin 16) (data : Memory) (first refsUsed dataFree dataUsed : Nat) : File :=
  { file with tab := { file.tab.setRef row ref { file.tab.row row ref with pos := 0 } with
    data := data
    tabDataFreePos := first
    tabRefsUsed := refsUsed
    tabDataFree := dataFree
    tabDataUsed := dataUsed } }

def File.unreffed (file : File) (row : Fin 512) (ref : Fin 16) (len : Nat) (data : Memory) (first : Nat) : File :=
  file.cleared row ref data first ((file.tab.tabRefsUsed + 2^32 - 1) % 2^32) ((file.tab.tabDataFree + len) % 2^32)
    ((file.tab.tabDataUsed + 2^32 - len) % 2^32)

section Unreffed

variable {file : File} {row : Fin 512} {ref : Fin 16} {data : Memory} {first refsUsed dataFree dataUsed : Nat}

theorem cleared_row : (file.cleared row ref data first refsUsed dataFree dataUsed).tab.row =
    (file.tab.setRef row ref { file.tab.row row ref with pos := 0 }).row := rfl

theorem Fit.cleared (fit : Fit file) : Fit (file.cleared row ref data first refsUsed dataFree dataUsed) :=
  fit.of_eq rfl rfl rfl

end Unreffed

def Tab.uses (t : Tab) (place : Fin 512 × Fin 16) : Bool := (t.row place.1 place.2).pos ≠ 0

structure Copied (sized : Prop) (cfg : Config) (row : Fin 512) (ref : Fin 16) (value : Ref) (file file' : File) : Prop where
  row_eq : ∃ pos, file'.tab.row = (file.tab.setRef row ref { value with pos := pos }).row ∧ (sized → pos ≠ 0)
  refsUsed : file'.tab.tabRefsUsed = (file.tab.tabRefsUsed + 2) % 2^32
  dataFree : cfg.lenLen ≠ 0 → file'.tab.tabDataFree = file.tab.tabDataFree
  fit : sized → Fit file'

/-- A new table after some of the refs of an old one, of which those in `goes` are copied. -/
structure Filled (sized : Prop) (cfg : Config) (old : Tab) (goes : Fin 512 × Fin 16 → Bool) (done : List (Fin 512 × Fin 16))
    (file : File) : Prop where
  moved : ∀ {row ref}, (row, ref) ∈ done → goes (row, ref) = true →
    ∃ pos, file.tab.row row ref = { old.row row ref with pos := pos } ∧ (sized → pos ≠ 0)
  empty : ∀ {row ref}, ¬ ((row, ref) ∈ done ∧ goes (row, ref) = true) → file.tab.row row ref = ⟨0, 0, 0⟩
  refsUsed : file.tab.tabRefsUsed = 2 * done.countP goes % 2^32
  dataFree : cfg.lenLen ≠ 0 → file.tab.tabDataFree = 0
  fit : sized → Fit file

section Filling

variable {sized : Prop} {cfg : Config} {old : Tab} {goes : Fin 512 × Fin 16 → Bool} {done : List (Fin 512 × Fin 16)}
  {file file' : File} {row : Fin 512} {ref : Fin 16}

theorem Filled.skipped (filled : Filled sized cfg old goes done file) (stays : goes (row, ref) = false) :
    Filled sized cfg old goes (done ++ [(row, ref)]) file := by
  have same {row' : Fin 512} {ref' : Fin 16} : (row', ref') ∈ done ++ [(row, ref)] ∧ goes (row', ref') = true ↔
      (row', ref') ∈ done ∧ goes (row', ref') = true := by
    rw [List.mem_append, List.mem_singleton]
    constructor
    · rintro ⟨before | this, going⟩
      · exact ⟨before, going⟩
      · rw [this, stays] at going
        cases going
    · exact fun before => ⟨.inl before.1, before.2⟩
  refine ⟨fun member going => ?_, fun other => ?_, ?_, filled.dataFree, filled.fit⟩
  · exact filled.moved (same.mp ⟨member, going⟩).1 going
  · exact filled.empty fun before => other (same.mpr before)
  · have none_ : [(row, ref)].countP goes = 0 := by simp [stays]
    rw [filled.refsUsed, List.countP_append, none_, Nat.add_zero]

theorem Filled.copied (filled : Filled sized cfg old goes done file) (fresh : (row, ref) ∉ done)
    (going : goes (row, ref) = true) (copied : Copied sized cfg row ref (old.row row ref) file file') :
    Filled sized cfg old goes (done ++ [(row, ref)]) file' := by
  rcases copied.row_eq with ⟨pos, row_eq, placed⟩
  have at_ (row' : Fin 512) (ref' : Fin 16) : file'.tab.row row' ref' =
      if row' = row ∧ ref' = ref then { old.row row ref with pos := pos } else file.tab.row row' ref' := by
    rw [row_eq, Tab.setRef_row]
  refine ⟨fun {row' ref'} member going' => ?_, fun {row' ref'} other => ?_, ?_, fun variable_ => ?_, copied.fit⟩
  · rw [at_]
    split
    · rename_i here
      rw [here.1, here.2]
      exact ⟨pos, rfl, placed⟩
    · rename_i elsewhere
      rcases List.mem_append.mp member with before | this
      · exact filled.moved before going'
      · exact absurd (Prod.mk.inj (List.mem_singleton.mp this)) elsewhere
  · rw [at_, if_neg]
    · exact filled.empty fun before => other ⟨List.mem_append_left _ before.1, before.2⟩
    · rintro ⟨rfl, rfl⟩
      exact other ⟨List.mem_append_right _ (List.mem_singleton_self _), going⟩
  · have one : [(row, ref)].countP goes = 1 := by simp [going]
    rw [copied.refsUsed, filled.refsUsed, List.countP_append, one]
    omega
  · rw [copied.dataFree variable_, filled.dataFree variable_]

theorem Filled.start {tabSize tabUsed : Nat} (fit : sized → Fit (freshFile.headed tabSize tabUsed)) :
    Filled sized cfg old goes [] (freshFile.headed tabSize tabUsed) :=
  ⟨nofun, fun _ => rfl, rfl, fun _ => rfl, fit⟩

end Filling

namespace Ledger

variable {μ : Type} {m : Mapping μ} {limit : Nat} (b : Ledger m limit)

structure Within (keep : Fin 256 → Nat → Prop) (touched : Ptr → Prop) (s s' : State μ) : Prop where
  known : b.Known keep s'.map
  files : ∀ ptr, ¬ touched ptr → (b.tables s'.map).fileAt ptr = (b.tables s.map).fileAt ptr
  tabs : ∀ win, (s'.shared.wins win).tabs = (s.shared.wins win).tabs
  used : ∀ win, (s'.shared.wins win).tabsUsed = (s.shared.wins win).tabsUsed

variable {b} {cfg : Config} {keep : Fin 256 → Nat → Prop} {ptr from_ : Ptr} {file fileOld : File} {s s' s'' : State μ}
  {win : Fin 256} {tab : Nat} {row : Fin 512} {ref : Fin 16} {touched touched' : Ptr → Prop}

theorem Within.refl (known : b.Known keep s.map) : b.Within keep touched s s :=
  ⟨known, fun _ _ => rfl, fun _ => rfl, fun _ => rfl⟩

theorem Within.trans (first : b.Within keep touched s s') (second : b.Within keep touched s' s'') :
    b.Within keep touched s s'' :=
  ⟨second.known, fun ptr away => (second.files ptr away).trans (first.files ptr away),
    fun win => (second.tabs win).trans (first.tabs win), fun win => (second.used win).trans (first.used win)⟩

theorem Within.mono (within : b.Within keep touched s s') (more : ∀ ptr, touched ptr → touched' ptr) :
    b.Within keep touched' s s' :=
  ⟨within.known, fun ptr away => within.files ptr fun was => away (more ptr was), within.tabs, within.used⟩

theorem Within.at_ (within : b.Within keep touched s s') (at_ : b.At keep ptr file s) (away : ¬ touched ptr) :
    b.At keep ptr file s' := ⟨within.known, at_.seen, (within.files ptr away).trans at_.there⟩

theorem Changed.within (changed : b.Changed keep ptr file s s') : b.Within keep (· = ptr) s s' := by
  refine ⟨changed.known, fun other away => ?_, fun win => ?_, fun win => ?_⟩
  · rw [changed.tables, Tables.fileAt_setFile_of_ne file away]
  · rw [changed.wins]
  · rw [changed.wins]

theorem Within.withWin {f : Win → Win} (known : b.Known keep s.map) (same : ∀ w, (f w).tabs = w.tabs ∧ (f w).tabsUsed = w.tabsUsed) :
    b.Within keep touched s (s.withWin win f) := by
  have all (win' : Fin 256) : ((s.withWin win f).shared.wins win').tabs = (s.shared.wins win').tabs ∧
      ((s.withWin win f).shared.wins win').tabsUsed = (s.shared.wins win').tabsUsed := by
    rw [State.withWin_wins]
    split
    · rename_i here
      rw [here]
      exact same _
    · exact ⟨rfl, rfl⟩
  exact ⟨known, fun _ _ => rfl, fun win' => (all win').1, fun win' => (all win').2⟩

section Copies

theorem tabRefMarkAsDeleted_ends {keyLen valLen : Nat} (at_ : b.At keep ptr file s) :
    Ends limit (tabRefMarkAsDeleted m cfg ptr row ref keyLen valLen) (fun _ s' => ∃ data first,
      b.Changed keep ptr (file.unreffed row ref (cfg.recordLen keyLen valLen % 2^32) data first) s s')
      (fun e _ => e ≠ .internal) s := by
  apply ends_step (tabAt_ends at_) fun _ _ other => other
  rintro t s' ⟨rfl, rfl⟩
  apply @ends_write _ _ _ _ _ _ file _ _ _ _ _ _ _ _ at_.unchanged at_.seen writeMem_ends fun _ _ other => other
  intro data1 s1 changed1
  have lens {pos len : Nat} (at1 : b.At keep ptr (file.withData data1) s1) :
      Ends limit (when (cfg.lenLen ≠ 0) (writeU32 m ptr pos len))
        (fun _ s2 => ∃ data2, b.Changed keep ptr ((file.withData data1).withData data2) s1 s2)
        (fun e _ => e ≠ .internal) s1 := by
    apply ends_when
    · exact fun _ => writeMem_ends at1
    · exact fun _ => ⟨data1, at1.unchanged⟩
  apply ends_write changed1 at_.seen lens fun _ _ other => other
  intro data2 s2 changed2
  have linked : Ends limit (when (cfg.lenLen = 0 ∧ 4 ≤ (keyLen + valLen) % 2^32) do
      writeU32 m ptr (((file.tab.row row ref).pos + 1) % 2^32 + 4) file.tab.tabDataFreePos
      modifyTab m ptr fun t => { t with tabDataFreePos := (file.tab.row row ref).pos })
      (fun _ s3 => ∃ data3 first, b.Changed keep ptr ((relisted file first).withData data3) s' s3)
      (fun e _ => e ≠ .internal) s2 := by
    apply ends_when
    · intro _
      apply ends_write changed2 at_.seen writeMem_ends fun _ _ other => other
      intro data3 s3 changed3
      apply (modifyTab_ends (changed3.at_ at_.seen) _).mono _ fun _ _ other => other
      exact fun _ s4 changed4 => ⟨data3, _, changed3.trans changed4⟩
    · exact fun _ => ⟨data2, file.tab.tabDataFreePos, changed2⟩
  apply ends_step linked fun _ _ other => other
  rintro _ s3 ⟨data3, first, changed3⟩
  apply (modifyTab_ends (changed3.at_ at_.seen) _).mono _ fun _ _ other => other
  intro _ s4 changed4
  exact ⟨data3, first, changed3.trans changed4⟩

theorem recordLens_ends {pos : Nat} (at_ : b.At keep ptr file s) :
    Ends limit (recordLens m cfg ptr pos) (fun _ s' => s' = s) (fun e _ => e ≠ .internal) s := by
  apply ends_ite
  · exact fun _ => ends_pure rfl
  · intro _
    apply ends_step (readU32_ends at_) fun _ _ other => other
    rintro _ s' rfl
    apply ends_step (readU32_ends at_) fun _ _ other => other
    rintro _ s' rfl
    exact ends_pure rfl

/-- What a copy does to the table it copies to, the table it copies from, and no other. -/
def CopyOf (b : Ledger m limit) (cfg : Config) (keep : Fin 256 → Nat → Prop) (into from_ : Ptr) (row : Fin 512) (ref : Fin 16)
    (file fileOld : File) (s s' : State μ) : Prop :=
  b.Within keep (fun ptr => ptr = into ∨ ptr = from_) s s' ∧
    (∃ file', b.At keep into file' s' ∧ Copied b.sized cfg row ref (fileOld.tab.row row ref) file file') ∧
    ∃ fileOld', b.At keep from_ fileOld' s' ∧
      fileOld'.tab.row = (fileOld.tab.setRef row ref { fileOld.tab.row row ref with pos := 0 }).row

theorem tabRefCopy_ends (new : b.At keep (.tab win tab) file s) (old : b.At keep from_ fileOld s)
    (away : from_ ≠ .tab win tab) (fit : b.sized → Fit file) :
    Ends limit (tabRefCopy m cfg win tab from_ row ref)
      (fun _ => CopyOf b cfg keep (.tab win tab) from_ row ref file fileOld s) (fun e _ => b.Stops cfg e) s := by
  apply ends_step (tabAt_ends new) fun _ _ => Stops.of_ne
  rintro t s' ⟨rfl, rfl⟩
  apply ends_step (tabAt_ends old) fun _ _ => Stops.of_ne
  rintro t s' ⟨rfl, rfl⟩
  apply ends_step (recordLens_ends old) fun _ _ => Stops.of_ne
  rintro ⟨keyLen, valLen⟩ s' rfl
  apply ends_step (readMem_ends old) fun _ _ => Stops.of_ne
  rintro key s' rfl
  apply ends_step (readMem_ends old) fun _ _ => Stops.of_ne
  rintro val s' rfl
  have placed (sized : b.sized) : file.tab.tabUsed ≠ 0 := by
    have low := (fit sized).used_low
    unfold dataOffset at low
    omega
  apply ends_step (tabAppend_ends new fit placed) fun _ _ stops => stops
  rintro pos s1 ⟨file1, changed1, appended⟩
  have old1 := changed1.within.at_ old away
  apply ends_step (tabRefMarkAsDeleted_ends old1) fun _ _ => Stops.of_ne
  rintro _ s2 ⟨data, first, changed2⟩
  have new2 := changed2.within.at_ (changed1.at_ new.seen) away.symm
  apply (modifyTab_ends new2 _).mono _ fun _ _ => Stops.of_ne
  intro _ s3 changed3
  refine ⟨?_, ⟨_, changed3.at_ new.seen, ⟨pos, ?_, fun sized => (appended.fit sized).2⟩, ?_, appended.dataFree, ?_⟩, _,
    changed3.within.at_ (changed2.at_ old.seen) away, rfl⟩
  · have first : b.Within keep (fun ptr => ptr = .tab win tab ∨ ptr = from_) _ _ := changed1.within.mono fun _ => .inl
    have second : b.Within keep (fun ptr => ptr = .tab win tab ∨ ptr = from_) _ _ := changed2.within.mono fun _ => .inr
    have third : b.Within keep (fun ptr => ptr = .tab win tab ∨ ptr = from_) _ _ := changed3.within.mono fun _ => .inl
    exact first.trans (second.trans third)
  · change (file1.tab.setRef _ _ _).row = _
    unfold Tab.setRef
    rw [appended.row]
  · change (file1.tab.tabRefsUsed + 1) % 2^32 = _
    rw [appended.refsUsed]
    omega
  · intro sized
    rcases (appended.fit sized).1 with ⟨size, header, low, high⟩
    exact ⟨size, header, low, high⟩

structure CopyLoop (b : Ledger m limit) (cfg : Config) (keep : Fin 256 → Nat → Prop) (into from_ : Ptr) (old : Tab)
    (goes : Fin 512 × Fin 16 → Bool) (s0 : State μ) (done : List (Fin 512 × Fin 16)) (s : State μ) : Prop where
  within : b.Within keep (fun ptr => ptr = into ∨ ptr = from_) s0 s
  new : ∃ file, b.At keep into file s ∧ Filled b.sized cfg old goes done file
  old : ∃ file, b.At keep from_ file s ∧ ∀ row ref, file.tab.row row ref =
    if (row, ref) ∈ done ∧ goes (row, ref) = true then { old.row row ref with pos := 0 } else old.row row ref

variable {into : Ptr} {old : Tab} {goes : Fin 512 × Fin 16 → Bool} {s0 : State μ}

theorem CopyLoop.step {done : List (Fin 512 × Fin 16)} (loop : CopyLoop b cfg keep into from_ old goes s0 done s)
    (fresh : (row, ref) ∉ done) {body : Operation μ Unit}
    (step : ∀ {file fileOld}, b.At keep into file s → (b.sized → Fit file) → b.At keep from_ fileOld s →
      fileOld.tab.row row ref = old.row row ref → Ends limit body (fun _ s' => if goes (row, ref) = true then
        CopyOf b cfg keep into from_ row ref file fileOld s s' else b.Within keep (fun _ => False) s s')
        (fun e _ => b.Stops cfg e) s) :
    Ends limit body (fun _ => CopyLoop b cfg keep into from_ old goes s0 (done ++ [(row, ref)]))
      (fun e _ => b.Stops cfg e) s := by
  rcases loop.new with ⟨file, new, filled⟩
  rcases loop.old with ⟨fileOld, from_at, rows⟩
  have same : fileOld.tab.row row ref = old.row row ref := by
    rw [rows, if_neg fun before => fresh before.1]
  apply (step new filled.fit from_at same).mono _ fun _ _ stops => stops
  intro _ s' effect
  cases going : goes (row, ref) with
  | true =>
    rw [if_pos going] at effect
    rcases effect with ⟨within, ⟨file', new', copied⟩, fileOld', from_at', row_eq⟩
    rw [same] at copied row_eq
    refine ⟨loop.within.trans within, ⟨file', new', filled.copied fresh going copied⟩, fileOld', from_at', ?_⟩
    intro row' ref'
    rw [row_eq, Tab.setRef_row]
    by_cases here : row' = row ∧ ref' = ref
    · rcases here with ⟨rfl, rfl⟩
      rw [if_pos ⟨rfl, rfl⟩, if_pos ⟨List.mem_append_right _ (List.mem_singleton_self _), going⟩]
    · have other : (row', ref') ≠ (row, ref) := fun same => here (Prod.mk.inj same)
      rw [if_neg here, rows]
      simp only [List.mem_append, List.mem_singleton, other, or_false]
  | false =>
    rw [if_neg (by rw [going]; exact Bool.false_ne_true)] at effect
    refine ⟨loop.within.trans (effect.mono fun _ => False.elim), ⟨file, effect.at_ new not_false, filled.skipped going⟩,
      fileOld, effect.at_ from_at not_false, ?_⟩
    intro row' ref'
    rw [rows]
    by_cases here : (row', ref') = (row, ref)
    · rw [here, going]
      simp only [Bool.false_eq_true, and_false]
    · simp only [List.mem_append, List.mem_singleton, here, or_false]

theorem fresh_of_nodup {refs done rest : List (Fin 512 × Fin 16)} {place : Fin 512 × Fin 16} (distinct : refs.Nodup)
    (whole : done ++ place :: rest = refs) : place ∉ done := by
  rw [← whole] at distinct
  exact fun member => (List.nodup_append.mp distinct).2.2 _ member _ List.mem_cons_self rfl

theorem copyLoop_ends {refs : List (Fin 512 × Fin 16)} {body : Fin 512 × Fin 16 → Operation μ Unit} (distinct : refs.Nodup)
    (loop : CopyLoop b cfg keep into from_ old goes s0 [] s)
    (step : ∀ {row ref file fileOld t}, b.Within keep (fun ptr => ptr = into ∨ ptr = from_) s0 t → b.At keep into file t →
      (b.sized → Fit file) → b.At keep from_ fileOld t → fileOld.tab.row row ref = old.row row ref →
      Ends limit (body (row, ref)) (fun _ t' => if goes (row, ref) = true then
        CopyOf b cfg keep into from_ row ref file fileOld t t' else b.Within keep (fun _ => False) t t')
        (fun e _ => b.Stops cfg e) t) :
    Ends limit (refs.forM body) (fun _ => CopyLoop b cfg keep into from_ old goes s0 refs)
      (fun e _ => b.Stops cfg e) s := by
  apply ends_forM (CopyLoop b cfg keep into from_ old goes s0) _ loop
  rintro done ⟨row, ref⟩ rest t whole before
  exact before.step (fresh_of_nodup distinct whole) fun new fit from_at same => step before.within new fit from_at same

/-- `shf_tab_shrink` up to its loop. -/
def shrinkStart (m : Mapping μ) (win : Fin 256) (tab : Nat) : Operation μ Unit := do
  modifyWin win fun w => { w with tabsShrunk := w.tabsShrunk + 1 }
  onMap (m.getTabMmap win tab)
  onMap (m.replace win tab)

/-- The body of the loop of `shf_tab_shrink`. -/
def shrinkRef (m : Mapping μ) (cfg : Config) (win : Fin 256) (tab : Nat) (place : Fin 512 × Fin 16) : Operation μ Unit := do
  let tOld ← tabAt m .old
  when ((tOld.row place.1 place.2).pos ≠ 0) (tabRefCopy m cfg win tab .old place.1 place.2)

theorem tabShrink_parts : tabShrink m cfg win tab = (do
    shrinkStart m win tab
    allRefs.forM (shrinkRef m cfg win tab)
    onMap m.release) := by
  unfold tabShrink shrinkStart
  simp only [bind_assoc]
  rfl

theorem shrinkStart_ends (at_ : b.At keep (.tab win tab) file s) (none_ : (b.tables s.map).old = none) :
    Ends limit (shrinkStart m win tab) (fun _ s' => b.Within keep (fun ptr => ptr = .tab win tab ∨ ptr = .old) s s' ∧
      (∃ tabSize tabUsed, b.At keep (.tab win tab) (freshFile.headed tabSize tabUsed) s' ∧
        (b.sized → Fit (freshFile.headed tabSize tabUsed))) ∧
      ∃ tabSize tabUsed, b.At keep .old (file.headed tabSize tabUsed) s') (fun e _ => b.Stops cfg e) s := by
  apply ends_after (modifyWin_run s win _)
  have within1 := @Within.withWin _ _ _ b keep s win (fun ptr => ptr = .tab win tab ∨ ptr = .old)
    (fun w => { w with tabsShrunk := w.tabsShrunk + 1 }) at_.known fun _ => ⟨rfl, rfl⟩
  have there1 : (b.tables (s.withWin win fun w => { w with tabsShrunk := w.tabsShrunk + 1 }).map).table win tab = some file :=
    at_.there
  have none1 : (b.tables (s.withWin win fun w => { w with tabsShrunk := w.tabsShrunk + 1 }).map).old = none := none_
  generalize (s.withWin win fun w => { w with tabsShrunk := w.tabsShrunk + 1 }) = s1 at within1 there1 none1
  apply ends_bind
  apply ends_zoom
  apply (b.getTabMmap_ends within1.known there1).mono _ fun _ _ => Stops.of_unsized
  rintro _ M2 ⟨known2, file2, opens, tables2⟩
  have known2 := b.forget known2 fun win' tab' kept => (Or.inl kept : also keep win tab win' tab')
  rcases b.opens_headed opens with ⟨tabSize, tabUsed, rfl⟩
  have there2 : (b.tables M2).table win tab = some (file.headed tabSize tabUsed) := by
    rw [tables2, Tables.set_table, if_pos ⟨rfl, rfl⟩]
  have none2 : (b.tables M2).old = none := by rw [tables2, Tables.set_old, none1]
  apply ends_zoom
  apply (b.replace_ends known2 at_.seen there2 none2).mono _ fun _ _ => Stops.of_unsized
  rintro _ M3 ⟨known3, file3, opens3, tables3⟩
  have fit3 (sized : b.sized) : Fit file3 := b.opens_fit sized opens3 (.inr rfl)
  rcases b.opens_headed opens3 with ⟨tabSize3, tabUsed3, rfl⟩
  refine ⟨⟨known3, fun ptr away => ?_, within1.tabs, within1.used⟩, ⟨tabSize3, tabUsed3, ⟨known3, at_.seen, ?_⟩, fit3⟩,
    tabSize, tabUsed, known3, trivial, ?_⟩
  · rw [← within1.files ptr away]
    change (b.tables M3).fileAt ptr = _
    cases ptr with
    | old => exact absurd (.inr rfl) away
    | tab win' tab' =>
      have elsewhere : ¬(win' = win ∧ tab' = tab) := by
        rintro ⟨rfl, rfl⟩
        exact away (.inl rfl)
      rw [tables3]
      refine (Tables.set_table _ _ _ _ _ _).trans ?_
      rw [if_neg elsewhere, tables2, Tables.set_table, if_neg elsewhere]
      rfl
  · change (b.tables M3).table win tab = _
    rw [tables3]
    exact (Tables.set_table _ _ _ _ _ _).trans (if_pos ⟨rfl, rfl⟩)
  · change (b.tables M3).old = _
    rw [tables3]

theorem shrinkRef_ends {goes : Fin 512 × Fin 16 → Bool} (new : b.At keep (.tab win tab) file s) (fit : b.sized → Fit file)
    (from_at : b.At keep .old fileOld s) (going : goes (row, ref) = fileOld.tab.uses (row, ref)) :
    Ends limit (shrinkRef m cfg win tab (row, ref)) (fun _ s' => if goes (row, ref) = true then
      CopyOf b cfg keep (.tab win tab) .old row ref file fileOld s s' else b.Within keep (fun _ => False) s s')
      (fun e _ => b.Stops cfg e) s := by
  rw [going]
  apply ends_step (tabAt_ends from_at) fun _ _ => Stops.of_ne
  rintro t s' ⟨rfl, rfl⟩
  apply ends_when
  · intro occupied
    have uses : fileOld.tab.uses (row, ref) = true := decide_eq_true occupied
    simp only [if_pos uses]
    exact tabRefCopy_ends new from_at nofun fit
  · intro vacant
    have unused : ¬ fileOld.tab.uses (row, ref) = true := fun uses => vacant (of_decide_eq_true uses)
    rw [if_neg unused]
    exact Within.refl new.known

theorem shrinkLoop_ends {refs : List (Fin 512 × Fin 16)} (distinct : refs.Nodup)
    (loop : CopyLoop b cfg keep (.tab win tab) .old file.tab (Tab.uses file.tab) s [] s) :
    Ends limit (refs.forM (shrinkRef m cfg win tab))
      (fun _ => CopyLoop b cfg keep (.tab win tab) .old file.tab (Tab.uses file.tab) s refs) (fun e _ => b.Stops cfg e) s := by
  apply copyLoop_ends distinct loop
  intro row ref fileNew fileOld t _ new fit from_at same
  apply shrinkRef_ends new fit from_at
  unfold Tab.uses
  rw [same]

/-- `shf_tab_shrink` leaves a table with the used refs of the one before. -/
theorem tabShrink_ends (at_ : b.At keep (.tab win tab) file s) (none_ : (b.tables s.map).old = none) :
    Ends limit (tabShrink m cfg win tab) (fun _ s' => b.Within keep (· = .tab win tab) s s' ∧
      ∃ file', b.At keep (.tab win tab) file' s' ∧ Filled b.sized cfg file.tab (Tab.uses file.tab) allRefs file')
      (fun e _ => b.Stops cfg e) s := by
  rw [tabShrink_parts]
  apply ends_step (shrinkStart_ends at_ none_) fun _ _ stops => stops
  rintro _ s3 ⟨within3, ⟨tabSize3, tabUsed3, new3, fit3⟩, tabSize, tabUsed, old3⟩
  have loop3 : CopyLoop b cfg keep (.tab win tab) .old file.tab (Tab.uses file.tab) s3 [] s3 :=
    ⟨Within.refl new3.known, ⟨_, new3, Filled.start fit3⟩, _, old3, fun row ref => (if_neg fun before => nomatch before.1).symm⟩
  apply ends_step (shrinkLoop_ends allRefs_nodup loop3) fun _ _ stops => stops
  intro _ s4 loop4
  apply ends_zoom
  apply (b.release_ends loop4.within.known).mono _ fun _ _ => Stops.of_ne
  rintro _ M5 ⟨known5, tables5⟩
  rcases loop4.new with ⟨file4, new4, filled4⟩
  refine ⟨⟨known5, fun ptr away => ?_, fun win' => ?_, fun win' => ?_⟩, file4, ⟨known5, at_.seen, ?_⟩, filled4⟩
  · change (b.tables M5).fileAt ptr = _
    rw [tables5]
    cases ptr with
    | old => exact none_.symm
    | tab win' tab' =>
      have elsewhere : ¬(Ptr.tab win' tab' = .tab win tab ∨ Ptr.tab win' tab' = .old) := by
        rintro (here | old)
        · exact away here
        · cases old
      exact (loop4.within.files _ elsewhere).trans (within3.files _ elsewhere)
  · exact (loop4.within.tabs win').trans (within3.tabs win')
  · exact (loop4.within.used win').trans (within3.used win')
  · change (b.tables M5).fileAt _ = _
    rw [tables5]
    exact new4.there

end Copies

end Ledger

end SharedHashFile.Store
