import SharedHashFile.Store.Bindings

namespace SharedHashFile.Store

open ByteMemory Program

theorem firstFree_some {row : Fin 16 → Ref} {ref : Fin 16} (found : firstFree row = some ref) :
    (row ref).pos = 0 := by
  have holds := List.find?_some found
  exact of_decide_eq_true holds

theorem firstFree_none {row : Fin 16 → Ref} (found : firstFree row = none) (ref : Fin 16) :
    (row ref).pos ≠ 0 := by
  intro zero
  exact List.find?_eq_none.mp found ref (List.mem_finRange ref) (decide_eq_true zero)

section Parting

variable {cfg : Config} {t t' : State Tables} {b : Bindings} {win : Fin 256} {tab tabOld used : Nat}
  {tabs : Fin 2048 → Nat} {c : Contents}

theorem Shows.leaving (shows_ : Shows c win tabOld tabs b) (below : ∀ i, tabs i < used) :
    Shows (c.on (leaving c (halved tabOld used tabs) used)) win used (halved tabOld used tabs) b := by
  intro row ref e
  rw [Contents.on_some]
  constructor
  · rintro ⟨⟨e', found', here⟩, found⟩
    rw [found] at found'
    cases found'
    exact ⟨here, ((shows_ row ref e).mp found).2⟩
  · rintro ⟨here, bound⟩
    have before : tabs e.tab = tabOld := by
      rcases repointed_cases e.tab with same | moved
      · have := below e.tab
        rw [halved, same] at here
        omega
      · exact moved.1
    have found := (shows_ row ref e).mpr ⟨before, bound⟩
    exact ⟨⟨e, found, here⟩, found⟩

theorem Shows.staying (shows_ : Shows c win tabOld tabs b) (oldBelow : tabOld < used) :
    Shows (c.on (Store.leaving c (halved tabOld used tabs) used)ᶜ) win tabOld (halved tabOld used tabs) b := by
  intro row ref e
  rw [Contents.on_some]
  constructor
  · rintro ⟨stays, found⟩
    rcases (shows_ row ref e).mp found with ⟨before, bound⟩
    refine ⟨?_, bound⟩
    rcases repointed_cases e.tab with same | moved
    · exact same.trans before
    · exact absurd ⟨e, found, moved.2⟩ stays
  · rintro ⟨here, bound⟩
    have before : tabs e.tab = tabOld := by
      rcases repointed_cases e.tab with same | moved
      · exact same.symm.trans here
      · exact moved.1
    have found := (shows_ row ref e).mpr ⟨before, bound⟩
    refine ⟨?_, found⟩
    rintro ⟨e', found', moved⟩
    rw [found] at found'
    cases found'
    rw [here] at moved
    omega

theorem halved_elsewhere {i : Fin 2048} (notOld : tab ≠ tabOld) (notNew : tab ≠ used) :
    halved tabOld used tabs i = tab ↔ tabs i = tab := by
  rcases repointed_cases i with same | moved
  · rw [halved, same]
  · rw [halved, moved.1, moved.2]
    exact ⟨fun eq => absurd eq.symm notNew, fun eq => absurd eq.symm notOld⟩

/-- A part changes no binding. -/
theorem StoreOk.parted (ok : StoreOk cfg t b) (shows_ : Shows c win tabOld (t.shared.wins win).tabs b)
    (oldBelow : tabOld < (t.shared.wins win).tabsUsed)
    (parted : Parted cfg win tabOld (t.shared.wins win).tabsUsed (t.shared.wins win).tabs c t t') :
    StoreOk cfg t' b := by
  have room := parted.room
  have below := ok.tabs_lt win
  have usedAt (win' : Fin 256) : (t'.shared.wins win').tabsUsed =
      if win' = win then (t.shared.wins win).tabsUsed + 1 else (t.shared.wins win').tabsUsed := by
    split
    · rename_i here
      rw [here]
      exact parted.used_eq
    · rename_i away
      exact (parted.others win' away).2.1
  have kept {win' : Fin 256} {tab' : Nat} (notOld : ¬(win' = win ∧ tab' = tabOld))
      (notNew : ¬(win' = win ∧ tab' = (t.shared.wins win).tabsUsed)) :
      t'.map.table win' tab' = t.map.table win' tab' :=
    parted.files (.tab win' tab') (fun eq => notOld ⟨(Ptr.tab.inj eq).1, (Ptr.tab.inj eq).2⟩)
      fun eq => notNew ⟨(Ptr.tab.inj eq).1, (Ptr.tab.inj eq).2⟩
  refine ⟨fun win' => ?_, fun win' i => ?_, (parted.files .old nofun nofun).trans ok.old, fun win' tab' above => ?_,
    fun win' tab' inUse => ?_⟩
  · rw [usedAt]
    split
    · exact room
    · exact ok.used_le win'
  · rw [usedAt]
    split
    · rename_i here
      rw [here, parted.tabs_eq]
      rcases repointed_cases i with same | moved
      · rw [halved, same]
        exact Nat.lt_succ_of_lt (below i)
      · rw [halved, moved.2]
        exact Nat.lt_succ_self _
    · rename_i away
      rw [(parted.others win' away).1]
      exact ok.tabs_lt win' i
  · rw [usedAt] at above
    split at above
    · rename_i here
      rw [kept (by omega) (by omega), here]
      exact ok.absent win tab' (by omega)
    · rename_i away
      rw [kept (fun both => away both.1) fun both => away both.1]
      exact ok.absent win' tab' above
  · rw [usedAt] at inUse
    by_cases here : win' = win
    · subst here
      rw [if_pos rfl] at inUse
      rw [parted.tabs_eq]
      by_cases new : tab' = (t.shared.wins win').tabsUsed
      · rcases parted.new with ⟨file, free, there, tableOk⟩
        rw [parted.tabs_eq] at tableOk
        rw [new]
        exact ⟨file, _, free, there, by rw [tableOk.opened]; exact tableOk, shows_.leaving below⟩
      · by_cases old : tab' = tabOld
        · rcases parted.old with ⟨file, free, there, tableOk⟩
          rw [parted.tabs_eq] at tableOk
          rw [old]
          exact ⟨file, _, free, there, by rw [tableOk.opened]; exact tableOk, shows_.staying oldBelow⟩
        · rcases ok.tables win' tab' (by omega) with ⟨file, c', free, there, tableOk, showsThere⟩
          refine ⟨file, c', free, (kept (fun both => old both.2) fun both => new both.2).trans there, tableOk, ?_⟩
          intro row ref e
          rw [halved_elsewhere old new]
          exact showsThere row ref e
    · rw [if_neg here] at inUse
      rw [(parted.others win' here).1]
      rcases ok.tables win' tab' inUse with ⟨file, c', free, there, tableOk, showsThere⟩
      exact ⟨file, c', free, (kept (fun both => here both.1) fun both => here both.1).trans there, tableOk, showsThere⟩

end Parting

section Put

variable {cfg : Config} {t : State Tables} {b : Bindings} {val : PutVal}

def State.home (t : State Tables) : Nat :=
  (t.shared.wins (t.shared.tls.hash.slot 0).win).tabs (t.shared.tls.hash.slot 0).tab

def RowFull (t : State Tables) (b : Bindings) : Prop :=
  ∀ ref, ∃ i binding, (t.shared.wins (t.shared.tls.hash.slot 0).win).tabs i = t.home ∧
    b ⟨(t.shared.tls.hash.slot 0).win, i, (t.shared.tls.hash.slot 0).row, ref⟩ = some binding

structure Placed (cfg : Config) (t : State Tables) (b : Bindings) (val : PutVal) (ref : Fin 16)
    (t' : State Tables) : Prop where
  free : ∀ i, (t.shared.wins (t.shared.tls.hash.slot 0).win).tabs i = t.home →
    b ⟨(t.shared.tls.hash.slot 0).win, i, (t.shared.tls.hash.slot 0).row, ref⟩ = none
  ok : StoreOk cfg t' (Function.update b (t.shared.tls.hash.slot ref)
    (some ⟨t.shared.tls.hash.rnd, t.shared.tls.hashKey, val.bytes⟩))
  frame : Frame (fun _ => True) t t'
  tls : t'.shared.tls = { t.shared.tls with uid := (t.shared.tls.hash.slot ref).uid }

structure Split (cfg : Config) (t : State Tables) (b : Bindings) (t' : State Tables) : Prop where
  full : RowFull t b
  ok : StoreOk cfg t' b
  tls : t'.shared.tls = t.shared.tls
  tabs_eq : (t'.shared.wins (t.shared.tls.hash.slot 0).win).tabs =
    halved t.home (t.shared.wins (t.shared.tls.hash.slot 0).win).tabsUsed
      (t.shared.wins (t.shared.tls.hash.slot 0).win).tabs
  used_eq : (t'.shared.wins (t.shared.tls.hash.slot 0).win).tabsUsed =
    (t.shared.wins (t.shared.tls.hash.slot 0).win).tabsUsed + 1
  parted_eq : (t'.shared.wins (t.shared.tls.hash.slot 0).win).tabsParted =
    (t.shared.wins (t.shared.tls.hash.slot 0).win).tabsParted + 1
  others : ∀ win', win' ≠ (t.shared.tls.hash.slot 0).win →
    (t'.shared.wins win').tabs = (t.shared.wins win').tabs ∧
    (t'.shared.wins win').tabsUsed = (t.shared.wins win').tabsUsed ∧
    (t'.shared.wins win').tabsParted = (t.shared.wins win').tabsParted

/-- How a put can end the process: there is no table left, or writing a record is refused. -/
def PutRefused (cfg : Config) (t : State Tables) (b : Bindings) (vfs : Nat → Nat) (e : Stop) : Prop :=
  e = .tabOverflow ∧ RowFull t b ∧ (t.shared.wins (t.shared.tls.hash.slot 0).win).tabsUsed = 2048 ∨ Refused cfg vfs e

theorem PutRefused.ne_below {vfs : Nat → Nat} {e : Stop} (refused : PutRefused cfg t b vfs e) : e ≠ .below := by
  rcases refused with ⟨rfl, _⟩ | refused
  · decide
  · exact refused.ne_below

/-- The rest of a put, from where its record is stored. -/
theorem StoreOk.placing_ends {t1 t2 : State Tables} {file file2 : File} {c : Contents} {free2 : List Nat} {ref : Fin 16}
    {pos : Nat} {bytes : List UInt8} (linkable : cfg.Linkable) (ok1 : StoreOk cfg t1 b)
    (moves1 : Moves (.tab (t.shared.tls.hash.slot 0).win t.home) file t t1)
    (homeUsed : t.home < (t.shared.wins (t.shared.tls.hash.slot 0).win).tabsUsed)
    (shows_ : Shows c (t.shared.tls.hash.slot 0).win t.home (t.shared.wins (t.shared.tls.hash.slot 0).win).tabs b)
    (none_ : c (t.shared.tls.hash.slot 0).row ref = none)
    (moves2 : Moves (.tab (t.shared.tls.hash.slot 0).win t.home) file2 t1 t2) (ok2 : TableOk cfg file2 c free2)
    (pending : Pending cfg file2 c free2 pos t.shared.tls.hashKey bytes) : Ends sizeLimit (do
      modifyTab direct (.tab (t.shared.tls.hash.slot 0).win t.home) fun tab =>
        tab.setRef (t.shared.tls.hash.slot 0).row ref ⟨(t.shared.tls.hash.slot 0).tab, t.shared.tls.hash.rnd, pos⟩
      let tab ← tabAt direct (.tab (t.shared.tls.hash.slot 0).win t.home)
      when (tab.tabDataUsed * 20 % 2^32 / 100 < tab.tabDataFree) (tabShrink direct cfg (t.shared.tls.hash.slot 0).win t.home)
      modifyTls fun tls => { tls with uid := (t.shared.tls.hash.slot ref).uid }
      pure true : Operation Tables Bool)
      (fun done t' => done = true ∧ Placed cfg t b (.copy bytes) ref t') (fun e t' => Refused cfg t'.shared.vfs e) t2 := by
  have tabs1 : (t1.shared.wins (t.shared.tls.hash.slot 0).win).tabs =
      (t.shared.wins (t.shared.tls.hash.slot 0).win).tabs := moves1.frame.tabs _
  have used1 : (t1.shared.wins (t.shared.tls.hash.slot 0).win).tabsUsed =
      (t.shared.wins (t.shared.tls.hash.slot 0).win).tabsUsed := moves1.frame.used _
  refine ends_after (modifyTab_run (ok2.held moves2.there) _) ?_
  have placed := @TableOk.placing _ _ _ _ (t.shared.tls.hash.slot 0).row ref _ _ _ (t.shared.tls.hash.slot 0).tab
    t.shared.tls.hash.rnd ok2 pending
  have moves3 := moves2.trans (Moves.set t2 _ ⟨file2.size, file2.tab.setRef (t.shared.tls.hash.slot 0).row ref
    ⟨(t.shared.tls.hash.slot 0).tab, t.shared.tls.hash.rnd, pos⟩⟩)
  have none3 := (moves3.frame.files .old nofun).trans ok1.old
  refine ends_after (tabAt_run (placed.held moves3.there)) ?_
  generalize t2.setFile _ _ = t3 at moves3 none3
  have shrunk : Ends sizeLimit (tabShrink direct cfg (t.shared.tls.hash.slot 0).win t.home) _ _ t3 :=
    tabShrink_ends linkable moves3.there placed none3
  refine ends_step (ends_when (fun _ => shrunk) fun _ => ⟨_, free2, Moves.refl moves3.there, placed⟩)
    (fun _ _ refused => refused) ?_
  rintro _ t4 ⟨file4, free4, moves4, ok4⟩
  have moves := moves3.trans moves4
  have frame : Frame (fun _ => True) t t4 := (moves1.frame.trans moves.frame).mono fun _ _ => trivial
  refine ends_after (modifyTls_run t4 fun tls => { tls with uid := (t.shared.tls.hash.slot ref).uid }) ?_
  have tls : t4.shared.tls = t.shared.tls := moves.tls.trans moves1.tls
  refine ends_pure ⟨rfl, fun i here => shows_.free none_ here, ?_, frame.trans (Frame.withTls t4 _),
    congrArg (fun tls : Tls => { tls with uid := (t.shared.tls.hash.slot ref).uid }) tls⟩
  apply StoreOk.withTls
  refine ok1.change moves ok4 (used1 ▸ homeUsed) (tabs1.symm ▸ ?_) fun slot away => ?_
  · exact shows_.set rfl (fun e there => by rw [none_] at there; cases there)
      (some ⟨t.shared.tls.hash.rnd, t.shared.tls.hashKey, bytes⟩)
  · apply Function.update_of_ne
    rintro rfl
    exact away ⟨rfl, congrFun tabs1 _⟩

theorem StoreOk.split_ends {t1 : State Tables} {file : File} {c : Contents} {free : List Nat} (ok : StoreOk cfg t b)
    (linkable : cfg.Linkable) (ok1 : StoreOk cfg t1 b) (moves1 : Moves (.tab (t.shared.tls.hash.slot 0).win t.home) file t t1)
    (tableOk : TableOk cfg file c free)
    (shows_ : Shows c (t.shared.tls.hash.slot 0).win t.home (t.shared.wins (t.shared.tls.hash.slot 0).win).tabs b)
    (found : firstFree (file.tab.row (t.shared.tls.hash.slot 0).row) = none) :
    Ends sizeLimit (tabPart direct cfg (t.shared.tls.hash.slot 0).win t.home) (fun _ => Split cfg t b)
      (fun e t' => PutRefused cfg t b t'.shared.vfs e) t1 := by
  have homeUsed : t.home < (t.shared.wins (t.shared.tls.hash.slot 0).win).tabsUsed := ok.tabs_lt _ _
  have tabs1 : (t1.shared.wins (t.shared.tls.hash.slot 0).win).tabs =
      (t.shared.wins (t.shared.tls.hash.slot 0).win).tabs := moves1.frame.tabs _
  have used1 : (t1.shared.wins (t.shared.tls.hash.slot 0).win).tabsUsed =
      (t.shared.wins (t.shared.tls.hash.slot 0).win).tabsUsed := moves1.frame.used _
  have full : RowFull t b := fun ref => by
    have some_ := mt tableOk.pos_zero_iff.mpr (firstFree_none found ref)
    rcases Option.ne_none_iff_exists'.mp some_ with ⟨e, there⟩
    exact ⟨e.tab, e.binding, (shows_ _ _ e).mp there⟩
  refine (tabPart_ends linkable moves1.there tableOk (fun there => ((shows_ _ _ _).mp there).1) tabs1 used1
    (ok.tabs_lt _) homeUsed (ok.used_le _) (ok1.absent _ _ (Nat.le_of_eq used1)) ok1.old).mono ?_ ?_
  · intro _ t2 parted
    have ok2 : StoreOk cfg t2 b := ok1.parted (tabs1.symm ▸ shows_) (used1 ▸ homeUsed)
      (by rw [tabs1, used1]; exact parted)
    refine ⟨full, ok2, parted.tls.trans moves1.tls, parted.tabs_eq, parted.used_eq,
      parted.parted_eq.trans (congrArg (· + 1) (moves1.frame.parted _)), fun win' away => ?_⟩
    rcases parted.others win' away with ⟨tabs2, used2, parted2⟩
    exact ⟨tabs2.trans (moves1.frame.tabs win'), used2.trans (moves1.frame.used win'),
      parted2.trans (moves1.frame.parted win')⟩
  · rintro e _ (⟨overflow, two⟩ | refused)
    · exact .inl ⟨overflow, full, two⟩
    · exact .inr refused

/-- A put, whether its value is given or only reserved. -/
theorem putSection_leaves (linkable : cfg.Linkable) (ok : StoreOk cfg t b)
    (fits : cfg.Fits t.shared.tls.hashKey val.bytes) :
    Ends sizeLimit (putSection direct cfg val)
      (fun done t' => done = true ∧ (∃ bytes, val.Leaves cfg bytes ∧ ∃ ref, Placed cfg t b (.copy bytes) ref t') ∨
        done = false ∧ Split cfg t b t')
      (fun e t' => PutRefused cfg t b t'.shared.vfs e) t := by
  refine ends_after (getTls_run t) (ends_after (getWin_run t _) ?_)
  have home : (t.shared.wins (t.shared.tls.hash.slot 0).win).tabs (t.shared.tls.hash.slot 0).tab = t.home := rfl
  have homeUsed := ok.tabs_lt (t.shared.tls.hash.slot 0).win (t.shared.tls.hash.slot 0).tab
  rw [home] at homeUsed ⊢
  rcases ok.getTabMmap_run homeUsed with ⟨t1, file, c, free, run, ok1, moves1, tableOk, shows_⟩
  refine ends_after run (ends_after (tabAt_run (tableOk.held moves1.there)) ?_)
  cases found : firstFree (file.tab.row (t.shared.tls.hash.slot 0).row) with
  | some ref =>
    have none_ := tableOk.pos_zero_iff.mp (firstFree_some found)
    refine ends_step (tabAppend_leaves moves1.there tableOk fits) (fun _ _ refused => .inr refused) ?_
    rintro pos t2 ⟨bytes, leaves, file2, free2, moves2, ok2, pending, _⟩
    refine (ok1.placing_ends linkable moves1 homeUsed shows_ none_ moves2 ok2 pending).mono ?_ fun _ _ refused => .inr refused
    exact fun done t' placed => .inl ⟨placed.1, bytes, leaves, ref, placed.2⟩
  | none =>
    refine ends_step (ok.split_ends linkable ok1 moves1 tableOk shows_ found) (fun _ _ refused => refused) ?_
    exact fun _ t' split => ends_pure (.inr ⟨rfl, split⟩)

theorem putSection_ends (linkable : cfg.Linkable) (ok : StoreOk cfg t b)
    (accepts : cfg.Accepts t.shared.tls.hashKey val) :
    Ends sizeLimit (putSection direct cfg val)
      (fun done t' => done = true ∧ (∃ ref, Placed cfg t b val ref t') ∨ done = false ∧ Split cfg t b t')
      (fun e t' => PutRefused cfg t b t'.shared.vfs e) t := by
  refine (putSection_leaves linkable ok accepts.1).mono ?_ fun _ _ refused => refused
  rintro done t' (⟨done_eq, bytes, leaves, ref, placed⟩ | split)
  · rw [leaves.2 accepts.2] at placed
    exact .inl ⟨done_eq, ref, placed.free, placed.ok, placed.frame, placed.tls⟩
  · exact .inr split

end Put

end SharedHashFile.Store
