import SharedHashFile.Store.Assertions
import SharedHashFile.Store.ShrinkSpec

namespace SharedHashFile.Store

open ByteMemory Program

/-- The redirections after the loop of `shf_tab_part` over some of them. -/
def repointed (tabOld tabNew : Nat) : List (Fin 2048) → Bool → (Fin 2048 → Nat) → Fin 2048 → Nat
  | [], _, tabs => tabs
  | tab2 :: rest, tabSwitch, tabs =>
    if tabs tab2 = tabOld then
      repointed tabOld tabNew rest (!tabSwitch)
        (Function.update tabs tab2 (if tabSwitch then tabNew else tabOld))
    else repointed tabOld tabNew rest tabSwitch tabs

section Redirects

variable {tabOld tabNew : Nat} {items : List (Fin 2048)} {tabSwitch : Bool} {tabs : Fin 2048 → Nat}

theorem repointed_cases (i : Fin 2048) : repointed tabOld tabNew items tabSwitch tabs i = tabs i ∨
    tabs i = tabOld ∧ repointed tabOld tabNew items tabSwitch tabs i = tabNew := by
  induction items generalizing tabSwitch tabs with
  | nil => exact .inl rfl
  | cons tab2 rest ih =>
    unfold repointed
    split
    · rename_i here
      rcases @ih (!tabSwitch) (Function.update tabs tab2 (if tabSwitch then tabNew else tabOld)) with same | moved
      · rw [same, Function.update_apply]
        split
        · rename_i this
          rw [this, here]
          cases tabSwitch with
          | true => exact .inr ⟨rfl, rfl⟩
          | false => exact .inl rfl
        · exact .inl rfl
      · rw [Function.update_apply] at moved
        split at moved
        · rename_i this
          rw [this]
          rw [this] at moved
          exact .inr ⟨here, moved.2⟩
        · exact .inr moved
    · exact ih

theorem State.withWin_withWin {μ : Type} (t : State μ) (win : Fin 256) (f g : Win → Win) :
    (t.withWin win f).withWin win g = t.withWin win fun w => g (f w) := by
  simp only [State.withWin, Function.update_self, Function.update_idem]

theorem getWin_run {μ : Type} (t : State μ) (win : Fin 256) :
    getWin win t = ⟨.ok (t.shared.wins win), t, 0⟩ := rfl

theorem partRedirectsOr_run {μ : Type} {e : Stop} {t : State μ} {win : Fin 256} (distinct : items.Nodup)
    (below : ∀ i ∈ items, (t.shared.wins win).tabs i < tabNew) :
    partRedirectsOr e win tabOld tabNew items tabSwitch t = ⟨.ok (), t.withWin win fun w =>
      { w with tabs := repointed tabOld tabNew items tabSwitch w.tabs }, 0⟩ := by
  induction items generalizing t tabSwitch with
  | nil =>
    have same : t.withWin win (fun w => { w with tabs := w.tabs }) = t :=
      congrArg (fun wins => { t with shared := { t.shared with wins := wins } }) (Function.update_eq_self _ _)
    exact (congrArg (fun t => (⟨.ok (), t, 0⟩ : Outcome Stop (State μ) Unit)) same).symm
  | cons tab2 rest ih =>
    obtain ⟨fresh, distinct⟩ := List.nodup_cons.mp distinct
    rw [partRedirectsOr, bind_ok (getWin_run t win), bind_ok (check_true (below _ List.mem_cons_self) _ _)]
    by_cases here : (t.shared.wins win).tabs tab2 = tabOld
    · rw [if_pos here, bind_ok (modifyWin_run t win _), ih distinct, State.withWin_withWin]
      · congr 1
        unfold State.withWin
        congr 3
        simp only [repointed, if_pos here]
      · intro i member
        have away : i ≠ tab2 := fun same => fresh (same ▸ member)
        rw [State.withWin_wins, if_pos rfl]
        exact lt_of_eq_of_lt (Function.update_of_ne away _ _) (below i (List.mem_cons_of_mem _ member))
    · rw [if_neg here, ih distinct fun i member => below i (List.mem_cons_of_mem _ member)]
      congr 1
      unfold State.withWin
      congr 3
      simp only [repointed, if_neg here]

/-- The redirections after the whole loop of `shf_tab_part`. -/
def halved (tabOld tabNew : Nat) (tabs : Fin 2048 → Nat) : Fin 2048 → Nat :=
  repointed tabOld tabNew (List.finRange 2048) false tabs

theorem halved_cases (i : Fin 2048) : halved tabOld tabNew tabs i = tabs i ∨ tabs i = tabOld ∧ halved tabOld tabNew tabs i = tabNew :=
  repointed_cases i

theorem partRedirectsOr_all {μ : Type} {e : Stop} {t : State μ} {win : Fin 256}
    (below : ∀ i, (t.shared.wins win).tabs i < tabNew) :
    partRedirectsOr e win tabOld tabNew (List.finRange 2048) false t =
      ⟨.ok (), t.withWin win fun w => { w with tabs := halved tabOld tabNew w.tabs }, 0⟩ := by
  unfold halved
  have distinct : (List.finRange 2048).Nodup := List.nodup_finRange 2048
  generalize List.finRange 2048 = items at distinct
  exact partRedirectsOr_run distinct fun i _ => below i

theorem partRedirects_all {μ : Type} {t : State μ} {win : Fin 256}
    (below : ∀ i, (t.shared.wins win).tabs i < tabNew) :
    partRedirects win tabOld tabNew (List.finRange 2048) false t =
      ⟨.ok (), t.withWin win fun w => { w with tabs := halved tabOld tabNew w.tabs }, 0⟩ := by
  have run := @partRedirectsOr_all tabOld tabNew μ .internal t win below
  generalize List.finRange 2048 = items at run ⊢
  rw [partRedirectsOr_internal] at run
  exact run

end Redirects

section Part

attribute [local irreducible] allRefs

variable {cfg : Config} {t t' t0 : State Tables} {win : Fin 256} {tab tabOld tabNew : Nat} {from_ : Ptr}
  {c : Contents} {file : File} {free : List Nat}

theorem Step.withWin {goes : Set (Fin 512 × Fin 16)} {done : List (Fin 512 × Fin 16)} {f : Win → Win}
    (step : Step cfg (.tab win tab) from_ t0 c goes done t)
    (same : ∀ w, (f w).tabs = w.tabs ∧ (f w).tabsUsed = w.tabsUsed ∧ (f w).tabsParted = w.tabsParted) :
    Step cfg (.tab win tab) from_ t0 c goes done (t.withWin win f) :=
  ⟨step.frame.trans (Frame.withWin same), step.tls, step.new, step.old⟩

def leaving (c : Contents) (tabs : Fin 2048 → Nat) (tabNew : Nat) : Set (Fin 512 × Fin 16) :=
  {place | ∃ e, c place.1 place.2 = some e ∧ tabs e.tab = tabNew}

theorem partLoop_ends {tabs : Fin 2048 → Nat} (linkable : cfg.Linkable) (differ : tabOld ≠ tabNew)
    (oldSmall : tabOld < 2048) (newSmall : tabNew < 2048) (same : (t0.shared.wins win).tabs = tabs)
    (known : ∀ {row ref e}, c row ref = some e → tabs e.tab = tabOld ∨ tabs e.tab = tabNew)
    (step : Step cfg (.tab win tabNew) (.tab win tabOld) t0 c (leaving c tabs tabNew) [] t) :
    Ends sizeLimit (allRefs.forM fun (row, ref) => partRef direct cfg win tabOld tabNew row ref)
      (fun _ => Copying cfg (.tab win tabNew) (.tab win tabOld) t0 (c.on (leaving c tabs tabNew))
        (c.on (leaving c tabs tabNew)ᶜ)) (fun e t' => Refused cfg t'.shared.vfs e) t := by
  have away : Ptr.tab win tabOld ≠ .tab win tabNew := fun same => differ (Ptr.tab.inj same).2
  refine (ends_forM (Step cfg (.tab win tabNew) (.tab win tabOld) t0 c (leaving c tabs tabNew)) ?_ step).mono
    (fun _ t' done => ?_) fun _ _ refused => refused
  · rintro done ⟨row, ref⟩ _ t' _ step
    rcases step.old with ⟨file, free, there, ok⟩
    have occupied := @Step.pos_ne_zero _ _ _ _ _ _ _ row ref _ _ step _ there
    refine ends_after (tabAt_run (ok.held there)) (ends_when (fun used => ?_) fun unused => ?_)
    · rcases occupied.mp used with ⟨outside, some_⟩
      rcases Option.ne_none_iff_exists'.mp some_ with ⟨entry, found⟩
      have here := (ok.live (Contents.on_some.mpr ⟨outside, found⟩)).1
      have redirection := known found
      refine ends_after (getWin_run t' win) ?_
      rw [here, step.frame.tabs win, same]
      have small : tabs entry.tab < 2048 := by
        rcases redirection with old | new
        · rw [old]
          exact oldSmall
        · rw [new]
          exact newSmall
      refine ends_after (check_true small _ _) (ends_after (check_true redirection _ _) ?_)
      refine ends_ite (fun goes => ?_) fun stays => ?_
      · refine ends_after (modifyWin_run t' win _) ?_
        have counted : Step cfg (.tab win tabNew) (.tab win tabOld) t0 c (leaving c tabs tabNew) done
            (t'.withWin win fun w => { w with tabsPartedNew := w.tabsPartedNew + 1 }) :=
          step.withWin fun _ => ⟨rfl, rfl, rfl⟩
        exact counted.copy_ends linkable away outside found ⟨entry, found, goes⟩
      · refine ends_run (modifyWin_run t' win _) fun _ => ?_
        have counted : Step cfg (.tab win tabNew) (.tab win tabOld) t0 c (leaving c tabs tabNew) done
            (t'.withWin win fun w => { w with tabsPartedOld := w.tabsPartedOld + 1 }) :=
          step.withWin fun _ => ⟨rfl, rfl, rfl⟩
        apply counted.skip
        rintro ⟨entry', found', goes⟩
        rw [found] at found'
        cases found'
        exact absurd goes stays
    · apply step.skip
      rintro ⟨entry, found, goes⟩
      by_contra outside
      apply unused (occupied.mpr ⟨outside, ?_⟩)
      rw [found]
      exact Option.some_ne_none _
  · unfold Step at done
    rw [through_allRefs] at done
    exact done

/-- What a part leaves of its two tables; `tabs` and `used` are the redirections before. -/
structure Parted (cfg : Config) (win : Fin 256) (tabOld used : Nat) (tabs : Fin 2048 → Nat) (c : Contents)
    (t t' : State Tables) : Prop where
  room : used < 2048
  files : ∀ ptr, ptr ≠ .tab win tabOld → ptr ≠ .tab win used → t'.map.fileAt ptr = t.map.fileAt ptr
  tls : t'.shared.tls = t.shared.tls
  tabs_eq : (t'.shared.wins win).tabs = halved tabOld used tabs
  used_eq : (t'.shared.wins win).tabsUsed = used + 1
  parted_eq : (t'.shared.wins win).tabsParted = (t.shared.wins win).tabsParted + 1
  others : ∀ win', win' ≠ win → (t'.shared.wins win').tabs = (t.shared.wins win').tabs ∧
    (t'.shared.wins win').tabsUsed = (t.shared.wins win').tabsUsed ∧
    (t'.shared.wins win').tabsParted = (t.shared.wins win').tabsParted
  new : ∃ file free, t'.map.fileAt (.tab win used) = some file ∧
    TableOk cfg file (c.on (leaving c (t'.shared.wins win).tabs used)) free
  old : ∃ file free, t'.map.fileAt (.tab win tabOld) = some file ∧
    TableOk cfg file (c.on (leaving c (t'.shared.wins win).tabs used)ᶜ) free

theorem create_run (absent : t.map.table win tab = none) : onMap (direct.create win tab) t =
    ⟨.ok (), t.setFile (.tab win tab) (Tables.resized none (modPage dataOffset)), 0⟩ := by
  refine onMap_run ?_
  change (⟨.ok (), t.map.set win tab (some (Tables.resized (t.map.table win tab) (modPage dataOffset))), 0⟩ :
    Outcome Stop Tables Unit) = _
  rw [absent]
  rfl

/-- A part moves the records of every second redirection to a new table. -/
theorem tabPart_ends {used : Nat} {tabs : Fin 2048 → Nat} (linkable : cfg.Linkable)
    (there : t.map.fileAt (.tab win tabOld) = some file) (ok : TableOk cfg file c free)
    (known : ∀ {row ref e}, c row ref = some e → tabs e.tab = tabOld)
    (tabs_eq : (t.shared.wins win).tabs = tabs) (used_eq : (t.shared.wins win).tabsUsed = used)
    (below : ∀ i, tabs i < used) (oldBelow : tabOld < used) (used_le : used ≤ 2048)
    (absent : t.map.table win used = none) (none_ : t.map.old = none) :
    Ends sizeLimit (tabPart direct cfg win tabOld) (fun _ t' => Parted cfg win tabOld used tabs c t t')
      (fun e t' => e = .tabOverflow ∧ used = 2048 ∨ Refused cfg t'.shared.vfs e) t := by
  refine ends_after (getWin_run t win) ?_
  rw [used_eq, Nat.mod_eq_of_lt (show used < 2^16 by omega)]
  refine ends_after (create_run absent) ?_
  have mapped := getTabMmap_ends (t.fileAt_setFile (.tab win used) (Tables.resized none (modPage dataOffset)))
  rw [State.setFile_setFile, ← Tables.newTable] at mapped
  refine ends_after mapped (ends_after (modifyWin_run _ win _) ?_)
  generalize start : (t.setFile (.tab win used) Tables.newTable).withWin win _ = t1
  have tabs1 : (t1.shared.wins win).tabs = tabs := by
    rw [← start, State.withWin_wins, if_pos rfl, ← tabs_eq]
    rfl
  have used1 : (t1.shared.wins win).tabsUsed = used + 1 := by
    rw [← start, State.withWin_wins, if_pos rfl]
    change ((t.shared.wins win).tabsUsed + 1) % 2^32 = _
    rw [used_eq]
    omega
  have parted1 : (t1.shared.wins win).tabsParted = (t.shared.wins win).tabsParted + 1 := by
    rw [← start, State.withWin_wins, if_pos rfl]
    rfl
  have others1 (win' : Fin 256) (away : win' ≠ win) : t1.shared.wins win' = t.shared.wins win' := by
    rw [← start, State.withWin_wins, if_neg away]
    rfl
  have files1 (ptr : Ptr) (away : ptr ≠ .tab win used) : t1.map.fileAt ptr = t.map.fileAt ptr := by
    rw [← start]
    exact Tables.fileAt_setFile_of_ne _ away
  have new1 : t1.map.fileAt (.tab win used) = some Tables.newTable := by
    rw [← start, State.withWin_map]
    exact State.fileAt_setFile _ _ _
  have tls1 : t1.shared.tls = t.shared.tls := by
    rw [← start]
    rfl
  clear start mapped
  refine ends_bind (ends_check (fun room => ?_) fun full => .inl ⟨rfl, by omega⟩)
  have differ : Ptr.tab win tabOld ≠ .tab win used := fun same => Nat.ne_of_lt oldBelow (Ptr.tab.inj same).2
  have below1 (i : Fin 2048) : (t1.shared.wins win).tabs i < used := by
    rw [tabs1]
    exact below i
  have run := @partRedirects_all tabOld used _ t1 win below1
  generalize List.finRange 2048 = items at run
  refine ends_after run ?_
  generalize begin : t1.withWin win _ = t2
  have tabs2 : (t2.shared.wins win).tabs = halved tabOld used tabs := by
    rw [← begin, State.withWin_wins, if_pos rfl, ← tabs1]
  have here : t2.map = t1.map := by
    rw [← begin, State.withWin_map]
  have others2 (win' : Fin 256) (away : win' ≠ win) : t2.shared.wins win' = t.shared.wins win' := by
    rw [← begin, State.withWin_wins, if_neg away]
    exact others1 win' away
  have used2 : (t2.shared.wins win).tabsUsed = used + 1 := by
    rw [← begin, State.withWin_wins, if_pos rfl, ← used1]
  have parted2 : (t2.shared.wins win).tabsParted = (t.shared.wins win).tabsParted + 1 := by
    rw [← begin, State.withWin_wins, if_pos rfl, ← parted1]
  have tls2 : t2.shared.tls = t.shared.tls := by
    rw [← begin, ← tls1]
    rfl
  clear begin run items
  rw [← here] at files1 new1
  have step : Step cfg (.tab win used) (.tab win tabOld) t2 c (leaving c (halved tabOld used tabs) used) [] t2 := by
    unfold Step
    rw [through_nil, Contents.on_empty, Set.compl_empty, Contents.on_univ]
    exact ⟨Frame.refl t2, rfl, ⟨_, [], new1, newTable_ok⟩, file, free, (files1 _ differ).trans there, ok⟩
  have redirected {row : Fin 512} {ref : Fin 16} {e : Entry} (found : c row ref = some e) :
      halved tabOld used tabs e.tab = tabOld ∨ halved tabOld used tabs e.tab = used := by
    rcases repointed_cases e.tab with same | moved
    · left
      exact same.trans (known found)
    · right
      exact moved.2
  refine ends_step (partLoop_ends linkable (Nat.ne_of_lt oldBelow) (by omega) (by omega) tabs2 redirected step)
    (fun _ _ refused => .inr refused) fun _ t3 copied => ?_
  rcases copied.new with ⟨fileNew, freeNew, thereNew, okNew⟩
  rcases copied.old with ⟨fileOld, freeOld, thereOld, okOld⟩
  have none3 : t3.map.old = none := (copied.frame.files .old (by simp)).trans ((files1 .old nofun).trans none_)
  refine (tabShrink_ends linkable thereOld okOld none3).mono ?_ fun _ _ refused => .inr refused
  rintro _ t4 ⟨fileOld', freeOld', moves, okOld'⟩
  have tabs4 : (t4.shared.wins win).tabs = halved tabOld used tabs :=
    (moves.frame.tabs win).trans ((copied.frame.tabs win).trans tabs2)
  refine ⟨room, fun ptr awayOld awayNew => ?_, moves.tls.trans (copied.tls.trans tls2), tabs4,
    (moves.frame.used win).trans ((copied.frame.used win).trans used2),
    (moves.frame.parted win).trans ((copied.frame.parted win).trans parted2), fun win' away => ⟨?_, ?_, ?_⟩, ?_, ?_⟩
  · have copies : ¬(ptr = .tab win used ∨ ptr = .tab win tabOld) := not_or.mpr ⟨awayNew, awayOld⟩
    exact (moves.frame.files ptr awayOld).trans ((copied.frame.files ptr copies).trans (files1 ptr awayNew))
  · exact ((moves.frame.tabs win').trans (copied.frame.tabs win')).trans (congrArg Win.tabs (others2 win' away))
  · exact ((moves.frame.used win').trans (copied.frame.used win')).trans (congrArg Win.tabsUsed (others2 win' away))
  · exact ((moves.frame.parted win').trans (copied.frame.parted win')).trans
      (congrArg Win.tabsParted (others2 win' away))
  · rw [tabs4]
    exact ⟨fileNew, freeNew, (moves.frame.files _ (Ne.symm differ)).trans thereNew, okNew⟩
  · rw [tabs4]
    exact ⟨fileOld', freeOld', moves.there, okOld'⟩

end Part

end SharedHashFile.Store
