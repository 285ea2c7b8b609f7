import Mathlib.Data.Set.Insert
import Mathlib.Order.BooleanAlgebra.Set
import SharedHashFile.Store.CopySpec

namespace SharedHashFile.Store

open ByteMemory Program

theorem mem_allRefs (row : Fin 512) (ref : Fin 16) : (row, ref) ∈ allRefs :=
  List.mem_flatMap.mpr ⟨row, List.mem_finRange row, List.mem_map.mpr ⟨ref, List.mem_finRange ref, rfl⟩⟩

attribute [local irreducible] allRefs

section Parts

open Classical in
noncomputable def Contents.on (c : Contents) (places : Set (Fin 512 × Fin 16)) : Contents := fun row ref =>
  if (row, ref) ∈ places then c row ref else none

variable {c : Contents} {places : Set (Fin 512 × Fin 16)} {row : Fin 512} {ref : Fin 16} {entry : Entry}

theorem Contents.on_some : c.on places row ref = some entry ↔ (row, ref) ∈ places ∧ c row ref = some entry := by
  unfold on
  split
  · rename_i inside
    simp [inside]
  · rename_i outside
    simp [outside]

@[simp] theorem Contents.on_univ : c.on Set.univ = c := funext fun _ => funext fun _ => if_pos trivial

@[simp] theorem Contents.on_empty : c.on ∅ = fun _ _ => none := funext fun _ => funext fun _ => if_neg id

theorem Contents.on_insert : c.on (insert (row, ref) places) = (c.on places).set row ref (c row ref) := by
  funext row' ref'
  rw [set_apply]
  unfold on
  by_cases here : row' = row ∧ ref' = ref
  · rw [if_pos here, here.1, here.2, if_pos (Set.mem_insert _ _)]
  · rw [if_neg here]
    have same : (row', ref') ∈ insert (row, ref) places ↔ (row', ref') ∈ places := by
      rw [Set.mem_insert_iff, Prod.mk.injEq]
      exact or_iff_right here
    by_cases inside : (row', ref') ∈ places
    · rw [if_pos (same.mpr inside), if_pos inside]
    · rw [if_neg fun there => inside (same.mp there), if_neg inside]

theorem Contents.on_compl_insert : c.on (insert (row, ref) places)ᶜ = (c.on placesᶜ).set row ref none := by
  funext row' ref'
  rw [set_apply]
  unfold on
  by_cases here : row' = row ∧ ref' = ref
  · rw [if_pos here, here.1, here.2, if_neg fun away => away (Set.mem_insert _ _)]
  · rw [if_neg here]
    have same : (row', ref') ∈ (insert (row, ref) places)ᶜ ↔ (row', ref') ∈ placesᶜ := by
      rw [Set.mem_compl_iff, Set.mem_compl_iff, Set.mem_insert_iff, Prod.mk.injEq]
      exact not_congr (or_iff_right here)
    by_cases outside : (row', ref') ∈ placesᶜ
    · rw [if_pos (same.mpr outside), if_pos outside]
    · rw [if_neg fun there => outside (same.mp there), if_neg outside]

def through (goes : Set (Fin 512 × Fin 16)) (done : List (Fin 512 × Fin 16)) : Set (Fin 512 × Fin 16) :=
  {place | place ∈ done ∧ place ∈ goes}

variable {goes : Set (Fin 512 × Fin 16)} {done : List (Fin 512 × Fin 16)} {place : Fin 512 × Fin 16}

@[simp] theorem through_nil : through goes [] = ∅ := by
  ext place
  simp [through]

theorem through_allRefs : through goes allRefs = goes := by
  ext ⟨row, ref⟩
  simp [through, mem_allRefs]

theorem through_concat_of_mem (member : place ∈ goes) :
    through goes (done ++ [place]) = insert place (through goes done) := by
  ext other
  simp only [through, Set.mem_ofPred_eq, List.mem_append, List.mem_singleton, Set.mem_insert_iff]
  constructor
  · rintro ⟨before | rfl, goes⟩
    · exact .inr ⟨before, goes⟩
    · exact .inl rfl
  · rintro (rfl | ⟨before, goes⟩)
    · exact ⟨.inr rfl, member⟩
    · exact ⟨.inl before, goes⟩

theorem through_concat_of_not_mem (outside : place ∉ goes) :
    through goes (done ++ [place]) = through goes done := by
  ext other
  simp only [through, Set.mem_ofPred_eq, List.mem_append, List.mem_singleton]
  constructor
  · rintro ⟨before | rfl, goes⟩
    · exact ⟨before, goes⟩
    · exact absurd goes outside
  · rintro ⟨before, goes⟩
    exact ⟨.inl before, goes⟩

end Parts

section Copy

variable {cfg : Config} {t0 t : State Tables} {win : Fin 256} {tab : Nat} {from_ : Ptr} {c : Contents}
  {row : Fin 512} {ref : Fin 16} {entry : Entry}

/-- Two tables, one of which takes records from the other. -/
structure Copying (cfg : Config) (into from_ : Ptr) (t0 : State Tables) (cNew cOld : Contents)
    (t : State Tables) : Prop where
  frame : Frame (fun ptr => ptr = into ∨ ptr = from_) t0 t
  tls : t.shared.tls = t0.shared.tls
  new : ∃ file free, t.map.fileAt into = some file ∧ TableOk cfg file cNew free
  old : ∃ file free, t.map.fileAt from_ = some file ∧ TableOk cfg file cOld free

theorem tabRefCopy_ends {cNew cOld : Contents} (linkable : cfg.Linkable) (away : from_ ≠ .tab win tab)
    (copying : Copying cfg (.tab win tab) from_ t0 cNew cOld t) (some_ : cOld row ref = some entry) :
    Ends sizeLimit (tabRefCopy direct cfg win tab from_ row ref)
      (fun _ => Copying cfg (.tab win tab) from_ t0 (cNew.set row ref (some entry)) (cOld.set row ref none))
      (fun e t' => Refused cfg t'.shared.vfs e) t := by
  obtain ⟨fNew, freeNew, thereNew, okNew⟩ := copying.new
  obtain ⟨fOld, freeOld, thereOld, okOld⟩ := copying.old
  obtain ⟨sameTab, sameRnd, stored⟩ := okOld.live some_
  have accepts : cfg.Accepts entry.key (.copy entry.val) := ⟨stored.record.fits, fun _ => ⟨_, rfl⟩⟩
  refine ends_after (tabAt_run (okNew.held thereNew)) ?_
  refine ends_after (tabAt_run (okOld.held thereOld)) ?_
  refine ends_after (recordLens_run thereOld okOld stored) ?_
  refine ends_after (readKey_run thereOld okOld stored) ?_
  refine ends_after (readVal_run thereOld okOld stored) ?_
  refine ends_step (tabAppend_ends thereNew okNew accepts) (fun _ _ refused => refused) ?_
  rintro pos t1 ⟨fNew1, freeNew1, moves, okNew1, pending⟩
  have thereOld1 : t1.map.fileAt from_ = some fOld := (moves.frame.files _ away).trans thereOld
  obtain ⟨fOld2, freeOld2, run, okOld2⟩ := tabRefMarkAsDeleted_run thereOld1 okOld linkable some_
  refine ends_after run ?_
  have thereNew2 : (t1.setFile from_ fOld2).map.fileAt (.tab win tab) = some fNew1 :=
    (Tables.fileAt_setFile_of_ne _ (Ne.symm away)).trans moves.there
  have copied : ({ fOld.tab.row row ref with pos := pos } : Ref) = ⟨entry.tab, entry.rnd, pos⟩ := by
    rw [← sameTab, ← sameRnd]
  refine ends_run (modifyTab_run (okNew1.held thereNew2) _) fun _ => ⟨?_, moves.tls.trans copying.tls,
    ⟨_, freeNew1, State.fileAt_setFile _ _ _, ?_⟩, fOld2, freeOld2,
    (Tables.fileAt_setFile_of_ne _ away).trans (State.fileAt_setFile _ _ _), okOld2⟩
  · have appended : Frame (fun ptr => ptr = .tab win tab ∨ ptr = from_) t t1 := moves.frame.mono fun _ => .inl
    have marked : Frame (fun ptr => ptr = .tab win tab ∨ ptr = from_) t1 (t1.setFile from_ fOld2) :=
      (Frame.setFile t1 from_ fOld2).mono fun _ => .inr
    exact copying.frame.trans (appended.trans (marked.trans ((Frame.setFile _ _ _).mono fun _ => .inl)))
  · rw [copied]
    exact (okNew1.placing pending).counting

def Step (cfg : Config) (into from_ : Ptr) (t0 : State Tables) (c : Contents) (goes : Set (Fin 512 × Fin 16))
    (done : List (Fin 512 × Fin 16)) : State Tables → Prop :=
  Copying cfg into from_ t0 (c.on (through goes done)) (c.on (through goes done)ᶜ)

variable {goes : Set (Fin 512 × Fin 16)} {done : List (Fin 512 × Fin 16)}

theorem Step.pos_ne_zero (step : Step cfg (.tab win tab) from_ t0 c goes done t) {file : File}
    (there : t.map.fileAt from_ = some file) : (file.tab.row row ref).pos ≠ 0 ↔
      (row, ref) ∉ through goes done ∧ c row ref ≠ none := by
  obtain ⟨file', free, there', ok⟩ := step.old
  rw [there] at there'
  cases there'
  rw [ne_eq, ok.pos_zero_iff]
  unfold Contents.on
  split
  · rename_i outside
    exact ⟨fun some_ => ⟨outside, some_⟩, fun both => both.2⟩
  · rename_i inside
    rw [Set.mem_compl_iff, not_not] at inside
    exact ⟨fun none_ => absurd rfl none_, fun both => absurd inside both.1⟩

theorem Step.copy_ends (linkable : cfg.Linkable) (away : from_ ≠ .tab win tab)
    (step : Step cfg (.tab win tab) from_ t0 c goes done t) (outside : (row, ref) ∉ through goes done)
    (some_ : c row ref = some entry) (member : (row, ref) ∈ goes) :
    Ends sizeLimit (tabRefCopy direct cfg win tab from_ row ref)
      (fun _ => Step cfg (.tab win tab) from_ t0 c goes (done ++ [(row, ref)])) (fun e t' => Refused cfg t'.shared.vfs e) t := by
  have old : c.on (through goes done)ᶜ row ref = some entry := Contents.on_some.mpr ⟨outside, some_⟩
  refine (tabRefCopy_ends linkable away step old).mono (fun _ t' copied => ?_) fun _ _ refused => refused
  unfold Step
  rw [through_concat_of_mem member, Contents.on_insert, Contents.on_compl_insert, some_]
  exact copied

theorem Step.skip (step : Step cfg (.tab win tab) from_ t0 c goes done t)
    (nothing : (row, ref) ∈ goes → (row, ref) ∈ through goes done) :
    Step cfg (.tab win tab) from_ t0 c goes (done ++ [(row, ref)]) t := by
  unfold Step
  by_cases member : (row, ref) ∈ goes
  · rw [through_concat_of_mem member, Set.insert_eq_of_mem (nothing member)]
    exact step
  · rw [through_concat_of_not_mem member]
    exact step

end Copy

section Shrink

variable {cfg : Config} {t : State Tables} {win : Fin 256} {tab : Nat} {c : Contents} {file : File}
  {free : List Nat}

theorem TableOk.opened (ok : TableOk cfg file c free) : Tables.opened file = file := by
  have low := ok.size.low
  have header := ok.header
  exact if_neg (by omega)

theorem newTable_ok : TableOk cfg Tables.newTable (fun _ _ => none) [] := by
  refine ⟨newTab_good, rfl, Nat.le_refl _, (by decide : dataOffset ≤ modPage dataOffset), fun i _ => ?_,
    fun _ => rfl, nofun, nofun, .nil, nofun, nofun, .nil⟩
  change (if i < modPage dataOffset then (0 : UInt8) else 0) = 0
  exact ite_self 0

theorem getTabMmap_ends (there : t.map.fileAt (.tab win tab) = some file) :
    onMap (direct.getTabMmap win tab) t = ⟨.ok (), t.setFile (.tab win tab) (Tables.opened file), 0⟩ := by
  have there : t.map.table win tab = some file := there
  refine onMap_run ?_
  change Tables.getTabMmap win tab t.map = _
  rw [Tables.getTabMmap, bind_ok (get_run _), there]
  rfl

theorem replace_ends (there : t.map.fileAt (.tab win tab) = some file) : onMap (direct.replace win tab) t =
    ⟨.ok (), (t.setFile (.tab win tab) Tables.newTable).setFile .old file, 0⟩ := by
  have there : t.map.table win tab = some file := there
  refine onMap_run ?_
  change Tables.replace win tab t.map = _
  rw [Tables.replace, bind_ok (get_run _), there]
  rfl

def State.withWin {μ : Type} (t : State μ) (win : Fin 256) (f : Win → Win) : State μ :=
  { t with shared := { t.shared with wins := Function.update t.shared.wins win (f (t.shared.wins win)) } }

theorem modifyWin_run {μ : Type} (t : State μ) (win : Fin 256) (f : Win → Win) :
    modifyWin win f t = ⟨.ok (), t.withWin win f, 0⟩ := rfl

@[simp] theorem State.withWin_map {μ : Type} (t : State μ) (win : Fin 256) (f : Win → Win) :
    (t.withWin win f).map = t.map := rfl

theorem State.withWin_wins {μ : Type} (t : State μ) (win win' : Fin 256) (f : Win → Win) :
    (t.withWin win f).shared.wins win' = if win' = win then f (t.shared.wins win) else t.shared.wins win' :=
  Function.update_apply _ _ _ _

theorem Frame.withWin {touched : Ptr → Prop} {f : Win → Win}
    (same : ∀ w, (f w).tabs = w.tabs ∧ (f w).tabsUsed = w.tabsUsed ∧ (f w).tabsParted = w.tabsParted) :
    Frame touched t (t.withWin win f) := by
  have all (win' : Fin 256) : ((t.withWin win f).shared.wins win').tabs = (t.shared.wins win').tabs ∧
      ((t.withWin win f).shared.wins win').tabsUsed = (t.shared.wins win').tabsUsed ∧
      ((t.withWin win f).shared.wins win').tabsParted = (t.shared.wins win').tabsParted := by
    rw [State.withWin_wins]
    split
    · rename_i here
      rw [here]
      exact same _
    · exact ⟨rfl, rfl, rfl⟩
  exact ⟨fun _ _ => rfl, fun win' => (all win').1, fun win' => (all win').2.1, fun win' => (all win').2.2⟩

theorem release_run (there : t.map.fileAt .old = some file) :
    onMap direct.release t = ⟨.ok (), { t with map := { t.map with old := none } }, 0⟩ := by
  have there : t.map.old = some file := there
  refine onMap_run ?_
  change Tables.release t.map = _
  rw [Tables.release, bind_ok (get_run _), there]
  rfl

/-- The loop of a shrink copies every record. -/
theorem shrinkLoop_ends {cfg : Config} (linkable : cfg.Linkable)
    (step : Step cfg (.tab win tab) .old t0 c {place | c place.1 place.2 ≠ none} [] t) :
    Ends sizeLimit (allRefs.forM fun (row, ref) => do
      let tOld ← tabAt direct .old
      when ((tOld.row row ref).pos ≠ 0) (tabRefCopy direct cfg win tab .old row ref))
      (fun _ => Copying cfg (.tab win tab) .old t0 c (fun _ _ => none)) (fun e t' => Refused cfg t'.shared.vfs e) t := by
  refine (ends_forM (Step cfg (.tab win tab) .old t0 c {place | c place.1 place.2 ≠ none}) ?_ step).mono
    (fun _ t' done => ?_) fun _ _ refused => refused
  · rintro done ⟨row, ref⟩ _ t' _ step
    obtain ⟨file, free, there, ok⟩ := step.old
    have occupied := @Step.pos_ne_zero _ _ _ _ _ _ _ row ref _ _ step _ there
    refine ends_after (tabAt_run (ok.held there)) (ends_when (fun used => ?_) fun unused => ?_)
    · obtain ⟨outside, some_⟩ := occupied.mp used
      obtain ⟨entry, found⟩ := Option.ne_none_iff_exists'.mp some_
      exact step.copy_ends linkable (by simp) outside found some_
    · refine step.skip fun some_ => ?_
      by_contra outside
      exact unused (occupied.mpr ⟨outside, some_⟩)
  · have whole : c.on {place | c place.1 place.2 ≠ none} = c := by
      funext row ref
      unfold Contents.on
      split
      · rfl
      · rename_i none_
        exact (not_not.mp none_).symm
    have rest : c.on ({place | c place.1 place.2 ≠ none} : Set (Fin 512 × Fin 16))ᶜ = fun _ _ => none := by
      funext row ref
      unfold Contents.on
      split
      · rename_i none_
        exact not_not.mp none_
      · rfl
    unfold Step at done
    rw [through_allRefs, whole, rest] at done
    exact done

/-- A shrink moves every record to a new table, which takes the place of the old one. -/
theorem tabShrink_ends (linkable : cfg.Linkable) (there : t.map.fileAt (.tab win tab) = some file)
    (ok : TableOk cfg file c free) (none_ : t.map.old = none) :
    Ends sizeLimit (tabShrink direct cfg win tab)
      (fun _ t' => ∃ file' free', Moves (.tab win tab) file' t t' ∧ TableOk cfg file' c free')
      (fun e t' => Refused cfg t'.shared.vfs e) t := by
  refine ends_after (modifyWin_run t win _) ?_
  have counted : Frame (· = .tab win tab) t
      (t.withWin win fun w => { w with tabsShrunk := w.tabsShrunk + 1 }) :=
    Frame.withWin fun _ => ⟨rfl, rfl, rfl⟩
  have tls : (t.withWin win fun w => { w with tabsShrunk := w.tabsShrunk + 1 }).shared.tls = t.shared.tls := rfl
  have there1 : (t.withWin win fun w => { w with tabsShrunk := w.tabsShrunk + 1 }).map.fileAt (.tab win tab) =
      some file := there
  have none1 : (t.withWin win fun w => { w with tabsShrunk := w.tabsShrunk + 1 }).map.old = none := none_
  generalize t.withWin win (fun w => { w with tabsShrunk := w.tabsShrunk + 1 }) = t1 at *
  have mapped := getTabMmap_ends there1
  rw [ok.opened, (ok.held there1).setFile_self] at mapped
  refine ends_after mapped (ends_after (replace_ends there1) ?_)
  let t2 := (t1.setFile (.tab win tab) Tables.newTable).setFile .old file
  have start : Step cfg (.tab win tab) .old t2 c {place | c place.1 place.2 ≠ none} [] t2 := by
    unfold Step
    rw [through_nil, Contents.on_empty, Set.compl_empty, Contents.on_univ]
    refine ⟨Frame.refl _, rfl, ⟨_, [], ?_, newTable_ok⟩, file, free, State.fileAt_setFile _ _ _, ok⟩
    have away : Ptr.tab win tab ≠ .old := nofun
    exact (Tables.fileAt_setFile_of_ne _ away).trans (State.fileAt_setFile _ _ _)
  refine ends_step (shrinkLoop_ends linkable start) (fun _ _ refused => refused) fun _ t3 copied => ?_
  obtain ⟨fNew, freeNew, thereNew, okNew⟩ := copied.new
  obtain ⟨fOld, _, thereOld, _⟩ := copied.old
  have replaced : Frame (fun ptr => ptr = .tab win tab ∨ ptr = .old) t1 t2 :=
    ((Frame.setFile t1 _ _).mono fun _ => .inl).trans ((Frame.setFile _ .old file).mono fun _ => .inr)
  have frame := (counted.mono fun _ => .inl).trans (replaced.trans copied.frame)
  refine ends_run (release_run thereOld) fun _ => ⟨fNew, freeNew, ⟨⟨fun ptr away => ?_, frame.tabs,
    frame.used, frame.parted⟩, copied.tls.trans tls, thereNew⟩, okNew⟩
  cases ptr with
  | old => exact none_.symm
  | tab win' tab' => exact frame.files _ fun touched => away (touched.resolve_right (by simp))

end Shrink

end SharedHashFile.Store
