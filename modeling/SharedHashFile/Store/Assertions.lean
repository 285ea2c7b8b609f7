import SharedHashFile.Store.Sections

namespace SharedHashFile.Store

open Program

section Assertions

variable {μ : Type} (m : Mapping μ) (cfg : Config) (e : Stop)

/-- The loop of `shf_tab_part` over the redirects, with `e` where its assertion fails. -/
def partRedirectsOr (win : Fin 256) (tabOld tabNew : Nat) : List (Fin 2048) → Bool → Operation μ Unit
  | [], _ => pure ()
  | tab2 :: rest, tabSwitch => do
    let w ← getWin win
    check (w.tabs tab2 < tabNew) e
    if w.tabs tab2 = tabOld then do
      modifyWin win fun w =>
        { w with tabs := Function.update w.tabs tab2 (if tabSwitch then tabNew else tabOld) }
      partRedirectsOr win tabOld tabNew rest (!tabSwitch)
    else partRedirectsOr win tabOld tabNew rest tabSwitch

/-- The body of the loop of `shf_tab_part` over the refs, with `e` where its assertions fail. -/
def partRefOr (win : Fin 256) (tabOld tabNew : Nat) (row : Fin 512) (ref : Fin 16) : Operation μ Unit := do
  let tOld ← tabAt m (.tab win tabOld)
  when ((tOld.row row ref).pos ≠ 0) do
    let w ← getWin win
    let tab := w.tabs (tOld.row row ref).tab
    check (tab < 2048) e
    check (tab = tabOld ∨ tab = tabNew) e
    if tab = tabNew then do
      modifyWin win fun w => { w with tabsPartedNew := w.tabsPartedNew + 1 }
      tabRefCopy m cfg win tabNew (.tab win tabOld) row ref
    else modifyWin win fun w => { w with tabsPartedOld := w.tabsPartedOld + 1 }

/-- `shf_tab_part`, with `e` where the assertions of its loops fail. -/
def tabPartOr (win : Fin 256) (tabOld : Nat) : Operation μ Unit := do
  let w ← getWin win
  let tabNew := w.tabsUsed % 2^16
  onMap (m.create win tabNew)
  onMap (m.getTabMmap win tabNew)
  modifyWin win fun w => { w with tabsParted := w.tabsParted + 1, tabsUsed := (w.tabsUsed + 1) % 2^32 }
  check (tabNew < 2048) .tabOverflow
  partRedirectsOr e win tabOld tabNew (List.finRange 2048) false
  allRefs.forM fun (row, ref) => partRefOr m cfg e win tabOld tabNew row ref
  tabShrink m cfg win tabOld

def putSectionOr (val : PutVal) : Operation μ Bool := do
  let tls ← getTls
  let slot := tls.hash.slot 0
  let w ← getWin slot.win
  let tab := w.tabs slot.tab
  onMap (m.getTabMmap slot.win tab)
  let t ← tabAt m (.tab slot.win tab)
  match firstFree (t.row slot.row) with
  | some ref => do
    let pos ← tabAppend m cfg slot.win tab tls.hashKey val t.tabUsed
    modifyTab m (.tab slot.win tab) fun t => t.setRef slot.row ref ⟨slot.tab, tls.hash.rnd, pos⟩
    let t ← tabAt m (.tab slot.win tab)
    when (t.tabDataUsed * 20 % 2^32 / 100 < t.tabDataFree) (tabShrink m cfg slot.win tab)
    modifyTls fun tls => { tls with uid := { slot with ref := ref }.uid }
    pure true
  | none => do
    tabPartOr m cfg e slot.win tab
    pure false

def Work.runOr : Work → Operation μ (Option Nat)
  | .put val => do
    let done ← putSectionOr m cfg e val
    pure (if done then some retKeyPut else none)
  | .find uid what => do
    let result ← findKeyInternal m cfg uid what
    pure (some result)

/-- `runSections`, with `e` where the assertions of a part's loops fail. -/
def runSectionsOr (switch : Nat → μ → μ) : List Section → Operation μ (List (Option Nat × Tls))
  | [] => pure []
  | part :: rest => do
    onMap (modify (switch part.process))
    modifyTls fun _ => part.tls
    let result ← part.work.runOr m cfg e
    let tls ← getTls
    let results ← runSectionsOr switch rest
    pure ((result, tls) :: results)

theorem partRedirectsOr_internal (win : Fin 256) (tabOld tabNew : Nat) (items : List (Fin 2048)) (tabSwitch : Bool) :
    (partRedirectsOr .internal win tabOld tabNew items tabSwitch : Operation μ Unit) =
      partRedirects win tabOld tabNew items tabSwitch := by
  induction items generalizing tabSwitch with
  | nil => rfl
  | cons tab2 rest ih => simp only [partRedirectsOr, partRedirects, ih]

theorem tabPartOr_internal : tabPartOr m cfg .internal = tabPart m cfg := by
  funext win tabOld
  unfold tabPartOr tabPart
  simp only [partRedirectsOr_internal]
  rfl

theorem putSectionOr_internal (val : PutVal) : putSectionOr m cfg .internal val = putSection m cfg val := by
  have part := tabPartOr_internal m cfg
  unfold putSectionOr putSection
  generalize tabPartOr m cfg .internal = other at part ⊢
  subst part
  rfl

theorem Work.runOr_internal (work : Work) : work.runOr m cfg .internal = work.run m cfg := by
  cases work with
  | put val => exact congrArg (· >>= _) (putSectionOr_internal m cfg val)
  | find uid what => rfl

theorem runSectionsOr_internal (switch : Nat → μ → μ) (sections : List Section) :
    runSectionsOr m cfg .internal switch sections = runSections m cfg switch sections := by
  induction sections with
  | nil => rfl
  | cons part rest ih => simp only [runSectionsOr, runSections, Work.runOr_internal, ih]

end Assertions

end SharedHashFile.Store
