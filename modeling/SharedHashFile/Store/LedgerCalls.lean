import SharedHashFile.Store.LedgerParts

namespace SharedHashFile.Store

open ByteMemory Program

attribute [local irreducible] allRefs halved

/-- The check of `shf_put_key_val` for a shrink. -/
def Tab.Shrinks (t : Tab) : Prop := t.tabDataUsed * 20 % 2^32 / 100 < t.tabDataFree

instance (t : Tab) : Decidable t.Shrinks := inferInstanceAs (Decidable (_ < _))

/-- A table with a record more, before it is looked at for a shrink. -/
structure PutInto (sized : Prop) (cfg : Config) (slot : Slot) (rnd needed : Nat) (file file' : File) : Prop where
  row_eq : ∃ ref pos, (file.tab.row slot.row ref).pos = 0 ∧
    file'.tab.row = (file.tab.setRef slot.row ref ⟨slot.tab, rnd, pos⟩).row ∧ (sized → pos ≠ 0)
  refsUsed : file'.tab.tabRefsUsed = (file.tab.tabRefsUsed + 1) % 2^32
  dataUsed : file'.tab.tabDataUsed = (file.tab.tabDataUsed + needed) % 2^32
  freed : file'.tab.tabDataFree = file.tab.freeAfter cfg needed
  fit : sized → Fit file'

theorem PutInto.dataFree {sized : Prop} {cfg : Config} {slot : Slot} {rnd needed : Nat} {file file' : File}
    (into : PutInto sized cfg slot rnd needed file file') (variable_ : cfg.lenLen ≠ 0) :
    file'.tab.tabDataFree = file.tab.tabDataFree := into.freed.trans (Tab.freeAfter_variable variable_)

theorem Ledger.Appended.putInto {sized : Prop} {cfg : Config} {needed pos : Nat} {slot : Slot} {rnd : Nat} {ref : Fin 16}
    {file file' : File} (appended : Ledger.Appended sized cfg needed pos file file') (free : (file.tab.row slot.row ref).pos = 0) :
    PutInto sized cfg slot rnd needed file { file' with tab := file'.tab.setRef slot.row ref ⟨slot.tab, rnd, pos⟩ } := by
  refine ⟨⟨ref, pos, free, ?_, fun sized => (appended.fit sized).2⟩, appended.refsUsed, appended.dataUsed,
    appended.freed, fun sized => ?_⟩
  · change (file'.tab.setRef _ _ _).row = _
    unfold Tab.setRef
    rw [appended.row]
  · rcases (appended.fit sized).1 with ⟨size, header, low, high⟩
    exact ⟨size, header, low, high⟩

def MaybeShrunk (sized : Prop) (cfg : Config) (shrinks : Prop) (file file' : File) : Prop :=
  shrinks ∧ Filled sized cfg file.tab file.tab.uses allRefs file' ∨ ¬ shrinks ∧ file' = file

def FindKeyAnd.Acts (what : FindKeyAnd) (sized : Prop) (cfg : Config) (row : Fin 512) (ref : Fin 16) (file file' : File) : Prop :=
  match what with
  | .copyKey | .copyVal => MaybeShrunk sized cfg (file.tab.tabDataUsed / 4 < file.tab.tabDataFree) file file'
  | .delete => file' = file ∨ ∃ len data first, file' = file.unreffed row ref len data first
  | .addr | .atomAdd | .update => ∃ data, file' = file.withData data

def FindKeyAnd.Copies : FindKeyAnd → Prop
  | .copyKey | .copyVal => True
  | .addr | .atomAdd | .delete | .update => False

namespace Ledger

variable {μ : Type} {m : Mapping μ} {limit : Nat} (b : Ledger m limit)

structure Becomes (keep : Fin 256 → Nat → Prop) (ptr : Ptr) (file : File) (s s' : State μ) : Prop where
  within : b.Within keep (· = ptr) s s'
  at_ : b.At keep ptr file s'

variable {b} {cfg : Config} {keep : Fin 256 → Nat → Prop} {ptr : Ptr} {file file' : File} {s s' s'' : State μ}
  {win : Fin 256} {tab : Nat}

theorem Changed.becomes (changed : b.Changed keep ptr file s s') (seen : Seen keep ptr) : b.Becomes keep ptr file s s' :=
  ⟨changed.within, changed.at_ seen⟩

theorem At.becomes (at_ : b.At keep ptr file s) (within : b.Within keep (fun _ => False) s s') : b.Becomes keep ptr file s s' :=
  ⟨within.mono fun _ => False.elim, within.at_ at_ not_false⟩

theorem Becomes.trans (first : b.Becomes keep ptr file s s') (second : b.Becomes keep ptr file' s' s'') :
    b.Becomes keep ptr file' s s'' := ⟨first.within.trans second.within, second.at_⟩

theorem modifyTls_ends {E : Stop → State μ → Prop} (known : b.Known keep s.map) (f : Tls → Tls) :
    Ends limit (modifyTls f) (fun _ s' => b.Within keep (fun _ => False) s s') E s :=
  fun _ => ⟨known, fun _ _ => rfl, fun _ => rfl, fun _ => rfl⟩

theorem getTls_ends {E : Stop → State μ → Prop} : Ends limit getTls (fun _ s' => s' = s) E s := fun _ => rfl

section Finds

variable {slot : Slot} {rnd : Nat} {E : Stop → State μ → Prop}

theorem loadRecord_ends {pos : Nat} (at_ : b.At keep (.tab win tab) file s) : Ends limit (loadRecord m cfg win tab pos)
    (fun _ s' => b.Within keep (fun _ => False) s s') (fun _ _ => True) s := by
  apply ends_step (tabAt_ends at_) fun _ _ _ => trivial
  rintro t s' ⟨rfl, _⟩
  apply ends_bind
  apply ends_check
  · intro _
    apply ends_step (access_ends at_) fun _ _ _ => trivial
    rintro _ s' ⟨rfl, _⟩
    apply ends_step (recordLens_ends at_) fun _ _ _ => trivial
    rintro ⟨keyLen, valLen⟩ s' rfl
    apply ends_bind
    apply ends_check
    · intro _
      apply ends_bind
      apply ends_check
      · intro _
        apply ends_step (modifyTls_ends at_.known _) fun _ _ stops => stops
        exact fun _ _ within => ends_pure within
      · exact fun _ => trivial
    · exact fun _ => trivial
  · exact fun _ => trivial

theorem searchRow_ends {refs : List (Fin 16)} (at_ : b.At keep (.tab slot.win tab) file s) :
    Ends limit (searchRow m cfg slot tab rnd refs) (fun found s' => b.Within keep (fun _ => False) s s' ∧
      ∀ record, found = some record → (file.tab.row slot.row record.ref).pos ≠ 0) (fun _ _ => True) s := by
  induction refs generalizing s with
  | nil => exact ends_pure ⟨Within.refl at_.known, nofun⟩
  | cons ref rest ih =>
    have again {s1 : State μ} (within : b.Within keep (fun _ => False) s s1) :
        Ends limit (searchRow m cfg slot tab rnd rest) (fun found s' => b.Within keep (fun _ => False) s s' ∧
          ∀ record, found = some record → (file.tab.row slot.row record.ref).pos ≠ 0) (fun _ _ => True) s1 := by
      apply (ih (within.at_ at_ not_false)).mono _ fun _ _ stops => stops
      rintro found s2 ⟨within2, used⟩
      exact ⟨within.trans within2, used⟩
    have counted {s1 : State μ} {f : Win → Win} (within : b.Within keep (fun _ => False) s s1)
        (same : ∀ w, (f w).tabs = w.tabs ∧ (f w).tabsUsed = w.tabsUsed) :
        b.Within keep (fun _ => False) s (s1.withWin slot.win f) := within.trans (Within.withWin within.known same)
    apply ends_step (tabAt_ends at_) fun _ _ _ => trivial
    rintro t s' ⟨rfl, rfl⟩
    apply ends_ite
    · rintro ⟨occupied, _⟩
      apply ends_step (loadRecord_ends at_) fun _ _ stops => stops
      rintro ⟨keyLen, valLen⟩ s1 within1
      apply ends_step getTls_ends fun _ (_ : State μ) (stops : True) => stops
      rintro tls s1' rfl
      apply ends_ite
      · intro _
        apply ends_after (modifyWin_run s1' slot.win _)
        exact again (counted within1 fun _ => ⟨rfl, rfl⟩)
      · intro _
        apply ends_step (readMem_ends (within1.at_ at_ not_false)) fun _ _ _ => trivial
        rintro key s2 rfl
        apply ends_ite
        · intro _
          apply ends_after (modifyWin_run s2 slot.win _)
          exact again (counted within1 fun _ => ⟨rfl, rfl⟩)
        · intro _
          refine ends_pure ⟨within1, fun record same => ?_⟩
          cases same
          exact occupied
    · exact fun _ => again (Within.refl at_.known)

theorem findKeyOrUid_ends {uid : Nat} (at_ : b.At keep (.tab slot.win tab) file s) :
    Ends limit (findKeyOrUid m cfg uid slot tab) (fun found s' => b.Within keep (fun _ => False) s s' ∧
      ∀ record, found = some record → (file.tab.row slot.row record.ref).pos ≠ 0) (fun _ _ => True) s := by
  apply ends_ite
  · intro _
    apply ends_step (modifyTls_ends at_.known _) fun _ (_ : State μ) (stops : True) => stops
    intro _ s1 within1
    apply ends_step getTls_ends fun _ (_ : State μ) (stops : True) => stops
    rintro tls s1' rfl
    apply ends_step (searchRow_ends (within1.at_ at_ not_false)) fun _ _ stops => stops
    rintro found s2 ⟨within2, used⟩
    cases found with
    | none => exact ends_pure ⟨within1.trans within2, used⟩
    | some record =>
      apply ends_step (modifyTls_ends within2.known _) fun _ (_ : State μ) (stops : True) => stops
      exact fun _ s3 within3 => ends_pure ⟨within1.trans (within2.trans within3), used⟩
  · intro _
    apply ends_step (tabAt_ends at_) fun _ _ _ => trivial
    rintro t s' ⟨rfl, rfl⟩
    apply ends_ite
    · rintro ⟨occupied, _⟩
      apply ends_step (loadRecord_ends at_) fun _ _ stops => stops
      rintro ⟨keyLen, valLen⟩ s1 within1
      refine ends_pure ⟨within1, fun record same => ?_⟩
      cases same
      exact occupied
    · exact fun _ => ends_pure ⟨Within.refl at_.known, nofun⟩

theorem copyVal_ends {valLen : Nat} (at_ : b.At keep (.tab win tab) file s) : Ends limit (copyVal m win tab valLen)
    (fun _ s' => b.Within keep (fun _ => False) s s') (fun _ _ => True) s := by
  apply ends_step getTls_ends fun _ (_ : State μ) (stops : True) => stops
  rintro tls s1 rfl
  apply ends_step (readMem_ends at_) fun _ _ _ => trivial
  rintro val s1 rfl
  exact modifyTls_ends at_.known _

theorem copyKey_ends {keyLen : Nat} (at_ : b.At keep (.tab win tab) file s) : Ends limit (copyKey m win tab keyLen)
    (fun _ s' => b.Within keep (fun _ => False) s s') (fun _ _ => True) s := by
  apply ends_step getTls_ends fun _ (_ : State μ) (stops : True) => stops
  rintro tls s1 rfl
  apply ends_step (readMem_ends at_) fun _ _ _ => trivial
  rintro val s1 rfl
  exact modifyTls_ends at_.known _

theorem maybeShrink_ends {shrinks : Prop} [Decidable shrinks] (at_ : b.At keep (.tab win tab) file s)
    (none_ : (b.tables s.map).old = none) : Ends limit (when shrinks (tabShrink m cfg win tab))
      (fun _ s' => ∃ file', b.Becomes keep (.tab win tab) file' s s' ∧ MaybeShrunk b.sized cfg shrinks file file')
      (fun e _ => b.Stops cfg e) s := by
  apply ends_when
  · intro due
    apply (tabShrink_ends at_ none_).mono _ fun _ _ stops => stops
    rintro _ s' ⟨within, file', at', filled⟩
    exact ⟨file', ⟨within, at'⟩, .inl ⟨due, filled⟩⟩
  · exact fun early => ⟨file, at_.becomes (Within.refl at_.known), .inr ⟨early, rfl⟩⟩

theorem considerTabShrink_ends (at_ : b.At keep (.tab win tab) file s) (none_ : (b.tables s.map).old = none) :
    Ends limit (considerTabShrink m cfg win tab) (fun _ s' => ∃ file', b.Becomes keep (.tab win tab) file' s s' ∧
      MaybeShrunk b.sized cfg (file.tab.tabDataUsed / 4 < file.tab.tabDataFree) file file') (fun e _ => b.Stops cfg e) s := by
  apply ends_step (tabAt_ends at_) fun _ _ => Stops.of_ne
  rintro t s' ⟨rfl, rfl⟩
  exact maybeShrink_ends at_ none_

theorem writeMem_becomes {off : Nat} {bytes : List UInt8} (at_ : b.At keep ptr file s) :
    Ends limit (writeMem m ptr off bytes) (fun _ s' => ∃ data, b.Becomes keep ptr (file.withData data) s s')
      (fun e _ => e ≠ .internal) s := by
  apply (writeMem_ends at_).mono _ fun _ _ other => other
  rintro _ s' ⟨data, changed⟩
  exact ⟨data, changed.becomes at_.seen⟩

theorem atomAdd_ends {valLen : Nat} (at_ : b.At keep (.tab win tab) file s) : Ends limit (atomAdd m win tab valLen)
    (fun _ s' => ∃ data, b.Becomes keep (.tab win tab) (file.withData data) s s') (fun _ _ => True) s := by
  apply ends_ite
  · intro _
    apply ends_step getTls_ends fun _ (_ : State μ) (stops : True) => stops
    rintro tls s1 rfl
    apply ends_step (readMem_ends at_) fun _ _ _ => trivial
    rintro bytes s1 rfl
    apply ends_step (writeMem_becomes at_) fun _ _ _ => trivial
    rintro _ s2 ⟨data, changed⟩
    apply ends_step (modifyTls_ends changed.at_.known _) fun _ (_ : State μ) (stops : True) => stops
    exact fun _ s3 within => ends_pure ⟨data, changed.trans (changed.at_.becomes within)⟩
  · exact fun _ => ends_pure ⟨file.tab.data, at_.becomes (Within.refl at_.known)⟩

theorem updCallbackCopy_ends {valLen : Nat} (at_ : b.At keep (.tab win tab) file s) :
    Ends limit (updCallbackCopy m win tab valLen)
      (fun _ s' => ∃ data, b.Becomes keep (.tab win tab) (file.withData data) s s') (fun _ _ => True) s := by
  apply ends_step (modifyTls_ends at_.known _) fun _ (_ : State μ) (stops : True) => stops
  intro _ s1 within1
  apply ends_step getTls_ends fun _ (_ : State μ) (stops : True) => stops
  rintro tls s1' rfl
  apply ends_bind
  apply ends_check
  · intro _
    have written : Ends limit (when (valLen = tls.updCallbackCopyVal.length)
        (writeMem m (.tab win tab) (tls.valAddr.getD 0) tls.updCallbackCopyVal))
        (fun _ s2 => ∃ data, b.Becomes keep (.tab win tab) (file.withData data) s s2) (fun _ _ => True) s1' := by
      have at1 := within1.at_ at_ not_false
      apply ends_when
      · intro _
        apply (writeMem_becomes at1).mono _ fun _ _ _ => trivial
        rintro _ s2 ⟨data, changed⟩
        exact ⟨data, (at_.becomes within1).trans changed⟩
      · exact fun _ => ⟨file.tab.data, at_.becomes within1⟩
    apply ends_step written fun _ _ stops => stops
    rintro _ s2 ⟨data, changed⟩
    apply ends_step (modifyTls_ends changed.at_.known _) fun _ (_ : State μ) (stops : True) => stops
    exact fun _ s3 within => ends_pure ⟨data, changed.trans (changed.at_.becomes within)⟩
  · exact fun _ => trivial

def Deletes (file file' : File) (row : Fin 512) (ref : Fin 16) : Prop :=
  file' = file ∨ ∃ len data first, file' = file.unreffed row ref len data first

theorem deleteFound_ends {slot : Slot} {record : Found} (at_ : b.At keep (.tab slot.win tab) file s) :
    Ends limit (deleteFound m cfg slot tab record) (fun _ s' => ∃ file', b.Becomes keep (.tab slot.win tab) file' s s' ∧
      Deletes file file' slot.row record.ref) (fun _ _ => True) s := by
  apply ends_step (tabRefMarkAsDeleted_ends at_) fun _ _ _ => trivial
  rintro _ s1 ⟨data, first, changed⟩
  apply (modifyTls_ends changed.known _).mono _ fun _ (_ : State μ) (stops : True) => stops
  intro _ s2 within
  have at1 := changed.at_ at_.seen
  exact ⟨_, (changed.becomes at_.seen).trans (at1.becomes within), .inr ⟨_, data, first, rfl⟩⟩

theorem deleteKey_ends {slot : Slot} {record : Found} (at_ : b.At keep (.tab slot.win tab) file s) :
    Ends limit (deleteKey m cfg slot tab record) (fun _ s' => ∃ file', b.Becomes keep (.tab slot.win tab) file' s s' ∧
      Deletes file file' slot.row record.ref) (fun _ _ => True) s := by
  apply ends_step getTls_ends fun _ (_ : State μ) (stops : True) => stops
  rintro tls s1 rfl
  apply ends_ite
  · intro _
    apply ends_step (readU32_ends at_) fun _ _ _ => trivial
    rintro ttl s1 rfl
    apply ends_ite
    · intro _
      apply ends_step (modifyTls_ends at_.known _) fun _ (_ : State μ) (stops : True) => stops
      exact fun _ s2 within => ends_pure ⟨file, at_.becomes within, .inl rfl⟩
    · intro _
      apply ends_step (copyVal_ends at_) fun _ _ stops => stops
      intro _ s2 within
      apply ends_step (deleteFound_ends (within.at_ at_ not_false)) fun _ _ stops => stops
      rintro _ s3 ⟨file', changed, deletes⟩
      exact ends_pure ⟨file', (at_.becomes within).trans changed, deletes⟩
  · intro _
    apply ends_step (deleteFound_ends at_) fun _ _ stops => stops
    exact fun _ s2 deleted => ends_pure deleted

theorem actOn_ends {slot : Slot} {record : Found} {what : FindKeyAnd} (at_ : b.At keep (.tab slot.win tab) file s)
    (none_ : (b.tables s.map).old = none) : Ends limit (actOn m cfg slot tab record what)
      (fun code s' => ∃ file', b.Becomes keep (.tab slot.win tab) file' s s' ∧
        what.Acts b.sized cfg slot.row record.ref file file' ∧ (what.Copies → code = retKeyFound)) (fun _ _ => True) s := by
  have shrunk {x : Operation μ Unit} (copies : Ends limit x (fun _ s' => b.Within keep (fun _ => False) s s') (fun _ _ => True) s) :
      Ends limit (do x; considerTabShrink m cfg slot.win tab; pure retKeyFound) (fun code s' => ∃ file',
        b.Becomes keep (.tab slot.win tab) file' s s' ∧ MaybeShrunk b.sized cfg
          (file.tab.tabDataUsed / 4 < file.tab.tabDataFree) file file' ∧ (what.Copies → code = retKeyFound))
        (fun _ _ => True) s := by
    apply ends_step copies fun _ _ stops => stops
    intro _ s1 within
    have none1 : (b.tables s1.map).old = none := (within.files .old not_false).trans none_
    apply ends_step (considerTabShrink_ends (within.at_ at_ not_false) none1) fun _ _ _ => trivial
    rintro _ s2 ⟨file', changed, maybe⟩
    exact ends_pure ⟨file', (at_.becomes within).trans changed, maybe, fun _ => rfl⟩
  cases what with
  | addr => exact ends_pure ⟨file, at_.becomes (Within.refl at_.known), ⟨file.tab.data, rfl⟩, False.elim⟩
  | copyKey => exact shrunk (copyKey_ends at_)
  | copyVal => exact shrunk (copyVal_ends at_)
  | atomAdd =>
    apply (atomAdd_ends at_).mono _ fun _ _ stops => stops
    rintro _ s1 ⟨data, changed⟩
    exact ⟨_, changed, ⟨data, rfl⟩, False.elim⟩
  | delete =>
    apply (deleteKey_ends at_).mono _ fun _ _ stops => stops
    rintro _ s1 ⟨file', changed, deletes⟩
    exact ⟨file', changed, deletes, False.elim⟩
  | update =>
    apply ends_step (updCallbackCopy_ends at_) fun _ _ stops => stops
    rintro _ s1 ⟨data, changed⟩
    exact ends_pure ⟨_, changed, ⟨data, rfl⟩, False.elim⟩

end Finds

end Ledger

end SharedHashFile.Store
