import SharedHashFile.Store.Operations

namespace SharedHashFile.Store

open ByteMemory Program

def retKeyFound : Nat := 1
def retBadVal : Nat := 2
def retBadCb : Nat := 4
def retKeyPut : Nat := 8
def retNotTtl : Nat := 16
def retKeyNone : Nat := 128

/-- `SHF_FIND_KEY_AND`. -/
inductive FindKeyAnd
  | addr
  | copyKey
  | copyVal
  | atomAdd
  | delete
  | update
  deriving DecidableEq

structure Found where
  ref : Fin 16
  pos : Nat
  keyLen : Nat
  valLen : Nat

def firstFree (row : Fin 16 → Ref) : Option (Fin 16) :=
  (List.finRange 16).find? fun ref => (row ref).pos = 0

section Calls

variable {μ : Type} (m : Mapping μ) (cfg : Config)

/-- `shf_make_hash`, with the hash function's value given. -/
def makeHash (hash : Hash) (key : List UInt8) : Operation μ Unit :=
  modifyTls fun tls => { tls with hash := hash, hashKey := key }

/-- One pass of `shf_put_key_val` under the lock; false when it parted the table instead. -/
def putSection (val : PutVal) : Operation μ Bool := do
  let tls ← getTls
  let slot := tls.hash.slot 0
  let w ← getWin slot.win
  let tab := w.tabs slot.tab
  onMap (m.getTabMmap slot.win tab)
  let t ← tabAt m (.tab slot.win tab)
  match firstFree (t.row slot.row) with
  | some ref => do
    let pos ← tabAppend m cfg slot.win tab tls.hashKey val t.tabUsed
    modifyTab m (.tab slot.win tab) fun t => t.setRef slot.row ref ⟨slot.tab, tls.hash.rnd, pos⟩
    let t ← tabAt m (.tab slot.win tab)
    when (t.tabDataUsed * 20 % 2^32 / 100 < t.tabDataFree) (tabShrink m cfg slot.win tab)
    modifyTls fun tls => { tls with uid := { slot with ref := ref }.uid }
    pure true
  | none => do
    tabPart m cfg slot.win tab
    pure false

/-- `shf_put_key_val`, with a bound on its passes. -/
def putLoop (val : PutVal) : Nat → Operation μ Nat
  | 0 => stop .fuel
  | fuel + 1 => do
    let done ← putSection m cfg val
    if done then pure retKeyPut else putLoop val fuel

/-- `shf_put_key_val`; each pass but the last parts a table, and there are 2048 of them. -/
def putKeyVal (val : PutVal) : Operation μ Nat := putLoop m cfg val 2049

/-- What both ways of `shf_find_key_internal` do at a ref which looks right. -/
def loadRecord (win : Fin 256) (tab pos : Nat) : Operation μ (Nat × Nat) := do
  let t ← tabAt m (.tab win tab)
  check (pos < t.tabSize) .internal
  access m (.tab win tab) pos 1
  let (keyLen, valLen) ← recordLens m cfg (.tab win tab) pos
  check ((pos + 1 + cfg.lenLen + keyLen) % 2^32 ≤ t.tabSize) .internal
  check ((pos + 1 + cfg.lenLen + keyLen + cfg.lenLen + valLen) % 2^32 ≤ t.tabSize) .internal
  modifyTls fun tls =>
    { tls with
      keyAddr := some ((pos + 1 + cfg.lenLen) % 2^32)
      valAddr := some ((pos + 1 + cfg.lenLen + keyLen + cfg.lenLen) % 2^32) }
  pure (keyLen, valLen)

/-- The search of `shf_find_key_internal` for a key in the refs of its row. -/
def searchRow (slot : Slot) (tab rnd : Nat) : List (Fin 16) → Operation μ (Option Found)
  | [] => pure none
  | ref :: rest => do
    let t ← tabAt m (.tab slot.win tab)
    let r := t.row slot.row ref
    if r.pos ≠ 0 ∧ r.rnd = rnd ∧ r.tab = slot.tab then do
      let (keyLen, valLen) ← loadRecord m cfg slot.win tab r.pos
      let tls ← getTls
      if keyLen ≠ tls.hashKey.length then do
        modifyWin slot.win fun w => { w with keylenMisses := w.keylenMisses + 1 }
        searchRow slot tab rnd rest
      else do
        let key ← readMem m (.tab slot.win tab) ((r.pos + 1 + cfg.lenLen) % 2^32) tls.hashKey.length
        if key ≠ tls.hashKey then do
          modifyWin slot.win fun w => { w with memcmpMisses := w.memcmpMisses + 1 }
          searchRow slot tab rnd rest
        else pure (some ⟨ref, r.pos, keyLen, valLen⟩)
    else searchRow slot tab rnd rest

/-- The lookup of `shf_find_key_internal` by key. -/
def findKey (slot : Slot) (tab : Nat) : Operation μ (Option Found) := do
  modifyTls fun tls => { tls with uid := uidNone }
  let tls ← getTls
  let found ← searchRow m cfg slot tab tls.hash.rnd (List.finRange 16)
  match found with
  | some record => do
    modifyTls fun tls => { tls with uid := { slot with ref := record.ref }.uid }
    pure (some record)
  | none => pure none

/-- The lookup of `shf_find_key_internal` by UID. -/
def findUid (slot : Slot) (tab : Nat) : Operation μ (Option Found) := do
  let t ← tabAt m (.tab slot.win tab)
  let r := t.row slot.row slot.ref
  if r.pos ≠ 0 ∧ r.tab = slot.tab then do
    let (keyLen, valLen) ← loadRecord m cfg slot.win tab r.pos
    pure (some ⟨slot.ref, r.pos, keyLen, valLen⟩)
  else pure none

/-- The lookup of `shf_find_key_internal`. -/
def findKeyOrUid (uid : Nat) (slot : Slot) (tab : Nat) : Operation μ (Option Found) :=
  if uid = uidNone then findKey m cfg slot tab else findUid m cfg slot tab

/-- `shf_val_size` or `shf_key_size` after `SHF_MEM_CPY_MAYBE_MREMAP`. -/
def copySize (size len : Nat) : Nat := if size < len then modPage len % 2^32 else size

/-- `shf_copy_key`. -/
def copyKey (win : Fin 256) (tab keyLen : Nat) : Operation μ Unit := do
  let tls ← getTls
  let key ← readMem m (.tab win tab) (tls.keyAddr.getD 0) keyLen
  modifyTls fun tls => { tls with key := key, keyLen := keyLen, keySize := copySize tls.keySize keyLen }

/-- `shf_copy_val`. -/
def copyVal (win : Fin 256) (tab valLen : Nat) : Operation μ Unit := do
  let tls ← getTls
  let val ← readMem m (.tab win tab) (tls.valAddr.getD 0) valLen
  modifyTls fun tls => { tls with val := val, valLen := valLen, valSize := copySize tls.valSize valLen }

/-- From `SHF_CONSIDER_TAB_SHRINK` on. -/
def considerTabShrink (win : Fin 256) (tab : Nat) : Operation μ Unit := do
  let t ← tabAt m (.tab win tab)
  when (t.tabDataUsed / 4 < t.tabDataFree) (tabShrink m cfg win tab)

def atomAdd (win : Fin 256) (tab valLen : Nat) : Operation μ Nat :=
  if 8 ≤ valLen then do
    let tls ← getTls
    let bytes ← readMem m (.tab win tab) (tls.valAddr.getD 0) 8
    let sum := (leValue bytes + tls.valLong) % 2^64
    writeMem m (.tab win tab) (tls.valAddr.getD 0) (leBytes 8 sum)
    modifyTls fun tls => { tls with valLong := sum }
    pure retKeyFound
  else pure (retKeyFound ||| retBadVal)

/-- The deletion, once its condition on `shf_ttl` is met. -/
def deleteFound (slot : Slot) (tab : Nat) (record : Found) : Operation μ Unit := do
  tabRefMarkAsDeleted m cfg (.tab slot.win tab) slot.row record.ref record.keyLen record.valLen
  modifyTls fun tls => { tls with uid := uidNone, ttl := 0 }

def deleteKey (slot : Slot) (tab : Nat) (record : Found) : Operation μ Nat := do
  let tls ← getTls
  if tls.ttl ≠ 0 then do
    let ttl ← readU32 m (.tab slot.win tab) (tls.valAddr.getD 0)
    if tls.ttl ≠ ttl then do
      modifyTls fun tls => { tls with ttl := 0 }
      pure (retKeyFound ||| retNotTtl)
    else do
      copyVal m slot.win tab record.valLen
      deleteFound m cfg slot tab record
      pure retKeyFound
  else do
    deleteFound m cfg slot tab record
    pure retKeyFound

/-- `shf_upd_callback_copy` as `shf_find_key_internal` calls it. -/
def updCallbackCopy (win : Fin 256) (tab valLen : Nat) : Operation μ Nat := do
  modifyTls fun tls => { tls with updCallbackFailsafe := tls.updCallbackFailsafe + 1 }
  let tls ← getTls
  check (tls.updCallbackFailsafe = 1) .internal
  when (valLen = tls.updCallbackCopyVal.length)
    (writeMem m (.tab win tab) (tls.valAddr.getD 0) tls.updCallbackCopyVal)
  modifyTls fun tls => { tls with updCallbackFailsafe := tls.updCallbackFailsafe - 1 }
  pure (if valLen = tls.updCallbackCopyVal.length then 0 else retBadCb)

/-- The `switch` of `shf_find_key_internal` on what to do with the record. -/
def actOn (slot : Slot) (tab : Nat) (record : Found) : FindKeyAnd → Operation μ Nat
  | .addr => pure retKeyFound
  | .copyKey => do
    copyKey m slot.win tab record.keyLen
    considerTabShrink m cfg slot.win tab
    pure retKeyFound
  | .copyVal => do
    copyVal m slot.win tab record.valLen
    considerTabShrink m cfg slot.win tab
    pure retKeyFound
  | .atomAdd => atomAdd m slot.win tab record.valLen
  | .delete => deleteKey m cfg slot tab record
  | .update => do
    let result ← updCallbackCopy m slot.win tab record.valLen
    pure (retKeyFound ||| result)

/-- `shf_find_key_internal` from locking to unlocking. -/
def findKeyInternal (uid : Nat) (what : FindKeyAnd) : Operation μ Nat := do
  let tls ← getTls
  let slot := if uid = uidNone then tls.hash.slot 0 else uidSlot uid
  let w ← getWin slot.win
  let tab := w.tabs slot.tab
  onMap (m.getTabMmap slot.win tab)
  let found ← findKeyOrUid m cfg uid slot tab
  match found with
  | some record => actOn m cfg slot tab record what
  | none => do
    modifyTls fun tls => { tls with valAddr := none }
    pure retKeyNone

def getKeyValCopy : Operation μ Nat := findKeyInternal m cfg uidNone .copyVal
def getUidValCopy (uid : Nat) : Operation μ Nat := findKeyInternal m cfg uid .copyVal
def getKeyKeyCopy : Operation μ Nat := findKeyInternal m cfg uidNone .copyKey
def getUidKeyCopy (uid : Nat) : Operation μ Nat := findKeyInternal m cfg uid .copyKey
def delKeyVal : Operation μ Nat := findKeyInternal m cfg uidNone .delete
def updKeyVal : Operation μ Nat := findKeyInternal m cfg uidNone .update

def addKeyValAtom (add : Nat) : Operation μ Nat := do
  modifyTls fun tls => { tls with valLong := add }
  findKeyInternal m cfg uidNone .atomAdd

/-- `shf_add_key_val`, with the amount in 64-bit two's complement. -/
def addKeyVal (add : Nat) : Operation μ Nat := do
  let result ← addKeyValAtom m cfg add
  if result = retKeyFound then do
    let tls ← getTls
    when (tls.valLong = 0) do
      let _ ← delKeyVal m cfg
      pure ()
    pure result
  else if result = retKeyNone then do
    let _ ← putKeyVal m cfg (.copy (leBytes 8 add))
    modifyTls fun tls => { tls with valLong := add }
    pure retKeyFound
  else pure result

/-- `shf_upd_callback_copy` as the caller uses it, to set what the next update copies. -/
def presetUpdate (val : List UInt8) : Operation μ Unit :=
  modifyTls fun tls => { tls with updCallbackCopyVal := val }

end Calls

end SharedHashFile.Store
