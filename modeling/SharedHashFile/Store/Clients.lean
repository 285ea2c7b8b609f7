import SharedHashFile.Store.Calls

namespace SharedHashFile.Store

open ByteMemory Program

/-- The thread local variables after `shf_init`. -/
def Tls.initial : Tls where
  ttl := 0
  uid := 0
  valLong := 0
  valAddr := none
  keyAddr := none
  hash := 0
  hashKey := []
  val := []
  valLen := 0
  valSize := 4096
  key := []
  keyLen := 0
  keySize := 4096
  updCallbackFailsafe := 0
  updCallbackCopyVal := []

inductive Op
  /-- `shf_get_key_val_copy` -/
  | getVal
  /-- `shf_get_key_key_copy` -/
  | getKey
  /-- `shf_upd_key_val` with the copy callback -/
  | update (val : List UInt8)
  /-- `shf_add_key_val_atom` -/
  | add (amount : Nat)
  /-- `shf_del_key_val` -/
  | delete

/-- The calls of a client; `shf_make_hash` comes before each which is about a key. -/
inductive Call
  | put (key : List UInt8) (val : PutVal)
  | find (key : List UInt8) (op : Op)
  /-- `shf_get_uid_val_copy` -/
  | uidVal (uid : Nat)
  /-- `shf_get_uid_key_copy` -/
  | uidKey (uid : Nat)

/-- What a call lets its client know: the return code, `shf_uid` of a put, the bytes copied with their length,
    and `shf_val_long`. -/
structure Answer where
  code : Nat
  uid : Option Nat
  copied : Option (List UInt8 × Nat)
  long : Option Nat
  deriving DecidableEq

def Answer.coded (code : Nat) : Answer := ⟨code, none, none, none⟩
def Answer.copying (code : Nat) (bytes : List UInt8) (len : Nat) : Answer := ⟨code, none, some (bytes, len), none⟩
def Answer.adding (code long : Nat) : Answer := ⟨code, none, none, some long⟩
def Answer.putting (code uid : Nat) : Answer := ⟨code, some uid, none, none⟩

section Calls

variable {μ : Type} (m : Mapping μ) (cfg : Config)

def Op.run : Op → Operation μ Nat
  | .getVal => getKeyValCopy m cfg
  | .getKey => getKeyKeyCopy m cfg
  | .update val => do
    presetUpdate val
    updKeyVal m cfg
  | .add amount => addKeyValAtom m cfg amount
  | .delete => delKeyVal m cfg

/-- What is read from the thread local variables after a call which found its key. -/
def Op.observe (tls : Tls) : Op → Answer
  | .getVal => .copying retKeyFound tls.val tls.valLen
  | .getKey => .copying retKeyFound tls.key tls.keyLen
  | .add _ => .adding retKeyFound tls.valLong
  | .update _ | .delete => .coded retKeyFound

def Call.run (hashOf : List UInt8 → Hash) : Call → Operation μ Nat
  | .put key val => do
    makeHash (hashOf key) key
    putKeyVal m cfg val
  | .find key op => do
    makeHash (hashOf key) key
    op.run m cfg
  | .uidVal uid => getUidValCopy m cfg uid
  | .uidKey uid => getUidKeyCopy m cfg uid

def Call.observe (code : Nat) (tls : Tls) : Call → Answer
  | .put _ _ => .putting code tls.uid
  | .find _ op => if code = retKeyFound then op.observe tls else .coded code
  | .uidVal _ => if code = retKeyFound then .copying code tls.val tls.valLen else .coded code
  | .uidKey _ => if code = retKeyFound then .copying code tls.key tls.keyLen else .coded code

def runCalls (hashOf : List UInt8 → Hash) : List Call → Operation μ (List Answer)
  | [] => pure []
  | call :: rest => do
    let code ← call.run m cfg hashOf
    let tls ← getTls
    let answers ← runCalls hashOf rest
    pure (call.observe code tls :: answers)

end Calls

end SharedHashFile.Store
