import SharedHashFile.Store.Clients
import SharedHashFile.Store.Records

namespace SharedHashFile.Store

open ByteMemory

def Op.onVal (key val : List UInt8) : Op → Answer × Option (List UInt8)
  | .getVal => (.copying retKeyFound val val.length, some val)
  | .getKey => (.copying retKeyFound key key.length, some val)
  | .update new =>
    if val.length = new.length then (.coded retKeyFound, some new)
    else (.coded (retKeyFound ||| retBadCb), some val)
  | .add amount =>
    if 8 ≤ val.length then
      let sum := (leValue (val.take 8) + amount) % 2^64
      (.adding retKeyFound sum, some (leBytes 8 sum ++ val.drop 8))
    else (.coded (retKeyFound ||| retBadVal), some val)
  | .delete => (.coded retKeyFound, none)

abbrev Map := List UInt8 → Option (List UInt8)

def Op.onMap (op : Op) (key : List UInt8) (map : Map) : Answer × Map :=
  match map key with
  | some val => ((op.onVal key val).1, Function.update map key (op.onVal key val).2)
  | none => (.coded retKeyNone, map)

inductive KeyCall
  | put (key : List UInt8) (val : PutVal)
  | find (key : List UInt8) (op : Op)

def KeyCall.call : KeyCall → Call
  | .put key val => .put key val
  | .find key op => .find key op

/-- The UID of an entry is no matter of a finite map. -/
def Answer.anonymous (answer : Answer) : Answer := { answer with uid := none }

def KeyCall.onMap (map : Map) : KeyCall → Answer × Map
  | .put key val => (.coded retKeyPut, Function.update map key (some val.bytes))
  | .find key op => op.onMap key map

def mapAnswers (map : Map) : List KeyCall → List Answer
  | [] => []
  | call :: rest => (call.onMap map).1 :: mapAnswers (call.onMap map).2 rest

def PutsAbsent (map : Map) : List KeyCall → Prop
  | [] => True
  | .put key val :: rest => map key = none ∧ PutsAbsent (Function.update map key (some val.bytes)) rest
  | .find key op :: rest => PutsAbsent (op.onMap key map).2 rest

/-- An entry of a store; its slot's UID is its UID. -/
structure Item where
  key : List UInt8
  val : List UInt8
  deriving DecidableEq

abbrev Items := Slot → Option Item

def Items.Absent (items : Items) (key : List UInt8) : Prop := ∀ slot val, items slot ≠ some ⟨key, val⟩

/-- What a call may answer and do to the entries. Several of them can have the same key. -/
def Call.Explained (items : Items) (answer : Answer) (items' : Items) : Call → Prop
  | .put key val => ∃ slot, items slot = none ∧ answer = .putting retKeyPut slot.uid ∧
      items' = Function.update items slot (some ⟨key, val.bytes⟩)
  | .find key op =>
      items.Absent key ∧ answer = .coded retKeyNone ∧ items' = items ∨
      ∃ slot val, items slot = some ⟨key, val⟩ ∧ answer = (op.onVal key val).1 ∧
        items' = Function.update items slot ((op.onVal key val).2.map (Item.mk key))
  | .uidVal uid => items' = items ∧ answer = match items (uidSlot uid) with
      | some item => .copying retKeyFound item.val item.val.length
      | none => .coded retKeyNone
  | .uidKey uid => items' = items ∧ answer = match items (uidSlot uid) with
      | some item => .copying retKeyFound item.key item.key.length
      | none => .coded retKeyNone

def Explains (items : Items) : List Call → List Answer → Items → Prop
  | [], [], items' => items' = items
  | call :: calls, answer :: answers, items' =>
      ∃ middle, call.Explained items answer middle ∧ Explains middle calls answers items'
  | _, _, _ => False

end SharedHashFile.Store
