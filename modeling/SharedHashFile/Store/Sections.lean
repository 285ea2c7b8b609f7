import SharedHashFile.Store.Processes
import SharedHashFile.Store.Tables

namespace SharedHashFile.Store

open Program

/-- What a client does between taking a window's lock and giving it back. -/
inductive Work
  /-- one pass of `shf_put_key_val` -/
  | put (val : PutVal)
  /-- `shf_find_key_internal` -/
  | find (uid : Nat) (what : FindKeyAnd)

/-- The result of the call, or `none` when a put has to try again. -/
def Work.run {μ : Type} (m : Mapping μ) (cfg : Config) : Work → Operation μ (Option Nat)
  | .put val => do
    let done ← putSection m cfg val
    pure (if done then some retKeyPut else none)
  | .find uid what => do
    let result ← findKeyInternal m cfg uid what
    pure (some result)

/-- A critical section: who runs it, with which thread local variables. -/
structure Section where
  process : Nat
  tls : Tls
  work : Work

def Section.alone (part : Section) : Section := { part with process := 0 }

def runSections {μ : Type} (m : Mapping μ) (cfg : Config) (switch : Nat → μ → μ) :
    List Section → Operation μ (List (Option Nat × Tls))
  | [] => pure []
  | part :: rest => do
    onMap (modify (switch part.process))
    modifyTls fun _ => part.tls
    let result ← part.work.run m cfg
    let tls ← getTls
    let results ← runSections m cfg switch rest
    pure ((result, tls) :: results)

namespace Disk

def switch (process : Nat) (d : Disk) : Disk := { d with me := process }

/-- A check which the code does not make: the mapping is of the file at the path, at its size. -/
def audit (e : Stop) (win : Fin 256) (tab : Nat) : Program Stop Disk Unit := do
  let d ← get
  match d.mine win tab with
  | some off => check (d.path win tab = some off.file ∧ off.len = (d.files off.file).size ∧
      off.tabSize = (d.files off.file).size) e
  | none => stop e

end Disk

/-- The code's way to its tables, with the check after every `SHF_GET_TAB_MMAP`. -/
def audited (e : Stop) : Mapping Disk where
  lowest := 0
  getTabMmap win tab := do
    Disk.getTabMmap win tab
    Disk.audit e win tab
  look := Disk.look
  store := Disk.store
  grow := Disk.grow
  create := Disk.create
  replace win tab := do
    Disk.replace win tab
    Disk.audit e win tab
  release := Disk.release

/-- Critical sections of any number of processes on one store. -/
def runProcesses (m : Mapping Disk) (cfg : Config) : List Section → Operation Disk (List (Option Nat × Tls)) :=
  runSections m cfg Disk.switch

def Win.initial : Win := ⟨fun _ => 0, 1, 0, 0, 0, 0, 0, 0⟩

/-- What `shf_attach` leaves when it creates a store. -/
def Shared.initial (vfs : Nat → Nat) (tls : Tls) : Shared := ⟨fun _ => Win.initial, vfs, 0, tls⟩

def State.initial (vfs : Nat → Nat) (tls : Tls) : State Disk := ⟨Shared.initial vfs tls, Disk.initial⟩

end SharedHashFile.Store
