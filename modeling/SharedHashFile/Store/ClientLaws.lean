import SharedHashFile.Store.MapRefinement

namespace SharedHashFile.Store

open Program

/-- A client of a new store with variable lengths gets here with these calls. -/
structure Reached (cfg : Config) (hashOf : List UInt8 → Hash) (vfs : Nat → Nat) (calls : List Call) (s : State Disk) :
    Prop where
  variable_ : cfg.isFixedKeyValLen = false
  accepted : ∀ call ∈ calls, call.Accepted cfg
  within : (runCalls mapped cfg hashOf calls (State.initial vfs Tls.initial)).peak < 2^32
  ended : (runCalls mapped cfg hashOf calls (State.initial vfs Tls.initial)).value.isOk = true
  state : (runCalls mapped cfg hashOf calls (State.initial vfs Tls.initial)).state = s

section Laws

variable {cfg : Config} {hashOf : List UInt8 → Hash} {vfs : Nat → Nat} {calls : List Call} {s : State Disk}

theorem Reached.client (reached : Reached cfg hashOf vfs calls s) : ∃ b, Client cfg hashOf s b := by
  have ends := (initial_client cfg hashOf vfs).run_ends (Config.linkable_variable reached.variable_) reached.accepted
    reached.within
  have ended := reached.ended
  rw [reached.state] at ends
  cases value : (runCalls mapped cfg hashOf calls (State.initial vfs Tls.initial)).value with
  | error e =>
    rw [value] at ended
    cases ended
  | ok answers =>
    rw [value] at ends
    rcases ends with ⟨b, client, _⟩
    exact ⟨b, client⟩

/-- What a client is answered, and how its process may end. -/
def Answered (cfg : Config) (hashOf : List UInt8 → Hash) (s : State Disk) (calls : List Call)
    (right : List Answer → Prop) : Prop :=
  (∀ answers, (runCalls mapped cfg hashOf calls s).value = .ok answers → right answers) ∧
    ∀ e, (runCalls mapped cfg hashOf calls s).value = .error e → e = .tabOverflow ∨ Refused cfg s.shared.vfs e

theorem Client.answered {b : Bindings} {right : List Answer → Prop} (client : Client cfg hashOf s b)
    (linkable : cfg.Linkable) (accepted : ∀ call ∈ calls, call.Accepted cfg)
    (within : (runCalls mapped cfg hashOf calls s).peak < sizeLimit)
    (post : ∀ answers items, Explains b.items calls answers items → right answers) :
    Answered cfg hashOf s calls right := by
  have ends := client.run_ends linkable accepted within
  constructor
  · intro answers value
    rw [value] at ends
    rcases ends with ⟨b', _, explains⟩
    exact post answers b'.items explains
  · intro e value
    rw [value] at ends
    exact ends

section Put

variable {items middle items' : Items} {key : List UInt8} {val : PutVal} {slot : Slot} {answer : Answer}

theorem Items.Absent.explained {op : Op} (absent : items.Absent key)
    (explained : (Call.find key op).Explained items answer items') : answer = .coded retKeyNone := by
  rcases explained with ⟨_, answered, _⟩ | ⟨place, bytes, there, _⟩
  · exact answered
  · exact absurd there (absent place bytes)

end Put

end Laws

end SharedHashFile.Store
