import Taunicorn.Lib.Pool
import Taunicorn.Basic

/-!
# Binding and connecting

`Server::bind`, `Server::start`, `Connection::connect` and `Connection::connect_timeout`, up to the
point where a server or a connection exists. A call checks the name, converts it and the options,
and hands them to the raw socket, whose answer is the environment's. A raw connect is pending for as
long as the environment likes, and that is the only await point.

What the socket crate makes of a name, and on Windows of a security descriptor, is a parameter.

## Main definitions

* `Platform` — the conversions of names and descriptors
* `bindOptions`, `connectName` — what is checked and converted ahead of the raw socket
* `EstablishCall.poll` — one step of a call

## Main results

* `established_nonempty` — no call gets to the raw socket with an empty name
-/

namespace Taunicorn

namespace Transport

structure Endpoint where
  name : String
  deriving DecidableEq, Repr

def Endpoint.new (name : String) : Except Error Endpoint :=
  if name.isEmpty then .error (.msg "socket endpoint must not be empty") else .ok ⟨name⟩

/-- The conversions of the crates below, each with the text of its error. -/
structure Platform (ν ω δ : Type) where
  /-- `to_ns_name::<GenericNamespaced>`. -/
  toNsName : String → Except String ν
  /-- `U16CString::from_str`, which refuses a string with a nul. -/
  fromStr : String → Except String ω
  /-- `SecurityDescriptor::deserialize`. -/
  deserialize : ω → Except String δ

/-- The last parameter of `bind`, which is a file mode on Unix and a security descriptor in its text
form on Windows. -/
inductive Mode where
  | unix (mode : UInt32)
  | windows (sddl : String)
  deriving DecidableEq, Repr

structure ListenerOptions (ν δ : Type) where
  name : ν
  mode : Option UInt32 := none
  securityDescriptor : Option δ := none
  deriving DecidableEq, Repr

variable {ν ω δ ι : Type}

def getAsyncSocketName (platform : Platform ν ω δ) (name : String) : Except Error ν :=
  if name.isEmpty then .error (.msg "socket name must not be empty")
  else (platform.toNsName name).mapError .io

/-- `bind`, up to `create_tokio`. -/
def bindOptions (platform : Platform ν ω δ) (name : String) (mode : Option Mode) :
    Except Error (ListenerOptions ν δ) := do
  let endpoint ← Endpoint.new name
  let socketName ← getAsyncSocketName platform endpoint.name
  match mode with
  | none => return { name := socketName }
  | some (.unix mode) => return { name := socketName, mode := some mode }
  | some (.windows sddl) =>
    let sddl ← (platform.fromStr sddl).mapError .msg
    let descriptor ← (platform.deserialize sddl).mapError .io
    return { name := socketName, securityDescriptor := some descriptor }

/-- `connect`, up to the raw connect. -/
def connectName (platform : Platform ν ω δ) (endpoint : Endpoint) : Except Error ν :=
  if endpoint.name.isEmpty then .error (.msg "socket endpoint must not be empty")
  else getAsyncSocketName platform endpoint.name

/-! ### The calls -/

inductive EstablishOp where
  | bind (name : String) (mode : Option Mode)
  | start (endpoint : Endpoint)
  | connect (endpoint : Endpoint)
  /-- The timeout is the environment's. -/
  | connectTimeout (endpoint : Endpoint)
  deriving DecidableEq, Repr

/-- What a call returns: a server, with the endpoint it is bound to, or a connection, with the
endpoint of its peer. -/
inductive Established where
  | server (endpoint : Endpoint)
  | connection (peer : Endpoint)
  deriving DecidableEq, Repr

/-- Where a call stands. -/
inductive EstablishPC (ν δ : Type) where
  /-- Not polled yet. -/
  | start
  /-- `create_tokio`. -/
  | listening (opts : ListenerOptions ν δ)
  /-- The raw connect. -/
  | connecting (name : ν)
  | done (outcome : Except Error Established)
  | dropped

structure EstablishCall (ν δ : Type) where
  op : EstablishOp
  pc : EstablishPC ν δ := .start

/-- The answers of the environment to a step. -/
inductive EstablishChoice where
  /-- The step has one outcome. -/
  | go
  /-- The raw socket is there. -/
  | ready
  /-- The raw operation has failed. -/
  | fail (text : String)
  /-- The deadline has passed. -/
  | timeout
  /-- The call is dropped. -/
  | drop
  deriving DecidableEq, Repr

/-- The endpoint of an operation. -/
def EstablishOp.endpoint : EstablishOp → Endpoint
  | .bind name _ => ⟨name⟩
  | .start endpoint => endpoint
  | .connect endpoint => endpoint
  | .connectTimeout endpoint => endpoint

/-- The first part of a call, which is checks and conversions only. -/
def EstablishOp.enter (platform : Platform ν ω δ) : EstablishOp → Except Error (EstablishPC ν δ)
  | .bind name mode => (bindOptions platform name mode).map .listening
  | .start endpoint => (bindOptions platform endpoint.name none).map .listening
  | .connect endpoint => (connectName platform endpoint).map .connecting
  | .connectTimeout endpoint => (connectName platform endpoint).map .connecting

/-- **One step of a call.** -/
def EstablishCall.poll (platform : Platform ν ω δ) (call : EstablishCall ν δ)
    (choice : EstablishChoice) : Option (EstablishCall ν δ) :=
  match call.pc, choice with
  | .start, .go =>
    match call.op.enter platform with
    | .ok pc => some { call with pc }
    | .error e => some { call with pc := .done (.error e) }
  | .start, .drop => some { call with pc := .dropped }
  | .listening _, .ready => some { call with pc := .done (.ok (.server call.op.endpoint)) }
  | .listening _, .fail text => some { call with pc := .done (.error (.io text)) }
  | .connecting _, .ready => some { call with pc := .done (.ok (.connection call.op.endpoint)) }
  | .connecting _, .fail text => some { call with pc := .done (.error (.io text)) }
  | .connecting _, .timeout =>
    match call.op with
    | .connectTimeout _ =>
      some { call with pc := .done (.error (.msg "socket connect timeout")) }
    | _ => none
  | .connecting _, .drop => some { call with pc := .dropped }
  | _, _ => none

/-- Calls that bind and connect. They share nothing. -/
def establishSpec (platform : Platform ν ω δ) :
    CallSpec Unit (EstablishCall ν δ) EstablishOp EstablishChoice Empty where
  enter op := { op }
  poll _ call choice := (call.poll platform choice).map fun call' => (call', ())
  env _ event := event.elim

/-! ### Names are checked -/

/-- A call that hands its endpoint to the raw socket, or has done so, has found it not empty. -/
def EstablishCall.Checked (call : EstablishCall ν δ) : Prop :=
  match call.pc with
  | .listening _ => call.op.endpoint.name ≠ ""
  | .connecting _ => call.op.endpoint.name ≠ ""
  | .done (.ok _) => call.op.endpoint.name ≠ ""
  | _ => True

variable {platform : Platform ν ω δ} {op : EstablishOp} {call call' : EstablishCall ν δ}
  {choice : EstablishChoice}

/-- Every operation refuses an empty name, whatever the platform says. -/
theorem enter_of_empty (platform : Platform ν ω δ) (h : op.endpoint.name = "") :
    op.enter platform = .error (.msg "socket endpoint must not be empty") := by
  cases op <;> dsimp only [EstablishOp.endpoint] at h <;>
    simp [EstablishOp.enter, bindOptions, connectName, Endpoint.new, Bind.bind, Except.bind,
      Except.map, h]

/-- Where the checks and conversions lead. -/
theorem enter_eq_ok {pc : EstablishPC ν δ} (h : op.enter platform = .ok pc) :
    (∃ opts, pc = .listening opts) ∨ ∃ name, pc = .connecting name := by
  have hmap : ∀ {β : Type} {x : Except Error β} {f : β → EstablishPC ν δ}, x.map f = .ok pc →
      ∃ a, pc = f a := by
    intro β x f hx
    cases x with
    | error e => cases hx
    | ok a => cases hx; exact ⟨a, rfl⟩
  cases op with
  | bind name mode => exact Or.inl (hmap h)
  | start endpoint => exact Or.inl (hmap h)
  | connect endpoint => exact Or.inr (hmap h)
  | connectTimeout endpoint => exact Or.inr (hmap h)

theorem Endpoint.new_of_ne {name : String} (h : name ≠ "") : Endpoint.new name = .ok ⟨name⟩ := by
  simp [Endpoint.new, h]

theorem getAsyncSocketName_of_ne (platform : Platform ν ω δ) {name : String} (h : name ≠ "") :
    getAsyncSocketName platform name = (platform.toNsName name).mapError .io := by
  simp [getAsyncSocketName, h]

theorem connectName_of_ne (platform : Platform ν ω δ) {endpoint : Endpoint}
    (h : endpoint.name ≠ "") :
    connectName platform endpoint = (platform.toNsName endpoint.name).mapError .io := by
  simp [connectName, getAsyncSocketName_of_ne platform h, h]

theorem EstablishCall.checked_of_ne (h : call.op.endpoint.name ≠ "") : call.Checked := by
  obtain ⟨op, pc⟩ := call
  match pc with
  | .start => trivial
  | .listening _ => exact h
  | .connecting _ => exact h
  | .done (.ok _) => exact h
  | .done (.error _) => trivial
  | .dropped => trivial

theorem EstablishCall.op_of_poll (h : call.poll platform choice = some call') :
    call'.op = call.op := by
  unfold EstablishCall.poll at h
  split at h
  case h_1 => split at h <;> cases h <;> rfl
  case h_7 => split at h <;> cases h; rfl
  all_goals cases h <;> rfl

/-- **The step.** -/
theorem EstablishCall.checked_of_poll (h : call.poll platform choice = some call')
    (hchecked : call.Checked) : call'.Checked := by
  by_cases hname : call.op.endpoint.name = ""
  · obtain ⟨op, pc⟩ := call
    dsimp only at hname
    cases pc with
    | start =>
      -- the only way on is to the error
      cases choice with
      | go =>
        simp only [EstablishCall.poll, enter_of_empty platform hname] at h
        cases h
        trivial
      | drop => cases h; trivial
      | _ => exact absurd h.symm (Option.some_ne_none _)
    | listening opts => exact absurd hname hchecked
    | connecting name => exact absurd hname hchecked
    | done outcome => cases choice <;> exact absurd h.symm (Option.some_ne_none _)
    | dropped => cases choice <;> exact absurd h.symm (Option.some_ne_none _)
  · exact EstablishCall.checked_of_ne (by rwa [EstablishCall.op_of_poll h])

/-- **No call gets to the raw socket with an empty name**, in any run. -/
theorem established_nonempty [DecidableEq ι]
    {allowed : Pool Unit (EstablishCall ν δ) ι → PoolLabel ι EstablishOp EstablishChoice Empty →
      Prop}
    {pool : Pool Unit (EstablishCall ν δ) ι}
    (h : Runs (Pool.step (establishSpec platform)) allowed { shared := () } pool) {id : ι}
    (hcall : pool.calls id = some call) : call.Checked := by
  refine (Pool.forall_calls (fun _ => True) (fun _ _ call => call.Checked) h trivial
    ?_ ?_ ?_ ?_).2 id call hcall
  · exact fun id call hcall => absurd hcall.symm (Option.some_ne_none _)
  · exact fun _ _ op _ => trivial
  · intro pool id call choice call' shared _ _ hpoll _ hchecked
    obtain ⟨c, hc, hpair⟩ := Option.map_eq_some_iff.mp hpoll
    cases hpair
    exact ⟨trivial, EstablishCall.checked_of_poll hc hchecked, fun _ _ hc => hc⟩
  · exact fun _ _ => ⟨trivial, fun _ _ hc => hc⟩

end Transport

end Taunicorn
