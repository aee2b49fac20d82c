import Rehost.Access
import Rehost.Proofs.FlatMemory
import Rehost.Proofs.Word

/-!
# The contract of the access functions

What the functions do that generated code calls for an access, whatever they are called with: a context or none, one
with or without a handler, any size, and a handler that serves the access, refuses it or breaks down
(`call_contract`). The handler is asked for one access at most (`ask`), and for none of an unsupported size. Only a
served read changes the context, in the slot for the value.
-/

namespace Rehost.Access

open Guest (Context FlatMemory Handler Refusal)

variable {σ : Type}

/-- What the handler makes of the access that the slots of a context describe: a read of `size` bytes, or a write of
the first `size` of the eight bytes of the value. -/
def ask (direction : Direction) (handler : Handler σ) (size : Nat) (context : Context) (state : σ) :
    σ × Except Refusal Unit :=
  match direction with
  | .read =>
    let reply := handler.read state context.accessAddress size
    (reply.state, reply.result)
  | .write => handler.write state context.accessAddress ((toBytes context.accessValue 8).take size)

/-- The sizes of accesses. -/
def Supported (size : Nat) : Prop := size = 1 ∨ size = 2 ∨ size = 4 ∨ size = 8

section
variable {direction : Direction} {handler : Handler σ} {size : Nat} {context : Context} {attached : Attached σ}

theorem call_of_detached (detached : context.handler = 0) :
    call direction handler size context attached = (failed, context, attached) := by
  unfold call
  rw [if_pos detached]

theorem call_of_unsupported (live : context.handler ≠ 0) (unsupported : ¬Supported size) :
    call direction handler size context attached =
      (failed, context, { attached with fault := some (.unsupportedSize size) }) := by
  have refused : (!Guest.isAccessSize size) = true := by
    simpa using mt Guest.isAccessSize_iff.mp unsupported
  unfold call
  rw [if_neg live, if_pos refused]

theorem accepted_of_supported (supported : Supported size) : ¬(!Guest.isAccessSize size) = true := by
  simpa using Guest.isAccessSize_iff.mpr supported

theorem call_read_of_supported (live : context.handler ≠ 0) (supported : Supported size) :
    call .read handler size context attached = read handler size context attached := by
  unfold call
  rw [if_neg live, if_neg (accepted_of_supported supported)]

theorem call_write_of_supported (live : context.handler ≠ 0) (supported : Supported size) :
    call .write handler size context attached = write handler size context attached := by
  unfold call
  rw [if_neg live, if_neg (accepted_of_supported supported)]

theorem le_of_supported (supported : Supported size) : size ≤ 8 := by
  unfold Supported at supported
  omega

theorem call_of_refused (live : context.handler ≠ 0) (supported : Supported size) {state : σ} {refusal : Refusal}
    (refused : ask direction handler size context attached.state = (state, .error refusal)) :
    call direction handler size context attached = (failed, context, ⟨state, some refusal.toFault⟩) := by
  cases direction with
  | read =>
    obtain ⟨rfl, result⟩ := Prod.mk.inj refused
    rw [call_read_of_supported live supported]
    simp only [read, result]
  | write =>
    rw [ask, take_toBytes _ (le_of_supported supported)] at refused
    rw [call_write_of_supported live supported]
    simp only [write, refused]

theorem call_write_of_served (live : context.handler ≠ 0) (supported : Supported size) {state : σ}
    (served : ask .write handler size context attached.state = (state, .ok ())) :
    call .write handler size context attached = (Access.served, context, { attached with state }) := by
  rw [ask, take_toBytes _ (le_of_supported supported)] at served
  simp only [call_write_of_supported live supported, write, served]

/-- The value of a served read is the word of the bytes read, with zeros for those that are missing. -/
theorem call_read_of_served (live : context.handler ≠ 0) (supported : Supported size) {state : σ}
    (served : ask .read handler size context attached.state = (state, .ok ())) :
    ∃ value, call .read handler size context attached =
        (Access.served, { context with accessValue := value }, { attached with state }) ∧
      toBytes value 8 = (handler.read attached.state context.accessAddress size).buffer.toList ++
        List.replicate (8 - size) 0 := by
  obtain ⟨rfl, result⟩ := Prod.mk.inj served
  have small := le_of_supported supported
  refine ⟨BitVec.ofNat 64 (ofBytes (handler.read attached.state context.accessAddress size).buffer.toList), ?_, ?_⟩
  · simp only [call_read_of_supported live supported, read, result]
  · generalize (handler.read attached.state context.accessAddress size).buffer = buffer
    have length : buffer.toList.length = size := Vector.length_toList
    have bytes : toBytes (BitVec.ofNat 64 (ofBytes buffer.toList)) (buffer.toList.length + (8 - size)) = _ :=
      toBytes_ofBytes buffer.toList (by omega)
    rwa [length, Nat.add_sub_cancel' small] at bytes

end

/-- Whether the access of a call is to be served. -/
def Serves (direction : Direction) (handler : Handler σ) (size : Nat) (context : Context) (state : σ) : Prop :=
  context.handler ≠ 0 ∧ Supported size ∧ (ask direction handler size context state).2 = .ok ()

/-- A call serves the access, or it fails and leaves the context as it was. -/
theorem call_cases (direction : Direction) (handler : Handler σ) (size : Nat) (context : Context)
    (attached : Attached σ) :
    Serves direction handler size context attached.state ∧
        (call direction handler size context attached).1 = served ∨
      ¬Serves direction handler size context attached.state ∧
        (call direction handler size context attached).1 = failed ∧
        (call direction handler size context attached).2.1 = context := by
  by_cases detached : context.handler = 0
  · rw [call_of_detached detached]
    exact .inr ⟨fun serves => serves.1 detached, rfl, rfl⟩
  by_cases supported : Supported size
  · rcases asked : ask direction handler size context attached.state with ⟨state, refusal | done⟩
    · rw [call_of_refused detached supported asked]
      refine .inr ⟨fun serves => ?_, rfl, rfl⟩
      have answered := serves.2.2
      rw [asked] at answered
      cases answered
    · refine .inl ⟨⟨detached, supported, by rw [asked]⟩, ?_⟩
      cases direction with
      | read =>
        obtain ⟨value, outcome, _⟩ := call_read_of_served detached supported asked
        rw [outcome]
      | write => rw [call_write_of_served detached supported asked]
  · rw [call_of_unsupported detached supported]
    exact .inr ⟨fun serves => supported serves.2.1, rfl, rfl⟩

/-! ### Every call -/

/-- What is promised of a call: of its status, and of the context and the handler that it leaves. -/
structure Keeps (direction : Direction) (handler : Handler σ) (size : Nat) (pointer : Option Context)
    (attached : Attached σ) (outcome : BitVec 32 × Option Context × Attached σ) : Prop where
  status : outcome.1 = served ↔ ∃ context, pointer = some context ∧ Serves direction handler size context attached.state
  /-- A call that fails leaves every slot of the context as it was. -/
  failure : outcome.1 ≠ served → outcome.1 = failed ∧ outcome.2.1 = pointer
  /-- Without a context or a handler there is nobody to report a fault to. -/
  detached : (∀ context, pointer = some context → context.handler = 0) → outcome.2.2 = attached
  /-- The handler is not asked for an access of another size: any other handler would have led to the same. -/
  unsupported : ∀ context, pointer = some context → context.handler ≠ 0 → ¬Supported size →
    outcome.2.2 = { attached with fault := some (.unsupportedSize size) } ∧
      ∀ other : Handler σ, callPointer direction other size pointer attached = outcome
  refused : ∀ context, pointer = some context → context.handler ≠ 0 → Supported size →
    ∀ state fault, ask direction handler size context attached.state = (state, .error (.fault fault)) →
      outcome.2.2 = ⟨state, some fault⟩
  brokenDown : ∀ context, pointer = some context → context.handler ≠ 0 → Supported size →
    ∀ state detail, ask direction handler size context attached.state = (state, .error (.breakdown detail)) →
      outcome.2.2 = ⟨state, some (.handler ("memory handler panicked: " ++ detail.getD "unknown panic"))⟩
  wrote : ∀ context, pointer = some context → context.handler ≠ 0 → Supported size → direction = .write →
    ∀ state, ask direction handler size context attached.state = (state, .ok ()) →
      outcome.2 = (some context, { attached with state })
  read : ∀ context, pointer = some context → context.handler ≠ 0 → Supported size → direction = .read →
    ∀ state, ask direction handler size context attached.state = (state, .ok ()) →
      ∃ value, outcome.2 = (some { context with accessValue := value }, { attached with state }) ∧
        toBytes value 8 = (handler.read attached.state context.accessAddress size).buffer.toList ++
          List.replicate (8 - size) 0

/-- A call through a pointer that is not null. -/
theorem callPointer_some (direction : Direction) (handler : Handler σ) (size : Nat) (context : Context)
    (attached : Attached σ) :
    callPointer direction handler size (some context) attached =
      ((call direction handler size context attached).1, some (call direction handler size context attached).2.1,
        (call direction handler size context attached).2.2) :=
  rfl

theorem keeps_null (direction : Direction) (handler : Handler σ) (size : Nat) (attached : Attached σ) :
    Keeps direction handler size none attached (callPointer direction handler size none attached) := by
  constructor
  case status => simp [callPointer, served, failed]
  case failure => exact fun _ => ⟨rfl, rfl⟩
  case detached => exact fun _ => rfl
  all_goals
    intro context here
    cases here

theorem keeps_some (direction : Direction) (handler : Handler σ) (size : Nat) (context : Context)
    (attached : Attached σ) :
    Keeps direction handler size (some context) attached
      (callPointer direction handler size (some context) attached) := by
  rw [callPointer_some]
  constructor
  case status =>
    rcases call_cases direction handler size context attached with ⟨serves, status⟩ | ⟨not, status, _⟩
    · simp [serves, status]
    · simp [not, status, served, failed]
  case failure =>
    intro unserved
    rcases call_cases direction handler size context attached with ⟨_, status⟩ | ⟨_, status, same⟩
    · exact absurd status unserved
    · exact ⟨status, congrArg some same⟩
  case detached =>
    intro absent
    rw [call_of_detached (absent context rfl)]
  case unsupported =>
    rintro _ ⟨⟩ live unsupported
    constructor
    · rw [call_of_unsupported live unsupported]
    · intro other
      rw [callPointer_some, call_of_unsupported live unsupported, call_of_unsupported live unsupported]
  case refused =>
    rintro _ ⟨⟩ live supported state fault refused
    rw [call_of_refused live supported refused]
    rfl
  case brokenDown =>
    rintro _ ⟨⟩ live supported state detail broken
    rw [call_of_refused live supported broken]
    rfl
  case wrote =>
    rintro _ ⟨⟩ live supported rfl state served
    rw [call_write_of_served live supported served]
  case read =>
    rintro _ ⟨⟩ live supported rfl state served
    obtain ⟨value, outcome, bytes⟩ := call_read_of_served live supported served
    exact ⟨value, by rw [outcome], bytes⟩

/-- A write that flat memory served has put the low bytes of the value where they belong. -/
theorem located_of_written {size : Nat} {context : Context} {attached : Attached FlatMemory}
    (written : (call .write FlatMemory.handler size context attached).1 = served) :
    Supported size ∧ ∃ start, attached.state.locate context.accessAddress size = .ok start ∧
      (call .write FlatMemory.handler size context attached).2.2 =
        { attached with state := attached.state.splice start (toBytes context.accessValue size) } := by
  rcases call_cases .write FlatMemory.handler size context attached with ⟨⟨live, supported, answer⟩, _⟩ | ⟨_, status, _⟩
  · refine ⟨supported, ?_⟩
    have asked : ask .write FlatMemory.handler size context attached.state =
        FlatMemory.handler.write attached.state context.accessAddress (toBytes context.accessValue size) := by
      rw [ask, take_toBytes _ (le_of_supported supported)]
    have length := length_toBytes context.accessValue size
    cases located : attached.state.locate context.accessAddress size with
    | error fault =>
      rw [← length] at located
      rw [asked, FlatMemory.handler_write_of_refused located] at answer
      cases answer
    | ok start =>
      refine ⟨start, rfl, ?_⟩
      rw [← length] at located
      rw [FlatMemory.handler_write_of_located located] at asked
      rw [call_write_of_served live supported asked]
  · rw [status] at written
    exact absurd written (by decide)

/-- Flat memory gives back the value that was written, cut to the size of the access. -/
theorem read_of_written {size : Nat} {writing reading : Context} {attached : Attached FlatMemory}
    (written : (call .write FlatMemory.handler size writing attached).1 = served) (live : reading.handler ≠ 0)
    (same : reading.accessAddress = writing.accessAddress) :
    let after := (call .write FlatMemory.handler size writing attached).2.2
    ∃ value, call .read FlatMemory.handler size reading after = (served, { reading with accessValue := value }, after) ∧
      value.toNat = writing.accessValue.toNat % (1 <<< (8 * size)) := by
  intro after
  obtain ⟨supported, start, located, stored⟩ := located_of_written written
  obtain ⟨buffer, reply, bytes⟩ :=
    FlatMemory.handler_read_splice (length_toBytes writing.accessValue size) located
  refine ⟨BitVec.ofNat 64 (ofBytes (toBytes writing.accessValue size)), ?_, ?_⟩
  · have found : after = _ := stored
    rw [call_read_of_supported live supported, found]
    simp only [read, same, reply, bytes]
  · have small := Nat.mod_le writing.accessValue.toNat (1 <<< (8 * size))
    have word := writing.accessValue.isLt
    rw [ofBytes_toBytes, BitVec.toNat_ofNat, Nat.mod_eq_of_lt (by omega)]

/-- The access functions keep their contract, whatever they are called with. Over flat memory, a read of what was
written at the same address with the same size brings back the value modulo 2^(8 * size). -/
theorem call_contract (direction : Direction) (handler : Handler σ) (size : BitVec 32) (pointer : Option Context)
    (attached : Attached σ) :
    Keeps direction handler size.toNat pointer attached (callPointer direction handler size.toNat pointer attached) ∧
    ∀ (writing reading : Context) (memory : Attached FlatMemory),
      let written := callPointer .write FlatMemory.handler size.toNat (some writing) memory
      written.1 = served → reading.handler ≠ 0 → reading.accessAddress = writing.accessAddress →
        ∃ value, callPointer .read FlatMemory.handler size.toNat (some reading) written.2.2 =
            (served, some { reading with accessValue := value }, written.2.2) ∧
          value.toNat = writing.accessValue.toNat % (1 <<< (8 * size.toNat)) := by
  refine ⟨?_, ?_⟩
  · cases pointer with
    | none => exact keeps_null direction handler size.toNat attached
    | some context => exact keeps_some direction handler size.toNat context attached
  · intro writing reading memory written served live same
    obtain ⟨value, outcome, cut⟩ := read_of_written served live same
    refine ⟨value, ?_, cut⟩
    have second : call .read FlatMemory.handler size.toNat reading written.2.2 = _ := outcome
    rw [callPointer_some, second]
    rfl

end Rehost.Access
