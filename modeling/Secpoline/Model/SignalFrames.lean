import Secpoline.Model.Compartments

/-!
# What a signal leaves on the stack of the application

A handler of the application runs on the application's stack, although the kernel delivers
every signal on the alternate one. `asm_signal_entry` takes the stack pointer out of the
kernel's frame, `wrap_signal_handler` copies the frame below it, `call_app_handler` pushes
below that, and after `sigreturn` the trampoline uses the stack once more for a moment.

Signals are not masked meanwhile. Those that arrive in the monitor use the stack pointer
that is parked in the GS-relative data; those that arrive in the handler, the one that the
application has then. A `Delivery` is one signal with all the signals that arrive before it
is over.

What is listed are the writes of the monitor: copies and pushes. The probes that precede a
copy store the word that they have loaded, and are not listed.
-/

namespace Secpoline

/-- `sizeof(siginfo_t)`. -/
def sizeofSiginfo : Quad := 128

/-- `sizeof(ucontext_t)`. -/
def sizeofUcontext : Quad := 968

/-- So many bytes are written from an address on. -/
structure StackWrite where
  address : Quad
  size : Nat
deriving DecidableEq, Repr

def StackWrite.byte (w : StackWrite) (i : Nat) : Quad := w.address + BitVec.ofNat 64 i

/-- What `call_app_handler` pushes when it has switched to the stack at `sp`: `%rbp`, and
after aligning the stack pointer the return address. -/
def callAppHandlerWrites (sp : Quad) : List StackWrite :=
  [⟨sp - 8, 8⟩, ⟨((sp - 8) &&& -16) - 8, 8⟩]

/-- What `restore_selector_trampoline` pushes when it returns to the stack at `rsp`. -/
def trampolineWrites (rsp : Quad) : List StackWrite :=
  [⟨rsp - 136, 8⟩, ⟨rsp - 144, 8⟩, ⟨rsp - 152, 8⟩, ⟨rsp - 160, 8⟩]

mutual

/-- What becomes of a signal. -/
inductive Delivery where
  /-- The monitor keeps it to itself. -/
  | kept (during : Arrivals)
  /-- The application's handler is called; `back` is the stack pointer in the copied frame
  when it has returned. The parked stack pointer is below the copies between `early` and
  `late`. -/
  | handled (early moved : Arrivals) (handler : Interruptions) (returned late : Arrivals)
      (back : Quad)

/-- Signals that arrive in the monitor, one after the other. -/
inductive Arrivals where
  | none
  | more (d : Delivery) (rest : Arrivals)

/-- Signals that arrive while the handler runs, with the stack pointer it has then; in its
own code, or in the monitor when it makes a system call. -/
inductive Interruptions where
  | none
  | more (inApp : Bool) (rsp : Quad) (d : Delivery) (rest : Interruptions)

end

mutual

/-- The writes of a delivery that finds the application's stack pointer at `sp`. `inApp` is
`compartment_id_on_entry == TS_APPLICATION`: only then the context is copied too, and the
trampoline returns to the application's stack. -/
def Delivery.writes (inApp : Bool) (sp : Quad) : Delivery → List StackWrite
  | .kept during => during.writes sp ++ if inApp then trampolineWrites sp else []
  | .handled early moved handler returned late back =>
      let untrustedInfo := sp - sizeofSiginfo
      let untrustedUcontext := untrustedInfo - sizeofUcontext
      let bottom := if inApp then untrustedUcontext else untrustedInfo
      early.writes sp ++
        ((if inApp then [⟨untrustedUcontext, sizeofUcontext.toNat⟩] else []) ++
          [⟨untrustedInfo, sizeofSiginfo.toNat⟩]) ++
        moved.writes bottom ++ callAppHandlerWrites bottom ++ handler.writes ++
        returned.writes bottom ++ late.writes sp ++ if inApp then trampolineWrites back else []

def Arrivals.writes (sp : Quad) : Arrivals → List StackWrite
  | .none => []
  | .more d rest => d.writes false sp ++ rest.writes sp

def Interruptions.writes : Interruptions → List StackWrite
  | .none => []
  | .more inApp rsp d rest => d.writes inApp rsp ++ rest.writes

end

end Secpoline
