import Secpoline.Model.Compartments
import Secpoline.Proofs.SyscallHook

/-!
# Where a signal may interrupt the switching code

A signal gives back the five values it interrupted wherever the compartment byte is
one of the two, unless the stack pointer is zero. What is left is to know, at each
boundary of each routine, whose stack and whose TLS are in use.

That is computed: `AState` says of each register whether it holds an address near
one of the stack pointers the routine started with, one of the TLS blocks, or zero.
An instruction takes a description of the machine to a description of the machine
after it, and the description at a boundary decides the property.
-/

namespace Secpoline

open Machine

/-! ## A signal and back -/

/-- The TLS and the parked values are as they were. -/
structure Restored (m m' : Machine) : Prop where
  fs : m'.fs = m.fs
  secureStackSp : m'.gs .secureStackSp = m.gs .secureStackSp
  fsBase : m'.gs .fsBase = m.gs .fsBase

theorem asmSignalEntry_spec (m : Machine) :
    ∃ e, run asmSignalEntry m = some e ∧ Restored m e ∧
      e.zf = (m.gsByte .compartmentId == tsMonitorByte) ∧ e.gsByte = m.gsByte ∧
      e.sigreturn = m.sigreturn ∧ e.mem = m.mem ∧ e.reg .rsp = m.reg .rsp := by
  have hp : Passes asmSignalEntry m := by
    refine ⟨rfl, rfl, rfl, rfl, ?_, rfl, ?_, rfl, rfl, rfl, rfl, trivial⟩
    · exact permits_wrpkru rfl rfl
    · exact (getLsbD_setFlag _ _).trans rfl
  refine ⟨_, hp.run, ⟨rfl, rfl, rfl⟩, ?_, rfl, rfl, rfl, rfl⟩
  refine (getLsbD_setFlag _ _).trans ?_
  exact congrArg (· == tsMonitorByte) (setWidth_loadByte _ _)

/-- The application was interrupted: its stack pointer and TLS are put away. -/
theorem leaveApplication_spec (m : Machine) :
    ∃ e, run leaveApplication m = some e ∧
      e.fs = m.gs .fsBase ∧ e.gs .fsBase = m.fs ∧ e.gsByte = m.gsByte ∧
      e.sigreturn = m.gs .secureStackSp :: m.sigreturn := by
  have hp : Passes leaveApplication m :=
    ⟨rfl, rfl, rfl, rfl, rfl, rfl, rfl, rfl, rfl, trivial⟩
  exact ⟨_, hp.run, rfl, rfl, rfl, rfl⟩

theorem restoreSelectorTrampoline_spec {m : Machine} {rcx rdx rax rsp fl rip sel st : Quad}
    {rest : List Quad} (h : m.gsByte .compartmentId = tsMonitorByte)
    (hs : m.sigreturn = rcx :: rdx :: rax :: rsp :: fl :: rip :: sel :: st :: rest) :
    ∃ u, run restoreSelectorTrampoline m = some u ∧ Restored m u ∧ u.zf = (st == 0) ∧
      u.sigreturn = rest ∧ u.reg .rsp = rsp - 160 := by
  cases m
  subst hs
  refine ⟨_, Passes.run ?_, ⟨rfl, rfl, rfl⟩,
    getLsbD_setFlag _ _, rfl, ?_⟩
  · refine ⟨rfl, rfl, rfl, ?_, rfl, rfl, ?_, rfl, rfl, rfl, rfl, rfl, rfl, rfl, rfl, rfl, rfl, rfl,
      rfl, rfl, rfl, rfl, rfl, trivial⟩
    · exact permits_wrpkru rfl rfl
    · refine (getLsbD_setFlag _ _).trans ?_
      rw [beq_iff_eq]
      exact (setWidth_loadByte _ _).trans h
  · show rsp - 128 - 8 - 8 - 8 - 8 = rsp - 160
    bv_omega

theorem returnToApplication_spec {m : Machine} {sp : Quad} {rest : List Quad}
    (hs : m.sigreturn = sp :: rest) :
    ∃ v, run returnToApplication m = some v ∧
      v.fs = m.gs .fsBase ∧ v.gs .fsBase = m.fs ∧ v.gs .secureStackSp = sp ∧
      v.gsByte .compartmentId = tsApplicationByte ∧ v.reg .rsp = m.reg .rsp := by
  cases m
  subst hs
  refine ⟨_, Passes.run ?_, rfl, rfl, rfl, rfl, rfl⟩
  refine ⟨rfl, rfl, rfl, rfl, rfl, rfl, rfl, rfl, rfl, ?_, rfl, ?_, trivial⟩
  · exact permits_wrpkru rfl rfl
  · exact (getLsbD_setFlag _ _).trans rfl

theorem returnToTrustedCode_spec (m : Machine) :
    ∃ v, run returnToTrustedCode m = some v ∧ Restored m v ∧
      v.gsByte .compartmentId = tsMonitorByte ∧ v.reg .rsp = m.reg .rsp := by
  have hp : Passes returnToTrustedCode m := by
    refine ⟨rfl, rfl, rfl, rfl, ?_, rfl, rfl, ?_, trivial⟩
    · exact permits_wrpkru rfl rfl
    · refine (getLsbD_setFlag _ _).trans ?_
      rw [beq_iff_eq]
      exact setWidth_loadByte _ _
  exact ⟨_, hp.run, ⟨rfl, rfl, rfl⟩, rfl, rfl⟩

theorem endOfSigreturn_spec (m : Machine) :
    ∃ v, run endOfSigreturn m = some v ∧ Restored m v ∧ v.gsByte = m.gsByte ∧
      v.reg .rsp = m.reg .rsp + 160 := by
  have hp : Passes endOfSigreturn m := ⟨rfl, rfl, rfl, rfl, rfl, rfl, trivial⟩
  refine ⟨_, hp.run, ⟨rfl, rfl, rfl⟩, rfl, ?_⟩
  show m.reg .rsp + 8 + 8 + 8 + 8 + 128 = _
  bv_omega

/-- The trampoline returns to the application: stack pointer and TLS are switched back. -/
theorem signalReturn_application {m : Machine} {rcx rdx rax rsp fl rip sel st sp : Quad}
    {rest : List Quad} (h : m.gsByte .compartmentId = tsMonitorByte) (hst : st ≠ 0)
    (hs : m.sigreturn = rcx :: rdx :: rax :: rsp :: fl :: rip :: sel :: st :: sp :: rest) :
    ∃ v, m.signalReturn = some v ∧
      v.fs = m.gs .fsBase ∧ v.gs .fsBase = m.fs ∧ v.gs .secureStackSp = sp ∧
      v.gsByte .compartmentId = tsApplicationByte ∧ v.reg .rsp = rsp := by
  obtain ⟨u, hu, hun, hzf, hrest, husp⟩ := restoreSelectorTrampoline_spec h hs
  obtain ⟨v, hv, hfs, hfsb, hssp, hcid, hvsp⟩ := returnToApplication_spec hrest
  obtain ⟨x, hx, hxn, hxb, hxsp⟩ := endOfSigreturn_spec v
  have hz : ¬ u.zf = true := by
    rw [hzf, beq_iff_eq]
    exact hst
  refine ⟨x, ?_, ?_, ?_, ?_, ?_, ?_⟩
  · rw [signalReturn, hu, Option.bind_some, if_neg hz, hv, Option.bind_some, hx]
  · rw [hxn.fs, hfs, hun.fsBase]
  · rw [hxn.fsBase, hfsb, hun.fs]
  · rw [hxn.secureStackSp, hssp]
  · rw [hxb, hcid]
  · rw [hxsp, hvsp, husp, BitVec.sub_add_cancel]

/-- The trampoline returns to the monitor. -/
theorem signalReturn_monitor {m : Machine} {rcx rdx rax rsp fl rip sel : Quad} {rest : List Quad}
    (h : m.gsByte .compartmentId = tsMonitorByte)
    (hs : m.sigreturn = rcx :: rdx :: rax :: rsp :: fl :: rip :: sel :: 0 :: rest) :
    ∃ v, m.signalReturn = some v ∧ Restored m v ∧
      v.gsByte .compartmentId = tsMonitorByte ∧ v.reg .rsp = rsp := by
  obtain ⟨u, hu, hun, hzf, -, husp⟩ := restoreSelectorTrampoline_spec h hs
  obtain ⟨v, hv, hvn, hcid, hvsp⟩ := returnToTrustedCode_spec u
  obtain ⟨x, hx, hxn, hxb, hxsp⟩ := endOfSigreturn_spec v
  have hz : u.zf = true := hzf
  refine ⟨x, ?_, ⟨?_, ?_, ?_⟩, ?_, ?_⟩
  · rw [signalReturn, hu, Option.bind_some, if_pos hz, hv, Option.bind_some, hx]
  · rw [hxn.fs, hvn.fs, hun.fs]
  · rw [hxn.secureStackSp, hvn.secureStackSp, hun.secureStackSp]
  · rw [hxn.fsBase, hvn.fsBase, hun.fsBase]
  · rw [hxb, hcid]
  · rw [hxsp, hvsp, husp, BitVec.sub_add_cancel]

/-- A signal gives back the five values, but for a stack pointer that is zero: that is
replaced by `%r9`. -/
theorem signalRoundTrip_spec (m : Machine) (alt signo info : Quad)
    (h : m.gsByte .compartmentId = tsApplicationByte ∨ m.gsByte .compartmentId = tsMonitorByte) :
    ∃ m', m.signalRoundTrip alt signo info = some m' ∧ Restored m m' ∧
      m'.gsByte .compartmentId = m.gsByte .compartmentId ∧
      m'.reg .rsp = if m.reg .rsp = 0 then m.reg .r9 else m.reg .rsp := by
  obtain ⟨e, hrun, hu, hzf, hbytes, hsig, -, -⟩ := asmSignalEntry_spec (m.deliver alt signo info)
  have hcid : e.gsByte .compartmentId = m.gsByte .compartmentId := by rw [hbytes]; rfl
  cases h with
  | inl happ =>
      obtain ⟨w, hw, hfs, hfsb, hwb, hws⟩ := leaveApplication_spec e
      have hz : ¬ e.zf = true := by
        rw [hzf]
        show ¬ (m.gsByte .compartmentId == tsMonitorByte) = true
        rw [happ]
        decide
      have hentry : (m.deliver alt signo info).signalEntry = some w := by
        rw [signalEntry, hrun, Option.bind_some, if_neg hz, hw]
      have hst : ((w.gsByte .compartmentId).signExtend 64 : Quad) ≠ 0 := by
        rw [hwb, hcid, happ]
        decide
      obtain ⟨v, hv, hvfs, hvfsb, hvsp, hvcid, hvrsp⟩ := signalReturn_application
        (m := w.signalHandlerSwitch.setupRestoreSelectorTrampoline m (alt + 8)) rfl hst
        (congrArg (fun l => _ :: _ :: _ :: _ :: _ :: _ :: _ :: _ :: l) hws)
      refine ⟨v, ?_, ⟨?_, ?_, ?_⟩, ?_, hvrsp⟩
      · rw [signalRoundTrip, hentry, Option.bind_some, hv]
      · exact hvfs.trans (hfsb.trans hu.fs)
      · exact hvsp.trans hu.secureStackSp
      · exact hvfsb.trans (hfs.trans hu.fsBase)
      · rw [hvcid, happ]
  | inr hmon =>
      have hz : e.zf = true := by
        rw [hzf]
        show (m.gsByte .compartmentId == tsMonitorByte) = true
        rw [hmon]
        decide
      have hentry : (m.deliver alt signo info).signalEntry = some e := by
        rw [signalEntry, hrun, Option.bind_some, if_pos hz]
      have hst : ((e.gsByte .compartmentId).signExtend 64 : Quad) = 0 := by
        rw [hcid, hmon]
        decide
      obtain ⟨v, hv, hvn, hvcid, hvrsp⟩ := signalReturn_monitor
        (m := e.signalHandlerSwitch.setupRestoreSelectorTrampoline m (alt + 8)) rfl
        (congrArg (fun st => _ :: _ :: _ :: _ :: _ :: _ :: _ :: st :: _) hst)
      refine ⟨v, ?_, ⟨?_, ?_, ?_⟩, ?_, hvrsp⟩
      · rw [signalRoundTrip, hentry, Option.bind_some, hv]
      · exact hvn.fs.trans hu.fs
      · exact hvn.secureStackSp.trans hu.secureStackSp
      · exact hvn.fsBase.trans hu.fsBase
      · rw [hvcid, hmon]

/-! ## Descriptions of the machine -/

/-- What is known of a word. -/
inductive AVal where
  | unknown
  /-- At a distance from the stack pointer of `o`. -/
  | near (o : Owner) (d : Int)
  /-- The same, rounded down to a multiple of 16. -/
  | aligned (o : Owner) (d : Int)
  | tls (o : Owner)
  | zero
deriving DecidableEq, Repr

/-- The words that a description allows. -/
def AVal.Holds (l : Layout) : AVal → Quad → Prop
  | .unknown, _ => True
  | .near o d, q => q = l.sp o + BitVec.ofInt 64 d
  | .aligned o d, q => q = (l.sp o + BitVec.ofInt 64 d) &&& -16
  | .tls o, q => q = l.tls o
  | .zero, q => q = 0

def AVal.add (d' : Int) : AVal → AVal
  | .near o d => .near o (d + d')
  | _ => .unknown

def AVal.align : AVal → AVal
  | .near o d => .aligned o d
  | _ => .unknown

structure AState where
  reg : Reg → AVal
  fs : AVal
  secureStackSp : AVal
  fsBase : AVal
  compartmentId : BitVec 8

namespace AState

structure Describes (l : Layout) (a : AState) (m : Machine) : Prop where
  reg : ∀ r, (a.reg r).Holds l (m.reg r)
  fs : a.fs.Holds l m.fs
  secureStackSp : a.secureStackSp.Holds l (m.gs .secureStackSp)
  fsBase : a.fsBase.Holds l (m.gs .fsBase)
  compartmentId : m.gsByte .compartmentId = a.compartmentId

def set (a : AState) (r : Reg) (v : AVal) : AState := { a with reg := Function.update a.reg r v }

def gs (a : AState) : GsField → AVal
  | .secureStackSp => a.secureStackSp
  | .fsBase => a.fsBase
  | _ => .unknown

def setGs (a : AState) : GsField → AVal → AState
  | .secureStackSp, v => { a with secureStackSp := v }
  | .fsBase, v => { a with fsBase := v }
  | _, _ => a

def moveSp (a : AState) (d : Int) : AState := a.set .rsp ((a.reg .rsp).add d)

/-- The description after an instruction. The routines store only constants into the
compartment byte. -/
def apply (a : AState) : Instr → AState
  | .pushfq | .push _ => a.moveSp (-8)
  | .popfq | .ret => a.moveSp 8
  | .pop r => (a.moveSp 8).set r .unknown
  | .mov src dst => a.set dst (a.reg src)
  | .movImm imm dst => a.set dst (if imm = 0 then .zero else .unknown)
  | .andImm imm dst => a.set dst (if imm = -16 then (a.reg dst).align else .unknown)
  | .clear dst | .movl _ dst | .shl _ dst | .shr _ dst | .or _ dst | .orImm _ dst | .addImm _ dst
  | .subImm _ dst | .sub _ dst | .load _ dst | .loadByte _ dst | .rdgsbase dst
  | .popSigreturn dst => a.set dst .unknown
  | .loadGs f dst => a.set dst (a.gs f)
  | .storeGs src f => a.setGs f (a.reg src)
  | .xchgGs r f => (a.setGs f (a.reg r)).set r (a.gs f)
  | .incGs f | .decGs f => a.setGs f .unknown
  | .storeByte v .compartmentId => { a with compartmentId := v }
  | .rdfsbase dst => a.set dst a.fs
  | .wrfsbase src => { a with fs := a.reg src }
  | .sigaltstack _ => ((a.set .rax .unknown).set .rcx .unknown).set .r11 .unknown
  | .storeByte _ .sudSelector | .storeLow _ _ | .wrpkru | .cmpb _ _ | .cmpl _ _ | .cmpq _ _
  | .test _ | .bt _ _ | .ifZero | .ifNotZero | .ifNotCarry | .xsave | .xrstor | .pushSigreturn _
  | .jmpGs _ => a

/-- The only instruction whose effect on the compartment byte is not followed. -/
def follows : Instr → Bool
  | .storeLow _ .compartmentId => false
  | _ => true

variable {l : Layout} {a : AState} {m : Machine}

theorem holds_unknown (l : Layout) (q : Quad) : AVal.unknown.Holds l q := trivial

theorem holds_add {v : AVal} {q : Quad} (h : v.Holds l q) (d : Int) :
    (v.add d).Holds l (q + BitVec.ofInt 64 d) := by
  cases v with
  | near o e =>
      show q + _ = l.sp o + BitVec.ofInt 64 (e + d)
      rw [show q = l.sp o + BitVec.ofInt 64 e from h, BitVec.ofInt_add, BitVec.add_assoc]
  | _ => trivial

theorem Describes.set (h : a.Describes l m) (r : Reg) {v : AVal} {q : Quad} (hv : v.Holds l q) :
    (a.set r v).Describes l (m.set r q) := by
  refine ⟨fun x => ?_, h.fs, h.secureStackSp, h.fsBase, h.compartmentId⟩
  show (Function.update a.reg r v x).Holds l (Function.update m.reg r q x)
  by_cases hx : x = r
  · subst hx
    rw [Function.update_self, Function.update_self]
    exact hv
  · rw [Function.update_of_ne hx, Function.update_of_ne hx]
    exact h.reg x

/-- Only the described parts of the machine count. -/
theorem Describes.congr {m' : Machine} (h : a.Describes l m) (hreg : m'.reg = m.reg)
    (hfs : m'.fs = m.fs) (hgs : m'.gs = m.gs)
    (hb : m'.gsByte .compartmentId = m.gsByte .compartmentId) :
    a.Describes l m' := by
  refine ⟨fun r => ?_, ?_, ?_, ?_, ?_⟩
  · rw [hreg]; exact h.reg r
  · rw [hfs]; exact h.fs
  · rw [hgs]; exact h.secureStackSp
  · rw [hgs]; exact h.fsBase
  · rw [hb]; exact h.compartmentId

theorem Describes.gs (h : a.Describes l m) (f : GsField) : (a.gs f).Holds l (m.gs f) := by
  cases f with
  | secureStackSp => exact h.secureStackSp
  | fsBase => exact h.fsBase
  | _ => trivial

theorem Describes.setGs (h : a.Describes l m) (f : GsField) {v : AVal} {q : Quad}
    (hv : v.Holds l q) : (a.setGs f v).Describes l (m.setGs f q) := by
  cases f with
  | secureStackSp => exact ⟨h.reg, h.fs, hv, h.fsBase, h.compartmentId⟩
  | fsBase => exact ⟨h.reg, h.fs, h.secureStackSp, hv, h.compartmentId⟩
  | _ => exact ⟨h.reg, h.fs, h.secureStackSp, h.fsBase, h.compartmentId⟩

theorem Describes.moveSp (h : a.Describes l m) (d : Int) :
    (a.moveSp d).Describes l (m.set .rsp (m.reg .rsp + BitVec.ofInt 64 d)) :=
  h.set .rsp (holds_add (h.reg .rsp) d)

theorem Describes.push (h : a.Describes l m) (v : Quad) :
    (a.moveSp (-8)).Describes l (m.pushWord v) := by
  have hsub : m.reg .rsp - 8 = m.reg .rsp + BitVec.ofInt 64 (-8) := by
    rw [BitVec.sub_eq_add_neg]
    rfl
  refine (h.moveSp (-8)).congr ?_ rfl rfl rfl
  rw [← hsub]
  rfl

theorem Describes.arith (h : a.Describes l m) (dst : Reg) {v : AVal} {q : Quad} (hv : v.Holds l q) :
    (a.set dst v).Describes l (m.arith dst q) :=
  (h.set dst hv).congr rfl rfl rfl rfl

theorem Describes.apply (h : a.Describes l m) (i : Instr) (hi : follows i = true) :
    (a.apply i).Describes l (m.apply i) := by
  cases i with
  | pushfq => exact h.push _
  | push r => exact h.push _
  | popfq => exact (h.moveSp 8).congr rfl rfl rfl rfl
  | ret => exact (h.moveSp 8).congr rfl rfl rfl rfl
  | pop r => exact (h.moveSp 8).set r trivial
  | mov src dst => exact h.set dst (h.reg src)
  | movl src dst => exact h.set dst trivial
  | movImm imm dst =>
      refine h.set dst ?_
      split
      · assumption
      · trivial
  | andImm imm dst =>
      refine h.arith dst ?_
      split
      next he =>
        subst he
        have hr := h.reg dst
        cases hv : a.reg dst with
        | near o d =>
            rw [hv] at hr
            exact congrArg (· &&& (-16 : Quad)) hr
        | _ => trivial
      next => trivial
  | clear dst => exact h.arith dst trivial
  | shl n dst => exact h.arith dst trivial
  | shr n dst => exact h.arith dst trivial
  | or src dst => exact h.arith dst trivial
  | orImm imm dst => exact h.arith dst trivial
  | addImm imm dst => exact h.arith dst trivial
  | subImm imm dst => exact h.arith dst trivial
  | sub src dst => exact h.arith dst trivial
  | load base dst => exact h.set dst trivial
  | loadByte b dst => exact h.set dst trivial
  | rdgsbase dst => exact h.set dst trivial
  | popSigreturn dst => exact (h.set dst (holds_unknown l _)).congr rfl rfl rfl rfl
  | loadGs f dst => exact h.set dst (h.gs f)
  | storeGs src f => exact h.setGs f (h.reg src)
  | xchgGs r f => exact (h.setGs f (h.reg r)).set r (h.gs f)
  | incGs f => exact (h.setGs f (holds_unknown l _)).congr rfl rfl rfl rfl
  | decGs f => exact (h.setGs f (holds_unknown l _)).congr rfl rfl rfl rfl
  | storeByte v b =>
      cases b with
      | compartmentId => exact ⟨h.reg, h.fs, h.secureStackSp, h.fsBase, rfl⟩
      | sudSelector => exact h.congr rfl rfl rfl rfl
  | storeLow src b =>
      cases b with
      | compartmentId => cases hi
      | sudSelector => exact h.congr rfl rfl rfl rfl
  | rdfsbase dst => exact h.set dst h.fs
  | wrfsbase src => exact ⟨h.reg, h.reg src, h.secureStackSp, h.fsBase, h.compartmentId⟩
  | sigaltstack next =>
      exact ((h.set .rax (holds_unknown l _)).set .rcx (holds_unknown l _)).set .r11
        (holds_unknown l _)
  | _ => exact h.congr rfl rfl rfl rfl

/-- The description at a boundary. -/
def applyAll (a : AState) (code : List Instr) : AState := code.foldl apply a

theorem Describes.run {code : List Instr} (hc : code.all follows = true) (h : a.Describes l m)
    {m' : Machine} (hrun : Machine.run code m = some m') : (a.applyAll code).Describes l m' := by
  induction code generalizing a m with
  | nil =>
      cases hrun
      exact h
  | cons i rest ih =>
      rw [List.all_cons, Bool.and_eq_true] at hc
      rw [Machine.run] at hrun
      split at hrun
      · exact ih hc.2 (h.apply i hc.1) hrun
      · cases hrun

end AState

/-! ## Deciding a boundary -/

/-- Whose stack an address is on, if it is close enough to the stack pointer. -/
def AVal.onStack : AVal → Option Owner
  | .near o d => if -112 ≤ d ∧ d ≤ 112 then some o else none
  | .aligned o d => if -112 ≤ d ∧ d ≤ 112 then some o else none
  | _ => none

theorem and_sixteen (x : Quad) : x &&& -16 = x - BitVec.ofNat 64 (x.toNat % 16) := by
  have hshift : x &&& (-16 : Quad) = x >>> 4 <<< 4 := by
    ext i hi
    have hmask : (-16 : Quad)[i] = decide (4 ≤ i) := by
      revert i
      decide
    rw [BitVec.getElem_and, hmask]
    simp
    grind
  have hnat : (x >>> 4 <<< 4).toNat = x.toNat / 16 * 16 := by
    rw [BitVec.toNat_shiftLeft, BitVec.toNat_ushiftRight, Nat.shiftRight_eq_div_pow,
      Nat.shiftLeft_eq]
    have := x.isLt
    omega
  rw [hshift]
  apply BitVec.eq_of_toNat_eq
  rw [hnat, BitVec.toNat_sub, BitVec.toNat_ofNat]
  have := x.isLt
  omega

theorem Layout.stack_near (l : Layout) (o : Owner) {d : Int} (h : -128 ≤ d ∧ d ≤ 128) :
    l.stack o (l.sp o + BitVec.ofInt 64 d) := by
  by_cases hd : 0 ≤ d
  · have := (l.room o d.toNat (by omega)).1
    have he : BitVec.ofInt 64 d = BitVec.ofNat 64 d.toNat := by
      rw [← BitVec.ofInt_natCast, Int.toNat_of_nonneg hd]
    rwa [he]
  · have := (l.room o (-d).toNat (by omega)).2
    have he : BitVec.ofInt 64 d = -BitVec.ofNat 64 (-d).toNat := by
      rw [← BitVec.ofInt_natCast, Int.toNat_of_nonneg (by omega), BitVec.ofInt_neg, BitVec.neg_neg]
    rw [he, ← BitVec.sub_eq_add_neg]
    exact this

theorem AVal.onStack_sound {l : Layout} {v : AVal} {o : Owner} {q : Quad}
    (hv : v.onStack = some o) (h : v.Holds l q) : l.stack o q := by
  cases v with
  | near o' d =>
      rw [AVal.onStack] at hv
      split at hv
      next hd =>
        cases hv
        rw [show q = _ from h]
        exact l.stack_near o ⟨by omega, by omega⟩
      next => cases hv
  | aligned o' d =>
      rw [AVal.onStack] at hv
      split at hv
      next hd =>
        cases hv
        rw [show q = _ from h, and_sixteen, BitVec.sub_eq_add_neg, BitVec.add_assoc,
          ← BitVec.ofInt_natCast, ← BitVec.ofInt_neg, ← BitVec.ofInt_add]
        exact l.stack_near o ⟨by omega, by omega⟩
      next => cases hv
  | unknown => cases hv
  | tls o' => cases hv
  | zero => cases hv

namespace AState

/-- The description is sharp enough to decide. -/
def sharp (a : AState) : Bool :=
  ((a.reg .rsp).onStack.isSome || a.reg .rsp == .zero && (a.reg .r9).onStack.isSome) &&
    a.secureStackSp.onStack.isSome &&
    (a.fs == .tls .application || a.fs == .tls .monitor) &&
    (a.compartmentId == tsApplicationByte || a.compartmentId == tsMonitorByte)

/-- The property, on the description. -/
def interruptible (a : AState) : Bool :=
  a.reg .rsp != .zero &&
    ((a.compartmentId == tsApplicationByte) ==
      ((a.reg .rsp).onStack == some .application && a.secureStackSp.onStack == some .monitor &&
        a.fs == .tls .application))

end AState

theorem AVal.eq_tls {l : Layout} {o : Owner} {v : AVal} {q : Quad} (hv : v = .tls o)
    (h : v.Holds l q) : q = l.tls .application ↔ o = .application := by
  subst hv
  have hq : q = l.tls o := h
  cases o with
  | application => exact ⟨fun _ => rfl, fun _ => hq⟩
  | monitor => exact ⟨fun he => absurd (he.symm.trans hq) l.tls_ne, fun he => nomatch he⟩

/-- Being on the stack of `o` is what the description says. -/
theorem AVal.stack_iff {l : Layout} {v : AVal} {o o' : Owner} {q : Quad}
    (hv : v.onStack = some o') (h : v.Holds l q) : l.stack o q ↔ v.onStack = some o := by
  have hq := AVal.onStack_sound hv h
  rw [hv, Option.some_inj]
  constructor
  · intro ho
    cases o <;> cases o'
    · rfl
    · exact absurd hq (l.disjoint q ho)
    · exact absurd ho (l.disjoint q hq)
    · rfl
  · rintro rfl
    exact hq

/-- A signal at a described boundary. -/
theorem roundTrip_iff {l : Layout} {a : AState} {m : Machine} (h : a.Describes l m)
    (hs : a.sharp = true) :
    (∀ alt signo info, ∃ m', m.signalRoundTrip alt signo info = some m' ∧ SameState m m') ↔
      a.reg .rsp ≠ .zero := by
  simp only [AState.sharp, Bool.and_eq_true, Bool.or_eq_true, beq_iff_eq] at hs
  obtain ⟨⟨⟨hrsp, -⟩, -⟩, hcid⟩ := hs
  rw [← h.compartmentId] at hcid
  constructor
  · intro hall hzero
    obtain ⟨m', hm', hsame⟩ := hall 0 0 0
    obtain ⟨m'', hm'', -, -, hr9⟩ := signalRoundTrip_spec m 0 0 0 hcid
    have hm0 : m.reg .rsp = 0 := by
      have := h.reg .rsp
      rwa [hzero] at this
    rw [hm'] at hm''
    cases hm''
    rw [hsame.rsp, if_pos hm0, hm0] at hr9
    obtain ⟨o, ho⟩ : ∃ o, (a.reg .r9).onStack = some o := by
      rw [hzero] at hrsp
      exact Option.isSome_iff_exists.mp (hrsp.resolve_left (by decide)).2
    exact l.null o (hr9 ▸ AVal.onStack_sound ho (h.reg .r9))
  · intro hne alt signo info
    obtain ⟨m', hm', hu, hb, hsp⟩ := signalRoundTrip_spec m alt signo info hcid
    obtain ⟨o, ho⟩ := Option.isSome_iff_exists.mp (hrsp.resolve_right fun hz => hne hz.1)
    have hm0 : m.reg .rsp ≠ 0 := fun he => l.null o (he ▸ AVal.onStack_sound ho (h.reg .rsp))
    rw [if_neg hm0] at hsp
    exact ⟨m', hm', hsp, hu.fs, hu.secureStackSp, hu.fsBase, hb⟩

theorem inApplication_iff {l : Layout} {a : AState} {m : Machine} (h : a.Describes l m)
    (hs : a.sharp = true) :
    InApplication l m ↔ (a.reg .rsp).onStack = some .application ∧
      a.secureStackSp.onStack = some .monitor ∧ a.fs = .tls .application := by
  simp only [AState.sharp, Bool.and_eq_true, Bool.or_eq_true, beq_iff_eq] at hs
  obtain ⟨⟨⟨hrsp, hssp⟩, hfs⟩, -⟩ := hs
  obtain ⟨o, ho⟩ := Option.isSome_iff_exists.mp hssp
  have hstack : l.stack .application (m.reg .rsp) ↔ (a.reg .rsp).onStack = some .application := by
    cases hrsp with
    | inl hsome =>
        obtain ⟨o', ho'⟩ := Option.isSome_iff_exists.mp hsome
        exact AVal.stack_iff ho' (h.reg .rsp)
    | inr hz =>
        have hq := h.reg .rsp
        rw [hz.1] at hq ⊢
        constructor
        · intro hst
          exact absurd (show l.stack .application 0 from hq ▸ hst) (l.null _)
        · intro hn
          cases hn
  have htls : m.fs = l.tls .application ↔ a.fs = .tls .application := by
    cases hfs with
    | inl he => rw [AVal.eq_tls he h.fs, he]; decide
    | inr he => rw [AVal.eq_tls he h.fs, he]; decide
  rw [InApplication, hstack, AVal.stack_iff ho h.secureStackSp, htls]

theorem interruptible_iff {l : Layout} {a : AState} {m : Machine} (h : a.Describes l m)
    (hs : a.sharp = true) : Interruptible l m ↔ a.interruptible = true := by
  rw [Interruptible, roundTrip_iff h hs, inApplication_iff h hs, h.compartmentId]
  simp only [AState.interruptible, Bool.and_eq_true, bne_iff_ne, beq_iff_eq]
  rw [and_comm, Bool.eq_iff_iff]
  simp only [Bool.and_eq_true, beq_iff_eq, and_assoc]

def Routine.describe (rt : Routine) : AState where
  reg := fun r => match r, rt with
    | .rsp, .callAppHandlerReturn _ => .aligned .application 0
    | .rbp, .callAppHandlerReturn _ => .near .application 0
    | .rsp, _ => .near rt.caller 0
    | _, _ => .unknown
  fs := .tls rt.caller
  secureStackSp := .near rt.caller.other 0
  fsBase := .tls rt.caller.other
  compartmentId := rt.caller.byte

theorem Routine.Starts.describes {rt : Routine} {l : Layout} {m : Machine} (h : rt.Starts l m) :
    rt.describe.Describes l m := by
  have hzero : ∀ q : Quad, q = q + BitVec.ofInt 64 0 := fun q => by simp
  have hrsp := h.rsp
  refine ⟨?_, h.fs, h.secureStackSp.trans (hzero _), h.fsBase, h.compartmentId⟩
  intro r
  cases rt with
  | callAppHandlerReturn next =>
      cases r with
      | rsp => exact hrsp.2.trans (congrArg (· &&& (-16 : Quad)) (hzero _))
      | rbp => exact hrsp.1.trans (hzero _)
      | _ => trivial
  | _ =>
      cases r with
      | rsp => exact hrsp.trans (hzero _)
      | _ => trivial

/-- The boundaries at which a signal must not arrive, by the number of instructions before
them. -/
def Routine.windows : Routine → List Nat
  -- From the switch of the stacks to the store into the compartment byte.
  | .syscallHookEntry => [20, 21, 22, 23]
  -- The same on the way back.
  | .doNothing => [6]
  -- While the stack pointer is zero; from the switch of the TLS to the store.
  | .callAppHandler _ => [16, 17, 18, 19, 30, 31]
  -- From the store to the switch of the TLS; while the stack pointer is zero.
  | .callAppHandlerReturn _ => [9, 10, 11, 12, 13, 14, 15, 28, 29, 30, 31]

/-- The description decides boundary `n` as the windows say. -/
def AState.agrees (a : AState) (windows : List Nat) (n : Nat) : Bool :=
  a.sharp && (a.interruptible == !windows.contains n)

/-- The same at all boundaries of a piece of code that starts at boundary `n`. -/
def AState.agreesAll (windows : List Nat) : AState → List Instr → Nat → Bool
  | a, [], n => a.agrees windows n
  | a, i :: rest, n => a.agrees windows n && agreesAll windows (a.apply i) rest (n + 1)

theorem AState.agreesAll_take {windows : List Nat} {a : AState} {code : List Instr} {n : Nat}
    (h : agreesAll windows a code n = true) {i : Nat} (hi : i ≤ code.length) :
    (a.applyAll (code.take i)).agrees windows (n + i) = true := by
  induction code generalizing a n i with
  | nil =>
      cases Nat.le_zero.mp hi
      exact h
  | cons c rest ih =>
      rw [agreesAll, Bool.and_eq_true] at h
      cases i with
      | zero => exact h.1
      | succ i =>
          have hrest := ih h.2 (Nat.le_of_succ_le_succ hi)
          rw [Nat.add_assoc, Nat.add_comm 1 i] at hrest
          exact hrest

theorem Routine.agreesAll (rt : Routine) :
    AState.agreesAll rt.windows rt.describe rt.code 0 = true := by
  cases rt <;> rfl

theorem Routine.follows (rt : Routine) : rt.code.all AState.follows = true := by
  cases rt <;> rfl

/-- At a boundary of the switching code the compartment byte tells the stack and the TLS,
and a signal gives back what it interrupted, exactly outside of the windows. -/
theorem boundary_interruptible_iff (l : Layout) (rt : Routine) {m m' : Machine}
    (hs : rt.Starts l m) {i : Nat} (hi : i ≤ rt.code.length)
    (hrun : run (rt.code.take i) m = some m') :
    Interruptible l m' ↔ i ∉ rt.windows := by
  have hcode : (rt.code.take i).all AState.follows = true := by
    rw [List.all_eq_true]
    intro x hx
    exact List.all_eq_true.mp rt.follows x (List.mem_of_mem_take hx)
  have hd := hs.describes.run hcode hrun
  have hb := AState.agreesAll_take rt.agreesAll hi
  rw [Nat.zero_add, AState.agrees, Bool.and_eq_true, beq_iff_eq] at hb
  rw [interruptible_iff hd hb.1, hb.2]
  simp

/-- The application's stack pointer is `0x2000`, the monitor's `0x8000`. -/
def sampleSp : Owner → Quad
  | .application => 0x2000
  | .monitor => 0x8000

def sampleLayout : Layout where
  stack := fun o q => (q - sampleSp o + 128).toNat ≤ 256
  sp := sampleSp
  tls := fun o => match o with
    | .application => 0x3000
    | .monitor => 0x9000
  room := by
    intro o d hd
    constructor
    · have : sampleSp o + BitVec.ofNat 64 d - sampleSp o + 128 = BitVec.ofNat 64 (d + 128) := by
        bv_omega
      rw [this, BitVec.toNat_ofNat]
      omega
    · have : sampleSp o - BitVec.ofNat 64 d - sampleSp o + 128 = BitVec.ofNat 64 (128 - d) := by
        bv_omega
      rw [this, BitVec.toNat_ofNat]
      omega
  disjoint := by
    intro q h h'
    simp only [sampleSp] at h h'
    bv_omega
  null := by
    intro o
    cases o <;> decide
  tls_ne := by decide

/-- The application makes a system call. -/
def sampleMachine : Machine where
  reg := fun r => match r with
    | .rsp => 0x2000
    | _ => 0
  flags := 0
  rip := 0
  fs := 0x3000
  gsBase := 0
  pkru := revokePermissions
  gs := fun f => match f with
    | .secureStackSp => 0x8000
    | .fsBase => 0x9000
    | _ => 0
  gsByte := fun _ => 1
  sigreturn := []
  mem := fun _ => 0

theorem sampleMachine_starts : Routine.syscallHookEntry.Starts sampleLayout sampleMachine :=
  ⟨rfl, rfl, rfl, rfl, rfl⟩

/-- The end of the entry is outside of its window. -/
theorem boundary_interruptible_iff_entry :
    Routine.syscallHookEntry.Starts sampleLayout sampleMachine ∧
    run (Routine.syscallHookEntry.code.take 24) sampleMachine =
      some (sampleMachine.applyAll syscallHookEntry) ∧
    Interruptible sampleLayout (sampleMachine.applyAll syscallHookEntry) := by
  have hrun : run (Routine.syscallHookEntry.code.take 24) sampleMachine =
      some (sampleMachine.applyAll syscallHookEntry) :=
    (passes_syscallHookEntry rfl).run
  exact ⟨sampleMachine_starts, hrun, (boundary_interruptible_iff sampleLayout .syscallHookEntry
    sampleMachine_starts (by decide) hrun).mpr (by decide)⟩

/-- The stacks are switched but the compartment byte is still the application's. -/
theorem boundary_not_interruptible :
    Routine.syscallHookEntry.Starts sampleLayout sampleMachine ∧
    ∃ m', run (Routine.syscallHookEntry.code.take 20) sampleMachine = some m' ∧
      m'.gsByte .compartmentId = tsApplicationByte ∧ ¬ InApplication sampleLayout m' ∧
      ¬ Interruptible sampleLayout m' := by
  have hp : Passes (syscallHookEntry.take 20) sampleMachine := (passes_syscallHookEntry rfl).take 20
  have happ : ¬ InApplication sampleLayout (sampleMachine.applyAll (syscallHookEntry.take 20)) := by
    intro h
    have hsp : ((0x8000 : Quad) - 0x2000 + 128).toNat ≤ 256 := h.1
    exact absurd hsp (by decide)
  exact ⟨sampleMachine_starts, _, hp.run, rfl, happ, fun h => happ (h.1.mp rfl)⟩

end Secpoline
