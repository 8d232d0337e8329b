import Secpoline.Model.SignalFrames
import Secpoline.Proofs.Compartments

/-!
# The red zone

Below its stack pointer the application may keep 128 bytes. The trampoline leaves them
alone, but the frame is copied right below the stack pointer, so the first thing that a
delivery to a handler of the application does is to overwrite all of them: the red zone
survives exactly if the monitor keeps the signal, and every signal that arrives meanwhile,
to itself (`red_zone_iff`). What is above the stack pointer stays, however deep signals nest
(`Delivery.writes_below`).

That the lists of writes are those of the assembly is proved from its instructions
(`callAppHandler_pushes`, `restoreSelectorTrampoline_pushes`).
-/

namespace Secpoline

open Machine

/-! ## Written bytes -/

/-- The distance of two addresses on one stack is a signed number. -/
def AtOrAbove (p a : Quad) : Prop := 0 ≤ (a - p).toInt

instance (p a : Quad) : Decidable (AtOrAbove p a) := inferInstanceAs (Decidable (0 ≤ _))

/-- No byte at or above `rsp - 128` is written. -/
def KeepsRedZone (rsp : Quad) (ws : List StackWrite) : Prop :=
  ∀ w ∈ ws, ∀ i < w.size, ¬ AtOrAbove (rsp - 128) (w.byte i)

theorem keepsRedZone_append {rsp : Quad} {ws ws' : List StackWrite} :
    KeepsRedZone rsp (ws ++ ws') ↔ KeepsRedZone rsp ws ∧ KeepsRedZone rsp ws' := by
  simp only [KeepsRedZone, List.mem_append, or_imp, forall_and]

/-- A word that is pushed below the red zone. -/
theorem keepsRedZone_word (rsp : Quad) {k : Nat} (hlo : 136 ≤ k) (hhi : k ≤ 2 ^ 62) {i : Nat}
    (hi : i < 8) : ¬ AtOrAbove (rsp - 128) (rsp - BitVec.ofNat 64 k + BitVec.ofNat 64 i) := by
  have hdist : (rsp - BitVec.ofNat 64 k + BitVec.ofNat 64 i - (rsp - 128)).toNat =
      2 ^ 64 - (k - 128 - i) := by
    bv_omega
  rw [AtOrAbove, BitVec.toInt_eq_toNat_cond, hdist, if_neg (by omega)]
  omega

theorem keepsRedZone_trampoline (rsp : Quad) : KeepsRedZone rsp (trampolineWrites rsp) := by
  intro w hw i hi
  simp only [trampolineWrites, List.mem_cons, List.not_mem_nil, or_false] at hw
  rcases hw with rfl | rfl | rfl | rfl
  all_goals exact keepsRedZone_word rsp (by decide) (by decide) hi

/-- The copy of the siginfo begins where the red zone does. -/
theorem not_keepsRedZone {rsp : Quad} {ws : List StackWrite}
    (h : ⟨rsp - sizeofSiginfo, sizeofSiginfo.toNat⟩ ∈ ws) : ¬ KeepsRedZone rsp ws := by
  intro hkeeps
  have hpos : 0 < sizeofSiginfo.toNat := by decide
  refine hkeeps _ h 0 hpos ?_
  simp [AtOrAbove, StackWrite.byte, sizeofSiginfo]

mutual

/-- No handler of the application is called. -/
def Delivery.quiet : Delivery → Bool
  | .kept during => during.quiet
  | .handled .. => false

def Arrivals.quiet : Arrivals → Bool
  | .none => true
  | .more d rest => d.quiet && rest.quiet

end

mutual

theorem Delivery.keepsRedZone_iff (inApp : Bool) (rsp : Quad) :
    (d : Delivery) → (KeepsRedZone rsp (d.writes inApp rsp) ↔ d.quiet = true)
  | .kept during => by
      rw [Delivery.writes, keepsRedZone_append, during.keepsRedZone_iff rsp, Delivery.quiet]
      refine and_iff_left ?_
      split
      · exact keepsRedZone_trampoline rsp
      · exact nofun
  | .handled early moved handler returned late back => by
      refine iff_of_false (not_keepsRedZone ?_) (by simp [Delivery.quiet])
      simp [Delivery.writes]

theorem Arrivals.keepsRedZone_iff (rsp : Quad) :
    (l : Arrivals) → (KeepsRedZone rsp (l.writes rsp) ↔ l.quiet = true)
  | .none => by simp [Arrivals.writes, Arrivals.quiet, KeepsRedZone]
  | .more d rest => by
      rw [Arrivals.writes, keepsRedZone_append, d.keepsRedZone_iff false rsp,
        rest.keepsRedZone_iff rsp, Arrivals.quiet, Bool.and_eq_true]

end

/-! ## Above the stack pointer -/

/-- Every byte that is written is below `sp`. -/
def WritesBelow (sp : Quad) (ws : List StackWrite) : Prop :=
  ∀ w ∈ ws, ∀ i < w.size, (w.byte i).toNat < sp.toNat

theorem writesBelow_append {sp : Quad} {ws ws' : List StackWrite} :
    WritesBelow sp (ws ++ ws') ↔ WritesBelow sp ws ∧ WritesBelow sp ws' := by
  simp only [WritesBelow, List.mem_append, or_imp, forall_and]

theorem WritesBelow.mono {sp sp' : Quad} {ws : List StackWrite} (h : WritesBelow sp ws)
    (hle : sp.toNat ≤ sp'.toNat) : WritesBelow sp' ws := by
  intro w hw i hi
  exact Nat.lt_of_lt_of_le (h w hw i hi) hle

theorem writesBelow_trampoline {sp : Quad} (h : 160 ≤ sp.toNat) :
    WritesBelow sp (trampolineWrites sp) := by
  intro w hw i hi
  simp only [trampolineWrites, List.mem_cons, List.not_mem_nil, or_false] at hw
  rcases hw with rfl | rfl | rfl | rfl
  all_goals
    simp only [StackWrite.byte] at hi ⊢
    bv_omega

/-- `andq $-16` rounds down. -/
theorem and_neg_sixteen (x : Quad) : (x &&& -16).toNat + x.toNat % 16 = x.toNat := by
  have hor : (x &&& -16) ||| (x &&& 15) = x := by
    rw [← BitVec.and_or_distrib_left]
    exact BitVec.and_allOnes
  have hand : (x &&& -16) &&& (x &&& 15) = 0 := by
    rw [BitVec.and_assoc, ← BitVec.and_assoc (-16) x, BitVec.and_comm (-16) x, BitVec.and_assoc x]
    simp
  have hlow : (x &&& 15).toNat = x.toNat % 16 := by
    rw [BitVec.toNat_and]
    exact Nat.and_two_pow_sub_one_eq_mod x.toNat 4
  rw [← hlow, ← BitVec.toNat_add_of_and_eq_zero hand, BitVec.add_eq_or_of_and_eq_zero _ _ hand, hor]

theorem writesBelow_callAppHandler {sp : Quad} (h : 32 ≤ sp.toNat) :
    WritesBelow sp (callAppHandlerWrites sp) := by
  intro w hw i hi
  have halign := and_neg_sixteen (sp - 8)
  simp only [callAppHandlerWrites, List.mem_cons, List.not_mem_nil, or_false] at hw
  rcases hw with rfl | rfl
  all_goals
    simp only [StackWrite.byte] at hi ⊢
    bv_omega

/-- The lowest address that the frame is copied to. -/
def copiedTo (inApp : Bool) (sp : Quad) : Quad :=
  if inApp then sp - sizeofSiginfo - sizeofUcontext else sp - sizeofSiginfo

mutual

/-- The stacks have room, the handlers use the stack below where they begin, and leave the
stack pointer in their context as it is. -/
def Delivery.Disciplined (inApp : Bool) (sp : Quad) : Delivery → Prop
  | .kept during => 4096 ≤ sp.toNat ∧ during.Disciplined sp
  | .handled early moved handler returned late back =>
      4096 ≤ sp.toNat ∧ early.Disciplined sp ∧ moved.Disciplined (copiedTo inApp sp) ∧
        handler.Disciplined (copiedTo inApp sp) ∧ returned.Disciplined (copiedTo inApp sp) ∧
        late.Disciplined sp ∧ (inApp = true → back = sp)

def Arrivals.Disciplined (sp : Quad) : Arrivals → Prop
  | .none => True
  | .more d rest => d.Disciplined false sp ∧ rest.Disciplined sp

def Interruptions.Disciplined (sp : Quad) : Interruptions → Prop
  | .none => True
  | .more inApp rsp d rest =>
      rsp.toNat ≤ sp.toNat ∧ d.Disciplined inApp rsp ∧ rest.Disciplined sp

end

theorem copiedTo_le (inApp : Bool) {sp : Quad} (h : 4096 ≤ sp.toNat) :
    (copiedTo inApp sp).toNat ≤ sp.toNat ∧ 3000 ≤ (copiedTo inApp sp).toNat := by
  simp only [copiedTo, sizeofSiginfo, sizeofUcontext]
  split <;> bv_omega

/-- The copies of a frame. -/
theorem writesBelow_copies (inApp : Bool) {sp : Quad} (h : 4096 ≤ sp.toNat) :
    WritesBelow sp ((if inApp then
        [⟨sp - sizeofSiginfo - sizeofUcontext, sizeofUcontext.toNat⟩] else []) ++
      [⟨sp - sizeofSiginfo, sizeofSiginfo.toNat⟩]) := by
  have hinfo : sizeofSiginfo.toNat = 128 := rfl
  have hucontext : sizeofUcontext.toNat = 968 := rfl
  rw [writesBelow_append]
  constructor
  · split
    · intro w hw i hi
      cases List.mem_singleton.mp hw
      simp only [StackWrite.byte] at hi ⊢
      bv_omega
    · exact nofun
  · intro w hw i hi
    cases List.mem_singleton.mp hw
    simp only [StackWrite.byte] at hi ⊢
    bv_omega

mutual

/-- Whatever arrives meanwhile, nothing at or above the stack pointer is written. -/
theorem Delivery.writes_below (inApp : Bool) (sp : Quad) :
    (d : Delivery) → d.Disciplined inApp sp → WritesBelow sp (d.writes inApp sp)
  | .kept during, ⟨hroom, hduring⟩ => by
      rw [Delivery.writes, writesBelow_append]
      refine ⟨during.writes_below sp hduring, ?_⟩
      split
      · exact writesBelow_trampoline (by omega)
      · exact nofun
  | .handled early moved handler returned late back,
      ⟨hroom, hearly, hmoved, hhandler, hreturned, hlate, hback⟩ => by
      obtain ⟨hle, hlow⟩ := copiedTo_le inApp hroom
      simp only [Delivery.writes, writesBelow_append]
      refine ⟨⟨⟨⟨⟨⟨⟨early.writes_below sp hearly, ?_⟩, ?_⟩, ?_⟩, ?_⟩, ?_⟩, ?_⟩, ?_⟩
      · exact writesBelow_append.mp (writesBelow_copies inApp hroom)
      · exact (moved.writes_below _ hmoved).mono hle
      · exact (writesBelow_callAppHandler (Nat.le_trans (by decide : 32 ≤ 3000) hlow)).mono hle
      · exact (handler.writes_below _ hhandler).mono hle
      · exact (returned.writes_below _ hreturned).mono hle
      · exact late.writes_below sp hlate
      · split
        · next happ =>
            rw [hback happ]
            exact writesBelow_trampoline (by omega)
        · exact nofun

theorem Arrivals.writes_below (sp : Quad) :
    (l : Arrivals) → l.Disciplined sp → WritesBelow sp (l.writes sp)
  | .none, _ => by
      rw [Arrivals.writes]
      exact nofun
  | .more d rest, ⟨hd, hrest⟩ => by
      rw [Arrivals.writes, writesBelow_append]
      exact ⟨d.writes_below false sp hd, rest.writes_below sp hrest⟩

theorem Interruptions.writes_below (sp : Quad) :
    (l : Interruptions) → l.Disciplined sp → WritesBelow sp l.writes
  | .none, _ => by
      rw [Interruptions.writes]
      exact nofun
  | .more inApp rsp d rest, ⟨hle, hd, hrest⟩ => by
      rw [Interruptions.writes, writesBelow_append]
      exact ⟨(d.writes_below inApp rsp hd).mono hle, rest.writes_below sp hrest⟩

end

/-! ## The assembly -/

namespace Machine

/-- The addresses of the words that an instruction writes to. -/
def stores (m : Machine) : Instr → List Quad
  | .push _ | .pushfq => [m.reg .rsp - 8]
  | _ => []

/-- The addresses that a piece of code writes to, in this order. -/
def pushes : List Instr → Machine → List Quad
  | [], _ => []
  | i :: rest, m => m.stores i ++ pushes rest (m.apply i)

end Machine

/-- `asm_signal_entry` parks the stack pointer of the interrupted application as it is. -/
theorem signalEntry_parks {m : Machine} (alt signo info : Quad)
    (happ : m.gsByte .compartmentId = tsApplicationByte) :
    ∃ e, (m.deliver alt signo info).signalEntry = some e ∧
      e.gs .secureStackSp = m.reg .rsp ∧ e.mem = (m.deliver alt signo info).mem := by
  obtain ⟨e, hrun, -, hzf, -, -, hmem, hrsp⟩ := asmSignalEntry_spec (m.deliver alt signo info)
  have hz : ¬ e.zf = true := by
    rw [hzf]
    show ¬ (m.gsByte .compartmentId == tsMonitorByte) = true
    rw [happ]
    decide
  have hp : Passes leaveApplication e := ⟨rfl, rfl, rfl, rfl, rfl, rfl, rfl, rfl, rfl, trivial⟩
  refine ⟨applyAll leaveApplication e, ?_, ?_, hmem⟩
  · rw [signalEntry, hrun, Option.bind_some, if_neg hz, hp.run]
  · show e.mem (e.reg .rsp + 8 + rspOffsetUcontext) = m.reg .rsp
    rw [hmem, hrsp]
    exact Function.update_self _ _ _

/-- Of the words that `call_app_handler` pushes, all but the last are on the stack of the
monitor; it calls the handler with the stack pointer aligned. -/
theorem callAppHandler_pushes (m : Machine) (next : Quad) :
    (∃ trusted, trusted.length = 5 ∧
      m.pushes (callAppHandler next) = trusted ++ [m.gs .secureStackSp - 8]) ∧
      (m.applyAll (callAppHandler next)).reg .rsp = (m.gs .secureStackSp - 8) &&& -16 :=
  ⟨⟨[_, _, _, _, _], rfl, rfl⟩, rfl⟩

theorem restoreSelectorTrampoline_pushes {m : Machine} {rcx rdx rax rsp : Quad} {rest : List Quad}
    (hs : m.sigreturn = rcx :: rdx :: rax :: rsp :: rest) :
    m.pushes restoreSelectorTrampoline = (trampolineWrites rsp).map StackWrite.address := by
  cases m
  subst hs
  show [rsp - 128 - 8, rsp - 128 - 8 - 8, rsp - 128 - 8 - 8 - 8, rsp - 128 - 8 - 8 - 8 - 8] =
    [rsp - 136, rsp - 144, rsp - 152, rsp - 160]
  simp only [List.cons.injEq, and_true]
  refine ⟨?_, ?_, ?_, ?_⟩ <;> bv_omega

/-! ## The result -/

/-- A signal that interrupts the application at `rsp` leaves the red zone and what is above
it alone exactly if no handler of the application is called for it, or for a signal that
arrives before it is over. -/
theorem red_zone_iff (rsp : Quad) (d : Delivery) :
    KeepsRedZone rsp (d.writes true rsp) ↔ d.quiet = true :=
  d.keepsRedZone_iff true rsp

/-- The bytes of the red zone, all of which are in the copy of the siginfo. -/
theorem red_zone_overwritten :
    (Delivery.handled .none .none .none .none .none 0x7ffd1000).writes true 0x7ffd1000 =
        [⟨0x7ffd0bb8, 968⟩, ⟨0x7ffd0f80, 128⟩, ⟨0x7ffd0bb0, 8⟩, ⟨0x7ffd0ba8, 8⟩, ⟨0x7ffd0f78, 8⟩,
          ⟨0x7ffd0f70, 8⟩, ⟨0x7ffd0f68, 8⟩, ⟨0x7ffd0f60, 8⟩] ∧
      ∀ i < 128, AtOrAbove (0x7ffd1000 - 128) (StackWrite.byte ⟨0x7ffd0f80, 128⟩ i) :=
  ⟨by decide, by decide +kernel⟩

end Secpoline
