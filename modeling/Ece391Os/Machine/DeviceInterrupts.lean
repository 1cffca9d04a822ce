import Ece391Os.Machine.SystemCalls

/-!
# The handlers of device interrupts

The assembly of `interrupts.S` that every interrupt of a device passes through, between any two
instructions of a program or of the kernel.
-/

namespace Ece391Os

open X86

namespace SystemCalls

/-- The C functions behind `HANDLER`. -/
inductive DeviceFunction where
  | keyboard_interrupt_handler
  | rtc_interrupt_handler
  | PIT_scheduling
  deriving DecidableEq

/-- `HANDLER(name, send_to_fn)`. -/
def handler (send_to_fn : DeviceFunction) (link : UInt32) :
    List (StackInstr Empty DeviceFunction) :=
  [.op .pushal, .op .pushfl, .call link fun _ => send_to_fn, .op .popfl, .op .popal, .iret]

/-- The C function of a handler. -/
def sendToFn : Idt.Handler → Option DeviceFunction
  | .keyboard_handler => some .keyboard_interrupt_handler
  | .rtc_handler => some .rtc_interrupt_handler
  | .pit_handler => some .PIT_scheduling
  | _ => none

/-- The words that `pushal` and `pushfl` push, in their order on the stack. -/
def allWords (c : Core) : List UInt32 :=
  [c.eflags, c.gpr .edi, c.gpr .esi, c.gpr .ebp, c.esp, c.gpr .ebx, c.gpr .edx, c.gpr .ecx,
    c.gpr .eax]

/-- The C function of a device is entered here. -/
def deviceEntry (link : UInt32) (tss : Tss) (gate : Gate) (interrupted : Core) : Core :=
  ((interrupted.interrupt tss gate).pushAll
    (allWords (interrupted.interrupt tss gate)).reverse).push link

/-- What lies behind the call of the C function. -/
def behindCall (tss : Tss) (gate : Gate) (interrupted : Core) : List UInt32 :=
  allWords (interrupted.interrupt tss gate) ++ interrupted.frame

theorem foldl_allWords (c : Core) :
    ([.pushal, .pushfl] : List StackOp).foldl (fun c op => op.exec c) c =
      c.pushAll (allWords c).reverse :=
  rfl

/-- The handler puts back all that it has saved. -/
theorem foldl_popAll {c saved : Core} {words : List UInt32}
    (holds : c.Holds (allWords saved ++ words)) :
    ([.popfl, .popal] : List StackOp).foldl (fun c op => op.exec c) c =
        { c with gpr := saved.gpr, esp := c.esp + 36, eflags := saved.eflags } ∧
      Stacked c.memory (c.esp + 36) words := by
  rcases holds with ⟨eflags, edi, esi, ebp, _, ebx, edx, ecx, eax, below⟩
  have esp : c.esp + 4 + 4 + 4 + 4 + 4 + 4 + 4 + 4 + 4 = c.esp + 36 := by
    simp only [UInt32.add_assoc]
    rfl
  rw [esp] at below
  refine ⟨?_, below⟩
  simp only [List.foldl_cons, List.foldl_nil, StackOp.exec, Core.pop, Core.set, Core.drop, Core.top,
    eflags, edi, esi, ebp, ebx, edx, ecx, eax, esp]
  congr 1
  funext r
  cases r <;> rfl

/-- The interrupted program goes on with all its registers but the data segments. -/
theorem perform_handler {devices : DeviceFunction → Core → Option Core}
    {handlers : UInt8 → Core → Option Core} {function : DeviceFunction} {link : UInt32} {tss : Tss}
    {gate : Gate} {interrupted exit : Core} (kernel : Core.level gate.selector = 0)
    (returns : devices function (deviceEntry link tss gate interrupted) = some exit)
    (convention : Cdecl 0 (behindCall tss gate interrupted)
      (deviceEntry link tss gate interrupted) exit) :
    perform devices handlers (handler function link) (interrupted.interrupt tss gate) =
      some { interrupted with ds := exit.ds, es := exit.es, memory := exit.memory } := by
  rcases interrupted.interrupt_keeps tss gate with ⟨gpr, _, _⟩
  rcases (interrupted.interrupt tss gate).pushAll_eq
    (allWords (interrupted.interrupt tss gate)).reverse with ⟨memory, same⟩
  have few := interrupted.frame_length
  have text : handler function link = ([.pushal, .pushfl] : List StackOp).map .op ++
      (.call link (fun _ => function) :: (([.popfl, .popal] : List StackOp).map .op ++ [.iret])) :=
    rfl
  have holds := Core.holds_pushAll (allWords (interrupted.interrupt tss gate)).reverse
    (interrupted.holds_interrupt tss gate) (by simp [allWords]; omega)
  rw [List.reverse_reverse] at holds
  have espSaved := congrArg Core.esp same
  have csSaved := congrArg Core.cs same
  have ssSaved := congrArg Core.ss same
  rw [deviceEntry] at returns convention
  rw [text, perform_ops, foldl_allWords]
  generalize (interrupted.interrupt tss gate).pushAll
    (allWords (interrupted.interrupt tss gate)).reverse = saved at *
  rw [perform_call returns, perform_ops]
  have espExit : exit.esp = saved.esp := by
    rw [convention.esp]
    exact UInt32.sub_add_cancel _ _
  have noArguments : exit.esp + 4 * 0 = exit.esp := by
    rw [UInt32.mul_zero, UInt32.add_zero]
  have linked : (saved.push link).Holds ([link] ++ behindCall tss gate interrupted) := by
    refine Stacked.push holds ?_
    simp [behindCall, allWords]
    omega
  have returned : Stacked (saved.push link).memory (exit.esp + 4 * 0)
      (behindCall tss gate interrupted) := by
    have address : (saved.push link).esp + 4 = exit.esp + 4 * 0 := by
      rw [noArguments, espExit]
      exact UInt32.sub_add_cancel _ _
    rw [← address]
    exact linked.drop
  have kept := convention.caller returned
  rw [noArguments] at kept
  rcases foldl_popAll kept with ⟨popped, frame⟩
  have level : Core.level exit.cs = 0 := by
    rw [convention.cs]
    exact (congrArg Core.level csSaved).trans kernel
  rw [popped, perform]
  refine congrArg some ((@Core.iret_frame _ interrupted ?_ ?_).trans ?_)
  · exact level
  · exact frame
  by_cases inner : Core.level interrupted.cs = 0
  · rcases interrupted.interrupt_inner tss gate inner with ⟨esp, ss⟩
    have stack : exit.esp + 36 + 12 = interrupted.esp := by
      have saves : saved.esp = (interrupted.interrupt tss gate).esp - 36 := espSaved
      rw [espExit, saves, UInt32.sub_add_cancel, esp, UInt32.sub_add_cancel]
    have segment : exit.ss = interrupted.ss := by
      rw [convention.ss, ← ss]
      exact ssSaved
    rw [if_pos inner, if_pos inner, stack, segment, gpr]
  · rw [if_neg inner, if_neg inner, gpr]

/-- A device interrupts, at any level. -/
def deviceInterrupt (devices : DeviceFunction → Core → Option Core)
    (address : Idt.Handler → UInt32) (link : UInt32) (tss : Tss) (vector : Nat) (c : Core) :
    Option Core :=
  (Gate.decode (Idt.table address vector).val).bind fun gate =>
    ((Idt.handlerOf vector).bind sendToFn).bind fun function =>
      perform devices (fun _ _ => none) (handler function link) (c.interrupt tss gate)

/-- Devices have the vectors of the three handlers. -/
theorem vector_of_device {vector : Nat} {function : DeviceFunction}
    (device : (Idt.handlerOf vector).bind sendToFn = some function) :
    vector = Idt.RTC_VECTOR ∨ vector = Idt.KEYBOARD_VECTOR ∨ vector = Idt.PIT_VECTOR := by
  rcases Option.bind_eq_some_iff.mp device with ⟨handler, found, sends⟩
  rcases List.lookup_eq_some_iff.mp found with ⟨before, after, entries, _⟩
  have entry : (vector, handler) ∈ Idt.entries := by
    rw [entries]
    simp
  cases handler with
  | rtc_handler => exact .inl (by simpa [Idt.entries] using entry)
  | keyboard_handler => exact .inr (.inl (by simpa [Idt.entries] using entry))
  | pit_handler => exact .inr (.inr (by simpa [Idt.entries] using entry))
  | _ => cases sends

/-- The C function of a device runs with interrupts disabled, on the registers of the
interrupted program. -/
theorem deviceEntry_keeps (address : Idt.Handler → UInt32) (link : UInt32) (tss : Tss)
    {vector : Nat} {function : DeviceFunction} (interrupted : Core)
    (device : (Idt.handlerOf vector).bind sendToFn = some function) :
    (deviceEntry link tss (Idt.gate address vector) interrupted).gpr = interrupted.gpr ∧
      (deviceEntry link tss (Idt.gate address vector) interrupted).eflags.toNat.testBit 9 =
        false := by
  rcases interrupted.interrupt_keeps tss (Idt.gate address vector) with ⟨gpr, _, _⟩
  rcases (interrupted.interrupt tss (Idt.gate address vector)).pushAll_eq
    (allWords (interrupted.interrupt tss (Idt.gate address vector))).reverse with ⟨memory, same⟩
  have eflags : (interrupted.interrupt tss (Idt.gate address vector)).eflags =
      interrupted.eflags &&& 0xFFFFFCFF := by
    rcases vector_of_device device with rtc | keyboard | pit
    · subst rtc
      rfl
    · subst keyboard
      rfl
    · subst pit
      rfl
  rw [deviceEntry, same, ← gpr]
  refine ⟨rfl, ?_⟩
  change (interrupted.interrupt tss (Idt.gate address vector)).eflags.toNat.testBit 9 = false
  rw [eflags, UInt32.toNat_and, Nat.testBit_and]
  exact Bool.and_false _

theorem sameAbove_deviceEntry (link : UInt32) {tss : Tss} (gate : Gate) {interrupted : Core}
    (room : 84 ≤ (interrupted.handlerStack tss).toNat) :
    SameAbove (interrupted.handlerStack tss) interrupted.memory
      (deviceEntry link tss gate interrupted).memory := by
  have few := interrupted.frame_length
  have esp := Core.toNat_interrupt_esp tss gate (Nat.le_trans (by decide : 20 ≤ 84) room)
  have space : 4 * interrupted.frame.length ≤ (interrupted.handlerStack tss).toNat := by omega
  have entered := Core.sameAbove_interrupt gate space
  rw [deviceEntry]
  generalize interrupted.interrupt tss gate = c at esp entered ⊢
  have pushed := Core.sameAbove_pushAll (c := c) ((allWords c).reverse ++ [link])
    (by simp [allWords]; omega)
  rw [Core.pushAll, List.foldl_append] at pushed
  exact entered.trans (pushed.mono (by omega))

/-- An interrupt of a device between any two instructions is not seen by the program: it goes on
with all its registers, at its level and on its stack. -/
theorem device_transparent (devices : DeviceFunction → Core → Option Core)
    (address : Idt.Handler → UInt32) (link : UInt32) {tss : Tss} {vector : Nat}
    {function : DeviceFunction} (interrupted : Core)
    (device : (Idt.handlerOf vector).bind sendToFn = some function)
    (room : 84 ≤ (interrupted.handlerStack tss).toNat) :
    ∃ entry words, entry.gpr = interrupted.gpr ∧ entry.eflags.toNat.testBit 9 = false ∧
      SameAbove (interrupted.handlerStack tss) interrupted.memory entry.memory ∧
      ∀ exit, devices function entry = some exit → Cdecl 0 words entry exit →
        deviceInterrupt devices address link tss vector interrupted =
          some { interrupted with ds := exit.ds, es := exit.es, memory := exit.memory } := by
  rcases deviceEntry_keeps address link tss interrupted device with ⟨gpr, disabled⟩
  refine ⟨deviceEntry link tss (Idt.gate address vector) interrupted,
    behindCall tss (Idt.gate address vector) interrupted, gpr, disabled,
    sameAbove_deviceEntry link _ room, ?_⟩
  intro exit returns convention
  have inTable : vector < Idt.NUM_VEC := by
    rcases vector_of_device device with rtc | keyboard | pit
    · exact rtc ▸ by decide
    · exact keyboard ▸ by decide
    · exact pit ▸ by decide
  have kernel : Core.level (Idt.gate address vector).selector = 0 := by
    change Core.level Idt.KERNEL_CS = 0
    decide
  rw [deviceInterrupt, Idt.decode_table address inTable, Option.bind_some, device,
    Option.bind_some, perform_handler kernel returns convention]

/-- A program enters the kernel by an instruction only through the vector of system calls. -/
theorem program_enters (address : Idt.Handler → UInt32) {tss : Tss} (vector : UInt8)
    {program : Core} (user : Core.level program.cs = 3) :
    ((Gate.decode (Idt.table address vector.toNat).val).bind fun gate => program.int tss gate) =
      if vector = 0x80 then
        some (program.interrupt tss
          { selector := 0x10, offset := address .system_call_handler, level := 3, trap := true })
      else
        none := by
  have inTable : vector.toNat < Idt.NUM_VEC := vector.toNat_lt
  have call : vector = 0x80 ↔ vector.toNat = Idt.SYSCALL_VECTOR := UInt8.toNat_inj.symm
  rw [Idt.decode_table address inTable, Option.bind_some, Core.int, user]
  by_cases isCall : vector = 0x80
  · rw [if_pos isCall, isCall]
    rfl
  · have closed : ¬ 3 ≤ (Idt.gate address vector.toNat).level := by
      rw [Idt.gate, if_neg (fun same => isCall (call.mpr same))]
      exact Nat.not_succ_le_zero 2
    rw [if_neg closed, if_neg isCall]

theorem device_transparent_sample :
    (deviceInterrupt (fun _ entry => some (returning 9 entry)) (fun _ => 0) 0 sampleTss
      Idt.PIT_VECTOR sampleProgram).map (fun c => (c.gpr .eax, c.eip)) = some (5, 0x8048000) := by
  rcases device_transparent (fun _ entry => some (returning 9 entry)) (fun _ => 0) 0 sampleProgram
    (rfl : (Idt.handlerOf Idt.PIT_VECTOR).bind sendToFn = some .PIT_scheduling)
    (by decide : 84 ≤ (sampleProgram.handlerStack sampleTss).toNat) with
    ⟨entry, words, _, _, _, returns⟩
  rw [returns (returning 9 entry) rfl (cdecl_returning 9 0 words entry)]
  rfl

theorem program_enters_sample :
    (((Gate.decode (Idt.table (fun _ => 0x400100) (0x80 : UInt8).toNat).val).bind fun gate =>
        sampleProgram.int sampleTss gate).map fun c => (c.eip, c.esp)) =
      some (0x400100, 0x7FFFEC) := by
  rw [program_enters (fun _ => 0x400100) 0x80 (rfl : Core.level sampleProgram.cs = 3)]
  rfl

end SystemCalls

end Ece391Os
