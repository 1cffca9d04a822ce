import Ece391Os.Machine.SystemCalls

/-!
# The library of the programs

The routines of `ece391syscall.S`, from the call in a program to its return, through the
interrupt descriptor table and the handler of system calls.  Interrupts of devices on the way
are left out, as they are transparent.
-/

namespace Ece391Os

open X86

namespace SystemCalls

/-- The routines of `ece391syscall.S`. -/
inductive Library where
  | halt
  | execute
  | read
  | write
  | open
  | close
  | getargs
  | vidmap
  | set_handler
  | sigreturn
  deriving DecidableEq

namespace Library

/-- The numbers of `ece391sysnum.h`. -/
def number : Library → UInt32
  | .halt => 1
  | .execute => 2
  | .read => 3
  | .write => 4
  | .open => 5
  | .close => 6
  | .getargs => 7
  | .vidmap => 8
  | .set_handler => 9
  | .sigreturn => 10

/-- The C function that a routine is for; the kernel has `set_handler` and `sigreturn`, but not
in its table. -/
def serves : Library → Option KernelFunction
  | .halt => some .halt
  | .execute => some .execute
  | .read => some .sys_read
  | .write => some .sys_write
  | .open => some .sys_open
  | .close => some .sys_close
  | .getargs => some .getargs
  | .vidmap => some .vidmap
  | .set_handler => none
  | .sigreturn => none

/-- The numbers of the library and the table of the kernel agree. -/
theorem called_number {name : Library} {c : Core} (number : c.gpr .eax = name.number) :
    called c = name.serves := by
  rw [called, number]
  cases name <;> rfl

theorem number_inside {name : Library} {function : KernelFunction}
    (serves : name.serves = some function) :
    1 ≤ signed name.number ∧ signed name.number ≤ 8 := by
  cases name <;> cases serves <;> decide

theorem number_outside {name : Library} (serves : name.serves = none) :
    8 < signed name.number := by
  cases name <;> cases serves <;> decide

end Library

/-- `DO_CALL(name, number)`; `link` is the address behind the interrupt. -/
def doCall (number link : UInt32) : List (StackInstr Empty (Option KernelFunction)) :=
  [.op (.pushl .ebx), .op (.movlImm number .eax), .op (.movlStack 8 .ebx),
    .op (.movlStack 12 .ecx), .op (.movlStack 16 .edx), .int link 0x80, .op (.popl .ebx), .ret]

/-- The instruction `int` with the table of `init_idt`; the text is known for the handler of
system calls only. -/
def enter (routine : Option KernelFunction → Core → Option Core)
    (address : Idt.Handler → UInt32) (link : UInt32) (tss : Tss) (vector : UInt8) (c : Core) :
    Option Core :=
  (Gate.decode (Idt.table address vector.toNat).val).bind fun gate =>
    (c.int tss gate).bind fun entered =>
      if gate.offset = address .system_call_handler then
        perform routine (fun _ _ => none) (systemCallHandler link) entered
      else
        none

/-- The program at its interrupt: the arguments and the number are in registers, and the old
value of the first is on its stack. -/
def atInterrupt (caller : Core) (number first second third back : UInt32) : Core :=
  let pushed := caller.push (caller.gpr .ebx)
  { (((pushed.set .eax number).set .ebx first).set .ecx second).set .edx third with eip := back }

section Library

variable {routine : Option KernelFunction → Core → Option Core}
  {handlers : UInt8 → Core → Option Core}
  {caller after : Core} {number first second third link back : UInt32}

/-- A routine of the library up to its return. -/
theorem perform_doCall (stack : caller.Holds [link, first, second, third])
    (returns : handlers 0x80 (atInterrupt caller number first second third back) = some after) :
    perform routine handlers (doCall number back) caller = some (after.pop .ebx).ret := by
  let pushed := caller.push (caller.gpr .ebx)
  have holds : pushed.Holds [caller.gpr .ebx, link, first, second, third] :=
    Stacked.push stack (by simp)
  rcases holds with ⟨_, _, one, two, three, _⟩
  simp only [UInt32.add_assoc] at one two three
  have executed : ([.pushl .ebx, .movlImm number .eax, .movlStack 8 .ebx, .movlStack 12 .ecx,
      .movlStack 16 .edx] : List StackOp).foldl (fun c op => op.exec c) caller =
      ((((pushed.set .eax number).set .ebx first).set .ecx second).set .edx third) := by
    rw [← one, ← two, ← three]
    rfl
  have text : doCall number back =
      ([.pushl .ebx, .movlImm number .eax, .movlStack 8 .ebx, .movlStack 12 .ecx,
        .movlStack 16 .edx] : List StackOp).map .op ++
          [.int back 0x80, .op (.popl .ebx), .ret] := rfl
  rw [text, perform_ops, executed, perform_int returns, perform_op, perform]
  rfl

theorem enter_eq (address : Idt.Handler → UInt32) (link : UInt32) (tss : Tss) (c : Core) :
    enter routine address link tss 0x80 c =
      perform routine (fun _ _ => none) (systemCallHandler link)
        (c.interrupt tss (Idt.gate address Idt.SYSCALL_VECTOR)) := by
  have gate := Idt.decode_table address (by decide : Idt.SYSCALL_VECTOR < Idt.NUM_VEC)
  have vector : (0x80 : UInt8).toNat = Idt.SYSCALL_VECTOR := rfl
  have level : Core.level c.cs ≤ (Idt.gate address Idt.SYSCALL_VECTOR).level := by
    change c.cs.toNat % 4 ≤ 3
    omega
  rw [enter, vector, gate, Option.bind_some, Core.int, if_pos level, Option.bind_some]
  exact if_pos rfl

/-- The routine of the library goes back to its caller. -/
theorem returned_interrupt {memory : UInt32 → UInt8} (result : UInt32)
    (kept : Stacked memory (caller.esp - 4) [caller.gpr .ebx, link]) :
    (Core.pop { (atInterrupt caller number first second third back).set .eax result with
        memory := memory } .ebx).ret =
      { ((caller.set .eax result).set .ecx second).set .edx third with
        esp := caller.esp + 4
        eip := link
        memory := memory } := by
  rcases kept with ⟨ebx, eip, _⟩
  rw [UInt32.sub_add_cancel] at eip
  simp only [atInterrupt, Core.pop, Core.ret, Core.push, Core.set, Core.drop, Core.top, ebx, eip,
    UInt32.sub_add_cancel]
  -- The first argument is out of its register again, and the other two are not.
  congr 1
  funext r
  cases r <;> rfl

/-- A program calls the kernel through a routine of the library.  The C function that the routine
is for finds the arguments of the call, and the program goes on with its result; where there is no
such function, with -1. -/
theorem library_call (routine : Option KernelFunction → Core → Option Core)
    (address : Idt.Handler → UInt32) (handlerLink back : UInt32) (name : Library) {tss : Tss}
    (user : Core.level caller.cs = 3) (stack : caller.Holds [link, first, second, third])
    (room : 84 ≤ tss.esp0.toNat) (below : tss.esp0.toNat + 4 ≤ caller.esp.toNat)
    (fits : caller.esp.toNat + 4 ≤ 2 ^ 32) :
    (∀ function, name.serves = some function → ∃ entry words,
      entry.Holds (handlerLink :: first :: second :: third :: words) ∧
      entry.eflags.toNat.testBit 9 = true ∧
      Stacked entry.memory (caller.esp - 4) [caller.gpr .ebx, link] ∧
      SameAbove caller.esp caller.memory entry.memory ∧
      ∀ exit, routine (some function) entry = some exit → Cdecl 3 words entry exit →
        Stacked exit.memory (caller.esp - 4) [caller.gpr .ebx, link] →
        perform routine (enter routine address handlerLink tss) (doCall name.number back) caller =
          some { ((caller.set .eax (exit.gpr .eax)).set .ecx second).set .edx third with
            esp := caller.esp + 4
            eip := link
            memory := exit.memory }) ∧
    (name.serves = none → ∃ memory, SameAbove caller.esp caller.memory memory ∧
      perform routine (enter routine address handlerLink tss) (doCall name.number back) caller =
        some { ((caller.set .eax (-1)).set .ecx second).set .edx third with
          esp := caller.esp + 4
          eip := link
          memory := memory }) := by
  let program := atInterrupt caller name.number first second third back
  let gate := Idt.gate address Idt.SYSCALL_VECTOR
  have kernel : Core.level gate.selector = 0 := by
    change Core.level Idt.KERNEL_CS = 0
    decide
  have onStack : program.handlerStack tss = tss.esp0 := by
    have outer : ¬ Core.level program.cs = 0 := by
      change ¬ Core.level caller.cs = 0
      omega
    rw [Core.handlerStack, if_neg outer]
  have space : 84 ≤ (program.handlerStack tss).toNat := by rw [onStack]; exact room
  have number : program.gpr .eax = name.number := rfl
  have function : called program = name.serves := Library.called_number number
  have pushed : SameAbove caller.esp caller.memory program.memory :=
    SameAbove.push caller.memory (caller.gpr .ebx) (by omega)
  have words : Stacked program.memory (caller.esp - 4) [caller.gpr .ebx, link] := by
    have holds : (caller.push (caller.gpr .ebx)).Holds [caller.gpr .ebx, link] :=
      Stacked.push ⟨stack.1, trivial⟩ (by simp)
    exact holds
  have lower : (caller.esp - 4).toNat = caller.esp.toNat - 4 := by
    have difference := UInt32.toNat_sub caller.esp 4
    have four : (4 : UInt32).toNat = 4 := rfl
    have small := caller.esp.toNat_lt
    omega
  refine ⟨?_, ?_⟩
  · intro served serves
    have entered := entered_callEntry handlerLink tss gate program
    have above := entered.above space
    rw [onStack] at above
    refine ⟨callEntry handlerLink tss gate program, behindArguments tss gate program,
      entered.stack, entered.enabled, above _ _ words (by omega) (by simp; omega),
      pushed.trans (above.mono (by omega)), ?_⟩
    intro exit returns convention kept
    have inside := Library.number_inside serves
    rw [← serves, ← function] at returns
    have handled : perform routine (fun _ _ => none) (systemCallHandler handlerLink)
        (program.interrupt tss gate) = _ :=
      perform_systemCallHandler kernel inside.1 inside.2 returns convention
    rw [← enter_eq address handlerLink tss program] at handled
    rw [perform_doCall stack handled, returned_interrupt _ kept]
  · intro serves
    have outside := Library.number_outside serves
    have handled : perform routine (fun _ _ => none) (systemCallHandler handlerLink)
        (program.interrupt tss gate) = _ :=
      perform_outside handlerLink kernel (Or.inr outside)
    rw [← enter_eq address handlerLink tss program] at handled
    have above := sameAbove_saved gate space
    rw [onStack] at above
    refine ⟨_, pushed.trans (above.mono (by omega)), ?_⟩
    have kept := above _ _ words (by omega) (by simp; omega)
    rw [perform_doCall stack handled, returned_interrupt _ kept]

theorem library_call_sample :
    (perform (fun _ entry => some (returning 7 entry))
      (enter (fun _ entry => some (returning 7 entry)) (fun _ => 0) 0 sampleTss)
      (doCall (Library.number .read) 0) sampleProgram).map (fun c =>
        (c.gpr .eax, c.gpr .ebx, c.eip)) = some (7, 5, 0x8048100) := by
  have stack : sampleProgram.Holds ([3, 2, 1, 0x8048100].reverse ++ []) :=
    Core.holds_pushAll _ trivial (by decide)
  rcases (library_call (fun _ entry => some (returning 7 entry)) (fun _ => 0) 0 0 .read rfl stack
    (by decide : 84 ≤ sampleTss.esp0.toNat) (by decide) (by decide)).1 .sys_read rfl with
    ⟨entry, words, _, _, kept, _, returns⟩
  rw [returns (returning 7 entry) rfl (cdecl_returning 7 3 words entry) kept]
  rfl

end Library

end SystemCalls

end Ece391Os
