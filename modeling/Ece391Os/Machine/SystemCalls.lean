import Ece391Os.Kernel.Idt

/-!
# The handler of system calls

The assembly of `interrupts.S` that every system call passes through.  The C functions behind
it keep the calling convention and are otherwise arbitrary.
-/

namespace Ece391Os

open X86

namespace SystemCalls

/-- The labels of `system_call_handler`. -/
inductive Label where
  | invalid
  | restore
  deriving DecidableEq

/-- The C functions behind `system_call_jump_table`. -/
inductive KernelFunction where
  | halt
  | execute
  | sys_read
  | sys_write
  | sys_open
  | sys_close
  | getargs
  | vidmap
  deriving DecidableEq

def systemCallJumpTable : List (Option KernelFunction) :=
  [none, some .halt, some .execute, some .sys_read, some .sys_write, some .sys_open,
    some .sys_close, some .getargs, some .vidmap]

/-- The C function that `call *system_call_jump_table(,%eax,4)` goes to. -/
def called (c : Core) : Option KernelFunction :=
  (systemCallJumpTable[(c.gpr .eax).toNat]?).join

/-- The registers that `system_call_handler` saves, and the flags. -/
def saves : List StackOp :=
  [.pushSeg .es, .pushSeg .ds, .pushl .ebx, .pushl .ecx, .pushl .edx, .pushl .esi, .pushl .edi,
    .pushl .ebp, .pushfl]

/-- The arguments, behind three more registers. -/
def arguments : List StackOp :=
  [.pushl .ebp, .pushl .edi, .pushl .esi, .pushl .edx, .pushl .ecx, .pushl .ebx]

/-- The registers that `system_call_handler` restores, and the flags. -/
def restores : List StackOp :=
  [.popfl, .popl .ebp, .popl .edi, .popl .esi, .popl .edx, .popl .ecx, .popl .ebx, .popSeg .ds,
    .popSeg .es]

/-- The end of `system_call_handler`. -/
def restoring : List (StackInstr Label (Option KernelFunction)) :=
  .op (.addlEsp 24) :: (restores.map .op ++ [.op .sti, .iret])

/-- `system_call_handler` behind its pushes; `link` is the address behind its call. -/
def dispatch (link : UInt32) : List (StackInstr Label (Option KernelFunction)) :=
  [.op (.cmpl 1 .eax), .jl .invalid, .op (.cmpl 8 .eax), .jg .invalid, .op .sti,
    .call link called, .op .cli, .jmp .restore,
    .label .invalid, .op (.movlImm (-1) .eax), .label .restore] ++ restoring

/-- `system_call_handler`. -/
def systemCallHandler (link : UInt32) : List (StackInstr Label (Option KernelFunction)) :=
  .op .cli :: (saves.map .op ++ (arguments.map .op ++ dispatch link))

/-! ## The calling convention -/

/-- A C function returns to its caller with the registers that it has to keep, and leaves the
words of its caller behind so many arguments. -/
structure Cdecl (arguments : UInt32) (caller : List UInt32) (entry exit : Core) : Prop where
  esp : exit.esp = entry.esp + 4
  ebx : exit.gpr .ebx = entry.gpr .ebx
  esi : exit.gpr .esi = entry.gpr .esi
  edi : exit.gpr .edi = entry.gpr .edi
  ebp : exit.gpr .ebp = entry.gpr .ebp
  cs : exit.cs = entry.cs
  ss : exit.ss = entry.ss
  caller : Stacked entry.memory (exit.esp + 4 * arguments) caller →
    Stacked exit.memory (exit.esp + 4 * arguments) caller

/-- A C function that returns a number at once. -/
def returning (number : UInt32) (entry : Core) : Core :=
  entry.ret.set .eax number

/-- It keeps the calling convention. -/
theorem cdecl_returning (number arguments : UInt32) (words : List UInt32) (entry : Core) :
    Cdecl arguments words entry (returning number entry) :=
  ⟨rfl, rfl, rfl, rfl, rfl, rfl, rfl, fun stacked => stacked⟩

/-- A program in user mode that has called a routine of the library. -/
def sampleProgram : Core :=
  Core.pushAll
    { gpr := fun _ => 5
      esp := 0x8400000
      eip := 0x8048000
      cs := 0x23
      ss := 0x2B
      ds := 0x2B
      es := 0x2B
      eflags := 0x202
      memory := fun _ => 0 }
    [3, 2, 1, 0x8048100]

/-- The stack of the kernel. -/
def sampleTss : Tss where
  esp0 := 0x800000
  ss0 := 0x18

/-- The words that `system_call_handler` has saved, in their order on the stack. -/
def savedWords (c : Core) : List UInt32 :=
  [c.eflags, c.gpr .ebp, c.gpr .edi, c.gpr .esi, c.gpr .edx, c.gpr .ecx, c.gpr .ebx,
    c.ds.toUInt32, c.es.toUInt32]

/-- The arguments and the registers behind them, in their order on the stack. -/
def argumentWords (c : Core) : List UInt32 :=
  [c.gpr .ebx, c.gpr .ecx, c.gpr .edx, c.gpr .esi, c.gpr .edi, c.gpr .ebp]

theorem saves_push (c : Core) : saves.map (StackOp.pushes c) = (savedWords c).reverse.map some :=
  rfl

theorem arguments_push (c : Core) :
    arguments.map (StackOp.pushes c) = (argumentWords c).reverse.map some :=
  rfl

/-- The registers when the handler has put back what it has saved. -/
def restoredCore (c saved : Core) : Core :=
  { c with
    gpr := fun r => if r = .eax then c.gpr .eax else saved.gpr r
    ds := saved.ds
    es := saved.es
    esp := c.esp + 36
    eflags := saved.eflags }

theorem foldl_restores {c saved : Core} {words : List UInt32}
    (holds : c.Holds (savedWords saved ++ words)) :
    restores.foldl (fun c op => op.exec c) c = restoredCore c saved ∧
      (restoredCore c saved).Holds words := by
  have esp : c.esp + 4 + 4 + 4 + 4 + 4 + 4 + 4 + 4 + 4 = c.esp + 36 := by
    simp only [UInt32.add_assoc]
    rfl
  rcases @foldl_pops _ _ restores _ _ rfl holds rfl with ⟨executed, below⟩
  rw [executed]
  simp only [Core.Holds, Core.drop, Core.set, esp] at below
  refine ⟨?_, below⟩
  simp only [restoredCore, Core.drop, Core.set, esp, UInt16.toUInt16_toUInt32]
  congr 1
  funext r
  cases r <;> simp [Function.update]

/-! ## The handler -/

/-- A C function is entered for a system call: its arguments are the registers of the caller,
interrupts are enabled, and memory above the stack of the handler is as it was. -/
structure Entered (tss : Tss) (caller : Core) (link : UInt32) (words : List UInt32)
    (entry : Core) : Prop where
  gpr : entry.gpr = caller.gpr
  segments : entry.ds = caller.ds ∧ entry.es = caller.es
  enabled : entry.eflags.toNat.testBit 9 = true
  stack : entry.Holds (link :: caller.gpr .ebx :: caller.gpr .ecx :: caller.gpr .edx :: words)
  above : 84 ≤ (caller.handlerStack tss).toNat →
    SameAbove (caller.handlerStack tss) caller.memory entry.memory

/-- The registers when the handler has saved them. -/
def savedCore (c : Core) : Core :=
  let entered := StackOp.cli.exec c
  (entered.pushAll (savedWords entered).reverse).pushAll (argumentWords entered).reverse

theorem savedCore_eq (c : Core) :
    ∃ memory, savedCore c =
      { StackOp.cli.exec c with esp := c.esp - 60, memory := memory } := by
  let entered := StackOp.cli.exec c
  rcases entered.pushAll_eq (savedWords entered).reverse with ⟨first, saved⟩
  rcases (entered.pushAll (savedWords entered).reverse).pushAll_eq
    (argumentWords entered).reverse with ⟨second, called⟩
  refine ⟨second, ?_⟩
  have esp : c.esp - 36 - 24 = c.esp - 60 := by
    have lower := UInt32.toNat_sub c.esp 36
    have lowest := UInt32.toNat_sub (c.esp - 36) 24
    have whole := UInt32.toNat_sub c.esp 60
    have numbers : (36 : UInt32).toNat = 36 ∧ (24 : UInt32).toNat = 24 ∧
        (60 : UInt32).toNat = 60 := ⟨rfl, rfl, rfl⟩
    apply UInt32.toNat_inj.mp
    omega
  rw [savedCore, called, saved, ← esp]
  rfl

theorem holds_savedCore {c : Core} {words : List UInt32} (holds : c.Holds words)
    (few : words.length ≤ 5) :
    (savedCore c).Holds
      (argumentWords c ++ (savedWords (StackOp.cli.exec c) ++ words)) := by
  have entered : (StackOp.cli.exec c).Holds words := holds
  have saved := Core.holds_pushAll (savedWords (StackOp.cli.exec c)).reverse entered
    (by simp [savedWords]; omega)
  rw [List.reverse_reverse] at saved
  have called := Core.holds_pushAll (argumentWords (StackOp.cli.exec c)).reverse saved
    (by simp [savedWords, argumentWords]; omega)
  rw [List.reverse_reverse] at called
  exact called

theorem sameAbove_savedCore {c : Core} (room : 60 ≤ c.esp.toNat) :
    SameAbove c.esp c.memory (savedCore c).memory := by
  let entered := StackOp.cli.exec c
  have first := Core.sameAbove_pushAll (c := entered) (savedWords entered).reverse
    (by change 36 ≤ c.esp.toNat; omega)
  rcases entered.pushAll_eq (savedWords entered).reverse with ⟨memory, saved⟩
  have esp : (entered.pushAll (savedWords entered).reverse).esp.toNat = c.esp.toNat - 36 := by
    rw [saved]
    change (c.esp - 36).toNat = _
    have lower := UInt32.toNat_sub c.esp 36
    have number : (36 : UInt32).toNat = 36 := rfl
    have small := c.esp.toNat_lt
    omega
  have second := Core.sameAbove_pushAll (c := entered.pushAll (savedWords entered).reverse)
    (argumentWords entered).reverse (by rw [esp]; change 24 ≤ _; omega)
  refine first.trans (second.mono ?_)
  rw [esp]
  change c.esp.toNat - 36 ≤ c.esp.toNat
  omega

section Handler

variable {routine : Option KernelFunction → Core → Option Core}
  {handlers : UInt8 → Core → Option Core}

/-- The handler up to its checks. -/
theorem perform_saved (link : UInt32) (c : Core) :
    perform routine handlers (systemCallHandler link) c =
      perform routine handlers (dispatch link) (savedCore c) := by
  rw [systemCallHandler, perform_op, perform_ops, foldl_pushes (saves_push _), perform_ops]
  have called := foldl_pushes (c := (StackOp.cli.exec c).pushAll
    (savedWords (StackOp.cli.exec c)).reverse) (arguments_push _)
  have same : argumentWords ((StackOp.cli.exec c).pushAll
      (savedWords (StackOp.cli.exec c)).reverse) = argumentWords (StackOp.cli.exec c) := by
    rcases (StackOp.cli.exec c).pushAll_eq (savedWords (StackOp.cli.exec c)).reverse with
      ⟨memory, pushed⟩
    rw [pushed]
    rfl
  rw [same] at called
  rw [called]
  rfl

/-- The processor behind both comparisons. -/
def compared (c : Core) : Core :=
  (StackOp.cmpl 8 .eax).exec ((StackOp.cmpl 1 .eax).exec c)

/-- A number within the table: the routine is called, with interrupts enabled. -/
theorem perform_valid {link : UInt32} {c exit : Core} (low : 1 ≤ signed (c.gpr .eax))
    (high : signed (c.gpr .eax) ≤ 8)
    (returns : routine (called c) ((StackOp.sti.exec (compared c)).push link) = some exit) :
    perform routine handlers (dispatch link) c =
      perform routine handlers restoring (StackOp.cli.exec exit) := by
  have notLess : ¬ signed (c.gpr .eax) < signed 1 := by
    change ¬ _ < 1
    omega
  have notGreater : ¬ signed 8 < signed (((StackOp.cmpl 1 .eax).exec c).gpr .eax) := by
    change ¬ 8 < signed (c.gpr .eax)
    omega
  rw [dispatch, List.cons_append, perform_op, List.cons_append, perform_jl, less_cmpl,
    decide_eq_false notLess, if_neg Bool.false_ne_true, List.cons_append, perform_op,
    List.cons_append, perform_jg, greater_cmpl, decide_eq_false notGreater,
    if_neg Bool.false_ne_true, List.cons_append, perform_op, List.cons_append,
    perform_call returns, List.cons_append, perform_op, List.cons_append, perform_jmp]
  rfl

/-- Any other number: no routine is called, and -1 is returned. -/
theorem perform_invalid (link : UInt32) {c : Core}
    (outside : signed (c.gpr .eax) < 1 ∨ 8 < signed (c.gpr .eax)) :
    ∃ eflags, perform routine handlers (dispatch link) c =
      perform routine handlers restoring { c.set .eax (-1) with eflags := eflags } := by
  by_cases low : signed (c.gpr .eax) < 1
  · have isLess : signed (c.gpr .eax) < signed 1 := low
    refine ⟨((StackOp.cmpl 1 .eax).exec c).eflags, ?_⟩
    rw [dispatch, List.cons_append, perform_op, List.cons_append, perform_jl, less_cmpl,
      decide_eq_true isLess, if_pos rfl]
    change perform routine handlers (.op _ :: .label .restore :: restoring) _ = _
    rw [perform_op, perform_label]
    rfl
  · have notLess : ¬ signed (c.gpr .eax) < signed 1 := low
    have isGreater : signed 8 < signed (((StackOp.cmpl 1 .eax).exec c).gpr .eax) := by
      change 8 < signed (c.gpr .eax)
      omega
    refine ⟨(compared c).eflags, ?_⟩
    rw [dispatch, List.cons_append, perform_op, List.cons_append, perform_jl, less_cmpl,
      decide_eq_false notLess, if_neg Bool.false_ne_true, List.cons_append, perform_op,
      List.cons_append, perform_jg, greater_cmpl, decide_eq_true isGreater, if_pos rfl]
    change perform routine handlers (.op _ :: .label .restore :: restoring) _ = _
    rw [perform_op, perform_label]
    rfl

/-- The end of the handler goes back to what was interrupted, but for the result and memory. -/
theorem perform_restoring {c saved interrupted : Core} (kernel : Core.level c.cs = 0)
    (gpr : saved.gpr = interrupted.gpr) (ds : saved.ds = interrupted.ds)
    (es : saved.es = interrupted.es)
    (holds : (c.drop 24).Holds (savedWords saved ++ interrupted.frame)) :
    perform routine handlers restoring c =
      some { interrupted with
        gpr := fun r => if r = .eax then c.gpr .eax else interrupted.gpr r
        memory := c.memory
        esp := if Core.level interrupted.cs = 0 then c.esp + 72 else interrupted.esp
        ss := if Core.level interrupted.cs = 0 then c.ss else interrupted.ss } := by
  have added : ((StackOp.addlEsp 24).exec c).Holds (savedWords saved ++ interrupted.frame) :=
    holds
  rcases foldl_restores added with ⟨restored, below⟩
  have esp : c.esp + 24 + 36 + 12 = c.esp + 72 := by
    rw [UInt32.add_assoc, UInt32.add_assoc]
    rfl
  have returned := Core.iret_frame (c := StackOp.sti.exec
    (restoredCore ((StackOp.addlEsp 24).exec c) saved)) kernel below
  rw [restoring, perform_op, perform_ops, restored, perform_op, perform, returned]
  change some { interrupted with
    gpr := fun r => if r = Gpr.eax then c.gpr .eax else saved.gpr r
    ds := saved.ds
    es := saved.es
    memory := c.memory
    esp := if Core.level interrupted.cs = 0 then c.esp + 24 + 36 + 12 else interrupted.esp
    ss := if Core.level interrupted.cs = 0 then c.ss else interrupted.ss } = _
  rw [gpr, ds, es, esp]

/-- The C function of a system call is entered here. -/
def callEntry (link : UInt32) (tss : Tss) (gate : Gate) (caller : Core) : Core :=
  (StackOp.sti.exec (compared (savedCore (caller.interrupt tss gate)))).push link

/-- What lies behind the three arguments of a system call. -/
def behindArguments (tss : Tss) (gate : Gate) (caller : Core) : List UInt32 :=
  caller.gpr .esi :: caller.gpr .edi :: caller.gpr .ebp ::
    (savedWords (StackOp.cli.exec (caller.interrupt tss gate)) ++ caller.frame)

theorem behindArguments_length (tss : Tss) (gate : Gate) (caller : Core) :
    (behindArguments tss gate caller).length ≤ 17 := by
  have few := caller.frame_length
  simp only [behindArguments, savedWords, List.length_cons, List.length_append, List.length_nil]
  omega

/-- The registers of the caller are saved, and the C function finds them. -/
theorem savedCore_interrupt (tss : Tss) (gate : Gate) (caller : Core) :
    (savedCore (caller.interrupt tss gate)).gpr = caller.gpr ∧
      (savedCore (caller.interrupt tss gate)).ds = caller.ds ∧
      (savedCore (caller.interrupt tss gate)).es = caller.es ∧
      (savedCore (caller.interrupt tss gate)).Holds
        (caller.gpr .ebx :: caller.gpr .ecx :: caller.gpr .edx ::
          behindArguments tss gate caller) := by
  rcases caller.interrupt_keeps tss gate with ⟨gpr, ds, es⟩
  rcases savedCore_eq (caller.interrupt tss gate) with ⟨memory, saved⟩
  have holds := holds_savedCore (caller.holds_interrupt tss gate) (caller.frame_length)
  rw [argumentWords, gpr] at holds
  refine ⟨?_, ?_, ?_, holds⟩
  · rw [saved, ← gpr]
    rfl
  · rw [saved, ← ds]
    rfl
  · rw [saved, ← es]
    rfl

theorem toNat_savedCore_esp {c : Core} (room : 60 ≤ c.esp.toNat) :
    (savedCore c).esp.toNat = c.esp.toNat - 60 := by
  rcases savedCore_eq c with ⟨memory, saved⟩
  have esp : (savedCore c).esp = c.esp - 60 := by rw [saved]
  have whole := UInt32.toNat_sub c.esp 60
  have number : (60 : UInt32).toNat = 60 := rfl
  have small := c.esp.toNat_lt
  rw [esp]
  omega

theorem sameAbove_saved {tss : Tss} (gate : Gate) {caller : Core}
    (room : 84 ≤ (caller.handlerStack tss).toNat) :
    SameAbove (caller.handlerStack tss) caller.memory
      (savedCore (caller.interrupt tss gate)).memory := by
  have few := caller.frame_length
  have esp := Core.toNat_interrupt_esp tss gate (Nat.le_trans (by decide : 20 ≤ 84) room)
  have space : 4 * caller.frame.length ≤ (caller.handlerStack tss).toNat := by omega
  have lower : (caller.interrupt tss gate).esp.toNat ≤ (caller.handlerStack tss).toNat := by omega
  have entered := Core.sameAbove_interrupt gate space
  have saved := sameAbove_savedCore (c := caller.interrupt tss gate) (by omega)
  exact entered.trans (saved.mono lower)

theorem sameAbove_callEntry (link : UInt32) {tss : Tss} (gate : Gate) {caller : Core}
    (room : 84 ≤ (caller.handlerStack tss).toNat) :
    SameAbove (caller.handlerStack tss) caller.memory (callEntry link tss gate caller).memory := by
  have few := caller.frame_length
  have esp := Core.toNat_interrupt_esp tss gate (Nat.le_trans (by decide : 20 ≤ 84) room)
  have saved := sameAbove_saved gate room
  have lower := toNat_savedCore_esp (c := caller.interrupt tss gate) (by omega)
  rw [callEntry]
  generalize savedCore (caller.interrupt tss gate) = c at saved lower ⊢
  have linked : SameAbove c.esp c.memory ((StackOp.sti.exec (compared c)).push link).memory :=
    SameAbove.push c.memory link (by omega)
  exact saved.trans (linked.mono (by omega))

theorem entered_callEntry (link : UInt32) (tss : Tss) (gate : Gate) (caller : Core) :
    Entered tss caller link (behindArguments tss gate caller)
      (callEntry link tss gate caller) := by
  rcases savedCore_interrupt tss gate caller with ⟨gpr, ds, es, holds⟩
  have few := behindArguments_length tss gate caller
  have above := @sameAbove_callEntry link tss gate caller
  rw [callEntry] at above ⊢
  generalize savedCore (caller.interrupt tss gate) = c at gpr ds es holds above ⊢
  refine ⟨gpr, ⟨ds, es⟩, ?_, ?_, above⟩
  · change ((compared c).eflags ||| 0x200).toNat.testBit 9 = true
    rw [UInt32.toNat_or, Nat.testBit_or]
    exact Bool.or_true _
  · refine Stacked.push holds ?_
    simp only [List.length_cons]
    omega

/-- The caller goes on with all its registers but the result. -/
theorem perform_back {tss : Tss} {gate : Gate} {caller c : Core}
    (kernel : Core.level gate.selector = 0) (cs : c.cs = gate.selector)
    (ss : c.ss = (caller.interrupt tss gate).ss)
    (esp : c.esp = (caller.interrupt tss gate).esp - 60)
    (holds : (c.drop 24).Holds
      (savedWords (StackOp.cli.exec (caller.interrupt tss gate)) ++ caller.frame)) :
    perform routine handlers restoring c =
      some { caller.set .eax (c.gpr .eax) with memory := c.memory } := by
  rcases caller.interrupt_keeps tss gate with ⟨gpr, ds, es⟩
  have saved : (StackOp.cli.exec (caller.interrupt tss gate)).gpr = caller.gpr := gpr
  rw [perform_restoring (by rw [cs, kernel]) saved ds es holds]
  have result : (fun r => if r = Gpr.eax then c.gpr .eax else caller.gpr r) =
      Function.update caller.gpr .eax (c.gpr .eax) := by
    funext r
    rw [Function.update_apply]
  rw [result]
  by_cases inner : Core.level caller.cs = 0
  · rcases caller.interrupt_inner tss gate inner with ⟨espInner, ssInner⟩
    have stack : c.esp + 72 = caller.esp := by
      have whole : caller.esp - 12 - 60 = caller.esp - 72 := by
        simp only [UInt32.sub_eq_add_neg, UInt32.add_assoc]
        rfl
      rw [esp, espInner, whole, UInt32.sub_add_cancel]
    have segment : c.ss = caller.ss := ss.trans ssInner
    rw [if_pos inner, if_pos inner, stack, segment]
    rfl
  · rw [if_neg inner, if_neg inner]
    rfl

/-- A C function that keeps the calling convention finds the arguments of the caller, and the
caller goes on with its result and all its other registers. -/
theorem perform_systemCallHandler {link : UInt32} {tss : Tss} {gate : Gate} {caller exit : Core}
    (kernel : Core.level gate.selector = 0) (low : 1 ≤ signed (caller.gpr .eax))
    (high : signed (caller.gpr .eax) ≤ 8)
    (returns : routine (called caller) (callEntry link tss gate caller) = some exit)
    (convention : Cdecl 3 (behindArguments tss gate caller) (callEntry link tss gate caller) exit) :
    perform routine handlers (systemCallHandler link) (caller.interrupt tss gate) =
      some { caller.set .eax (exit.gpr .eax) with memory := exit.memory } := by
  rcases savedCore_interrupt tss gate caller with ⟨gpr, _, _, holds⟩
  rcases savedCore_eq (caller.interrupt tss gate) with ⟨memory, saved⟩
  have number : (savedCore (caller.interrupt tss gate)).gpr .eax = caller.gpr .eax := by rw [gpr]
  have function : called (savedCore (caller.interrupt tss gate)) = called caller := by
    rw [called, called, gpr]
  have espSaved : (savedCore (caller.interrupt tss gate)).esp =
      (caller.interrupt tss gate).esp - 60 := by rw [saved]
  have csSaved : (savedCore (caller.interrupt tss gate)).cs = gate.selector := by
    rw [saved]
    rfl
  have ssSaved : (savedCore (caller.interrupt tss gate)).ss = (caller.interrupt tss gate).ss := by
    rw [saved]
    rfl
  rw [callEntry] at returns convention
  rw [perform_saved, perform_valid (by rw [number]; exact low) (by rw [number]; exact high)
    (by rw [function]; exact returns)]
  generalize savedCore (caller.interrupt tss gate) = c at *
  have espExit : exit.esp = c.esp := by
    rw [convention.esp]
    exact UInt32.sub_add_cancel _ _
  have behind : Stacked ((StackOp.sti.exec (compared c)).push link).memory (exit.esp + 4 * 3)
      (behindArguments tss gate caller) := by
    have few := behindArguments_length tss gate caller
    have pushed : ((StackOp.sti.exec (compared c)).push link).Holds
        (link :: caller.gpr .ebx :: caller.gpr .ecx :: caller.gpr .edx ::
          behindArguments tss gate caller) := by
      refine Stacked.push holds ?_
      simp only [List.length_cons]
      omega
    have address : c.esp - 4 + 16 = exit.esp + 4 * 3 := by
      rw [espExit, UInt32.sub_eq_add_neg, UInt32.add_assoc]
      rfl
    rw [← address]
    exact Core.Holds.drop [link, caller.gpr .ebx, caller.gpr .ecx, caller.gpr .edx] pushed
  have kept := convention.caller behind
  have registers : ((StackOp.cli.exec exit).drop 12).Holds
      ([caller.gpr .esi, caller.gpr .edi, caller.gpr .ebp] ++
        (savedWords (StackOp.cli.exec (caller.interrupt tss gate)) ++ caller.frame)) := kept
  have address : exit.esp + 12 + 12 = exit.esp + 24 := by
    rw [UInt32.add_assoc]
    rfl
  have saves := registers.drop
  refine perform_back kernel (convention.cs.trans csSaved) (convention.ss.trans ssSaved)
    (espExit.trans espSaved) ?_
  rw [Core.Holds] at saves ⊢
  change Stacked exit.memory (exit.esp + 12 + 12) _ at saves
  rw [address] at saves
  exact saves

/-- Any other number returns -1 without a call. -/
theorem perform_outside (link : UInt32) {tss : Tss} {gate : Gate} {caller : Core}
    (kernel : Core.level gate.selector = 0)
    (outside : signed (caller.gpr .eax) < 1 ∨ 8 < signed (caller.gpr .eax)) :
    perform routine handlers (systemCallHandler link) (caller.interrupt tss gate) =
      some { caller.set .eax (-1) with
        memory := (savedCore (caller.interrupt tss gate)).memory } := by
  rcases savedCore_interrupt tss gate caller with ⟨gpr, _, _, holds⟩
  rcases savedCore_eq (caller.interrupt tss gate) with ⟨memory, saved⟩
  have espSaved : (savedCore (caller.interrupt tss gate)).esp =
      (caller.interrupt tss gate).esp - 60 := by rw [saved]
  have csSaved : (savedCore (caller.interrupt tss gate)).cs = gate.selector := by
    rw [saved]
    rfl
  have ssSaved : (savedCore (caller.interrupt tss gate)).ss = (caller.interrupt tss gate).ss := by
    rw [saved]
    rfl
  rw [← gpr] at outside
  rw [perform_saved]
  generalize savedCore (caller.interrupt tss gate) = c at *
  rcases perform_invalid link outside with
    ⟨eflags, performed⟩
  rw [performed]
  have words : c.Holds ([caller.gpr .ebx, caller.gpr .ecx, caller.gpr .edx, caller.gpr .esi,
      caller.gpr .edi, caller.gpr .ebp] ++
        (savedWords (StackOp.cli.exec (caller.interrupt tss gate)) ++ caller.frame)) := holds
  rw [perform_back (c := { c.set .eax (-1) with eflags := eflags }) kernel csSaved ssSaved espSaved
    words.drop]
  simp [Core.set]

end Handler

end SystemCalls

end Ece391Os
