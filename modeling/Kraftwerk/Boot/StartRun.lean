import Kraftwerk.Boot.StartEffects

set_option autoImplicit false

-- Where the code of start gets to from every state that a boot loader may leave, and in which state kernel_init is entered.
namespace Kraftwerk.Boot

open LittleEndian Paging

theorem run_code_cons (placed : Placed) (rest : List Placed) (rip : Addr) (cpu : Cpu) (fetched : Fetched rip cpu placed) :
    runCode (placed :: rest) rip cpu = (placed.instr.effect cpu placed.behind).bind fun after =>
      runCode rest (placed.instr.next after placed.behind) after := by
  rw [runCode, if_pos fetched]

theorem low_fetched (layout : Layout) (linked : Linked layout) (long : Bool) (number : Nat) (small : number < 35) (instr : Instr) (cpu : Cpu)
    (low : Low cpu) (mode : cpu.longCode = long) : Fetched (BitVec.ofNat 64 (layout.place number)) cpu
      ⟨BitVec.ofNat 64 (layout.place number), layout.place number, long, BitVec.ofNat 64 (layout.place (number + 1)), instr⟩ := by
  obtain ⟨above, below⟩ := linked.code number small
  have stack := linked.stack
  have top := linked.low
  have same : (BitVec.ofNat 64 (layout.place number)).toNat = layout.place number := by
    rw [BitVec.toNat_ofNat]
    omega
  refine ⟨rfl, mode, ?_⟩
  dsimp only
  rw [same]
  exact low _ above (by omega)

-- A block that keeps an invariant under which it is found where it was put does what its instructions do.
theorem run_code_block (layout : Layout) (linked : Linked layout) (long : Bool) (inv : Cpu → Prop) (low : ∀ cpu, inv cpu → Low cpu)
    (mode : ∀ cpu, inv cpu → cpu.longCode = long) (block rest : List Instr) (more : List Placed) (number : Nat)
    (small : number + block.length ≤ 35) (goesOn : ∀ instr ∈ block, instr.goesOn = true)
    (keeps : ∀ instr ∈ block, ∀ cpu after, inv cpu → instr.effect cpu 0 = some after → inv after) (cpu : Cpu) (initial : inv cpu) :
    runCode (layOut layout.place long number (block ++ rest) ++ more) (BitVec.ofNat 64 (layout.place number)) cpu =
      (effects block cpu).bind fun last => runCode (layOut layout.place long (number + block.length) rest ++ more)
        (BitVec.ofNat 64 (layout.place (number + block.length))) last := by
  induction block generalizing number cpu with
  | nil => rfl
  | cons instr block ih =>
      rw [List.length_cons] at small ⊢
      obtain ⟨here, later⟩ := List.forall_mem_cons.mp goesOn
      obtain ⟨kept, keptLater⟩ := List.forall_mem_cons.mp keeps
      rw [List.cons_append, layOut, List.cons_append,
        run_code_cons _ _ _ cpu (low_fetched layout linked long number (by omega) instr cpu (low cpu initial) (mode cpu initial))]
      dsimp only
      rw [goes_on_effect instr cpu _ here, effects]
      cases done : instr.effect cpu 0 with
      | none => rfl
      | some after =>
          rw [Option.bind_some, Option.bind_some, goes_on_next instr after _ here,
            ih (number + 1) (by omega) later keptLater after (kept cpu after initial done), Nat.add_right_comm, Nat.add_assoc]

theorem effects_keeps (inv : Cpu → Prop) (block : List Instr)
    (keeps : ∀ instr ∈ block, ∀ cpu after, inv cpu → instr.effect cpu 0 = some after → inv after)
    (cpu last : Cpu) (initial : inv cpu) (done : effects block cpu = some last) : inv last := by
  induction block generalizing cpu with
  | nil => exact Option.some.inj done ▸ initial
  | cons instr block ih =>
      obtain ⟨now, later⟩ := List.forall_mem_cons.mp keeps
      obtain ⟨after, stepped, rest⟩ := Option.bind_eq_some_iff.mp done
      exact ih later after (now cpu after initial stepped) rest

structure MappedIn (layout : Layout) (protect long : Bool) (cpu : Cpu) : Prop where
  mapped : Mapped layout cpu
  protect : cpu.writeProtect = protect
  mode : cpu.longCode = long

theorem mapped_quiet (layout : Layout) (protect long : Bool) (instr : Instr) (quiet : instr.quiet = true) (cpu after : Cpu)
    (inside : MappedIn layout protect long cpu) (done : instr.effect cpu 0 = some after) : MappedIn layout protect long after := by
  have goesOn : instr.goesOn = true := by
    cases instr with
    | push source => cases quiet
    | storeWord source address => cases quiet
    | storeLong source address => cases quiet
    | toControl source into => cases quiet
    | _ => exact quiet
  obtain ⟨paged, mode, control, mem⟩ := goes_on_kept instr cpu after goesOn done
  refine ⟨⟨paged.trans inside.mapped.paged, ?_, ?_⟩, ?_, mode.trans inside.mode⟩
  · rw [Cpu.root, control quiet]
    exact inside.mapped.root
  · rw [mem quiet]
    exact inside.mapped.image
  · rw [Cpu.writeProtect, control quiet]
    exact inside.protect

section
variable (layout : Layout) (linked : Linked layout) (long : Bool)

include linked

theorem mapped_stored (address value count : Nat) (above : layout.base.toNat + 0x9028 ≤ address) (below : address + count ≤ 0x400000)
    (cpu after : Cpu) (inside : MappedIn layout false long cpu) (done : cpu.store address value count = some after) :
    MappedIn layout false long after := by
  rw [low_store cpu (mapped_low layout linked cpu inside.mapped) (.inr inside.protect) address value count (by omega) below] at done
  obtain rfl := Option.some.inj done
  refine ⟨⟨inside.mapped.paged, inside.mapped.root, ?_⟩, inside.protect, inside.mode⟩
  exact image_kept layout linked cpu.mem _ (fun byte start stop => store_elsewhere _ _ _ _ _ (by omega)) inside.mapped.image

theorem paged_block_keeps : ∀ instr ∈ descriptorCode layout ++ segmentCode, ∀ cpu after, MappedIn layout false false cpu →
    instr.effect cpu 0 = some after → MappedIn layout false false after := by
  have stack := linked.stack
  have top := linked.low
  have lim : layout.bootGDTLim = layout.base.toNat + 0x9042 := Nat.add_assoc _ _ _
  have bse : layout.bootGDTBse = layout.base.toNat + 0x9044 := Nat.add_assoc _ _ _
  have quiet := mapped_quiet layout false false
  simp only [descriptorCode, segmentCode, List.cons_append, List.nil_append, List.forall_mem_cons]
  exact ⟨quiet _ rfl, quiet _ rfl,
    fun cpu after => mapped_stored layout linked false layout.bootGDTLim _ 2 (by omega) (by omega) cpu after,
    fun cpu after => mapped_stored layout linked false layout.bootGDTBse _ 4 (by omega) (by omega) cpu after, quiet _ rfl,
    quiet _ rfl, quiet _ rfl, quiet _ rfl, quiet _ rfl, quiet _ rfl, quiet _ rfl, fun _ none => absurd none List.not_mem_nil⟩

omit linked in
theorem argument_block_keeps (protect : Bool) : ∀ instr ∈ argumentCode layout, ∀ cpu after, MappedIn layout protect true cpu →
    instr.effect cpu 0 = some after → MappedIn layout protect true after := by
  have quiet := mapped_quiet layout protect true
  simp only [argumentCode, List.forall_mem_cons]
  exact ⟨quiet _ rfl, quiet _ rfl, quiet _ rfl, fun _ none => absurd none List.not_mem_nil⟩

section
variable (entry : Cpu) (entered : Entered layout entry) (more : List Placed)

include entered

-- Up to the instruction that turns paging on.
theorem unpaged_executed : ∃ cpu, runCode (layOut layout.place false 0 (unpagedCode layout ++ pagedCode layout) ++ more)
      (BitVec.ofNat 64 (layout.place 0)) entry =
        runCode (layOut layout.place false 19 (reloadCode layout) ++ more) (BitVec.ofNat 64 (layout.place 19)) cpu ∧
      PagingOn layout entry cpu (pushed layout entry) ∧ cpu.longCode = false := by
  obtain ⟨last, done, mem, sp, interrupts, mode, control, efer, cx⟩ := unpaged_effects layout linked entry entered
  obtain ⟨after, turned, on, kept⟩ := paging_turned_on layout linked entry entered last mem sp interrupts control efer cx
  have goesOn : ∀ instr ∈ unpagedCode layout, instr.goesOn = true := by
    simp [unpagedCode, entryCode, tableCode, paeCode, longModeCode, pagingCode, Instr.goesOn]
  have unpaged : last.paged = false := by
    rw [Cpu.paged, control]
    exact entered.unpaged
  refine ⟨after, ?_, on, kept.trans mode⟩
  rw [run_code_block layout linked false (fun cpu => cpu.paged = false ∧ cpu.longCode = false) (fun cpu inv => unpaged_low cpu inv.1)
    (fun cpu inv => inv.2) (unpagedCode layout) (pagedCode layout) more 0 (by decide : 18 ≤ 35) goesOn
    (fun instr member cpu after inv stepped =>
      have gone := goes_on_kept instr cpu after (goesOn instr member) stepped
      ⟨gone.paged.trans inv.1, gone.mode.trans inv.2⟩) entry ⟨entered.unpaged, entered.mode⟩, done, Option.bind_some]
  have fetched := low_fetched layout linked false 18 (by decide) (.toControl .cx .cr0) last (unpaged_low last unpaged) mode
  refine (run_code_cons _ _ _ last fetched).trans ?_
  have behind : (Instr.toControl .cx .cr0).effect last (BitVec.ofNat 64 (layout.place (18 + 1))) = some after := turned
  dsimp only
  rw [behind, Option.bind_some]
  rfl

omit entered in
-- Up to the first instruction of the 64-bit code.
theorem paged_executed (free : entry.writeProtect = false) (cpu : Cpu) (on : PagingOn layout entry cpu (pushed layout entry))
    (mode : cpu.longCode = false) :
    ∃ last, runCode (layOut layout.place false 19 (reloadCode layout) ++ more) (BitVec.ofNat 64 (layout.place 19)) cpu =
        runCode more (BitVec.ofNat 64 (layout.place 31)) last ∧
      Described layout entry last ∧ last.longCode = true ∧ last.cs = 0x08 ∧ ∀ segment, last.segment segment = 0x10 := by
  obtain ⟨first, one, firstOn, gdtr⟩ := descriptor_effects layout linked entry cpu free on
  obtain ⟨second, two, described, segments⟩ := segment_effects layout linked entry first ⟨firstOn, gdtr⟩
  have done : effects (descriptorCode layout ++ segmentCode) cpu = some second := by
    rw [effects_append, one, Option.bind_some, two]
  have keeps := paged_block_keeps layout linked
  have goesOn : ∀ instr ∈ descriptorCode layout ++ segmentCode, instr.goesOn = true := by
    simp [descriptorCode, segmentCode, Instr.goesOn]
  have initial : MappedIn layout false false cpu := ⟨on.mapped, (paging_on_protect layout entry cpu _ on).trans free, mode⟩
  have inside : MappedIn layout false false second := effects_keeps _ _ keeps cpu second initial done
  refine ⟨{ second with cs := 0x08, longCode := true }, ?_, ⟨?_, described.gdtr⟩, rfl, rfl, segments⟩
  · rw [reloadCode, run_code_block layout linked false (MappedIn layout false false) (fun cpu inv => mapped_low layout linked cpu inv.mapped)
      (fun cpu inv => inv.mode) (descriptorCode layout ++ segmentCode) _ more 19 (by decide : 19 + 11 ≤ 35) goesOn keeps cpu initial, done,
      Option.bind_some]
    have fetched := low_fetched layout linked false 30 (by decide) (.farJump 0x08 (BitVec.ofNat 64 (layout.place 31))) second
      (mapped_low layout linked second inside.mapped) inside.mode
    refine (run_code_cons _ _ _ second fetched).trans ?_
    dsimp only
    rw [far_jump layout linked entry second described, Option.bind_some]
    rfl
  · have on := described.on
    exact ⟨⟨on.mapped.paged, on.mapped.root, on.mapped.image⟩, on.mem, on.sp, on.interrupts, on.active, on.features, on.protection⟩

end

theorem long_executed (entry cpu : Cpu) (described : Described layout entry cpu) (mode : cpu.longCode = true) (more : List Placed) :
    ∃ last, runCode (layOut layout.place true 31 (argumentCode layout ++ [.jump .ax]) ++ more) (BitVec.ofNat 64 (layout.place 31)) cpu =
        runCode more (kernelAddr layout.startKernel2) last ∧
      Arguments layout entry last ∧ last.cs = cpu.cs ∧ last.segment = cpu.segment ∧ last.longCode = true := by
  obtain ⟨last, done, arguments, cs, segment, kept⟩ := argument_effects layout linked entry cpu described
  have keeps := argument_block_keeps layout cpu.writeProtect
  have goesOn : ∀ instr ∈ argumentCode layout, instr.goesOn = true := by
    simp [argumentCode, Instr.goesOn]
  refine ⟨last, ?_, arguments, cs, segment, kept.trans mode⟩
  rw [run_code_block layout linked true (MappedIn layout cpu.writeProtect true) (fun cpu inv => mapped_low layout linked cpu inv.mapped)
    (fun cpu inv => inv.mode) (argumentCode layout) _ more 31 (by decide : 31 + 3 ≤ 35) goesOn keeps cpu ⟨described.on.mapped, rfl, mode⟩,
    done, Option.bind_some]
  have fetched := low_fetched layout linked true 34 (by decide) (.jump .ax) last
    (mapped_low layout linked last arguments.described.on.mapped) (kept.trans mode)
  refine (run_code_cons _ _ _ last fetched).trans ?_
  dsimp only
  rw [Instr.effect, Option.bind_some, Instr.next, arguments.target]
  rfl

theorem call_effect (entry cpu : Cpu) (free : entry.writeProtect = false) (on : PagingOn layout entry cpu (pointed layout entry))
    (target behind : Addr) : (Instr.call target).effect cpu behind =
      some ((cpu.setReg .sp (BitVec.ofNat 64 (layout.stackTop - 16))).setMem
        (storeNumber (pointed layout entry) (layout.stackTop - 16) behind.toNat 8)) := by
  have stack := linked.stack
  have top := linked.low
  have number : (BitVec.ofNat 64 (layout.stackTop - 8) - 8).toNat = layout.stackTop - 16 := by
    rw [BitVec.toNat_sub, BitVec.toNat_ofNat, show (8 : BitVec 64).toNat = 8 by rfl]
    omega
  have value : BitVec.ofNat 64 (layout.stackTop - 8) - 8 = BitVec.ofNat 64 (layout.stackTop - 16) := by
    rw [← number, BitVec.ofNat_toNat, BitVec.setWidth_eq]
  rw [Instr.effect, on.sp, number, paging_on_low_store layout linked entry cpu _ on free _ _ 8 (by omega) (by omega), Option.map_some,
    on.mem, value]
  rfl

-- Where CR0.WP is set, the entries of the PML4 keep the kernel from writing anything below 2^39.
theorem protected_store (cpu : Cpu) (mapped : Mapped layout cpu) (guard : cpu.writeProtect = true) (address value count : Nat)
    (low : address < 2 ^ 39) : cpu.store address value (count + 1) = none := by
  have index : walkIndex (BitVec.ofNat 64 address) 39 = 0 := by
    rw [index_iff, BitVec.toNat_ofNat, show (0 : BitVec 9).toNat = 0 by rfl]
    omega
  have word : words cpu.mem (entryAddr cpu.root 0) = tableAddr layout.base .bootPDPT + 1 := by
    rw [mapped.image.tables, mapped.root]
    exact boot_memory_word layout.base _ linked.tables .bootPML4T 0
  have first : levelEntry (words cpu.mem) cpu.root (BitVec.ofNat 64 address) 0 = some (entryAddr cpu.root 0) := by
    rw [level_entry_on _ _ _ 0 cpu.root rfl, index]
  have readOnly : cpu.writable address = false := by
    rw [Cpu.writable, show List.range 4 = [0, 1, 2, 3] by rfl, List.all_cons, first, Option.all_some, word,
      link_read_only layout.base linked.tables, Bool.false_and]
  rw [Cpu.store, storeVia, Cpu.translateStore, mapped.paged, guard, readOnly, if_pos (by decide), Option.bind_none, Option.map_none]

-- The first store behind the instruction that turns paging on faults there.
theorem protected_stuck (entry cpu : Cpu) (on : PagingOn layout entry cpu (pushed layout entry)) (mode : cpu.longCode = false)
    (guard : entry.writeProtect = true) (more : List Placed) :
    runCode (layOut layout.place false 19 (reloadCode layout) ++ more) (BitVec.ofNat 64 (layout.place 19)) cpu = none := by
  have keeps : ∀ instr ∈ [Instr.mov (BitVec.ofNat 32 layout.bootGDT) .ax, .mov 39 .dx], ∀ cpu after, MappedIn layout true false cpu →
      instr.effect cpu 0 = some after → MappedIn layout true false after :=
    List.forall_mem_cons.mpr ⟨mapped_quiet layout true false _ rfl, List.forall_mem_singleton.mpr (mapped_quiet layout true false _ rfl)⟩
  have initial : MappedIn layout true false cpu := ⟨on.mapped, (paging_on_protect layout entry cpu _ on).trans guard, mode⟩
  have inside : MappedIn layout true false (descriptorsSet layout cpu) := effects_keeps _ _ keeps cpu _ initial rfl
  have goesOn : ∀ instr ∈ [Instr.mov (BitVec.ofNat 32 layout.bootGDT) .ax, .mov 39 .dx], instr.goesOn = true := by
    simp [Instr.goesOn]
  have stack := linked.stack
  have top := linked.low
  have lim : layout.bootGDTLim = layout.base.toNat + 0x9042 := Nat.add_assoc _ _ _
  refine (run_code_block layout linked false (MappedIn layout true false) (fun cpu inv => mapped_low layout linked cpu inv.mapped)
    (fun cpu inv => inv.mode) [.mov (BitVec.ofNat 32 layout.bootGDT) .ax, .mov 39 .dx] _ more 19 (by decide : 19 + 2 ≤ 35) goesOn keeps cpu
    initial).trans ?_
  refine (run_code_cons _ _ _ (descriptorsSet layout cpu) (low_fetched layout linked false 21 (by decide) (.storeWord .dx layout.bootGDTLim)
    _ (mapped_low layout linked _ inside.mapped) inside.mode)).trans ?_
  dsimp only
  rw [Instr.effect, protected_store layout linked _ inside.mapped inside.protect _ _ 1 (by omega), Option.bind_none]

end

-- How kernel_init is entered: in 64-bit code on the tables of this file and with the descriptors of it, with the two values that the
-- boot loader has left as its arguments, and nothing but the top of the stack and the pointer for lgdt written.
structure EntersKernel (layout : Layout) (entry final : Cpu) : Prop where
  mapped : Mapped layout final
  long : final.longCode = true
  active : final.efer.getLsbD 10 = true
  features : final.control .cr4 = ((entry.control .cr4).setWidth 32 ||| 32 ||| 8).setWidth 64
  protection : final.control .cr0 = ((entry.control .cr0).setWidth 32 ||| 0x80000000).setWidth 64
  gdtr : final.gdtr = ⟨39, layout.bootGDT⟩
  cs : final.cs = 0x08
  segments : ∀ segment, final.segment segment = 0x10
  interrupts : final.interrupts = false
  info : final.reg .di = (entry.long .bx).setWidth 64
  magic : final.reg .si = (entry.long .ax).setWidth 64
  sp : final.reg .sp = BitVec.ofNat 64 (layout.stackTop - 16)
  returns : loadNumber final.mem (layout.stackTop - 16) 8 = (kernelAddr layout.behindCall).toNat
  kept : ∀ byte, byte < layout.stackTop - 16 ∨ layout.stackTop ≤ byte → byte < layout.bootGDTLim ∨ layout.bootGDTLim + 6 ≤ byte →
    final.mem byte = entry.mem byte

section
variable (layout : Layout) (linked : Linked layout) (entry : Cpu) (entered : Entered layout entry)

include linked

theorem called_enters (cpu : Cpu) (arguments : Arguments layout entry cpu) (long : cpu.longCode = true) (cs : cpu.cs = 0x08)
    (segments : ∀ segment, cpu.segment segment = 0x10) : EntersKernel layout entry
      ((cpu.setReg .sp (BitVec.ofNat 64 (layout.stackTop - 16))).setMem
        (storeNumber (pointed layout entry) (layout.stackTop - 16) (kernelAddr layout.behindCall).toNat 8)) := by
  have on := arguments.described.on
  have stack := linked.stack
  have image : ImageIn layout (pointed layout entry) := on.mem ▸ on.mapped.image
  refine ⟨⟨on.mapped.paged, on.mapped.root, ?_⟩, long, on.active, on.features, on.protection, arguments.described.gdtr, cs, segments,
    on.interrupts, ?_, ?_, reg_set_reg cpu .sp _, ?_, fun byte offStack offPointer => ?_⟩
  · exact image_kept layout linked (pointed layout entry) _ (fun byte start stop => store_elsewhere _ _ _ _ _ (by omega)) image
  · rw [reg_set_mem, reg_set_reg_ne _ .sp .di _ (by decide), arguments.info]
  · rw [reg_set_mem, reg_set_reg_ne _ .sp .si _ (by decide), arguments.magic]
  · exact (load_store _ _ _ 8).trans (Nat.mod_eq_of_lt (kernelAddr layout.behindCall).isLt)
  · have lim : layout.bootGDTLim = layout.base.toNat + 0x9042 := Nat.add_assoc _ _ _
    have bse : layout.bootGDTBse = layout.base.toNat + 0x9044 := Nat.add_assoc _ _ _
    refine (store_elsewhere _ _ _ _ _ (by omega)).trans ?_
    rw [pointed, store_elsewhere _ _ _ _ _ (by omega), store_elsewhere _ _ _ _ _ (by omega), pushed, store_elsewhere _ _ _ _ _ (by omega),
      store_elsewhere _ _ _ _ _ (by omega)]

include entered

theorem unprotected_enters_iff (free : entry.writeProtect = false) :
    (∃ final, runCode (startCode layout) (BitVec.ofNat 64 (layout.place 0)) entry = some (kernelAddr layout.kernelInit, final) ∧
        EntersKernel layout entry final ∧ final.translate (kernelAddr layout.kernelInit).toNat = some layout.kernelInit) ↔
      layout.startKernel2 < 0x200000 ∧ layout.kernelInit < 0x200000 := by
  obtain ⟨first, one, on, mode⟩ := unpaged_executed layout linked entry entered
    (layOut layout.place true 31 (argumentCode layout ++ [.jump .ax]) ++ [callPlaced layout])
  obtain ⟨second, two, described, long, cs, segments⟩ := paged_executed layout linked entry
    (layOut layout.place true 31 (argumentCode layout ++ [.jump .ax]) ++ [callPlaced layout]) free first on mode
  obtain ⟨third, three, arguments, sameCs, sameSegments, stillLong⟩ :=
    long_executed layout linked entry second described long [callPlaced layout]
  have run : runCode (startCode layout) (BitVec.ofNat 64 (layout.place 0)) entry =
      runCode [callPlaced layout] (kernelAddr layout.startKernel2) third := (one.trans two).trans three
  have found := mapped_kernel layout linked third arguments.described.on.mapped layout.startKernel2 linked.text.1
  rw [run, runCode]
  constructor
  · rintro ⟨final, done, enters, fetched⟩
    split at done
    · rename_i here
      exact ⟨found.mp here.bytes, (mapped_kernel layout linked final enters.mapped layout.kernelInit linked.text.2).mp fetched⟩
    · cases done
  · rintro ⟨below, initBelow⟩
    have enters := called_enters layout linked entry third arguments stillLong (sameCs.trans cs) fun segment =>
      (congrFun sameSegments segment).trans (segments segment)
    refine ⟨_, ?_, enters, (mapped_kernel layout linked _ enters.mapped layout.kernelInit linked.text.2).mpr initBelow⟩
    rw [if_pos ⟨rfl, stillLong, found.mpr below⟩]
    dsimp only [callPlaced]
    rw [call_effect layout linked entry third free arguments.described.on, Option.bind_some]
    rfl

-- From every state that a boot loader may leave, start gets to the first instruction of kernel_init if and only if CR0.WP is clear and
-- its own last instruction and that one are loaded below 2 MiB; where it does, kernel_init is entered as it should be.
theorem start_enters_kernel_iff :
    (∃ final, runCode (startCode layout) (BitVec.ofNat 64 (layout.place 0)) entry = some (kernelAddr layout.kernelInit, final) ∧
        EntersKernel layout entry final ∧ final.translate (kernelAddr layout.kernelInit).toNat = some layout.kernelInit) ↔
      entry.writeProtect = false ∧ layout.startKernel2 < 0x200000 ∧ layout.kernelInit < 0x200000 := by
  cases guard : entry.writeProtect with
  | false => rw [unprotected_enters_iff layout linked entry entered guard, eq_self, true_and]
  | true =>
      obtain ⟨cpu, run, on, mode⟩ := unpaged_executed layout linked entry entered
        (layOut layout.place true 31 (argumentCode layout ++ [.jump .ax]) ++ [callPlaced layout])
      have stuck : runCode (startCode layout) (BitVec.ofNat 64 (layout.place 0)) entry = none :=
        run.trans (protected_stuck layout linked entry cpu on mode guard _)
      rw [stuck]
      exact iff_of_false (fun ⟨_, done, _⟩ => nomatch done) (fun ⟨clear, _⟩ => nomatch clear)

end

-- The tables and the descriptors among other words.
def imageNumbers (layout : Layout) (rest : Nat → Nat) (address : Nat) : Nat :=
  if layout.base.toNat ≤ address ∧ address < layout.bootGDT then (bootMemory layout.base (fun _ => 0) (BitVec.ofNat 64 address)).toNat
  else if layout.bootGDT ≤ address ∧ address < layout.bootGDT + 40 then
    ((bootDescriptors[(address - layout.bootGDT) / 8]?).getD 0).toNat
  else rest address

theorem image_numbers_in (layout : Layout) (linked : Linked layout) (rest : Nat → Nat) :
    ImageIn layout (ofNumbers 8 (imageNumbers layout rest)) where
  tables := by
    have small := linked.tables.small
    have aligned := linked.tables.aligned
    funext address
    rw [bootMemory]
    cases found : initTables[(address - layout.base).toNat / 0x1000]? with
    | none => rfl
    | some table =>
        have inside := (List.getElem?_eq_some_iff.mp found).1
        have nine : initTables.length = 9 := rfl
        have offset := BitVec.toNat_sub address layout.base
        have bound := address.isLt
        have word : (BitVec.ofNat 64 (address.toNat / 8 * 8) - layout.base).toNat = (address - layout.base).toNat / 8 * 8 := by
          rw [BitVec.toNat_sub, BitVec.toNat_ofNat]
          omega
        have number : (address - layout.base).toNat / 8 * 8 / 0x1000 = (address - layout.base).toNat / 0x1000 := by omega
        have index : (address - layout.base).toNat / 8 * 8 % 0x1000 / 8 = (address - layout.base).toNat % 0x1000 / 8 := by omega
        rw [words_of_numbers, imageNumbers, if_pos (by rw [Layout.bootGDT]; omega), BitVec.ofNat_toNat, BitVec.setWidth_eq, bootMemory, word,
          number, found]
        dsimp only
        rw [index]
  descriptors := by
    intro index descriptor found
    have inside := (List.getElem?_eq_some_iff.mp found).1
    have five : bootDescriptors.length = 5 := rfl
    have aligned := linked.tables.aligned
    have start : layout.bootGDT + 8 * index = 8 * (layout.bootGDT / 8 + index) := by
      rw [Layout.bootGDT]
      omega
    have eight := load_of_numbers 8 (imageNumbers layout rest) (layout.bootGDT / 8 + index) 0 8 (Nat.le_refl _)
    rw [Nat.add_zero, ← start, pow_zero, Nat.div_one] at eight
    rw [eight, imageNumbers, if_neg (by omega), if_pos (by omega), Nat.add_sub_cancel_left, Nat.mul_div_cancel_left _ (by decide), found,
      Option.getD_some]
    exact Nat.mod_eq_of_lt descriptor.isLt

def smallLayout : Layout where
  place := fun number => 0x100000 + 8 * number
  base := 0x101000
  stackTop := 0x10E100
  startKernel2 := 0x110000
  behindCall := 0x110005
  kernelInit := 0x110100

theorem small_layout_linked : Linked smallLayout where
  code := by
    intro number small
    have place : smallLayout.place number = 0x100000 + 8 * number := rfl
    have base : smallLayout.base.toNat = 0x101000 := rfl
    omega
  tables := image_behind_loaded
  stack := by decide
  low := by decide
  text := by decide

def loaderLeft (rest : Nat → Nat) : Cpu where
  reg := fun register => if register = .ax then 0x2BADB002 else if register = .bx then 0x9000 else 0
  control := fun register => if register = .cr0 then 0x11 else 0
  efer := 0
  gdtr := ⟨0, 0⟩
  idtr := ⟨0, 0⟩
  cs := 0x10
  longCode := false
  segment := fun _ => 0x18
  interrupts := false
  mem := ofNumbers 8 (imageNumbers smallLayout rest)

theorem loader_left_entered (rest : Nat → Nat) : Entered smallLayout (loaderLeft rest) where
  mode := rfl
  unpaged := (by decide : (0x11 : BitVec 64).getLsbD 31 = false)
  guarded := (by decide : (0x11 : BitVec 64).getLsbD 0 = true)
  levels := (by decide : (0 : BitVec 64).getLsbD 12 = false)
  image := image_numbers_in smallLayout small_layout_linked _

theorem small_layout_enters : ∃ final, runCode (startCode smallLayout) (BitVec.ofNat 64 (smallLayout.place 0)) (loaderLeft fun _ => 0) =
      some (kernelAddr smallLayout.kernelInit, final) ∧ EntersKernel smallLayout (loaderLeft fun _ => 0) final ∧
    final.translate (kernelAddr smallLayout.kernelInit).toNat = some smallLayout.kernelInit :=
  (start_enters_kernel_iff smallLayout small_layout_linked _ (loader_left_entered fun _ => 0)).mpr (by decide)

end Kraftwerk.Boot
