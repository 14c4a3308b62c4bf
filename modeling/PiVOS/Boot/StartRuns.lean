-- SUMMARY: From the reset to `kernel_main`, with all cores running the boot code at once.
import PiVOS.Boot.Start

/-!
# Booting

One core clears the memory, makes the tables, goes down to EL1 and enters the kernel; the
others stop. Whatever turns the cores take, the first one goes through the states it would
go through alone. What `SCTLR` says is looked at last: with the bits clear that the code
relies on, it forbids nothing until the MMU is on, and then the tables are there.
-/

namespace PiVOS
namespace Boot

variable {l : Layout} {c : Core} {mem : Nat → Nat}

local instance bootRegisters : NeZero 31 := ⟨by decide⟩

/-! ## What `SCTLR` allows -/

/-- The steps of the instructions that `ok` admits, whatever is in `SCTLR`. -/
def stepOnly (ok : Insn → Bool) (l : Layout) (s : Core × (Nat → Nat)) : Option (Core × (Nat → Nat)) :=
  match s.1.pc with
  | .boot i => code[i]?.bind fun insn => cond (ok insn) (exec l i s.1 s.2 insn) none
  | .kernel _ => none

theorem stepOnly_at {ok : Insn → Bool} {i : Nat} {insn : Insn} (hpc : c.pc = .boot i)
    (hcode : code[i]? = some insn) (hok : ok insn = true) :
    stepOnly ok l (c, mem) = exec l i c mem insn := by
  rw [stepOnly]
  simp only [hpc, hcode, Option.bind_some, hok, cond_true]

theorem step_at {i : Nat} {insn : Insn} (hpc : c.pc = .boot i) (hcode : code[i]? = some insn)
    (hcan : c.CanExecute l mem i) : step l (c, mem) = exec l i c mem insn := by
  rw [step]
  simp only [hpc, hcode, Option.bind_some, if_pos hcan]

/-- A step of `stepOnly` is an instruction that `ok` admits. -/
theorem stepOnly_cases {ok : Insn → Bool} {s s' : Core × (Nat → Nat)} (h : stepOnly ok l s = some s') :
    ∃ i insn, s.1.pc = .boot i ∧ code[i]? = some insn ∧ ok insn = true ∧ exec l i s.1 s.2 insn = some s' := by
  rw [stepOnly] at h
  split at h
  · rename_i i hpc
    obtain ⟨insn, hcode, hexec⟩ := Option.bind_eq_some_iff.mp h
    cases hok : ok insn with
    | false =>
      rw [hok] at hexec
      cases hexec
    | true =>
      rw [hok, cond_true] at hexec
      exact ⟨i, insn, hpc, hcode, hok, hexec⟩
  · cases h

/-- The bits M, WXN and EE are clear. -/
def sctlrClear (v : BitVec 64) : Prop := v.getLsbD 0 = false ∧ v.getLsbD 19 = false ∧ v.getLsbD 25 = false

instance (v : BitVec 64) : Decidable (sctlrClear v) := inferInstanceAs (Decidable (_ ∧ _ ∧ _))

/-- In every level the MMU is off and data are little-endian. -/
structure MmuOff (c : Core) : Prop where
  el1 : sctlrClear (c.sys .sctlrEl1)
  el2 : sctlrClear (c.sys .sctlrEl2)
  el3 : sctlrClear (c.sys .sctlrEl3)

def keepsSctlr : Insn → Bool
  | .msr .sctlrEl1 _ | .msr .sctlrEl2 _ | .msr .sctlrEl3 _ => false
  | _ => true

theorem exec_sctlr {i : Nat} {insn : Insn} {s : Core × (Nat → Nat)} (hok : keepsSctlr insn = true)
    (h : exec l i c mem insn = some s) : s.1.sys .sctlrEl1 = c.sys .sctlrEl1 ∧
      s.1.sys .sctlrEl2 = c.sys .sctlrEl2 ∧ s.1.sys .sctlrEl3 = c.sys .sctlrEl3 := by
  cases insn with
  | msr r a =>
    obtain rfl := Option.some.inj h
    cases r with
    | sctlrEl1 | sctlrEl2 | sctlrEl3 => cases hok
    | _ => exact ⟨rfl, rfl, rfl⟩
  | eret =>
    obtain ⟨c', heret, rfl⟩ := Option.map_eq_some_iff.mp h
    rw [Core.eret] at heret
    split_ifs at heret
    obtain rfl := Option.some.inj heret
    exact ⟨rfl, rfl, rfl⟩
  | strWzr a | str b a | strPost b a =>
    rw [exec] at h
    split_ifs at h
    obtain rfl := Option.some.inj h
    exact ⟨rfl, rfl, rfl⟩
  | _ =>
    obtain rfl := Option.some.inj h
    exact ⟨rfl, rfl, rfl⟩

theorem MmuOff.of_sys {c' : Core} (h : MmuOff c) (hsctlr : c'.sys .sctlrEl1 = c.sys .sctlrEl1 ∧
    c'.sys .sctlrEl2 = c.sys .sctlrEl2 ∧ c'.sys .sctlrEl3 = c.sys .sctlrEl3) : MmuOff c' :=
  ⟨hsctlr.1 ▸ h.el1, hsctlr.2.1 ▸ h.el2, hsctlr.2.2 ▸ h.el3⟩

theorem MmuOff.canExecute (h : MmuOff c) (mem : Nat → Nat) (i : Nat) : c.CanExecute l mem i := by
  have hclear : sctlrClear c.sctlr := by
    rw [Core.sctlr]
    split
    · exact h.el3
    · exact h.el2
    · exact h.el1
  exact ⟨hclear.2.2, fun hon => absurd (hclear.1.symm.trans hon) Bool.false_ne_true⟩

theorem MmuOff.step {s : Core × (Nat → Nat)} (h : MmuOff c)
    (hnext : stepOnly keepsSctlr l (c, mem) = some s) : step l (c, mem) = some s ∧ MmuOff s.1 := by
  obtain ⟨i, insn, hpc, hcode, hok, hexec⟩ := stepOnly_cases hnext
  exact ⟨(step_at hpc hcode (h.canExecute mem i)).trans hexec, h.of_sys (exec_sctlr hok hexec)⟩

theorem MmuOff.run {s : Core × (Nat → Nat)} {n : Nat} (h : MmuOff c)
    (hrun : steps (stepOnly keepsSctlr l) n (c, mem) = some s) :
    steps (Boot.step l) n (c, mem) = some s ∧ MmuOff s.1 :=
  Steps.lift (I := fun s => MmuOff s.1) (fun _ _ h hnext => h.step hnext) h hrun

/-- The MMU is on with the boot tables. -/
structure MmuOn (l : Layout) (s : Core × (Nat → Nat)) : Prop where
  level : s.1.sys .currentEl = 0x4
  wxn : (s.1.sys .sctlrEl1).getLsbD 19 = false
  ee : (s.1.sys .sctlrEl1).getLsbD 25 = false
  ttbr0 : s.1.sys .ttbr0El1 = BitVec.ofNat 64 l.mmuSpaceStart
  tables : HoldsTree s.2 l.mmuSpaceStart (bootTree l.mmuSpaceStart)

def keepsSystem : Insn → Bool
  | .msr _ _ | .eret | .strWzr _ | .str _ _ | .strPost _ _ => false
  | _ => true

theorem exec_system {i : Nat} {insn : Insn} {s : Core × (Nat → Nat)} (hok : keepsSystem insn = true)
    (h : exec l i c mem insn = some s) : s.1.sys = c.sys ∧ s.2 = mem := by
  cases insn with
  | msr | eret | strWzr | str | strPost => cases hok
  | _ =>
    obtain rfl := Option.some.inj h
    exact ⟨rfl, rfl⟩

/-- The boot code's blocks show the image at its place in memory. -/
theorem el1Address_bootTree {root pa : Nat} (h : HoldsTree mem root (bootTree root)) (hroot : root < 2 ^ 31)
    (hpa : pa < 2 ^ 30) (ttbr1 : Nat) : el1Address mem root ttbr1 .load pa = some pa := by
  have hslot : slotNumber 2 pa < 512 := by
    rw [slotNumber, regionSize]
    omega
  have hleaf : (bootTree root).leaf 2 (slotNumber 2 pa) = some (bootBlock (slotNumber 2 pa)) :=
    bootTree_leaf_eq_some.mpr ⟨⟨rfl, hslot⟩, rfl⟩
  have htables : ∀ a, (bootTree root).HasTable a → a < physicalEnd := by
    rintro a ⟨level, n, hnode⟩
    obtain ⟨⟨hlevel, -⟩, rfl⟩ := bootTree_node_eq_some.mp hnode
    rw [physicalEnd_eq]
    omega
  have hat : translationAt mem root ttbr1 pa = some (pa, bootBlock (slotNumber 2 pa)) := by
    rw [translationAt_lower (by omega), Nat.mod_eq_of_lt (by omega),
      h.walkTranslation_of_leaf htables (by omega) hleaf, ((IdentityTree.boot root).leaf hleaf).2.2 pa rfl,
      if_pos (show pa < physicalEnd by rw [physicalEnd_eq]; omega)]
  obtain ⟨haf, hap⟩ := accessRights_bootBlock (slotNumber 2 pa)
  rw [el1Address_of_some hat, permitsKernel_of_rights haf (by omega), if_pos rfl]

theorem MmuOn.canExecute {s : Core × (Nat → Nat)} (h : MmuOn l s) {i : Nat} (hi : i < code.length) :
    s.1.CanExecute l s.2 i := by
  have hsctlr : s.1.sctlr = s.1.sys .sctlrEl1 := by
    rw [Core.sctlr, h.level]
    rfl
  have hmb : mbInB = 2 ^ 20 := by decide
  have haddress := l.address_lt i hi
  have hle := l.bss_le
  have hstack := l.stack
  have hspace := l.mmuSpace
  have himage := l.image_lt
  rw [hmb] at himage
  rw [Core.CanExecute, hsctlr]
  refine ⟨h.ee, fun _ => ⟨h.wxn, by rw [h.level]; rfl, ?_⟩⟩
  rw [h.ttbr0, BitVec.toNat_ofNat, Nat.mod_eq_of_lt (by omega)]
  exact el1Address_bootTree h.tables (by omega) (by omega) _

theorem MmuOn.run {s s' : Core × (Nat → Nat)} {n : Nat} (h : MmuOn l s)
    (hrun : steps (stepOnly keepsSystem l) n s = some s') : steps (step l) n s = some s' := by
  refine (Steps.lift (I := MmuOn l) (fun s s' h hnext => ?_) h hrun).1
  obtain ⟨i, insn, hpc, hcode, hok, hexec⟩ := stepOnly_cases hnext
  obtain ⟨hlt, -⟩ := List.getElem?_eq_some_iff.mp hcode
  obtain ⟨hsys, hmem⟩ := exec_system hok hexec
  exact ⟨(step_at hpc hcode (h.canExecute hlt)).trans hexec,
    hsys ▸ h.level, hsys ▸ h.wxn, hsys ▸ h.ee, hsys ▸ h.ttbr0, hmem ▸ h.tables⟩

/-! ## The other cores -/

/-- A core that is not the first, on its way to `halt` or there. -/
structure Parked (c : Core) : Prop where
  core : c.sys .mpidrEl1 &&& 3 ≠ 0
  off : MmuOff c
  place : c.pc = .boot 0 ∨ c.pc = .boot 1 ∧ c.x 0 = c.sys .mpidrEl1 ∨
    c.pc = .boot 2 ∧ c.x 0 = c.sys .mpidrEl1 &&& 3 ∨
    c.pc = .boot 3 ∧ c.compared = (c.sys .mpidrEl1 &&& 3, 0) ∨ c.pc = .boot 38 ∨ c.pc = .boot 39

/-- It goes on for ever, and writes nothing. -/
theorem Parked.step (h : Parked c) (mem : Nat → Nat) : ∃ c', step l (c, mem) = some (c', mem) ∧ Parked c' := by
  obtain ⟨hcore, hoff, hplace⟩ := h
  suffices hnext : ∃ c', stepOnly keepsSctlr l (c, mem) = some (c', mem) ∧ (MmuOff c' → Parked c') by
    obtain ⟨c', hnext, hparked⟩ := hnext
    obtain ⟨hstep, hoff'⟩ := hoff.step hnext
    exact ⟨c', hstep, hparked hoff'⟩
  obtain ⟨x, sp, pc, sys, daif, compared⟩ := c
  simp only at hcore hplace
  rcases hplace with rfl | ⟨rfl, hx⟩ | ⟨rfl, hx⟩ | ⟨rfl, rfl⟩ | rfl | rfl
  · exact ⟨_, rfl, fun hoff' => ⟨hcore, hoff', .inr (.inl ⟨rfl, rfl⟩)⟩⟩
  · refine ⟨_, rfl, fun hoff' => ⟨hcore, hoff', .inr (.inr (.inl ⟨rfl, ?_⟩))⟩⟩
    exact congrArg (· &&& 3) hx
  · refine ⟨_, rfl, fun hoff' => ⟨hcore, hoff', .inr (.inr (.inr (.inl ⟨rfl, ?_⟩)))⟩⟩
    exact congrArg (·, 0) hx
  · refine ⟨_, rfl, fun hoff' => ⟨hcore, hoff', .inr (.inr (.inr (.inr (.inl ?_))))⟩⟩
    exact congrArg Pc.boot (if_neg hcore)
  · exact ⟨_, rfl, fun hoff' => ⟨hcore, hoff', .inr (.inr (.inr (.inr (.inr rfl))))⟩⟩
  · exact ⟨_, rfl, fun hoff' => ⟨hcore, hoff', .inr (.inr (.inr (.inr (.inl rfl))))⟩⟩

/-! ## Clearing memory -/

/-- `mem` with zeros in the words of four bytes from `first` up to `last`. -/
def cleared (mem : Nat → Nat) (first last : Nat) : Nat → Nat := fun w =>
  (if first ≤ 2 * w + 1 ∧ 2 * w + 1 < last then 0 else mem w / 2 ^ 32) * 2 ^ 32 +
    if first ≤ 2 * w ∧ 2 * w < last then 0 else mem w % 2 ^ 32

theorem cleared_self (mem : Nat → Nat) (first : Nat) : cleared mem first first = mem := by
  funext w
  rw [cleared, if_neg (by omega), if_neg (by omega)]
  exact Nat.div_add_mod' ..

theorem cleared_div (mem : Nat → Nat) (first last w : Nat) : cleared mem first last w / 2 ^ 32 =
    if first ≤ 2 * w + 1 ∧ 2 * w + 1 < last then 0 else mem w / 2 ^ 32 := by
  have hlow : (if first ≤ 2 * w ∧ 2 * w < last then 0 else mem w % 2 ^ 32) < 2 ^ 32 := by
    split
    · exact Nat.two_pow_pos 32
    · exact Nat.mod_lt _ (Nat.two_pow_pos 32)
  rw [cleared, Nat.mul_comm, Nat.mul_add_div (Nat.two_pow_pos 32), Nat.div_eq_of_lt hlow, Nat.add_zero]

theorem cleared_mod (mem : Nat → Nat) (first last w : Nat) : cleared mem first last w % 2 ^ 32 =
    if first ≤ 2 * w ∧ 2 * w < last then 0 else mem w % 2 ^ 32 := by
  rw [cleared, Nat.mul_comm, Nat.mul_add_mod]
  split
  · rfl
  · exact Nat.mod_mod ..

theorem zeroWord_cleared (mem : Nat → Nat) {first k : Nat} (h : first ≤ k) :
    zeroWord (cleared mem first k) k = cleared mem first (k + 1) := by
  funext w
  rw [zeroWord, Function.update_apply]
  by_cases hw : w = k / 2
  · rw [if_pos hw, ← hw, cleared_div, cleared_mod, cleared]
    by_cases heven : k % 2 = 0
    · have hhigh : (first ≤ 2 * w + 1 ∧ 2 * w + 1 < k) ↔ first ≤ 2 * w + 1 ∧ 2 * w + 1 < k + 1 := by omega
      have hlow : first ≤ 2 * w ∧ 2 * w < k + 1 := by omega
      rw [if_pos heven, if_pos hlow, if_congr hhigh rfl rfl]
      exact (Nat.add_zero _).symm
    · have hhigh : first ≤ 2 * w + 1 ∧ 2 * w + 1 < k + 1 := by omega
      have hlow : (first ≤ 2 * w ∧ 2 * w < k) ↔ first ≤ 2 * w ∧ 2 * w < k + 1 := by omega
      rw [if_neg heven, if_pos hhigh, Nat.zero_mul, Nat.zero_add, if_congr hlow rfl rfl]
  · have hhigh : (first ≤ 2 * w + 1 ∧ 2 * w + 1 < k) ↔ first ≤ 2 * w + 1 ∧ 2 * w + 1 < k + 1 := by omega
    have hlow : (first ≤ 2 * w ∧ 2 * w < k) ↔ first ≤ 2 * w ∧ 2 * w < k + 1 := by omega
    rw [if_neg hw, cleared, cleared, if_congr hhigh rfl rfl, if_congr hlow rfl rfl]

theorem cleared_eq_zero {first last w : Nat} (hfirst : first ≤ 2 * w) (hlast : 2 * w + 1 < last) :
    cleared mem first last w = 0 := by
  rw [cleared, if_pos (by omega), if_pos (by omega), Nat.zero_mul]

theorem cleared_of_outside {first last w : Nat} (h : 2 * w + 1 < first ∨ last ≤ 2 * w) :
    cleared mem first last w = mem w := by
  rw [cleared, if_neg (by omega), if_neg (by omega)]
  exact Nat.div_add_mod' ..

theorem sle_of_lt {a b : BitVec 64} (ha : a.toNat < 2 ^ 63) (hb : b.toNat < 2 ^ 63) :
    a.sle b = decide (a.toNat ≤ b.toNat) := by
  rw [BitVec.sle, BitVec.toInt_eq_toNat_of_lt (by omega), BitVec.toInt_eq_toNat_of_lt (by omega)]
  exact decide_eq_decide.mpr (by omega)

/-- What a call of `zero_loop` keeps. -/
structure Kept (c c' : Core) : Prop where
  sys : c'.sys = c.sys
  daif : c'.daif = c.daif

/-- `zero_loop` clears whole words, from `x0` to the first that ends at `x1` or behind it. -/
theorem zeroLoop_steps (mem : Nat → Nat) {first k last r : Nat} (hr : r < code.length) (hk : first ≤ k)
    (hpc : c.pc = .boot 40) (hx0 : (c.x 0).toNat = 4 * k) (hx1 : (c.x 1).toNat = last)
    (hlast : last < 2 ^ 48) (hle : k ≤ (last + 3) / 4) (hx30 : c.x 30 = l.address r) :
    ∃ n c', steps (stepOnly keepsSctlr l) n (c, cleared mem first k) =
      some (c', cleared mem first ((last + 3) / 4)) ∧
      c'.pc = .boot r ∧ Kept c c' := by
  obtain ⟨left, hleft⟩ : ∃ left, k + left = (last + 3) / 4 := ⟨(last + 3) / 4 - k, by omega⟩
  have hsle : ∀ {c : Core} {k : Nat}, (c.x 0).toNat = 4 * k → k ≤ (last + 3) / 4 →
      (c.x 1).toNat = last → (c.x 1).sle (c.x 0) = decide (last ≤ 4 * k) := fun h0 hle h1 => by
    rw [sle_of_lt (by omega) (by omega), h0, h1]
  induction left generalizing k c with
  | zero =>
    obtain rfl : k = (last + 3) / 4 := by omega
    have hdone : (c.x 1).sle (c.x 0) = true := by
      rw [hsle hx0 hle hx1]
      exact decide_eq_true (by omega)
    obtain ⟨x, sp, pc, sys, daif, compared⟩ := c
    simp only at hpc hdone hx30
    subst hpc
    have hbge : steps (stepOnly keepsSctlr l) 2
        (⟨x, sp, .boot 40, sys, daif, compared⟩, cleared mem first ((last + 3) / 4)) =
        some (⟨x, sp, .boot (if (x 1).sle (x 0) then 44 else 42), sys, daif, (x 0, x 1)⟩,
          cleared mem first ((last + 3) / 4)) := rfl
    rw [hdone, if_pos rfl] at hbge
    refine ⟨2 + 1, _, Steps.append hbge rfl, ?_, rfl, rfl⟩
    change Pc.boot (l.locate (x 30)) = .boot r
    rw [hx30, l.locate_address r hr]
  | succ left ih =>
    have hgo : (c.x 1).sle (c.x 0) = false := by
      rw [hsle hx0 hle hx1]
      exact decide_eq_false (by omega)
    obtain ⟨x, sp, pc, sys, daif, compared⟩ := c
    simp only at hpc hgo hx0 hx1 hx30
    subst hpc
    have hbge : steps (stepOnly keepsSctlr l) 2 (⟨x, sp, .boot 40, sys, daif, compared⟩, cleared mem first k) =
        some (⟨x, sp, .boot (if (x 1).sle (x 0) then 44 else 42), sys, daif, (x 0, x 1)⟩,
          cleared mem first k) := rfl
    rw [hgo, if_neg Bool.false_ne_true] at hbge
    have hstore : stepOnly keepsSctlr l (⟨x, sp, .boot 42, sys, daif, (x 0, x 1)⟩, cleared mem first k) =
        some (⟨Function.update x 0 (x 0 + 4), sp, .boot 43, sys, daif, (x 0, x 1)⟩,
          cleared mem first (k + 1)) := by
      change (if (x 0).toNat % 4 = 0 then
        some (_, zeroWord (cleared mem first k) ((x 0).toNat / 4)) else none) = _
      rw [if_pos (by omega), hx0, Nat.mul_div_cancel_left k (by decide), zeroWord_cleared mem hk]
      rfl
    have hround : steps (stepOnly keepsSctlr l) 4 (⟨x, sp, .boot 40, sys, daif, compared⟩, cleared mem first k) =
        some (⟨Function.update x 0 (x 0 + 4), sp, .boot 40, sys, daif, (x 0, x 1)⟩,
          cleared mem first (k + 1)) := Steps.append (n := 2) hbge (Steps.succ hstore rfl)
    have hnext : (Function.update x 0 (x 0 + 4) 0).toNat = 4 * (k + 1) := by
      rw [Function.update_self, BitVec.toNat_add, hx0]
      change (4 * k + 4) % 2 ^ 64 = _
      omega
    obtain ⟨n, c', hrest, hpc', hkept⟩ :=
      ih (c := ⟨Function.update x 0 (x 0 + 4), sp, .boot 40, sys, daif, (x 0, x 1)⟩)
      (k := k + 1) (by omega) rfl hnext hx1 (by omega) hx30 (by omega)
    exact ⟨4 + n, c', Steps.append hround hrest, hpc', hkept.sys, hkept.daif⟩

/-! ## The first core -/

variable (l mem)

theorem checkCore_steps (hpc : c.pc = .boot 0) (hcore : c.sys .mpidrEl1 &&& 3 = 0) :
    ∃ c', steps (stepOnly keepsSctlr l) 4 (c, mem) = some (c', mem) ∧ c'.pc = .boot 4 ∧ Kept c c' := by
  obtain ⟨x, sp, pc, sys, daif, compared⟩ := c
  simp only at hpc hcore
  subst hpc
  refine ⟨_, rfl, ?_, rfl, rfl⟩
  exact congrArg Pc.boot (if_pos hcore)

theorem symbol_and {a : Nat} (h : a < 2 ^ 48) :
    (Layout.symbol a &&& 0x0000FFFFFFFFFFFF).toNat = a := by
  rw [BitVec.toNat_and, Layout.symbol, BitVec.toNat_ofNat]
  have hmask : (0x0000FFFFFFFFFFFF : BitVec 64).toNat = 2 ^ 48 - 1 := rfl
  rw [hmask, Nat.and_two_pow_sub_one_eq_mod, setKernelSpace_of_lt h, kernelSpaceMask]
  omega

/-- A call of `zero_loop` between two symbols. -/
theorem zeroLoop_call {a e r : Nat} {c₁ : Core}
    (hcall : steps (stepOnly keepsSctlr l) 5 (c, mem) = some (c₁, mem))
    (hpc : c₁.pc = .boot 40) (hx0 : c₁.x 0 = Layout.symbol a &&& 0x0000FFFFFFFFFFFF)
    (hx1 : c₁.x 1 = Layout.symbol e &&& 0x0000FFFFFFFFFFFF) (hx30 : c₁.x 30 = l.address r)
    (hkept : Kept c c₁) (hr : r < code.length) (haligned : a % 4 = 0) (hle : a ≤ e) (hlt : e < 2 ^ 48) :
    ∃ n c', steps (stepOnly keepsSctlr l) n (c, mem) = some (c', cleared mem (a / 4) ((e + 3) / 4)) ∧
      c'.pc = .boot r ∧ Kept c c' := by
  have ha : (c₁.x 0).toNat = 4 * (a / 4) := by
    rw [hx0, symbol_and (by omega)]
    omega
  have he : (c₁.x 1).toNat = e := by
    rw [hx1, symbol_and hlt]
  obtain ⟨n, c', hloop, hpc', hkept'⟩ :=
    zeroLoop_steps mem hr (Nat.le_refl (a / 4)) hpc ha he hlt (by omega) hx30
  rw [cleared_self] at hloop
  exact ⟨5 + n, c', Steps.append hcall hloop, hpc', hkept'.sys.trans hkept.sys, hkept'.daif.trans hkept.daif⟩

theorem Layout.bssEnd_lt (l : Layout) : l.bssEnd < 2 ^ 48 ∧ l.mmuSpaceStart % 4096 = 0 ∧
    l.mmuSpaceEnd < 2 ^ 48 := by
  have hmb : mbInB = 2 ^ 20 := by decide
  have hlt := l.image_lt
  have hspace := l.mmuSpace
  have hstack := l.stack
  rw [hmb] at hlt
  rw [mmuSpaceEnd]
  omega

theorem zeroBss_steps (hpc : c.pc = .boot 4) : ∃ n c', steps (stepOnly keepsSctlr l) n (c, mem) =
    some (c', cleared mem (l.bssStart / 4) ((l.bssEnd + 3) / 4)) ∧ c'.pc = .boot 9 ∧ Kept c c' := by
  obtain ⟨x, sp, pc, sys, daif, compared⟩ := c
  obtain rfl : pc = .boot 4 := hpc
  exact zeroLoop_call l mem rfl rfl rfl rfl rfl ⟨rfl, rfl⟩ (by decide) l.bss_aligned l.bss_le l.bssEnd_lt.1

theorem zeroMmuSpace_steps (hpc : c.pc = .boot 9) : ∃ n c', steps (stepOnly keepsSctlr l) n (c, mem) =
    some (c', cleared mem (l.mmuSpaceStart / 4) ((l.mmuSpaceEnd + 3) / 4)) ∧ c'.pc = .boot 14 ∧
      Kept c c' := by
  obtain ⟨x, sp, pc, sys, daif, compared⟩ := c
  obtain rfl : pc = .boot 9 := hpc
  obtain ⟨-, hpage, hlt⟩ := l.bssEnd_lt
  exact zeroLoop_call l mem rfl rfl rfl rfl rfl ⟨rfl, rfl⟩ (by decide) (by omega) (Nat.le_add_right ..) hlt

/-- In EL2 the core goes on to EL1, with F and I unmasked. -/
theorem transitionToEl1_steps (hpc : c.pc = .boot 14) (hel : c.sys .currentEl &&& 0xc = 0x8) :
    ∃ n c', steps (stepOnly keepsSctlr l) n (c, mem) = some (c', mem) ∧ c'.pc = .boot 33 ∧
      c'.sys .currentEl = 0x4 ∧
      c'.sys .sctlrEl1 = c.sys .sctlrEl1 ∧ c'.daif = 0b1100 := by
  obtain ⟨x, sp, pc, sys, daif, compared⟩ := c
  simp only at hpc hel
  subst hpc
  obtain ⟨c₁, hcheck, hpc₁, hsys₁⟩ : ∃ c₁, steps (stepOnly keepsSctlr l) 4
      (⟨x, sp, .boot 14, sys, daif, compared⟩, mem) = some (c₁, mem) ∧ c₁.pc = .boot 18 ∧ c₁.sys = sys :=
    ⟨_, rfl, congrArg Pc.boot (if_pos hel), rfl⟩
  obtain ⟨x₁, sp₁, pc₁, sys₁, daif₁, compared₁⟩ := c₁
  simp only at hpc₁ hsys₁
  subst hpc₁ hsys₁
  obtain ⟨c₂, hset, hpc₂, hcode, hcurrent, hhcr, hspsr, helr, hsctlr⟩ : ∃ c₂, steps (stepOnly keepsSctlr l) 13
      (⟨x₁, sp₁, .boot 18, sys₁, daif₁, compared₁⟩, mem) = some (c₂, mem) ∧ c₂.pc = .boot 31 ∧
      code[31]? = some .eret ∧ c₂.sys .currentEl = sys₁ .currentEl ∧ c₂.sys .hcrEl2 = 0 ||| 0x80000000 ∧
      c₂.sys .spsrEl2 = (0 ||| 0x5) &&& 0xffffffffffffff3f ||| 0x300 ∧ c₂.sys .elrEl2 = l.address 33 ∧
      c₂.sys .sctlrEl1 = sys₁ .sctlrEl1 :=
    ⟨_, rfl, rfl, rfl, rfl, rfl, rfl, rfl, rfl⟩
  have hvalue : (0 ||| 0x5 : BitVec 64) &&& 0xffffffffffffff3f ||| 0x300 = 0x305#64 := by decide
  have heret : stepOnly keepsSctlr l (c₂, mem) =
      some (({ c₂ with daif := 0b1100 }.setSys .currentEl 0x4).goto 33, mem) := by
    have hreturn : c₂.eret l = some (({ c₂ with daif := 0b1100 }.setSys .currentEl 0x4).goto 33) := by
      rw [Core.eret, hcurrent, hhcr, hspsr, hvalue, helr, l.locate_address 33 (by decide)]
      exact if_pos ⟨hel, by decide, by decide, by decide⟩
    rw [stepOnly_at hpc₂ hcode rfl, exec, hreturn, Option.map_some]
  refine ⟨4 + (13 + 1), _, Steps.append hcheck (Steps.append hset (Steps.succ heret rfl)), ?_, ?_, ?_, ?_⟩
  · rfl
  · rfl
  · exact hsctlr
  · rfl

/-! ## The tables -/

theorem str_step {i : Nat} {s a : Reg} (hpc : c.pc = .boot i) (hcode : code[i]? = some (.str s a)) {w v : Nat}
    (ha : (c.x a).toNat = 8 * w) (hs : (c.x s).toNat = v) :
    stepOnly keepsSctlr l (c, mem) = some (c.goto (i + 1), Function.update mem w v) := by
  rw [stepOnly_at hpc hcode rfl, exec, if_pos (by omega), ha, hs, Nat.mul_div_cancel_left w (by decide)]

/-- The core at the head of `create_entries_loop`. -/
structure AtEntries (ce : CreateEntries) (c : Core) : Prop where
  pc : c.pc = .boot 64
  block : (c.x 0).toNat = ce.blockAddress
  last : c.x 1 = 0x40000000
  size : c.x 2 = 0x200000
  write : (c.x 3).toNat = 8 * ce.writeAddress
  attr : c.x 5 = BitVec.ofNat 64 mmuTableAttr

/-- What the loop leaves alone. -/
structure KeptBelow (c c' : Core) : Prop where
  table : c'.x 26 = c.x 26
  back : c'.x 30 = c.x 30
  sys : c'.sys = c.sys
  daif : c'.daif = c.daif

/-- A round of the loop is one of `CreateEntries`; the branch comes after it. -/
theorem createEntries_round {ce : CreateEntries} (h : AtEntries ce c) (hblock : ce.blockAddress < 2 ^ 30)
    (hwrite : 8 * ce.writeAddress < 2 ^ 48) :
    ∃ c', steps (stepOnly keepsSctlr l) 6 (c, ce.mem) = some (c', ce.round.mem) ∧
      KeptBelow c c' ∧ c'.pc = .boot (if ce.round.active then 64 else 70) ∧
      (ce.round.active = true → AtEntries ce.round c') := by
  obtain ⟨hpc, h0, h1, h2, h3, h5⟩ := h
  obtain ⟨x, sp, pc, sys, daif, compared⟩ := c
  simp only at hpc h0 h1 h2 h3 h5
  subst hpc
  obtain ⟨c₁, hor, hpc₁, hcode, hx₁⟩ : ∃ c₁,
      steps (stepOnly keepsSctlr l) 2 (⟨x, sp, .boot 64, sys, daif, compared⟩, ce.mem) =
      some (c₁, ce.mem) ∧ c₁.pc = .boot 66 ∧ code[66]? = some (.strPost 4 3) ∧
      c₁ = ⟨Function.update (Function.update x 4 (x 0)) 4 (x 0 ||| x 5), sp, .boot 66, sys, daif, compared⟩ :=
    ⟨_, rfl, rfl, rfl, rfl⟩
  have hvalue : (c₁.x 4).toNat = ce.blockAddress ||| mmuTableAttr := by
    have hx : c₁.x 4 = x 0 ||| x 5 := by rw [hx₁]; rfl
    rw [hx, BitVec.toNat_or, h0, h5]
    rfl
  have haddress : (c₁.x 3).toNat = 8 * ce.writeAddress := by
    have hx : c₁.x 3 = x 3 := by rw [hx₁]; rfl
    rw [hx, h3]
  have hstore : stepOnly keepsSctlr l (c₁, ce.mem) = some ((c₁.setX 3 (c₁.x 3 + 8)).goto 67, ce.round.mem) := by
    rw [stepOnly_at hpc₁ hcode rfl, exec, if_pos (by omega), haddress, hvalue,
      Nat.mul_div_cancel_left _ (by decide)]
    rfl
  subst hx₁
  have hrun : steps (stepOnly keepsSctlr l) 6 (⟨x, sp, .boot 64, sys, daif, compared⟩, ce.mem) =
      some (⟨_, sp, .boot (if (x 0 + x 2).ult (x 1) then 64 else 70), sys, daif, (x 0 + x 2, x 1)⟩,
        ce.round.mem) := Steps.append (n := 4) hor (Steps.succ hstore rfl)
  have hnext : (x 0 + x 2).toNat = ce.round.blockAddress := by
    rw [BitVec.toNat_add, h0, h2]
    change (ce.blockAddress + 0x200000) % 2 ^ 64 = ce.blockAddress + 0x200000
    omega
  have hactive : (x 0 + x 2).ult (x 1) = ce.round.active := by
    rw [BitVec.ult, hnext, h1]
    rfl
  rw [hactive] at hrun
  refine ⟨_, hrun, ⟨rfl, rfl, rfl, rfl⟩, rfl, fun hgo => ⟨?_, hnext, h1, h2, ?_, h5⟩⟩
  · rw [hgo]
    rfl
  · change (x 3 + 8).toNat = 8 * (ce.writeAddress + 1)
    rw [BitVec.toNat_add, h3]
    change (8 * ce.writeAddress + 8) % 2 ^ 64 = _
    omega

theorem createEntries_steps {ce : CreateEntries} {left : Nat} (h : AtEntries ce c)
    (hleft : ce.blockAddress + (left + 1) * 0x200000 = 0x40000000)
    (hwrite : 8 * (ce.writeAddress + left) < 2 ^ 48) : ∃ n c', steps (stepOnly keepsSctlr l) n (c, ce.mem) =
      some (c', (loopWhile CreateEntries.active CreateEntries.round (left + 1) ce).mem) ∧
        c'.pc = .boot 70 ∧ KeptBelow c c' := by
  induction left generalizing ce c with
  | zero =>
    obtain ⟨c', hsteps, hkept, hpc, -⟩ := createEntries_round l h (by omega) (by omega)
    have hround : ce.round.blockAddress = ce.blockAddress + 0x200000 := rfl
    have hactive : ce.active = true := decide_eq_true (by omega)
    have hend : ce.round.active = false := decide_eq_false (by omega)
    rw [hend, if_neg Bool.false_ne_true] at hpc
    rw [Loop.loopWhile_succ_of_true _ hactive]
    exact ⟨6, c', hsteps, hpc, hkept⟩
  | succ left ih =>
    obtain ⟨c₁, hsteps, hkept, -, hagain⟩ := createEntries_round l h (by omega) (by omega)
    have hround : ce.round.blockAddress = ce.blockAddress + 0x200000 := rfl
    have hwrite' : ce.round.writeAddress = ce.writeAddress + 1 := rfl
    have hactive : ce.active = true := decide_eq_true (by omega)
    have hgo : ce.round.active = true := decide_eq_true (by omega)
    obtain ⟨n, c', hrest, hpc', hkept'⟩ := ih (hagain hgo) (by omega) (by omega)
    rw [Loop.loopWhile_succ_of_true _ hactive]
    exact ⟨6 + n, c', Steps.append hsteps hrest, hpc', hkept'.table.trans hkept.table,
      hkept'.back.trans hkept.back, hkept'.sys.trans hkept.sys, hkept'.daif.trans hkept.daif⟩

/-- The memory when the entries of the first two tables have been stored. -/
def linkedTables (root : Nat) (mem : Nat → Nat) : Nat → Nat :=
  Function.update (Function.update mem (root / 8) (root + 4096 ||| 3)) ((root + 4096) / 8)
    (root + 4096 + 4096 ||| 3)

/-- From `prepare` to the loop: the pages of the tables, and the entries that link them. -/
theorem prepare_steps (hpc : c.pc = .boot 33) : ∃ c', steps (stepOnly keepsSctlr l) 20 (c, mem) =
      some (c', linkedTables l.mmuSpaceStart mem) ∧
      AtEntries ⟨0, (l.mmuSpaceStart + 4096 + 4096) / 8, linkedTables l.mmuSpaceStart mem⟩ c' ∧
      c'.x 26 = BitVec.ofNat 64 l.mmuSpaceStart ∧ c'.x 30 = l.address 34 ∧ c'.sys = c.sys ∧
      c'.daif = c.daif := by
  obtain ⟨root, hroot⟩ : ∃ root, root = l.mmuSpaceStart := ⟨_, rfl⟩
  obtain ⟨-, hpage, hlt⟩ := l.bssEnd_lt
  rw [Layout.mmuSpaceEnd] at hlt
  rw [← hroot] at hpage hlt ⊢
  have htable : (Layout.symbol root &&& 0x0000FFFFFFFFFFFF).toNat = root := symbol_and (by omega)
  obtain ⟨table, htable'⟩ : ∃ table, table = Layout.symbol root &&& 0x0000FFFFFFFFFFFF := ⟨_, rfl⟩
  rw [← htable'] at htable
  have hof : table = BitVec.ofNat 64 root := by rw [← htable, BitVec.ofNat_toNat, BitVec.setWidth_eq]
  have hlevel1 : (table + 0x1000).toNat = root + 4096 := by
    rw [BitVec.toNat_add, htable]
    change (root + 4096) % 2 ^ 64 = _
    omega
  have hlevel2 : (table + 0x1000 + 0x1000).toNat = root + 4096 + 4096 := by
    rw [BitVec.toNat_add, hlevel1]
    change (root + 4096 + 4096) % 2 ^ 64 = _
    omega
  have hentry : ∀ v : BitVec 64, (v ||| 3).toNat = v.toNat ||| 3 := fun v => BitVec.toNat_or ..
  obtain ⟨c₁, hprepare, hsys₁, hpc₁, h0₁, h1₁, h26₁, h27₁, h28₁, h30₁⟩ : ∃ c₁,
      steps (stepOnly keepsSctlr l) 10 (c, mem) =
        some (c₁, mem) ∧ (c₁.sys = c.sys ∧ c₁.daif = c.daif) ∧ c₁.pc = .boot 54 ∧ c₁.x 0 = table ∧
      c₁.x 1 = (table + 0x1000) ||| 3 ∧ c₁.x 26 = table ∧ c₁.x 27 = table + 0x1000 ∧
      c₁.x 28 = table + 0x1000 + 0x1000 ∧ c₁.x 30 = l.address 34 := by
    obtain ⟨x, sp, pc, sys, daif, compared⟩ := c
    obtain rfl : pc = .boot 33 := hpc
    rw [htable', hroot]
    exact ⟨_, rfl, ⟨rfl, rfl⟩, rfl, rfl, rfl, rfl, rfl, rfl, rfl⟩
  have hstr₁ := str_step l mem (s := 1) (a := 0) (w := root / 8) (v := root + 4096 ||| 3) hpc₁ rfl
    (by rw [h0₁, htable]; omega) (by rw [h1₁, hentry, hlevel1])
  obtain ⟨mem₁, hmem₁⟩ : ∃ mem₁, mem₁ = Function.update mem (root / 8) (root + 4096 ||| 3) := ⟨_, rfl⟩
  rw [← hmem₁] at hstr₁
  obtain ⟨c₂, hmove, hsys₂, hpc₂, h0₂, h1₂, h26₂, h28₂, h30₂⟩ : ∃ c₂,
      steps (stepOnly keepsSctlr l) 3 (c₁.goto 55, mem₁) =
        some (c₂, mem₁) ∧ (c₂.sys = c₁.sys ∧ c₂.daif = c₁.daif) ∧ c₂.pc = .boot 58 ∧ c₂.x 0 = c₁.x 27 ∧
      c₂.x 1 = c₁.x 28 ||| 3 ∧ c₂.x 26 = c₁.x 26 ∧ c₂.x 28 = c₁.x 28 ∧ c₂.x 30 = c₁.x 30 :=
    ⟨_, rfl, ⟨rfl, rfl⟩, rfl, rfl, rfl, rfl, rfl, rfl⟩
  have hstr₂ := str_step l mem₁ (s := 1) (a := 0) (w := (root + 4096) / 8)
    (v := root + 4096 + 4096 ||| 3) hpc₂ rfl (by rw [h0₂, h27₁, hlevel1]; omega)
    (by rw [h1₂, h28₁, hentry, hlevel2])
  rw [hmem₁] at hstr₂
  obtain ⟨c₃, hset, hsys₃, hpc₃, h0₃, h1₃, h2₃, h3₃, h5₃, h26₃, h30₃⟩ : ∃ c₃, steps (stepOnly keepsSctlr l) 5
      (c₂.goto 59, linkedTables root mem) = some (c₃, linkedTables root mem) ∧
      (c₃.sys = c₂.sys ∧ c₃.daif = c₂.daif) ∧ c₃.pc = .boot 64 ∧
      c₃.x 0 = 0 ∧ c₃.x 1 = 0x40000000 ∧ c₃.x 2 = 0x200000 ∧ c₃.x 3 = c₂.x 28 ∧
      c₃.x 5 = BitVec.ofNat 64 mmuTableAttr ∧ c₃.x 26 = c₂.x 26 ∧ c₃.x 30 = c₂.x 30 :=
    ⟨_, rfl, ⟨rfl, rfl⟩, rfl, rfl, rfl, rfl, rfl, rfl, rfl, rfl⟩
  refine ⟨c₃, ?_, ⟨hpc₃, by rw [h0₃]; rfl, h1₃, h2₃, ?_, h5₃⟩, ?_, ?_, ?_, ?_⟩
  · rw [hmem₁] at hstr₁ hmove
    exact Steps.append hprepare (Steps.append (Steps.succ hstr₁ hmove) (Steps.succ hstr₂ hset))
  · rw [h3₃, h28₂, h28₁, hlevel2]
    simp only
    omega
  · rw [h26₃, h26₂, h26₁, hof]
  · rw [h30₃, h30₂, h30₁]
  · rw [hsys₃.1, hsys₂.1, hsys₁.1]
  · rw [hsys₃.2, hsys₂.2, hsys₁.2]

/-- A core that is about to turn on the MMU. -/
structure AboutToTurnOn (l : Layout) (c c' : Core) : Prop where
  pc : c'.pc = .boot 78
  value : c'.x 0 = c.sys .sctlrEl1 ||| 1
  back : c'.x 30 = l.address 34
  level : c'.sys .currentEl = c.sys .currentEl
  daif : c'.daif = c.daif
  ttbr0 : c'.sys .ttbr0El1 = BitVec.ofNat 64 l.mmuSpaceStart
  ttbr1 : c'.sys .ttbr1El1 = BitVec.ofNat 64 l.mmuSpaceStart
  mair : c'.sys .mairEl1 = mairValue
  tcr : c'.sys .tcrEl1 = tcrValue

/-- `setup_registers`, up to the MMU's own. -/
theorem setupRegisters_steps (hpc : c.pc = .boot 70) (htable : c.x 26 = BitVec.ofNat 64 l.mmuSpaceStart)
    (hback : c.x 30 = l.address 34) : ∃ c', steps (stepOnly keepsSctlr l) 8 (c, mem) = some (c', mem) ∧
      AboutToTurnOn l c c' := by
  obtain ⟨x, sp, pc, sys, daif, compared⟩ := c
  obtain rfl : pc = .boot 70 := hpc
  exact ⟨_, rfl, ⟨rfl, rfl, hback, rfl, rfl, htable, htable, rfl, rfl⟩⟩

/-- `enable_mmu`, up to there: the tables are those of `setup_tables`. -/
theorem enableMmu_steps (hpc : c.pc = .boot 33) : ∃ n c', steps (stepOnly keepsSctlr l) n (c, mem) =
      some (c', setupTables mem (setKernelSpace l.mmuSpaceStart)) ∧ AboutToTurnOn l c c' := by
  obtain ⟨c₁, hprepare, hat, htable₁, hback₁, hsys₁, hdaif₁⟩ := prepare_steps l mem hpc
  obtain ⟨-, -, hlt⟩ := l.bssEnd_lt
  rw [Layout.mmuSpaceEnd] at hlt
  obtain ⟨root, hroot⟩ : ∃ root, root = l.mmuSpaceStart := ⟨_, rfl⟩
  rw [← hroot] at hlt hat hprepare
  have hblocks : (⟨0, (root + 4096 + 4096) / 8, linkedTables root mem⟩ : CreateEntries).blockAddress +
      (511 + 1) * 0x200000 = 0x40000000 := by
    change 0 + (511 + 1) * 0x200000 = 0x40000000
    decide
  have hwrites : 8 * ((root + 4096 + 4096) / 8 + 511) < 2 ^ 48 := by
    have hdiv := Nat.mul_div_le (root + 4096 + 4096) 8
    rw [Nat.mul_add]
    exact Nat.lt_of_le_of_lt (Nat.add_le_add_right hdiv _) (by omega)
  obtain ⟨n, c₂, hloop, hpc₂, hkept₂⟩ := createEntries_steps l hat hblocks hwrites
  obtain ⟨mem', hmem'⟩ : ∃ mem', mem' = (loopWhile CreateEntries.active CreateEntries.round (511 + 1)
      ⟨0, (root + 4096 + 4096) / 8, linkedTables root mem⟩).mem := ⟨_, rfl⟩
  have htables : setupTables mem (setKernelSpace l.mmuSpaceStart) = mem' := by
    rw [← hroot, setupTables, clearKernelSpace_setKernelSpace (by omega), hmem', linkedTables]
  rw [← hmem'] at hloop
  obtain ⟨c₃, hregisters, hon⟩ := setupRegisters_steps l mem' hpc₂ (hkept₂.table.trans htable₁)
    (hkept₂.back.trans hback₁)
  have hsys₂ : c₂.sys = c.sys := hkept₂.sys.trans hsys₁
  rw [htables]
  exact ⟨_, c₃, Steps.append hprepare (Steps.append hloop hregisters),
    { hon with
      value := by rw [hon.value, hsys₂]
      level := by rw [hon.level, hsys₂]
      daif := hon.daif.trans (hkept₂.daif.trans hdaif₁) }⟩

/-! ## The memory -/

/-- The memory with the sections cleared. -/
def Layout.cleared (l : Layout) (mem : Nat → Nat) : Nat → Nat :=
  Boot.cleared (Boot.cleared mem (l.bssStart / 4) ((l.bssEnd + 3) / 4)) (l.mmuSpaceStart / 4)
    ((l.mmuSpaceEnd + 3) / 4)

theorem setupTables_of_outside {root w : Nat} (hroot : root % 4096 = 0) (hlt : root < 2 ^ 48)
    (hw : w < root / 8 ∨ root / 8 + 1536 ≤ w) : setupTables mem (setKernelSpace root) w = mem w := by
  rw [setupTables, clearKernelSpace_setKernelSpace hlt, createEntries_mem, if_neg (by omega),
    Function.update_of_ne (by omega), Function.update_of_ne (by omega)]

/-- What the boot code leaves in the memory that held `mem`: a cleared bss, the boot tables,
and the rest of the image as it was. -/
structure MemoryReady (l : Layout) (mem mem' : Nat → Nat) : Prop where
  bss : ∀ w, l.bssStart ≤ 8 * w → 8 * w + 8 ≤ l.bssEnd → mem' w = 0
  kept : ∀ w, 8 * w + 8 ≤ l.bssStart ∨ l.bssEnd + 3 ≤ 8 * w ∧ 8 * w + 8 ≤ l.mmuSpaceStart ∨
    l.mmuSpaceEnd ≤ 8 * w → mem' w = mem w
  tables : HoldsTree mem' l.mmuSpaceStart (bootTree l.mmuSpaceStart)

theorem memoryReady : MemoryReady l mem (setupTables (l.cleared mem) (setKernelSpace l.mmuSpaceStart)) := by
  obtain ⟨-, hpage, hlt⟩ := l.bssEnd_lt
  have hspace : l.mmuSpaceEnd = l.mmuSpaceStart + 4096 * 3 := rfl
  have hle := l.bss_le
  have hstack := l.stack
  have hmmu := l.mmuSpace
  have himage := l.image_lt
  rw [show mbInB = 2 ^ 20 by decide] at himage
  refine ⟨fun w hfirst hlast => ?_, fun w hw => ?_, ?_⟩
  · rw [setupTables_of_outside _ hpage (by omega) (by omega), Layout.cleared, cleared_of_outside (by omega),
      cleared_eq_zero (by omega) (by omega)]
  · rw [setupTables_of_outside _ hpage (by omega) (by omega), Layout.cleared, cleared_of_outside (by omega),
      cleared_of_outside (by omega)]
  · refine setupTables_holdsTree (clearKernelSpace_setKernelSpace (by omega)) hpage (by omega)
      fun w hlo hhi => ?_
    exact cleared_eq_zero (by omega) (by omega)

theorem MemoryReady.kernelHalf (memory : Nat → BitVec 64) :
    KernelHalf (memoryInit memory (setupTables (l.cleared mem) (setKernelSpace l.mmuSpaceStart))
      (setKernelSpace l.mmuSpaceStart) (setKernelSpace l.mmuSpaceEnd) (4 * gbInB)).mem l.mmuSpaceStart := by
  obtain ⟨-, hpage, -⟩ := l.bssEnd_lt
  have hspace : l.mmuSpaceEnd = l.mmuSpaceStart + 4096 * 3 := rfl
  have himage := l.image_lt
  have hclear : ∀ w, l.mmuSpaceStart / 8 ≤ w → w < l.mmuSpaceStart / 8 + 3 * 512 → l.cleared mem w = 0 :=
    fun w hlo hhi => cleared_eq_zero (by omega) (by omega)
  exact memoryInit_kernelHalf memory hpage (by omega) hclear (by omega) (by omega) (by decide) (by decide)
    (by decide)

/-! ## Runs -/

/-- What the first core has set up when it enters the kernel, from the core `c₀` of the reset. -/
structure Entered (l : Layout) (c₀ c : Core) : Prop where
  pc : c.pc = .kernel (Layout.symbol l.kernelMain)
  sp : c.sp = Layout.symbol l.stackTop
  level : c.sys .currentEl = 0x4
  daif : c.daif = 0b1100
  ttbr0 : c.sys .ttbr0El1 = BitVec.ofNat 64 l.mmuSpaceStart
  ttbr1 : c.sys .ttbr1El1 = BitVec.ofNat 64 l.mmuSpaceStart
  mair : c.sys .mairEl1 = mairValue
  tcr : c.sys .tcrEl1 = tcrValue
  sctlr : c.sys .sctlrEl1 = c₀.sys .sctlrEl1 ||| 1

/-- The first core clears the memory, and comes to the check of its level. -/
theorem start_steps (hpc : c.pc = .boot 0) (hcore : c.sys .mpidrEl1 &&& 3 = 0) :
    ∃ n c', steps (stepOnly keepsSctlr l) n (c, mem) = some (c', l.cleared mem) ∧ c'.pc = .boot 14 ∧
      c'.sys = c.sys := by
  obtain ⟨c₁, hcheck, hpc₁, hkept₁⟩ := checkCore_steps l mem hpc hcore
  obtain ⟨n₂, c₂, hbss, hpc₂, hkept₂⟩ := zeroBss_steps l mem hpc₁
  obtain ⟨n₃, c₃, hspace, hpc₃, hkept₃⟩ := zeroMmuSpace_steps l
    (Boot.cleared mem (l.bssStart / 4) ((l.bssEnd + 3) / 4)) hpc₂
  refine ⟨_, c₃, Steps.append hcheck (Steps.append hbss hspace), hpc₃, ?_⟩
  rw [hkept₃.sys, hkept₂.sys, hkept₁.sys]

theorem setStack_steps (hpc : c.pc = .boot 34) : ∃ c', steps (stepOnly keepsSystem l) 4 (c, mem) =
    some (c', mem) ∧ c'.pc = .kernel (Layout.symbol l.kernelMain) ∧ c'.sp = Layout.symbol l.stackTop ∧
      c'.sys = c.sys ∧ c'.daif = c.daif := by
  obtain ⟨x, sp, pc, sys, daif, compared⟩ := c
  obtain rfl : pc = .boot 34 := hpc
  exact ⟨_, rfl, rfl, rfl, rfl, rfl⟩

/-- From the instruction that turns on the MMU to the kernel. -/
theorem turnOn_steps {c₀ : Core} (h : AboutToTurnOn l c₀ c) (hoff₀ : MmuOff c₀) (hoff : MmuOff c)
    (hlevel : c₀.sys .currentEl = 0x4) (hdaif : c₀.daif = 0b1100)
    (htables : HoldsTree mem l.mmuSpaceStart (bootTree l.mmuSpaceStart)) :
    ∃ n c', steps (step l) n (c, mem) = some (c', mem) ∧ Entered l c₀ c' := by
  obtain ⟨c₁, hc₁⟩ : ∃ c₁, c₁ = (c.setSys .sctlrEl1 (c.x 0)).goto 79 := ⟨_, rfl⟩
  have hmsr : step l (c, mem) = some (c₁, mem) := by
    rw [hc₁, step_at h.pc rfl (hoff.canExecute mem 78)]
    rfl
  have hsctlr : c₁.sys .sctlrEl1 = c₀.sys .sctlrEl1 ||| 1 := by
    rw [← h.value, hc₁]
    rfl
  have hsys : ∀ r ≠ .sctlrEl1, c₁.sys r = c.sys r := fun r hr => by
    rw [hc₁]
    exact Function.update_of_ne hr ..
  have hon : MmuOn l (c₁, mem) :=
    { level := (hsys _ (by decide)).trans (h.level.trans hlevel)
      wxn := by rw [hsctlr, BitVec.getLsbD_or, hoff₀.el1.2.1]; rfl
      ee := by rw [hsctlr, BitVec.getLsbD_or, hoff₀.el1.2.2]; rfl
      ttbr0 := (hsys _ (by decide)).trans h.ttbr0
      tables := htables }
  obtain ⟨c₂, hret, hpc₂, hsys₂, hdaif₂⟩ : ∃ c₂, steps (stepOnly keepsSystem l) 3 (c₁, mem) = some (c₂, mem) ∧
      c₂.pc = .boot (l.locate (c.x 30)) ∧ c₂.sys = c₁.sys ∧ c₂.daif = c.daif := by
    subst hc₁
    exact ⟨_, rfl, rfl, rfl, rfl⟩
  rw [h.back, l.locate_address 34 (by decide)] at hpc₂
  obtain ⟨c₃, hstack, hpc₃, hsp₃, hsys₃, hdaif₃⟩ := setStack_steps l mem hpc₂
  have hkept : ∀ r ≠ .sctlrEl1, c₃.sys r = c.sys r := fun r hr => by rw [hsys₃, hsys₂, hsys r hr]
  exact ⟨_, c₃, Steps.succ hmsr (hon.run (Steps.append hret hstack)),
    { pc := hpc₃
      sp := hsp₃
      level := (hkept _ (by decide)).trans (h.level.trans hlevel)
      daif := by rw [hdaif₃, hdaif₂, h.daif, hdaif]
      ttbr0 := (hkept _ (by decide)).trans h.ttbr0
      ttbr1 := (hkept _ (by decide)).trans h.ttbr1
      mair := (hkept _ (by decide)).trans h.mair
      tcr := (hkept _ (by decide)).trans h.tcr
      sctlr := by rw [hsys₃, hsys₂, hsctlr] }⟩

/-- In EL2 it enters the kernel. -/
theorem enter_steps (hpc : c.pc = .boot 0) (hcore : c.sys .mpidrEl1 &&& 3 = 0) (hoff : MmuOff c)
    (hel : c.sys .currentEl &&& 0xc = 0x8) : ∃ n c', steps (step l) n (c, mem) =
      some (c', setupTables (l.cleared mem) (setKernelSpace l.mmuSpaceStart)) ∧ Entered l c c' := by
  obtain ⟨n₁, c₁, hstart, hpc₁, hsys₁⟩ := start_steps l mem hpc hcore
  rw [← hsys₁] at hel
  obtain ⟨n₂, c₂, hdown, hpc₂, hlevel, hsctlr, hdaif⟩ :=
    transitionToEl1_steps l (l.cleared mem) hpc₁ hel
  obtain ⟨hrun₂, hoff₂⟩ := hoff.run (Steps.append hstart hdown)
  obtain ⟨n₃, c₃, henable, habout⟩ := enableMmu_steps l (l.cleared mem) hpc₂
  obtain ⟨hrun₃, hoff₃⟩ := hoff₂.run henable
  obtain ⟨n₄, c₄, hlast, hentered⟩ :=
    turnOn_steps l _ habout hoff₂ hoff₃ hlevel hdaif (memoryReady l mem).tables
  exact ⟨_, c₄, Steps.append hrun₂ (Steps.append hrun₃ hlast),
    { hentered with sctlr := by rw [hentered.sctlr, hsctlr, hsys₁] }⟩

/-- A core in the endless loop at the end. -/
structure Halted (c : Core) : Prop where
  off : MmuOff c
  pc : c.pc = .boot 38 ∨ c.pc = .boot 39

theorem Halted.step (h : Halted c) : ∃ c', step l (c, mem) = some (c', mem) ∧ Halted c' := by
  obtain ⟨hoff, hpc⟩ := h
  suffices hnext : ∃ c', stepOnly keepsSctlr l (c, mem) = some (c', mem) ∧
      (c'.pc = .boot 38 ∨ c'.pc = .boot 39) by
    obtain ⟨c', hnext, hpc'⟩ := hnext
    obtain ⟨hstep, hoff'⟩ := hoff.step hnext
    exact ⟨c', hstep, hoff', hpc'⟩
  obtain ⟨x, sp, pc, sys, daif, compared⟩ := c
  rcases hpc with hpc | hpc
  · obtain rfl : pc = .boot 38 := hpc
    exact ⟨_, rfl, .inr rfl⟩
  · obtain rfl : pc = .boot 39 := hpc
    exact ⟨_, rfl, .inl rfl⟩

/-- In any other level it ends up there. -/
theorem halt_steps (hpc : c.pc = .boot 0) (hcore : c.sys .mpidrEl1 &&& 3 = 0) (hoff : MmuOff c)
    (hel : c.sys .currentEl &&& 0xc ≠ 0x8) : ∃ n c', steps (step l) n (c, mem) =
      some (c', l.cleared mem) ∧ Halted c' := by
  obtain ⟨n₁, c₁, hstart, hpc₁, hsys₁⟩ := start_steps l mem hpc hcore
  obtain ⟨hrun₁, hoff₁⟩ := hoff.run hstart
  rw [← hsys₁] at hel
  obtain ⟨c₂, hcheck, hpc₂⟩ : ∃ c₂, steps (stepOnly keepsSctlr l) 4 (c₁, l.cleared mem) =
      some (c₂, l.cleared mem) ∧ c₂.pc = .boot 38 := by
    obtain ⟨x, sp, pc, sys, daif, compared⟩ := c₁
    obtain rfl : pc = .boot 14 := hpc₁
    exact ⟨_, rfl, congrArg Pc.boot (if_neg hel)⟩
  obtain ⟨hrun₂, hoff₂⟩ := hoff₁.run hcheck
  exact ⟨_, c₂, Steps.append hrun₁ hrun₂, hoff₂, .inl hpc₂⟩

/-! ## All cores -/

section Cores

variable {ι : Type} [DecidableEq ι]

/-- The cores at the reset: all at the first instruction, with bits M, WXN and EE of `SCTLR` clear,
which the code only adds to, and one of them with number 0. -/
structure Reset (cores : ι → Core) (first : ι) : Prop where
  pc : ∀ i, (cores i).pc = .boot 0
  off : ∀ i, MmuOff (cores i)
  number : ∀ i, (cores i).sys .mpidrEl1 &&& 3 = 0 ↔ i = first

/-- Core `i` is in the boot code and has not faulted. -/
def Boots (l : Layout) (s : (ι → Core) × (Nat → Nat)) (i : ι) : Prop := ∃ next, step l (s.1 i, s.2) = some next

variable {cores : ι → Core} {first : ι} (hreset : Reset cores first) (schedule : List ι)

include hreset

theorem Reset.alone :
    ((turns (step l) schedule (cores, mem)).1 first, (turns (step l) schedule (cores, mem)).2) =
        stepsUpTo (step l) (schedule.count first) (cores first, mem) ∧
      ∀ i ≠ first, Parked ((turns (step l) schedule (cores, mem)).1 i) := by
  refine Turns.alone (fun k m k' m' hparked hstep => ?_) schedule fun i hi => ?_
  · obtain ⟨c', hnext, hparked'⟩ := hparked.step (l := l) m
    obtain ⟨rfl, rfl⟩ := Prod.mk.inj (Option.some.inj (hnext.symm.trans hstep))
    exact ⟨hparked', rfl⟩
  · exact ⟨fun hzero => hi ((hreset.number i).mp hzero), hreset.off i, .inl (hreset.pc i)⟩

/-- Another core goes on in the boot code, and its turn leaves the memory as it is. -/
theorem Reset.others {i : ι} (hi : i ≠ first) :
    Boots l (turns (step l) schedule (cores, mem)) i ∧
      (turns (step l) (schedule ++ [i]) (cores, mem)).2 = (turns (step l) schedule (cores, mem)).2 := by
  obtain ⟨c', hnext, -⟩ := ((hreset.alone l mem schedule).2 i hi).step (l := l)
    (turns (step l) schedule (cores, mem)).2
  refine ⟨⟨_, hnext⟩, ?_⟩
  rw [turns, List.foldl_append, List.foldl_cons, List.foldl_nil, ← turns, Turns.turn_of_some hnext]

/-- On the way of the first core there is always a next instruction. -/
theorem Reset.boots_of_lt {mem : Nat → Nat} {n : Nat} {s : Core × (Nat → Nat)}
    (hrun : steps (step l) n (cores first, mem) = some s) (hlt : schedule.count first < n) :
    Boots l (turns (step l) schedule (cores, mem)) first := by
  obtain ⟨s₁, s₂, hsteps, hnext⟩ := Steps.exists_next hrun hlt
  refine ⟨s₂, ?_⟩
  rw [(hreset.alone l mem schedule).1, Turns.stepsUpTo_of_steps hsteps]
  exact hnext

/-- Where it halts, it stays, and so does the memory. -/
theorem Reset.halted {mem mem' : Nat → Nat} {n : Nat} {c' : Core}
    (hrun : steps (step l) n (cores first, mem) = some (c', mem')) (hhalted : Halted c')
    (hge : n ≤ schedule.count first) : Halted ((turns (step l) schedule (cores, mem)).1 first) ∧
      (turns (step l) schedule (cores, mem)).2 = mem' := by
  obtain ⟨k, hk⟩ := Nat.exists_eq_add_of_le hge
  have hstays : Halted (stepsUpTo (step l) k (c', mem')).1 ∧ (stepsUpTo (step l) k (c', mem')).2 = mem' := by
    refine Turns.stepsUpTo_invariant (I := fun s => Halted s.1 ∧ s.2 = mem') (fun s s' h hstep => ?_)
      ⟨hhalted, rfl⟩ k
    obtain ⟨c'', hnext, hhalted''⟩ := h.1.step l s.2
    obtain rfl := Option.some.inj (hnext.symm.trans hstep)
    exact ⟨hhalted'', h.2⟩
  have hend := (hreset.alone l mem schedule).1
  rw [hk, Turns.stepsUpTo_add hrun] at hend
  rwa [← hend] at hstays

/-- Booting, for any number of cores, any memory and registers at a reset that leaves the MMU off,
and any order of their turns. The other cores never leave the boot code, and write nothing. If the first core
comes up in EL2, it enters the kernel after a certain number of its own instructions, without
a fault on the way, in EL1 on the kernel's stack with the MMU on and interrupts unmasked; the
bss is zero, the boot tables are built, the rest of the image is as it was, and `memory_init`
makes the kernel's half of it. In any other level it clears the memory and stops, and never
enters the kernel. -/
theorem cores_boot (l : Layout) (mem : Nat → Nat) :
    (∀ schedule, ∀ i ≠ first, Boots l (turns (step l) schedule (cores, mem)) i ∧
      (turns (step l) (schedule ++ [i]) (cores, mem)).2 = (turns (step l) schedule (cores, mem)).2) ∧
    ((cores first).sys .currentEl &&& 0xc = 0x8 → ∃ n, ∀ schedule,
      (schedule.count first < n → Boots l (turns (step l) schedule (cores, mem)) first) ∧
      (n ≤ schedule.count first →
        Entered l (cores first) ((turns (step l) schedule (cores, mem)).1 first) ∧
        MemoryReady l mem (turns (step l) schedule (cores, mem)).2 ∧
        ∀ memory, KernelHalf (memoryInit memory (turns (step l) schedule (cores, mem)).2
          (setKernelSpace l.mmuSpaceStart) (setKernelSpace l.mmuSpaceEnd) (4 * gbInB)).mem
          l.mmuSpaceStart)) ∧
    ((cores first).sys .currentEl &&& 0xc ≠ 0x8 → ∃ n, ∀ schedule,
      Boots l (turns (step l) schedule (cores, mem)) first ∧
      (n ≤ schedule.count first → Halted ((turns (step l) schedule (cores, mem)).1 first) ∧
        (turns (step l) schedule (cores, mem)).2 = l.cleared mem)) := by
  have hcore := (hreset.number first).mpr rfl
  refine ⟨fun schedule i hi => hreset.others l mem schedule hi, fun hel => ?_, fun hel => ?_⟩
  · obtain ⟨n, c', hrun, hentered⟩ := enter_steps l mem (hreset.pc first) hcore (hreset.off first) hel
    have hstop : step l (c', setupTables (l.cleared mem) (setKernelSpace l.mmuSpaceStart)) = none := by
      rw [step]
      simp only [hentered.pc]
    refine ⟨n, fun schedule => ⟨hreset.boots_of_lt l schedule hrun, fun hge => ?_⟩⟩
    have hend := (hreset.alone l mem schedule).1.trans (Turns.stepsUpTo_of_stopped hrun hstop hge)
    obtain ⟨hcore', hmem'⟩ := Prod.mk.inj hend
    rw [hcore', hmem']
    exact ⟨hentered, memoryReady l mem, MemoryReady.kernelHalf l mem⟩
  · obtain ⟨n, c', hrun, hhalted⟩ := halt_steps l mem (hreset.pc first) hcore (hreset.off first) hel
    refine ⟨n, fun schedule => ⟨?_, hreset.halted l schedule hrun hhalted⟩⟩
    rcases Nat.lt_or_ge (schedule.count first) n with hlt | hge
    · exact hreset.boots_of_lt l schedule hrun hlt
    · obtain ⟨c'', hnext, -⟩ := (hreset.halted l schedule hrun hhalted hge).1.step l
        (turns (step l) schedule (cores, mem)).2
      exact ⟨_, hnext⟩

end Cores

/-- An image with 64 KB of bss behind 16 KB of code and data. -/
def smallLayout : Layout where
  bssStart := 0x84000
  bssEnd := 0x94000
  stackTop := 0x98000
  mmuSpaceStart := 0x98000
  kernelMain := 0x80200
  address i := BitVec.ofNat 64 (0x80000 + 4 * i)
  locate a := (a.toNat - 0x80000) / 4
  bss_aligned := by decide
  bss_le := by decide
  stack := by decide
  mmuSpace := by decide
  image_lt := by decide
  address_lt := by decide
  locate_address := by decide

/-- Four cores with zeros in their registers, but for their numbers and their level. -/
def fourCores (i : Fin 4) : Core where
  x _ := 0
  sp := 0
  pc := .boot 0
  sys
    | .mpidrEl1 => BitVec.ofNat 64 i
    | .currentEl => 0x8
    | _ => 0
  daif := 0xF
  compared := (0, 0)

theorem fourCores_reset : Reset fourCores ⟨0, by decide⟩ where
  pc _ := rfl
  off _ :=
    have hzero : sctlrClear 0 := by decide
    ⟨hzero, hzero, hzero⟩
  number := by decide

theorem cores_boot_fourCores :
    (∀ schedule, ∀ i ≠ ⟨0, by decide⟩,
      Boots smallLayout (turns (step smallLayout) schedule (fourCores, fun _ => 0)) i ∧
      (turns (step smallLayout) (schedule ++ [i]) (fourCores, fun _ => 0)).2 =
        (turns (step smallLayout) schedule (fourCores, fun _ => 0)).2) ∧
    ∃ n, ∀ schedule : List (Fin 4), n ≤ schedule.count ⟨0, by decide⟩ →
      Entered smallLayout (fourCores ⟨0, by decide⟩)
        ((turns (step smallLayout) schedule (fourCores, fun _ => 0)).1 ⟨0, by decide⟩) ∧
      MemoryReady smallLayout (fun _ => 0) (turns (step smallLayout) schedule (fourCores, fun _ => 0)).2 ∧
      ∀ memory, KernelHalf (memoryInit memory (turns (step smallLayout) schedule (fourCores, fun _ => 0)).2
        (setKernelSpace smallLayout.mmuSpaceStart) (setKernelSpace smallLayout.mmuSpaceEnd)
        (4 * gbInB)).mem smallLayout.mmuSpaceStart := by
  obtain ⟨hothers, henters, -⟩ := cores_boot fourCores_reset smallLayout fun _ => 0
  obtain ⟨n, hentered⟩ := henters rfl
  exact ⟨hothers, n, fun schedule => (hentered schedule).2⟩

end Boot
end PiVOS
