-- SUMMARY: The tables of kernel calls and devices are write-once maps.
import PiVOS.Call
import PiVOS.Lib.Nesting

/-!
# Registries

`kcall_register` and `kdev_register` bind a slot once and for all;
`kcall_dispatch` and `kdev_generic_isr` look slots up. Every call has its own
check of the number it is given. A negative device number passes the check of
`kdev_register`, the size of the table passes that of `kcall_dispatch`, and
`kdev_generic_isr` checks nothing.
-/

namespace PiVOS

variable {S : Type}

/-- The two tables and the rest of the kernel. -/
structure Registry (S : Type) where
  kcalls : Kcalls S
  kdevs : Kdevs S
  state : S

inductive RegistryCall (S : Type)
  | kcallRegister (callId : UInt16) (call : KcallFn S)
  | kdevRegister (devId : Int) (dev : Kdev S)
  | kcallDispatch (esr : Nat) (rs : Frame)
  | kdevGenericIsr (devId : Int)

namespace RegistryCall

/-- The kernel call that is to be registered. -/
def kcall? : RegistryCall S → Option (Int × KcallFn S)
  | .kcallRegister callId call => some (callId.toNat, call)
  | _ => none

/-- The device that is to be registered. -/
def kdev? : RegistryCall S → Option (Int × Kdev S)
  | .kdevRegister devId dev => some (devId, dev)
  | _ => none

/-- The numbers for which the call's own check is right. -/
def InBounds : RegistryCall S → Prop
  | .kcallRegister _ _ => True
  | .kdevRegister devId _ => 0 ≤ devId
  | .kcallDispatch esr _ => callIdOf esr ≠ kcallBufferSize
  | .kdevGenericIsr devId => 0 ≤ devId ∧ devId < kdevBufferSize

end RegistryCall

/-- A registration follows the write-once rule: it binds an empty slot and returns
its number, or returns a negative status and leaves the table alone. -/
def Registers {n : Nat} {α : Type} (t : Table n α) (i : Int) (x : α)
    (outcome : Option (Int × Table n α)) : Prop :=
  (∃ t', t.bindOnce i x = some t' ∧ outcome = some (i, t')) ∨
    (t.bindOnce i x = none ∧ ∃ status, status < 0 ∧ outcome = some (status, t))

namespace Registry

variable (isrOf : Kdev S → Option (S → Option S))

def start (state : S) : Registry S := { kcalls := .empty, kdevs := .empty, state }

def step (r : Registry S) : RegistryCall S → Option (Registry S)
  | .kcallRegister callId call =>
    (PiVOS.kcallRegister r.kcalls callId.toNat call).map fun (_, kcalls) => { r with kcalls }
  | .kdevRegister devId dev =>
    (PiVOS.kdevRegister r.kdevs devId dev).map fun (_, kdevs) => { r with kdevs }
  | .kcallDispatch esr rs =>
    (PiVOS.kcallDispatch r.kcalls esr r.state rs).map fun (_, state) => { r with state }
  | .kdevGenericIsr devId =>
    (PiVOS.kdevGenericIsr isrOf r.kdevs devId r.state).map fun (_, state) => { r with state }

abbrev Run (r : Registry S) (calls : List (RegistryCall S)) (r' : Registry S) : Prop :=
  Exec (fun r c r' => r.step isrOf c = some r') r calls r'

/-- What a call has to do: register once, run just the function that is bound or
set `rs[0]` to -1, and use no slot outside its table. -/
def Law (r : Registry S) : RegistryCall S → Prop
  | .kcallRegister callId call =>
    Registers r.kcalls callId.toNat call (PiVOS.kcallRegister r.kcalls callId.toNat call)
  | .kdevRegister devId dev => Registers r.kdevs devId dev (PiVOS.kdevRegister r.kdevs devId dev)
  | .kcallDispatch esr rs => PiVOS.kcallDispatch r.kcalls esr r.state rs =
      match (r.kcalls.slot (callIdOf esr)).join with
      | some call => call r.state rs
      | none => some (rs.setStatus (-1), r.state)
  | .kdevGenericIsr devId => (r.kdevs.slot devId).isSome

/-! ## One call -/

theorem kcallRegister_registers (kcalls : Kcalls S) (callId : Nat) (call : KcallFn S) :
    Registers kcalls callId call (PiVOS.kcallRegister kcalls callId call) := by
  rw [PiVOS.kcallRegister]
  by_cases hsize : kcallBufferSize ≤ callId
  · rw [if_pos hsize]
    exact .inr ⟨Table.bindOnce_of_not_mem (by omega) call, _, Kstatus.err_add_neg .call (by decide), rfl⟩
  · rw [if_neg hsize]
    obtain ⟨entry, hslot⟩ := Table.slot_isSome (t := kcalls) (i := callId) ⟨by omega, by omega⟩
    cases entry with
    | some bound =>
      rw [hslot]
      exact .inr ⟨Table.bindOnce_of_bound hslot call, _, Kstatus.err_add_neg .call (by decide), rfl⟩
    | none =>
      obtain ⟨kcalls', honce, hbind⟩ := Table.bindOnce_of_empty hslot call
      rw [hslot, hbind]
      exact .inl ⟨kcalls', honce, rfl⟩

theorem kdevRegister_registers (kdevs : Kdevs S) {devId : Int} (h : 0 ≤ devId) (dev : Kdev S) :
    Registers kdevs devId dev (PiVOS.kdevRegister kdevs devId dev) := by
  rw [PiVOS.kdevRegister]
  by_cases hsize : (kdevBufferSize : Int) ≤ devId
  · rw [if_pos hsize]
    exact .inr ⟨Table.bindOnce_of_not_mem (by omega) dev, _, Kstatus.err_add_neg .dev (by decide), rfl⟩
  · rw [if_neg hsize]
    obtain ⟨entry, hslot⟩ := Table.slot_isSome (t := kdevs) (i := devId) ⟨h, by omega⟩
    cases entry with
    | some bound =>
      rw [hslot]
      exact .inr ⟨Table.bindOnce_of_bound hslot dev, _, Kstatus.err_add_neg .dev (by decide), rfl⟩
    | none =>
      obtain ⟨kdevs', honce, hbind⟩ := Table.bindOnce_of_empty hslot dev
      rw [hslot, hbind]
      exact .inl ⟨kdevs', honce, rfl⟩

theorem kdevRegister_of_neg (kdevs : Kdevs S) {devId : Int} (h : devId < 0) (dev : Kdev S) :
    PiVOS.kdevRegister kdevs devId dev = none := by
  have hslot : kdevs.slot devId = none := Table.slot_of_not_mem (by omega)
  rw [PiVOS.kdevRegister, if_neg (by omega), hslot]
  rfl

theorem kcallDispatch_eq (kcalls : Kcalls S) {esr : Nat} (h : callIdOf esr ≠ kcallBufferSize) (s : S)
    (rs : Frame) : PiVOS.kcallDispatch kcalls esr s rs =
      match (kcalls.slot (callIdOf esr)).join with
      | some call => call s rs
      | none => some (rs.setStatus (-1), s) := by
  cases hslot : (kcalls.slot (callIdOf esr)).join with
  | some call => exact kcallDispatch_of_bound (Option.join_eq_some_iff.mp hslot) s rs
  | none =>
    refine kcallDispatch_of_unbound (fun call hbound => ?_) h s rs
    rw [hbound] at hslot
    cases hslot

/-- A call keeps its law just when its check is right for its number. -/
theorem law_iff_inBounds (r : Registry S) (c : RegistryCall S) : r.Law c ↔ c.InBounds := by
  cases c with
  | kcallRegister callId call =>
    exact ⟨fun _ => trivial, fun _ => kcallRegister_registers r.kcalls callId.toNat call⟩
  | kdevRegister devId dev =>
    refine ⟨fun h => ?_, fun h => kdevRegister_registers r.kdevs h dev⟩
    by_contra hneg
    have hnone := kdevRegister_of_neg r.kdevs (Int.not_le.mp hneg) dev
    rcases h with ⟨kdevs', -, hsome⟩ | ⟨-, status, -, hsome⟩
    · rw [hnone] at hsome
      cases hsome
    · rw [hnone] at hsome
      cases hsome
  | kcallDispatch esr rs =>
    refine ⟨fun h hsize => ?_, fun h => kcallDispatch_eq r.kcalls h r.state rs⟩
    have hslot : r.kcalls.slot (callIdOf esr) = none := Table.slot_of_not_mem (by omega)
    rw [Law, kcallDispatch_of_size hsize, hslot] at h
    cases h
  | kdevGenericIsr devId =>
    constructor
    · intro h
      obtain ⟨entry, hslot⟩ := Option.isSome_iff_exists.mp h
      exact Table.mem_of_slot hslot
    · intro h
      obtain ⟨entry, hslot⟩ := Table.slot_isSome (t := r.kdevs) h
      exact Option.isSome_iff_exists.mpr ⟨entry, hslot⟩

/-! ## Runs -/

/-- The tables hold what was registered first. -/
structure Recorded (r : Registry S) (calls : List (RegistryCall S)) : Prop where
  kcalls : r.kcalls.Records (calls.filterMap RegistryCall.kcall?)
  kdevs : r.kdevs.Records (calls.filterMap RegistryCall.kdev?)

theorem Registers.getD {n : Nat} {α : Type} {t t' : Table n α} {i status : Int} {x : α}
    {outcome : Option (Int × Table n α)} (h : Registers t i x outcome)
    (houtcome : outcome = some (status, t')) : t' = (t.bindOnce i x).getD t := by
  rcases h with ⟨t'', honce, h⟩ | ⟨honce, _, -, h⟩
  · rw [houtcome, Option.some.injEq, Prod.mk.injEq] at h
    rw [honce, Option.getD_some, h.2]
  · rw [houtcome, Option.some.injEq, Prod.mk.injEq] at h
    rw [honce, Option.getD_none, h.2]

variable {isrOf}

theorem Recorded.step {r r' : Registry S} {calls : List (RegistryCall S)} {c : RegistryCall S}
    (h : r.Recorded calls) (hin : c.InBounds) (hstep : r.step isrOf c = some r') :
    r'.Recorded (calls ++ [c]) := by
  have hlaw := (law_iff_inBounds r c).mpr hin
  have hkcalls : (calls ++ [c]).filterMap RegistryCall.kcall? =
      calls.filterMap RegistryCall.kcall? ++ [c].filterMap RegistryCall.kcall? :=
    List.filterMap_append
  have hkdevs : (calls ++ [c]).filterMap RegistryCall.kdev? =
      calls.filterMap RegistryCall.kdev? ++ [c].filterMap RegistryCall.kdev? :=
    List.filterMap_append
  constructor
  · rw [hkcalls]
    cases c with
    | kcallRegister callId call =>
      obtain ⟨⟨status, kcalls⟩, hregister, rfl⟩ := Option.map_eq_some_iff.mp hstep
      have hrecords := h.kcalls.bindOnce callId.toNat call
      rwa [← Registers.getD hlaw hregister] at hrecords
    | kdevRegister devId dev =>
      obtain ⟨_, -, rfl⟩ := Option.map_eq_some_iff.mp hstep
      exact (List.append_nil _).symm ▸ h.kcalls
    | kcallDispatch esr rs =>
      obtain ⟨_, -, rfl⟩ := Option.map_eq_some_iff.mp hstep
      exact (List.append_nil _).symm ▸ h.kcalls
    | kdevGenericIsr devId =>
      obtain ⟨_, -, rfl⟩ := Option.map_eq_some_iff.mp hstep
      exact (List.append_nil _).symm ▸ h.kcalls
  · rw [hkdevs]
    cases c with
    | kdevRegister devId dev =>
      obtain ⟨⟨status, kdevs⟩, hregister, rfl⟩ := Option.map_eq_some_iff.mp hstep
      have hrecords := h.kdevs.bindOnce devId dev
      rwa [← Registers.getD hlaw hregister] at hrecords
    | kcallRegister callId call =>
      obtain ⟨_, -, rfl⟩ := Option.map_eq_some_iff.mp hstep
      exact (List.append_nil _).symm ▸ h.kdevs
    | kcallDispatch esr rs =>
      obtain ⟨_, -, rfl⟩ := Option.map_eq_some_iff.mp hstep
      exact (List.append_nil _).symm ▸ h.kdevs
    | kdevGenericIsr devId =>
      obtain ⟨_, -, rfl⟩ := Option.map_eq_some_iff.mp hstep
      exact (List.append_nil _).symm ▸ h.kdevs

theorem Recorded.run {r r' : Registry S} {before calls : List (RegistryCall S)}
    (h : r.Recorded before) (hrun : r.Run isrOf calls r') (hin : ∀ c ∈ calls, c.InBounds) :
    r'.Recorded (before ++ calls) := by
  induction hrun with
  | nil => simpa using h
  | snoc hrun hstep ih =>
    rw [List.forall_mem_append] at hin
    rw [← List.append_assoc]
    exact (ih hin.1).step (hin.2 _ (List.mem_singleton_self _)) hstep

theorem start_recorded (s : S) : (start s).Recorded [] := ⟨Table.empty_records, Table.empty_records⟩

variable (isrOf)

/-- Throughout the calls, from empty tables on, every call keeps its law, the
tables are the maps of what was registered first, and bound slots stay as they are. -/
structure WriteOnce (s : S) (calls : List (RegistryCall S)) : Prop where
  law : ∀ {before c after r}, calls = before ++ c :: after → (start s).Run isrOf before r → r.Law c
  recorded : ∀ {before after r}, calls = before ++ after → (start s).Run isrOf before r →
    r.Recorded before
  kept : ∀ {before later after r r'}, calls = before ++ later ++ after →
    (start s).Run isrOf before r → r.Run isrOf later r' →
    (∀ i call, r.kcalls.Bound i call → r'.kcalls.Bound i call) ∧
      ∀ i dev, r.kdevs.Bound i dev → r'.kdevs.Bound i dev

/-- In runs whose calls are in bounds the two tables are write-once maps. A run goes as far as
`kdev_generic_isr` finds something in its slot: where nothing is registered it ends. -/
theorem writeOnce_of_inBounds (s : S) (calls : List (RegistryCall S))
    (hin : ∀ c ∈ calls, c.InBounds) : WriteOnce isrOf s calls := by
  refine ⟨?_, ?_, ?_⟩
  · rintro before c after r rfl -
    exact (law_iff_inBounds r c).mpr (hin c (by simp))
  · rintro before after r rfl hrun
    exact (start_recorded s).run hrun fun c hc => hin c (by simp [hc])
  · rintro before later after r r' rfl hrun hlater
    have hbefore := (start_recorded s).run hrun fun c hc => hin c (by simp [hc])
    rw [List.nil_append] at hbefore
    have hboth := hbefore.run hlater fun c hc => hin c (by simp [hc])
    refine ⟨fun i call => ?_, fun i dev => ?_⟩
    · have hrecords := hboth.kcalls
      rw [List.filterMap_append] at hrecords
      exact hbefore.kcalls.bound_append hrecords
    · have hrecords := hboth.kdevs
      rw [List.filterMap_append] at hrecords
      exact hbefore.kdevs.bound_append hrecords

/-- A handler that leaves everything as it is. -/
def idleCall : KcallFn Unit := fun s rs => some (rs, s)

theorem writeOnce_of_inBounds_idle : WriteOnce (fun _ => none) ()
    [.kcallRegister 7 idleCall, .kdevRegister 5 .timer, .kcallRegister 7 idleCall,
      .kcallDispatch 7 (fun _ => 0), .kdevRegister 2048 .gic, .kdevGenericIsr 5] :=
  writeOnce_of_inBounds _ _ _ (by simp [RegistryCall.InBounds]; decide)

/-- Device -1 passes the check for the table's end and is looked up before its start. -/
theorem not_writeOnce_negative : ¬WriteOnce (fun _ => none) () [.kdevRegister (-1) .timer] := by
  intro h
  have hlaw : (start ()).Law (.kdevRegister (-1) .timer) := h.law (List.nil_append _).symm .nil
  exact absurd ((law_iff_inBounds _ _).mp hlaw) (by simp [RegistryCall.InBounds])

end Registry

end PiVOS
