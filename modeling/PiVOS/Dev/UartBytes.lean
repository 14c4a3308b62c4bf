-- SUMMARY: Every byte through the UART driver is accounted for, whatever the timing.
import PiVOS.Dev.Uart

/-!
# Bytes through the UART

An invariant ties what callers handed over and received to the register log, the
rings and the FIFOs. Each register access keeps it, hence each round of the two
drain loops, each call and each run. Bytes left in the transmit ring are never
stranded: the FIFO was full when the driver last looked and has not been written
since, so that it is still above its trigger level or has raised its interrupt.
-/

namespace PiVOS

/-! ## What the device can do on its own -/

section Moves

variable {b : Board}

/-- The moves of the device from `reg` to `reg'`: the transmit FIFO has lost
bytes at its front, the receive FIFO has gained bytes at its end, and a transmit
FIFO that has come down to the trigger level has raised the interrupt. -/
structure Uart.Moves (b : Board) (reg reg' : Uart) : Prop where
  sends : ∃ cs, reg.txFifo = cs ++ reg'.txFifo ∧ reg'.sent = reg.sent ++ cs
  receives : ∃ cs, reg'.rxFifo = reg.rxFifo ++ cs ∧ reg'.arrived = reg.arrived ++ cs
  raises : (b.trigger < reg.txFifo.length ∨ reg.txris = true) →
    b.trigger < reg'.txFifo.length ∨ reg'.txris = true

namespace Uart.Moves

variable {reg reg' reg'' : Uart}

theorem refl (reg : Uart) : Moves b reg reg :=
  ⟨⟨[], by simp⟩, ⟨[], by simp⟩, id⟩

theorem trans (h : Moves b reg reg') (h' : Moves b reg' reg'') : Moves b reg reg'' := by
  obtain ⟨⟨out, htx, hsent⟩, ⟨inn, hrx, harr⟩, hraise⟩ := h
  obtain ⟨⟨out', htx', hsent'⟩, ⟨inn', hrx', harr'⟩, hraise'⟩ := h'
  exact ⟨⟨out ++ out', by simp [htx, htx'], by simp [hsent, hsent']⟩,
    ⟨inn ++ inn', by simp [hrx, hrx'], by simp [harr, harr']⟩, hraise' ∘ hraise⟩

theorem move (reg : Uart) (m : UartMove) : Moves b reg (reg.move b m) := by
  cases m with
  | send =>
    cases htx : reg.txFifo with
    | nil => simpa [Uart.move, htx] using refl reg
    | cons c rest =>
      simp only [Uart.move, htx]
      refine ⟨⟨[c], by simp [htx], rfl⟩, ⟨[], by simp⟩, fun hup => ?_⟩
      rcases hup with hup | hup
      · rcases Nat.lt_or_ge b.trigger rest.length with hlt | hge
        · exact .inl hlt
        · rw [htx, List.length_cons] at hup
          exact .inr (by simp [show rest.length = b.trigger by omega])
      · exact .inr (by simp [hup])
  | receive c =>
    by_cases hroom : reg.rxFifo.length < b.depth
    · simp only [Uart.move, if_pos hroom]
      exact ⟨⟨[], by simp⟩, ⟨[c], rfl, rfl⟩, id⟩
    · simpa [Uart.move, hroom] using refl reg

theorem moves (reg : Uart) (ms : List UartMove) : Moves b reg (ms.foldl (Uart.move b) reg) := by
  induction ms generalizing reg with
  | nil => exact refl reg
  | cons m ms ih => exact (move reg m).trans (ih _)

theorem length_le (h : Moves b reg reg') : reg'.txFifo.length ≤ reg.txFifo.length := by
  obtain ⟨out, htx, -⟩ := h.sends
  simp [htx]

end Uart.Moves

end Moves

namespace DevUart

/-! ## The log -/

/-- The bytes written to `DR`, in order. -/
def written (log : List RegAccess) : List UInt8 :=
  log.filterMap fun | .writeDr c => some c | _ => none

/-- The bytes read from `DR`, in order. -/
def popped (log : List RegAccess) : List UInt8 :=
  log.filterMap fun | .readDr c _ => some c | _ => none

/-- A log in which every access to `DR` comes right after a look at `FR` that
allows it, and reads of `DR` only while the receive ring has room. -/
inductive Checked : List RegAccess → Prop
  | nil : Checked []
  | readFr {log : List RegAccess} (txff rxfe : Bool) (h : Checked log) :
      Checked (log ++ [.readFr txff rxfe])
  | readMis {log : List RegAccess} (bits : BitVec 32) (h : Checked log) :
      Checked (log ++ [.readMis bits])
  | writeDr {log : List RegAccess} (rxfe : Bool) (c : UInt8)
      (h : Checked (log ++ [.readFr false rxfe])) :
      Checked (log ++ [.readFr false rxfe] ++ [.writeDr c])
  | readDr {log : List RegAccess} (txff : Bool) (c : UInt8) {room : Nat} (hroom : 0 < room)
      (h : Checked (log ++ [.readFr txff false])) :
      Checked (log ++ [.readFr txff false] ++ [.readDr c room])

/-- The driver has seen the transmit FIFO full and not written to it since. -/
def SawFull (log : List RegAccess) : Prop :=
  ∃ before rxfe since, log = before ++ .readFr true rxfe :: since ∧ written since = []

@[simp] theorem written_append (log log' : List RegAccess) :
    written (log ++ log') = written log ++ written log' := List.filterMap_append ..

@[simp] theorem popped_append (log log' : List RegAccess) :
    popped (log ++ log') = popped log ++ popped log' := List.filterMap_append ..

@[simp] theorem written_writeDr (c : UInt8) : written [.writeDr c] = [c] := rfl
@[simp] theorem written_readDr (c : UInt8) (room : Nat) : written [.readDr c room] = [] := rfl
@[simp] theorem popped_writeDr (c : UInt8) : popped [.writeDr c] = [] := rfl
@[simp] theorem popped_readDr (c : UInt8) (room : Nat) : popped [.readDr c room] = [c] := rfl

theorem SawFull.append {log : List RegAccess} (h : SawFull log) {more : List RegAccess}
    (hmore : written more = []) : SawFull (log ++ more) := by
  obtain ⟨before, rxfe, since, rfl, hsince⟩ := h
  exact ⟨before, rxfe, since ++ more, by simp, by simp [hsince, hmore]⟩

theorem sawFull_readFr (log : List RegAccess) (rxfe : Bool) :
    SawFull (log ++ [.readFr true rxfe]) :=
  ⟨log, rxfe, [], rfl, rfl⟩

/-! ## The invariant -/

/-- Nothing is stuck: the driver saw the FIFO full at its last try, and since
then the FIFO is above its trigger level or the interrupt is raised. -/
structure Stalled (b : Board) (dev : DevUart) : Prop where
  sawFull : SawFull dev.log
  pending : b.trigger < dev.reg.txFifo.length ∨ dev.reg.txris = true

/-- Where every byte is, from a device whose FIFOs held `reg₀` on. `accepted`
and `delivered` are what callers handed over and received. -/
structure Sound (b : Board) (reg₀ : Uart) (accepted delivered : List UInt8) (dev : DevUart) :
    Prop where
  txRing : dev.tx.WellFormed
  rxRing : dev.rx.WellFormed
  accepted : accepted = written dev.log ++ dev.tx.toList
  popped : popped dev.log = delivered ++ dev.rx.toList
  checked : Checked dev.log
  bounded : dev.reg.txFifo.length ≤ b.depth
  sent : reg₀.txFifo ++ written dev.log = dev.reg.sent ++ dev.reg.txFifo
  arrived : reg₀.rxFifo ++ dev.reg.arrived = DevUart.popped dev.log ++ dev.reg.rxFifo

/-- The invariant between calls. `buffered` says that the driver has been used
through its buffered calls alone: bytes in the ring then wait for good reason. -/
structure Settled (b : Board) (buffered : Prop) (reg₀ : Uart) (accepted delivered : List UInt8)
    (dev : DevUart) : Prop extends Sound b reg₀ accepted delivered dev where
  waits : buffered → dev.tx.toList ≠ [] → Stalled b dev

variable {b : Board} {buffered : Prop} {reg₀ : Uart} {accepted delivered : List UInt8}
  {dev : DevUart}

/-! ## Register accesses -/

@[simp] theorem settle_tx (dev : DevUart) : (dev.settle b).tx = dev.tx := rfl
@[simp] theorem settle_rx (dev : DevUart) : (dev.settle b).rx = dev.rx := rfl
@[simp] theorem settle_log (dev : DevUart) : (dev.settle b).log = dev.log := rfl

theorem settle_moves (dev : DevUart) : Uart.Moves b dev.reg (dev.settle b).reg :=
  Uart.Moves.moves dev.reg _

theorem Stalled.moves {reg : Uart} (h : Stalled b dev) (hm : Uart.Moves b dev.reg reg) :
    Stalled b { dev with reg } :=
  ⟨h.sawFull, hm.raises h.pending⟩

theorem Sound.moves {reg : Uart} (h : Sound b reg₀ accepted delivered dev)
    (hm : Uart.Moves b dev.reg reg) : Sound b reg₀ accepted delivered { dev with reg } := by
  have hlen := hm.length_le
  obtain ⟨⟨out, htx, hsent⟩, ⟨inn, hrx, harr⟩, -⟩ := hm
  refine { h with bounded := hlen.trans h.bounded, sent := ?_, arrived := ?_ }
  · simp only
    rw [h.sent, htx, hsent, List.append_assoc]
  · simp only
    rw [harr, ← List.append_assoc, h.arrived, hrx, List.append_assoc]

theorem Settled.moves {reg : Uart} (h : Settled b buffered reg₀ accepted delivered dev)
    (hm : Uart.Moves b dev.reg reg) :
    Settled b buffered reg₀ accepted delivered { dev with reg } :=
  ⟨h.toSound.moves hm, fun hb hne => (h.waits hb hne).moves hm⟩

theorem Sound.settle (h : Sound b reg₀ accepted delivered dev) :
    Sound b reg₀ accepted delivered (dev.settle b) :=
  h.moves (settle_moves dev)

/-- An access that moves no data adds to the log and nothing else. -/
theorem Sound.log (h : Sound b reg₀ accepted delivered dev) {e : RegAccess}
    (hw : written [e] = []) (hp : DevUart.popped [e] = []) (hc : Checked (dev.log ++ [e])) :
    Sound b reg₀ accepted delivered { dev with log := dev.log ++ [e] } :=
  { h with
    accepted := by simpa [hw] using h.accepted
    popped := by simpa [hp] using h.popped
    checked := hc
    sent := by simpa [hw] using h.sent
    arrived := by simpa [hp] using h.arrived }

theorem Sound.readFr (h : Sound b reg₀ accepted delivered dev) :
    Sound b reg₀ accepted delivered (dev.readFr b).2 :=
  h.settle.log rfl rfl (.readFr _ _ h.settle.checked)

/-- An access that writes nothing leaves the wait of the transmit ring a good one. -/
theorem Settled.stalled_of_access (h : Settled b buffered reg₀ accepted delivered dev)
    (hb : buffered) (hne : dev.tx.toList ≠ []) {e : RegAccess} (he : written [e] = []) :
    Stalled b { dev.settle b with log := dev.log ++ [e] } :=
  ⟨(h.waits hb hne).sawFull.append he, (settle_moves dev).raises (h.waits hb hne).pending⟩

theorem Settled.readFr (h : Settled b buffered reg₀ accepted delivered dev) :
    Settled b buffered reg₀ accepted delivered (dev.readFr b).2 :=
  ⟨h.toSound.readFr, fun hb hne => h.stalled_of_access hb hne rfl⟩

theorem Settled.readMis (h : Settled b buffered reg₀ accepted delivered dev) (bits : BitVec 32) :
    Settled b buffered reg₀ accepted delivered (dev.readMis b bits) :=
  ⟨h.toSound.settle.log rfl rfl (.readMis _ h.toSound.settle.checked),
    fun hb hne => h.stalled_of_access hb hne rfl⟩

theorem readFr_log (dev : DevUart) : (dev.readFr b).2.log =
    dev.log ++ [.readFr (dev.readFr b).1.1 (dev.readFr b).1.2] := rfl

theorem readFr_txff (dev : DevUart) :
    (dev.readFr b).1.1 = (dev.readFr b).2.reg.txff b := rfl

/-- A look that finds the FIFO full. -/
theorem Stalled.of_txff (h : (dev.readFr b).1.1 = true) : Stalled b (dev.readFr b).2 := by
  refine ⟨?_, .inl ?_⟩
  · rw [readFr_log, h]
    exact sawFull_readFr _ _
  · rw [readFr_txff, Uart.txff, decide_eq_true_eq] at h
    exact Nat.lt_of_lt_of_le b.trigger_lt h

/-- Writing a byte to `DR` after a look that found room, with `tx` as the ring left behind. -/
theorem Sound.writeDr (h : Sound b reg₀ accepted delivered dev) {rxfe : Bool}
    {log : List RegAccess} (hlog : dev.log = log ++ [.readFr false rxfe])
    (hroom : dev.reg.txFifo.length < b.depth) {tx : Ring} (htx : tx.WellFormed) {c : UInt8}
    {accepted' : List UInt8} (hacc : accepted' = written dev.log ++ [c] ++ tx.toList) :
    Sound b reg₀ accepted' delivered ({ dev with tx }.writeDr b c) := by
  have hs := h.settle
  have hroom' : (dev.settle b).reg.txFifo.length < b.depth :=
    Nat.lt_of_le_of_lt (settle_moves dev).length_le hroom
  have hpush : (dev.settle b).reg.push b c = { (dev.settle b).reg with
      txFifo := (dev.settle b).reg.txFifo ++ [c]
      txris := (dev.settle b).reg.txris &&
        decide ((dev.settle b).reg.txFifo.length + 1 ≤ b.trigger) } := by
    rw [Uart.push, if_pos hroom']
  have hdev : { dev with tx }.writeDr b c = { (dev.settle b) with
      tx, reg := (dev.settle b).reg.push b c, log := dev.log ++ [.writeDr c] } := rfl
  rw [hdev, hpush]
  refine { hs with txRing := htx, accepted := ?_, popped := ?_, checked := ?_, bounded := ?_,
                   sent := ?_, arrived := ?_ }
  · simpa using hacc
  · simpa using h.popped
  · have := h.checked
    rw [hlog] at this
    simpa only [hlog] using this.writeDr rxfe c
  · simpa using Nat.succ_le_of_lt hroom'
  · have := hs.sent
    rw [settle_log] at this
    simp [← List.append_assoc, this]
  · simpa using hs.arrived

/-- Moving a byte from `DR` to the ring, after a look that found one. -/
theorem Settled.readDr (h : Settled b buffered reg₀ accepted delivered dev) {txff : Bool}
    {log : List RegAccess} (hlog : dev.log = log ++ [.readFr txff false])
    (hne : dev.reg.rxfe = false) (hroom : dev.rx.available ≠ 0) :
    Settled b buffered reg₀ accepted delivered { (dev.readDr b).2 with
      rx := ((dev.readDr b).2.rx.write (dev.readDr b).1).2 } := by
  have hs := h.toSound.settle
  obtain ⟨c, rest, hfifo⟩ : ∃ c rest, (dev.settle b).reg.rxFifo = c :: rest := by
    obtain ⟨inn, hrx, -⟩ := (settle_moves (b := b) dev).receives
    cases hold : dev.reg.rxFifo with
    | nil => simp [Uart.rxfe, hold] at hne
    | cons c rest => exact ⟨c, rest ++ inn, by rw [hrx, hold, List.cons_append]⟩
  have hfront : (dev.settle b).reg.front = c := by rw [Uart.front, hfifo, List.headD_cons]
  have hpop : (dev.settle b).reg.pop = { (dev.settle b).reg with rxFifo := rest } := by
    rw [Uart.pop, hfifo, List.tail_cons]
  have hdev : dev.readDr b = (c, { dev.settle b with
      reg := { (dev.settle b).reg with rxFifo := rest }
      log := dev.log ++ [.readDr c dev.rx.available] }) := by
    rw [DevUart.readDr]
    simp only
    rw [hfront, hpop, settle_log, settle_rx]
  have havail : dev.rx.size ≠ dev.rx.capacity := by
    rw [Ring.available_eq h.rxRing] at hroom
    omega
  rw [hdev]
  refine ⟨{ hs with rxRing := ?_, accepted := ?_, popped := ?_, checked := ?_, sent := ?_,
                    arrived := ?_ }, fun hb hne => ?_⟩
  · exact Ring.write_wellFormed h.rxRing c
  · simpa using h.accepted
  · simp [Ring.toList_write h.rxRing havail, h.popped]
  · have := h.checked
    rw [hlog] at this
    simpa only [hlog] using this.readDr txff c (Nat.pos_of_ne_zero hroom)
  · simpa using hs.sent
  · have := hs.arrived
    rw [settle_log, hfifo] at this
    simp [this]
  · have hst := h.stalled_of_access hb hne (written_readDr c dev.rx.available)
    exact ⟨hst.sawFull, hst.pending⟩

/-! ## The drain loops -/

theorem syncWriteRound_eq (dev : DevUart) : dev.syncWriteRound b =
    if (dev.readFr b).1.1 then .inr (-1, (dev.readFr b).2) else
      if dev.tx.read.1 < 0 then .inr (0, { (dev.readFr b).2 with tx := dev.tx.read.2 }) else
        .inl ({ (dev.readFr b).2 with tx := dev.tx.read.2 }.writeDr b
          (UInt8.ofNat dev.tx.read.1.toNat)) := rfl

/-- The transmit loop returns, and leaves an empty ring or a full FIFO behind. -/
theorem syncWrite_total (h : Sound b reg₀ accepted delivered dev) :
    ∃ result, dev.syncWrite b = some result ∧
      Settled b buffered reg₀ accepted delivered result.2 := by
  refine Loop.untilReturn_total (fun dev => dev.tx.size) (fun dev h => ?_) h (Nat.lt_succ_self _)
  rw [syncWriteRound_eq]
  cases hfull : (dev.readFr b).1.1 with
  | true => exact .inr ⟨_, rfl, h.readFr, fun _ _ => .of_txff hfull⟩
  | false =>
    simp only [Bool.false_eq_true, if_false]
    by_cases hempty : dev.tx.size = 0
    · refine .inr ⟨_, by rw [Ring.read_of_empty hempty]; rfl, ⟨h.readFr, fun _ hne => ?_⟩⟩
      exact absurd (Ring.toList_eq_nil.mpr hempty) hne
    · obtain ⟨c, hc, hlist⟩ := Ring.toList_read h.txRing hempty
      have hroom : (dev.readFr b).2.reg.txFifo.length < b.depth := by
        simpa [readFr_txff, Uart.txff] using hfull
      refine .inl ⟨_, by rw [hc, if_neg (by omega)], ?_, ?_⟩
      · rw [Int.toNat_natCast, UInt8.ofNat_toNat]
        have hlog := readFr_log (b := b) dev
        rw [hfull] at hlog
        refine h.readFr.writeDr hlog hroom (Ring.read_wellFormed h.txRing) ?_
        rw [h.readFr.accepted, List.append_assoc]
        exact congrArg _ hlist
      · exact Nat.lt_of_succ_le (Ring.size_read h.txRing hempty).le

theorem syncReadRound_eq (dev : DevUart) : dev.syncReadRound b =
    if (dev.readFr b).1.2 then .inr (0, (dev.readFr b).2) else
      if dev.rx.available = 0 then .inr (-1, (dev.readFr b).2) else
        .inl { ((dev.readFr b).2.readDr b).2 with
          rx := (((dev.readFr b).2.readDr b).2.rx.write ((dev.readFr b).2.readDr b).1).2 } := rfl

theorem syncRead_total (h : Settled b buffered reg₀ accepted delivered dev) :
    ∃ result, dev.syncRead b = some result ∧
      Settled b buffered reg₀ accepted delivered result.2 := by
  refine Loop.untilReturn_total (fun dev => dev.rx.available) (fun dev h => ?_) h
    (Nat.lt_succ_self _)
  rw [syncReadRound_eq]
  cases hempty : (dev.readFr b).1.2 with
  | true => exact .inr ⟨_, rfl, h.readFr⟩
  | false =>
    simp only [Bool.false_eq_true, if_false]
    by_cases hfull : dev.rx.available = 0
    · exact .inr ⟨_, if_pos hfull, h.readFr⟩
    · have hlog := readFr_log (b := b) dev
      rw [hempty] at hlog
      have hnext := h.readFr.readDr hlog hempty hfull
      refine .inl ⟨_, if_neg hfull, hnext, ?_⟩
      have hroom : dev.rx.size ≠ dev.rx.capacity := by
        rw [Ring.available_eq h.rxRing] at hfull
        omega
      have hsize := Ring.size_write h.rxRing hroom ((dev.readFr b).2.readDr b).1
      have hle := h.rxRing.size_le
      rw [Ring.available_eq hnext.rxRing, Ring.available_eq h.rxRing]
      change (dev.rx.write _).2.capacity - (dev.rx.write _).2.size < _
      rw [Ring.capacity_write, hsize]
      omega

/-! ## The calls -/

theorem Settled.ringWrite (h : Settled b buffered reg₀ accepted delivered dev)
    (hroom : dev.tx.size ≠ dev.tx.capacity) (c : UInt8) :
    Sound b reg₀ (accepted ++ [c]) delivered { dev with tx := (dev.tx.write c).2 } :=
  { h.toSound with
    txRing := Ring.write_wellFormed h.txRing c
    accepted := by rw [h.accepted, Ring.toList_write h.txRing hroom, List.append_assoc] }

theorem writeLoop_total {src : Nat → UInt8} (left : Nat) {idx : Nat}
    (h : Settled b buffered reg₀ (accepted ++ (List.range idx).map src) delivered dev) :
    ∃ idx' dev', writeLoop b src left idx dev = some (idx', dev') ∧ idx' ≤ idx + left ∧
      Settled b buffered reg₀ (accepted ++ (List.range idx').map src) delivered dev' := by
  induction left generalizing idx dev with
  | zero => exact ⟨idx, dev, rfl, Nat.le_refl _, h⟩
  | succ left ih =>
    by_cases hfull : dev.tx.size = dev.tx.capacity
    · refine ⟨idx, dev, ?_, Nat.le_add_right .., h⟩
      rw [writeLoop, Ring.write_of_full hfull]
      rfl
    · have hsound := h.ringWrite hfull (src idx)
      rw [List.append_assoc, ← List.map_singleton, ← List.map_append, ← List.range_succ] at hsound
      obtain ⟨⟨res, dev'⟩, hsync, hsettled⟩ := syncWrite_total hsound
      obtain ⟨idx', dev'', hrun, hle, hend⟩ := ih hsettled
      refine ⟨idx', dev'', ?_, by omega, hend⟩
      rw [writeLoop]
      simp only [Ring.write_fst_of_room hfull, hsync, hrun, Int.lt_irrefl, if_false]

/-- A write returns some `r ≤ n`, and the first `r` bytes of `src` are accepted. -/
theorem kdevWrite_total (h : Settled b buffered reg₀ accepted delivered dev) (src : Nat → UInt8) (n : Nat) :
    ∃ r dev', dev.kdevWrite b src n = some (r, dev') ∧ 0 ≤ r ∧ r ≤ n ∧
      Settled b buffered reg₀ (accepted ++ (List.range r.toNat).map src) delivered dev' := by
  have h₀ : Settled b buffered reg₀ (accepted ++ (List.range 0).map src) delivered dev := by simpa using h
  obtain ⟨idx, dev', hrun, hle, hend⟩ := writeLoop_total n h₀
  refine ⟨idx, dev', by rw [kdevWrite, hrun]; rfl, by omega, by omega, ?_⟩
  rwa [Int.toNat_natCast]

theorem Settled.ringRead (h : Settled b buffered reg₀ accepted delivered dev) (hne : dev.rx.size ≠ 0) :
    ∃ c : UInt8, dev.rx.read.1 = c.toNat ∧
      Settled b buffered reg₀ accepted (delivered ++ [c]) { dev with rx := dev.rx.read.2 } := by
  obtain ⟨c, hc, hlist⟩ := Ring.toList_read h.rxRing hne
  refine ⟨c, hc, { h.toSound with rxRing := Ring.read_wellFormed h.rxRing, popped := ?_ }, ?_⟩
  · rw [h.popped, hlist, List.append_assoc, List.singleton_append]
  · exact fun hb hne => ⟨(h.waits hb hne).sawFull, (h.waits hb hne).pending⟩

theorem map_range_update (dst : Nat → UInt8) (idx : Nat) (c : UInt8) :
    (List.range (idx + 1)).map (Function.update dst idx c) = (List.range idx).map dst ++ [c] := by
  rw [List.range_succ, List.map_append, List.map_singleton, Function.update_self]
  congr 1
  exact List.map_congr_left fun i hi => Function.update_of_ne (List.mem_range.mp hi).ne _ _

theorem readLoop_total {dst : Nat → UInt8} (left : Nat) {idx : Nat}
    (h : Settled b buffered reg₀ accepted (delivered ++ (List.range idx).map dst) dev) :
    ∃ idx' dst' dev', readLoop b left idx dst dev = some (idx', dst', dev') ∧ idx' ≤ idx + left ∧
      Settled b buffered reg₀ accepted (delivered ++ (List.range idx').map dst') dev' := by
  induction left generalizing idx dst dev with
  | zero => exact ⟨idx, dst, dev, rfl, Nat.le_refl _, h⟩
  | succ left ih =>
    obtain ⟨⟨res, dev'⟩, hsync, hsettled⟩ := syncRead_total h
    by_cases hempty : dev'.rx.size = 0
    · refine ⟨idx, dst, dev', ?_, Nat.le_add_right .., hsettled⟩
      rw [readLoop, hsync]
      simp only [Ring.read_of_empty hempty]
      rfl
    · obtain ⟨c, hc, hread⟩ := hsettled.ringRead hempty
      rw [List.append_assoc, ← map_range_update dst idx c] at hread
      obtain ⟨idx', dst', dev'', hrun, hle, hend⟩ := ih hread
      refine ⟨idx', dst', dev'', ?_, by omega, hend⟩
      rw [readLoop, hsync]
      simp only [hc, Int.toNat_natCast, UInt8.ofNat_toNat, hrun]
      exact if_neg (by omega)

/-- A read returns some `r ≤ n`, having put `r` bytes at `dst`. -/
theorem kdevRead_total (h : Settled b buffered reg₀ accepted delivered dev) (dst : Nat → UInt8) (n : Nat) :
    ∃ r dst' dev', dev.kdevRead b dst n = some (r, dst', dev') ∧ 0 ≤ r ∧ r ≤ n ∧
      Settled b buffered reg₀ accepted (delivered ++ (List.range r.toNat).map dst') dev' := by
  have h₀ : Settled b buffered reg₀ accepted (delivered ++ (List.range 0).map dst) dev := by simpa using h
  obtain ⟨idx, dst', dev', hrun, hle, hend⟩ := readLoop_total n h₀
  refine ⟨idx, dst', dev', by rw [kdevRead, hrun]; rfl, by omega, by omega, ?_⟩
  rwa [Int.toNat_natCast]

theorem kdevPoolOut_eq (dev : DevUart) (c : UInt8) : dev.kdevPoolOut b c =
    if (dev.readFr b).1.1 then (Kstatus.devIoTxWait, (dev.readFr b).2) else
      (Kstatus.devIoOk, (dev.readFr b).2.writeDr b c) := rfl

theorem kdevIsr_total (h : Settled b buffered reg₀ accepted delivered dev) (mis : BitVec 32) :
    ∃ dev', dev.kdevIsr b mis = some dev' ∧ Settled b buffered reg₀ accepted delivered dev' := by
  have hmis := h.readMis (b := b) mis
  obtain ⟨dev₁, htx, h₁⟩ : ∃ dev₁, (if mis.getLsbD 5 then
      ((dev.readMis b mis).syncWrite b).map Prod.snd else some (dev.readMis b mis)) = some dev₁ ∧
      Settled b buffered reg₀ accepted delivered dev₁ := by
    cases mis.getLsbD 5 with
    | true =>
      obtain ⟨result, hrun, hend⟩ := syncWrite_total hmis.toSound
      exact ⟨result.2, by rw [hrun]; rfl, hend⟩
    | false => exact ⟨_, rfl, hmis⟩
  obtain ⟨dev₂, hrx, h₂⟩ : ∃ dev₂, (if mis.getLsbD 4 then
      (dev₁.syncRead b).map Prod.snd else some dev₁) = some dev₂ ∧
      Settled b buffered reg₀ accepted delivered dev₂ := by
    cases mis.getLsbD 4 with
    | true =>
      obtain ⟨result, hrun, hend⟩ := syncRead_total h₁
      exact ⟨result.2, by rw [hrun]; rfl, hend⟩
    | false => exact ⟨_, rfl, h₁⟩
  refine ⟨dev₂, ?_, h₂⟩
  rw [kdevIsr]
  simp only [htx, Option.bind_some, hrx]

/-- Output past the ring is sound too; only the ring may now wait with no good reason. -/
theorem kdevPoolOut_sound (h : Sound b reg₀ accepted delivered dev) (c : UInt8) :
    ∃ accepted', Sound b reg₀ accepted' delivered (dev.kdevPoolOut b c).2 := by
  cases hfull : (dev.readFr b).1.1 with
  | true => exact ⟨accepted, by rw [kdevPoolOut_eq, if_pos hfull]; exact h.readFr⟩
  | false =>
    have hroom : (dev.readFr b).2.reg.txFifo.length < b.depth := by
      simpa [readFr_txff, Uart.txff] using hfull
    have hlog := readFr_log (b := b) dev
    rw [hfull] at hlog
    have hnext := h.readFr.writeDr hlog hroom h.txRing (c := c) rfl
    rw [kdevPoolOut_eq, if_neg (by rw [hfull]; exact Bool.false_ne_true)]
    exact ⟨_, hnext⟩

end DevUart

/-! ## Runs -/

/-- The driver in use: what callers have handed over and received so far, in
the order of their calls. -/
structure UartSession where
  dev : DevUart
  accepted : List UInt8
  delivered : List UInt8

/-- What may happen next: a call from the kernel, for fewer than `2 ^ 31` bytes,
an interrupt with any `MIS`, or a move of the device. Calls run with interrupts
locked, so none of these falls into another. -/
inductive UartOp
  | write (src : Nat → UInt8) (n : Nat) (hn : n < 2 ^ 31)
  | read (dst : Nat → UInt8) (n : Nat) (hn : n < 2 ^ 31)
  | isr (mis : BitVec 32)
  | hardware (m : UartMove)

namespace UartSession

variable (b : Board)

def start (reg : Uart) (txBuf rxBuf : Nat → UInt8) : UartSession :=
  { dev := DevUart.init reg txBuf rxBuf, accepted := [], delivered := [] }

/-- A write that returns `r` has accepted the first `r` bytes at `src`, a read
that returns `r` has delivered the first `r` bytes at `dst`. -/
def step (s : UartSession) : UartOp → Option UartSession
  | .write src n _ =>
    (s.dev.kdevWrite b src n).map fun (r, dev) =>
      { s with dev, accepted := s.accepted ++ (List.range r.toNat).map src }
  | .read dst n _ =>
    (s.dev.kdevRead b dst n).map fun (r, dst, dev) =>
      { s with dev, delivered := s.delivered ++ (List.range r.toNat).map dst }
  | .isr mis => (s.dev.kdevIsr b mis).map fun dev => { s with dev }
  | .hardware m => some { s with dev := { s.dev with reg := s.dev.reg.move b m } }

def run : List UartOp → UartSession → Option UartSession
  | [], s => some s
  | op :: ops, s => (s.step b op).bind (run ops)

/-- The invariant of a run that began with the device `reg₀`. -/
def Settled (reg₀ : Uart) (s : UartSession) : Prop :=
  DevUart.Settled b True reg₀ s.accepted s.delivered s.dev

variable {b : Board} {reg₀ : Uart}

theorem Settled.step {s : UartSession} (h : s.Settled b reg₀) (op : UartOp) :
    ∃ s', s.step b op = some s' ∧ s'.Settled b reg₀ := by
  cases op with
  | write src n _ =>
    obtain ⟨r, dev, hrun, -, -, hend⟩ := DevUart.kdevWrite_total h src n
    exact ⟨{ s with dev, accepted := s.accepted ++ (List.range r.toNat).map src },
      by rw [UartSession.step, hrun]; rfl, hend⟩
  | read dst n _ =>
    obtain ⟨r, dst', dev, hrun, -, -, hend⟩ := DevUart.kdevRead_total h dst n
    exact ⟨{ s with dev, delivered := s.delivered ++ (List.range r.toNat).map dst' },
      by rw [UartSession.step, hrun]; rfl, hend⟩
  | isr mis =>
    obtain ⟨dev, hrun, hend⟩ := DevUart.kdevIsr_total h mis
    exact ⟨{ s with dev }, by rw [UartSession.step, hrun]; rfl, hend⟩
  | hardware m => exact ⟨_, rfl, DevUart.Settled.moves h (.move _ m)⟩

theorem Settled.run {s : UartSession} (h : s.Settled b reg₀) (ops : List UartOp) :
    ∃ s', run b ops s = some s' ∧ s'.Settled b reg₀ := by
  induction ops generalizing s with
  | nil => exact ⟨s, rfl, h⟩
  | cons op ops ih =>
    obtain ⟨s₁, hstep, h₁⟩ := h.step op
    obtain ⟨s₂, hrun, h₂⟩ := ih h₁
    exact ⟨s₂, by rw [UartSession.run, hstep, Option.bind_some, hrun], h₂⟩

theorem start_settled (hbound : reg₀.txFifo.length ≤ b.depth) (hsent : reg₀.sent = [])
    (harrived : reg₀.arrived = []) (txBuf rxBuf : Nat → UInt8) :
    (start reg₀ txBuf rxBuf).Settled b reg₀ where
  txRing := Ring.init_wellFormed txBuf (by decide) (by decide)
  rxRing := Ring.init_wellFormed rxBuf (by decide) (by decide)
  accepted := rfl
  popped := rfl
  checked := .nil
  bounded := hbound
  sent := by simp [start, DevUart.init, DevUart.written, hsent]
  arrived := by simp [start, DevUart.init, DevUart.popped, harrived]
  waits := fun _ h => absurd (Ring.toList_init ..) h

/-- The buffered path neither loses, duplicates, invents nor reorders bytes, and
strands none. Every call returns; what callers handed over is what was written
to `DR` followed by the transmit ring, what was read from `DR` is what callers
received followed by the receive ring; `DR` is written only right after `TXFF`
was read as clear and read only right after `RXFE` was read as clear, with room
in the ring; bytes in the transmit ring wait for a FIFO that was full when last
looked at. The FIFOs account for the rest of the way. -/
theorem run_faithful (hbound : reg₀.txFifo.length ≤ b.depth) (hsent : reg₀.sent = [])
    (harrived : reg₀.arrived = []) (txBuf rxBuf : Nat → UInt8) (ops : List UartOp) :
    ∃ s, run b ops (start reg₀ txBuf rxBuf) = some s ∧
      s.accepted = DevUart.written s.dev.log ++ s.dev.tx.toList ∧
      DevUart.popped s.dev.log = s.delivered ++ s.dev.rx.toList ∧
      DevUart.Checked s.dev.log ∧
      (s.dev.tx.toList ≠ [] → DevUart.Stalled b s.dev) ∧
      reg₀.txFifo ++ DevUart.written s.dev.log = s.dev.reg.sent ++ s.dev.reg.txFifo ∧
      reg₀.rxFifo ++ s.dev.reg.arrived = DevUart.popped s.dev.log ++ s.dev.reg.rxFifo := by
  obtain ⟨s, hrun, h⟩ := (start_settled hbound hsent harrived txBuf rxBuf).run ops
  exact ⟨s, hrun, h.accepted, h.popped, h.checked, h.waits trivial, h.sent, h.arrived⟩

/-- A device with FIFOs of two bytes that sends a byte before every seventh access. -/
def slowBoard : Board :=
  { depth := 2, trigger := 1, trigger_lt := by decide
    moves := fun i => if i % 7 = 6 then [.send] else [] }

def idleUart : Uart := { txFifo := [], rxFifo := [], txris := false, sent := [], arrived := [] }

/-- Five bytes written at once, of which some still wait when the first interrupt
comes. -/
def burst : List UartOp :=
  [.write (fun i => UInt8.ofNat i) 5 (by decide), .isr 0x20#32, .hardware (.receive 7),
    .isr 0x10#32, .read (fun _ => 0) 2 (by decide)]

theorem run_faithful_burst :
    ∃ s, run slowBoard burst (start idleUart (fun _ => 0) (fun _ => 0)) = some s ∧
      s.accepted = DevUart.written s.dev.log ++ s.dev.tx.toList ∧
      DevUart.popped s.dev.log = s.delivered ++ s.dev.rx.toList ∧
      DevUart.Checked s.dev.log ∧
      (s.dev.tx.toList ≠ [] → DevUart.Stalled slowBoard s.dev) ∧
      idleUart.txFifo ++ DevUart.written s.dev.log = s.dev.reg.sent ++ s.dev.reg.txFifo ∧
      idleUart.rxFifo ++ s.dev.reg.arrived = DevUart.popped s.dev.log ++ s.dev.reg.rxFifo :=
  run_faithful (by decide) rfl rfl _ _ burst

end UartSession

end PiVOS
