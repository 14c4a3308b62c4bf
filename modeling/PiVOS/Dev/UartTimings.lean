-- SUMMARY: How far calls of the UART driver get, by what the device does meanwhile.
import PiVOS.Dev.UartMixed

/-!
# Timings of the UART

Whatever the device does, a read gives the bytes that are there first. A device that sends
everything at once lets a write get to its end, and one that always has a byte at hand
when the driver has none does so for a read, with any bytes behind those that are there.
-/

namespace PiVOS

/-- The same board with other moves. -/
def Board.timed (b : Board) (moves : Nat → List UartMove) : Board := { b with moves }

namespace DevUart

variable {b : Board} {reg₀ : Uart} {accepted delivered : List UInt8} {dev dev' dev'' : DevUart}

/-- What is known of the bytes does not depend on what the device will do. -/
theorem Sound.timed (h : Sound b reg₀ accepted delivered dev) (moves : Nat → List UartMove) :
    Sound (b.timed moves) reg₀ accepted delivered dev :=
  ⟨h.txRing, h.rxRing, h.accepted, h.popped, h.checked, h.bounded, h.sent, h.arrived⟩

/-! ## Writes -/

/-- With a full ring nothing is written. -/
theorem kdevWrite_of_full (hfull : dev.tx.size = dev.tx.capacity) (src : Nat → UInt8) (n : Nat) :
    dev.kdevWrite b src n = some (0, dev) := by
  cases n with
  | zero => rfl
  | succ n =>
    rw [kdevWrite, writeLoop, Ring.write_of_full hfull]
    rfl

/-- Before every access all that is in the transmit FIFO is sent. -/
def eager (b : Board) : Board := b.timed fun _ => List.replicate b.depth .send

theorem txFifo_sends {n : Nat} {reg : Uart} (h : reg.txFifo.length ≤ n) :
    ((List.replicate n .send).foldl (Uart.move b) reg).txFifo = [] := by
  induction n generalizing reg with
  | zero => exact List.eq_nil_of_length_eq_zero (Nat.le_zero.mp h)
  | succ n ih =>
    rw [List.replicate_succ, List.foldl_cons]
    refine ih ?_
    cases htx : reg.txFifo with
    | nil =>
      simp only [Uart.move, htx]
      exact Nat.zero_le _
    | cons c rest =>
      rw [htx, List.length_cons] at h
      simp only [Uart.move, htx]
      omega

theorem settle_eager (h : dev.reg.txFifo.length ≤ b.depth) : (dev.settle (eager b)).reg.txFifo = [] :=
  txFifo_sends h

theorem readFr_eager (h : dev.reg.txFifo.length ≤ b.depth) : (dev.readFr (eager b)).1.1 = false := by
  have hpos : 0 < b.depth := Nat.lt_of_le_of_lt (Nat.zero_le _) b.trigger_lt
  rw [readFr_txff, Uart.txff, decide_eq_false_iff_not, Nat.not_le]
  exact (congrArg List.length (settle_eager h)).trans_lt hpos

theorem length_writeDr (h : dev.reg.txFifo.length ≤ b.depth) (c : UInt8) :
    (dev.writeDr b c).reg.txFifo.length ≤ b.depth := by
  have hsettled := Nat.le_trans (settle_moves (b := b) dev).length_le h
  rw [writeDr, Uart.push]
  split_ifs with hroom
  · rw [List.length_append, List.length_singleton]
    exact hroom
  · exact hsettled

/-- The transmit loop empties the ring. -/
theorem syncWrite_eager (h : dev.reg.txFifo.length ≤ b.depth) {r : Int}
    (hrun : dev.syncWrite (eager b) = some (r, dev')) : dev'.tx.size = 0 := by
  refine Loop.untilReturn_post (I := fun dev => dev.reg.txFifo.length ≤ b.depth)
    (Q := fun dev => dev.tx.size = 0) (fun dev h => ?_) h hrun
  have hlook := readFr_eager h
  rw [syncWriteRound_eq]
  simp only [hlook, Bool.false_eq_true, if_false]
  constructor
  · intro dev' hround
    split_ifs at hround
    obtain rfl := Sum.inl.inj hround
    exact length_writeDr (b := eager b) (Nat.le_trans (settle_moves dev).length_le h) _
  · intro r dev' hround
    split_ifs at hround with hnone
    obtain ⟨-, rfl⟩ := Prod.mk.inj (Sum.inr.inj hround)
    by_cases hsize : dev.tx.size = 0
    · simpa only [Ring.read_of_empty hsize] using hsize
    · rw [Ring.read, if_neg hsize] at hnone
      exact absurd hnone (Int.not_lt.mpr (Int.natCast_nonneg _))

theorem writeLoop_eager {src : Nat → UInt8} {left idx idx' : Nat}
    (h : Sound (eager b) reg₀ accepted delivered dev) (hroom : dev.tx.size ≠ dev.tx.capacity)
    (hrun : writeLoop (eager b) src left idx dev = some (idx', dev')) : idx' = idx + left := by
  induction left generalizing idx dev accepted with
  | zero => exact (Prod.mk.inj (Option.some.inj hrun)).1.symm
  | succ left ih =>
    have hsound := h.settled.ringWrite hroom (src idx)
    obtain ⟨⟨r, dev₁⟩, hsync, hsettled⟩ : ∃ result,
        { dev with tx := (dev.tx.write (src idx)).2 }.syncWrite (eager b) = some result ∧
        Settled (eager b) True reg₀ (accepted ++ [src idx]) delivered result.2 := syncWrite_total hsound
    rw [writeLoop] at hrun
    simp only [Ring.write_fst_of_room hroom, hsync, Int.lt_irrefl, if_false] at hrun
    have hempty := syncWrite_eager hsound.bounded hsync
    rw [ih hsettled.toSound (by rw [hempty]; exact hsettled.txRing.capacity_pos.ne) hrun]
    omega

/-- Such a device lets a write get to its end, unless it finds the ring full. -/
theorem kdevWrite_eager (h : Sound b reg₀ accepted delivered dev) (hroom : dev.tx.size ≠ dev.tx.capacity)
    (src : Nat → UInt8) (n : Nat) : ∃ dev', dev.kdevWrite (eager b) src n = some ((n : Int), dev') := by
  have hsound : Sound (eager b) reg₀ accepted delivered dev := h.timed _
  have hsettled : Settled (eager b) False reg₀ (accepted ++ (List.range 0).map src) delivered dev := by
    simpa using hsound.settled
  obtain ⟨idx, dev', hrun, -, -⟩ := writeLoop_total n hsettled
  refine ⟨dev', ?_⟩
  rw [kdevWrite, hrun, writeLoop_eager hsound hroom hrun, Nat.zero_add]
  rfl

/-! ## What a read gives -/

/-- The bytes that are there to be read. -/
def present (dev : DevUart) : List UInt8 := dev.rx.toList ++ dev.reg.rxFifo

theorem present_settle (dev : DevUart) : present dev <+: present (dev.settle b) := by
  obtain ⟨cs, hrx, -⟩ := (settle_moves (b := b) dev).receives
  rw [present, present, hrx, settle_rx]
  exact (List.prefix_append_right_inj _).mpr (List.prefix_append _ cs)

/-- Moving a byte from `DR` to the ring takes none away. -/
theorem present_readDr (hring : dev.rx.WellFormed) (hne : dev.reg.rxfe = false) (hroom : dev.rx.available ≠ 0) :
    present dev <+: present { (dev.readDr b).2 with rx := ((dev.readDr b).2.rx.write (dev.readDr b).1).2 } := by
  refine (present_settle (b := b) dev).trans ?_
  obtain ⟨c, rest, hfifo⟩ : ∃ c rest, (dev.settle b).reg.rxFifo = c :: rest := by
    obtain ⟨cs, hrx, -⟩ := (settle_moves (b := b) dev).receives
    cases hold : dev.reg.rxFifo with
    | nil => simp [Uart.rxfe, hold] at hne
    | cons c rest => exact ⟨c, rest ++ cs, by rw [hrx, hold, List.cons_append]⟩
  rw [Ring.available_eq hring] at hroom
  have hlist := Ring.toList_write hring (show dev.rx.size ≠ dev.rx.capacity by omega) c
  simp only [present, readDr, Uart.front, Uart.pop, hfifo, List.headD_cons, List.tail_cons, settle_rx, hlist,
    List.append_assoc, List.singleton_append, List.prefix_refl]

/-- The receive loop loses nothing, and leaves an empty ring only when there was no more. -/
theorem syncRead_gives (hring : dev.rx.WellFormed) : ∃ r dev', dev.syncRead b = some (r, dev') ∧
    dev'.rx.WellFormed ∧ present dev <+: present dev' ∧ (dev'.rx.size = 0 → dev'.reg.rxFifo = []) := by
  suffices h : ∃ result, dev.syncRead b = some result ∧ result.2.rx.WellFormed ∧
      present dev <+: present result.2 ∧ (result.2.rx.size = 0 → result.2.reg.rxFifo = []) by
    obtain ⟨⟨r, dev'⟩, hrun, hend⟩ := h
    exact ⟨r, dev', hrun, hend⟩
  refine Loop.untilReturn_total (I := fun s => s.rx.WellFormed ∧ present dev <+: present s)
    (fun s => s.rx.available) (fun s hs => ?_) ⟨hring, List.prefix_refl _⟩ (Nat.lt_succ_self _)
  obtain ⟨hring, hs⟩ := hs
  have hlook : present dev <+: present (s.readFr b).2 := hs.trans (present_settle s)
  rw [syncReadRound_eq]
  cases hempty : (s.readFr b).1.2 with
  | true => exact .inr ⟨_, rfl, hring, hlook, fun _ => List.isEmpty_iff.mp hempty⟩
  | false =>
    simp only [Bool.false_eq_true, if_false]
    have havail := Ring.available_eq hring
    by_cases hfull : s.rx.available = 0
    · refine .inr ⟨_, if_pos hfull, hring, hlook, fun (hzero : s.rx.size = 0) => ?_⟩
      have hpos := hring.capacity_pos
      omega
    · have hring' := Ring.write_wellFormed hring ((s.readFr b).2.readDr b).1
      refine .inl ⟨_, if_neg hfull, ⟨hring', hlook.trans (present_readDr hring hempty hfull)⟩, ?_⟩
      have hsize := Ring.size_write hring (show s.rx.size ≠ s.rx.capacity by omega) ((s.readFr b).2.readDr b).1
      change (s.rx.write _).2.available < s.rx.available
      rw [Ring.available_eq hring', Ring.capacity_write, hsize]
      omega

/-- A read that stops early has taken everything. -/
theorem readLoop_gives (hring : dev.rx.WellFormed) (dst : Nat → UInt8) (left idx : Nat) :
    ∃ idx' dst' dev', readLoop b left idx dst dev = some (idx', dst', dev') ∧ idx' ≤ idx + left ∧
      (idx' < idx + left → present dev' = []) ∧
      (List.range idx).map dst ++ present dev <+: (List.range idx').map dst' ++ present dev' := by
  induction left generalizing idx dst dev with
  | zero =>
    exact ⟨idx, dst, dev, rfl, Nat.le_refl _, fun hlt => absurd hlt (Nat.lt_irrefl _), List.prefix_refl _⟩
  | succ left ih =>
    obtain ⟨r, dev₁, hsync, hring₁, hpresent, hnone⟩ := syncRead_gives (b := b) hring
    have hgiven := (List.prefix_append_right_inj ((List.range idx).map dst)).mpr hpresent
    rw [readLoop, hsync]
    by_cases hempty : dev₁.rx.size = 0
    · refine ⟨idx, dst, dev₁, ?_, Nat.le_add_right .., fun _ => ?_, hgiven⟩
      · simp only [Ring.read_of_empty hempty]
        rfl
      · rw [present, Ring.toList_eq_nil.mpr hempty, hnone hempty, List.append_nil]
    · obtain ⟨c, hc, hlist⟩ := Ring.toList_read hring₁ hempty
      have hring₂ : { dev₁ with rx := dev₁.rx.read.2 }.rx.WellFormed := Ring.read_wellFormed hring₁
      obtain ⟨idx', dst', dev', hrun, hle, hend, hrest⟩ := ih hring₂ (Function.update dst idx c) (idx + 1)
      rw [map_range_update, List.append_assoc] at hrest
      have htaken : present dev₁ = c :: present { dev₁ with rx := dev₁.rx.read.2 } :=
        congrArg (· ++ dev₁.reg.rxFifo) hlist
      rw [htaken] at hgiven
      refine ⟨idx', dst', dev', ?_, by omega, fun hlt => hend (by omega), hgiven.trans hrest⟩
      simp only [hc, Int.toNat_natCast, UInt8.ofNat_toNat, hrun]
      exact if_neg (Int.not_lt.mpr (Int.natCast_nonneg _))

/-- What a read gives begins with what was there, as far as it was asked for. -/
theorem kdevRead_gives (hring : dev.rx.WellFormed) (dst : Nat → UInt8) (n : Nat) :
    ∃ (r : Nat) (bytes : Nat → UInt8) (dev' : DevUart), dev.kdevRead b dst n = some ((r : Int), bytes, dev') ∧
      r ≤ n ∧ (present dev).take n <+: (List.range r).map bytes := by
  obtain ⟨r, bytes, dev', hrun, hle, hend, hgiven⟩ := readLoop_gives (b := b) hring dst n 0
  have hfirst := (List.take_prefix n _).trans hgiven
  rw [List.range_zero, List.map_nil, List.nil_append] at hfirst
  refine ⟨r, bytes, dev', by rw [kdevRead, hrun]; rfl, by omega, ?_⟩
  rcases Nat.lt_or_ge r n with hlt | hge
  · rwa [hend (by omega), List.append_nil] at hfirst
  · refine List.prefix_of_prefix_length_le hfirst (List.prefix_append _ _) ?_
    rw [List.length_take, List.length_map, List.length_range]
    omega

/-! ## Reads that get to their end -/

/-- The next byte of `line` arrives whenever the driver looks for one and has none: it makes two
accesses for each byte that it moves to the ring, and one more for each that it hands over, so
that it has handed over what there was at access `start`, and then a byte every three accesses. -/
def feeding (b : Board) (start : Nat) (line : Nat → UInt8) : Board :=
  b.timed fun i => if start ≤ i ∧ (i - start) % 3 = 0 then [.receive (line ((i - start) / 3))] else []

/-- A state in which the driver is about to look for the first time since `count` bytes came. -/
structure Fed (start count : Nat) (line : Nat → UInt8) (before : List UInt8) (dev : DevUart) : Prop where
  clock : dev.log.length + 3 * dev.reg.rxFifo.length + dev.rx.size = start + 3 * count
  late : 0 < count → dev.reg.rxFifo = [] ∧ dev.rx.size ≤ 1
  arrived : dev.reg.arrived = before ++ (List.range count).map line

variable {start count : Nat} {line : Nat → UInt8} {before : List UInt8}

theorem settle_feeding_quiet (h : ¬(start ≤ dev.log.length ∧ (dev.log.length - start) % 3 = 0)) :
    dev.settle (feeding b start line) = dev := by
  simp only [settle, feeding, Board.timed, if_neg h, List.foldl_nil]

/-- The byte arrives when the driver has none. -/
theorem Fed.settle_none (h : Fed start count line before dev) (hfifo : dev.reg.rxFifo = [])
    (hring : dev.rx.size = 0) : dev.settle (feeding b start line) =
      { dev with reg := { dev.reg with
          rxFifo := [line count], arrived := dev.reg.arrived ++ [line count] } } := by
  have hclock := h.clock
  rw [hfifo, hring, List.length_nil] at hclock
  have hmoves : (feeding b start line).moves dev.log.length = [.receive (line count)] := by
    have hat : dev.log.length - start = 3 * count := by omega
    simp only [feeding, Board.timed, hat]
    rw [if_pos ⟨by omega, by omega⟩, Nat.mul_div_cancel_left count (by decide)]
  have hroom : dev.reg.rxFifo.length < (feeding b start line).depth := by
    rw [hfifo]
    exact Nat.lt_of_le_of_lt (Nat.zero_le _) b.trigger_lt
  rw [settle, hmoves, List.foldl_cons, List.foldl_nil, Uart.move, if_pos hroom, hfifo, List.nil_append]

/-- Otherwise nothing happens. -/
theorem Fed.settle_some (h : Fed start count line before dev) (hsome : dev.reg.rxFifo ≠ [] ∨ dev.rx.size ≠ 0) :
    dev.settle (feeding b start line) = dev := by
  have hclock := h.clock
  refine settle_feeding_quiet fun hat => ?_
  rcases Nat.eq_zero_or_pos count with rfl | hpos
  · rw [← List.length_pos_iff] at hsome
    omega
  · obtain ⟨hfifo, hring⟩ := h.late hpos
    have hone := hsome.resolve_left fun hne => hne hfifo
    rw [hfifo, List.length_nil] at hclock
    omega

/-- A byte moved to the ring while the device does nothing. -/
theorem readDr_write {c : UInt8} {rest : List UInt8} (hquiet : dev.settle b = dev)
    (hfifo : dev.reg.rxFifo = c :: rest) (hring : dev.rx.WellFormed) (hroom : ¬dev.rx.available = 0)
    (hdev : dev' = { (dev.readDr b).2 with rx := ((dev.readDr b).2.rx.write (dev.readDr b).1).2 }) :
    dev'.log.length = dev.log.length + 1 ∧ dev'.reg.rxFifo = rest ∧ dev'.rx.size = dev.rx.size + 1 ∧
      dev'.reg.arrived = dev.reg.arrived := by
  rw [Ring.available_eq hring] at hroom
  have hsize := Ring.size_write hring (show dev.rx.size ≠ dev.rx.capacity by omega) c
  simp only [readDr, hquiet, Uart.front, Uart.pop, hfifo, List.headD_cons, List.tail_cons] at hdev
  subst hdev
  exact ⟨List.length_append, rfl, hsize, rfl⟩

/-- The driver has looked, and goes on. -/
theorem Fed.moved {count' : Nat} {c : UInt8} {rest : List UInt8}
    (hquiet : ¬(start ≤ dev.log.length ∧ (dev.log.length - start) % 3 = 0))
    (hfifo : dev.reg.rxFifo = c :: rest) (hring : dev.rx.WellFormed) (hroom : ¬dev.rx.available = 0)
    (hclock : dev.log.length + 3 * rest.length + dev.rx.size + 2 = start + 3 * count')
    (hlate : 0 < count' → rest = [] ∧ dev.rx.size = 0)
    (harrived : dev.reg.arrived = before ++ (List.range count').map line)
    (hdev : dev' = { (dev.readDr (feeding b start line)).2 with
      rx := ((dev.readDr (feeding b start line)).2.rx.write (dev.readDr (feeding b start line)).1).2 }) :
    Fed start count' line before dev' := by
  obtain ⟨hlog, hfifo', hsize, harrived'⟩ :=
    readDr_write (settle_feeding_quiet hquiet) hfifo hring hroom hdev
  refine ⟨by rw [hlog, hfifo', hsize]; omega, fun hpos => ?_, harrived'.trans harrived⟩
  obtain ⟨hrest, hzero⟩ := hlate hpos
  exact ⟨hfifo'.trans hrest, by omega⟩

/-- A look while nothing arrives. -/
theorem Fed.looked (h : Fed start count line before dev) (hsome : dev.reg.rxFifo ≠ [] ∨ dev.rx.size ≠ 0) :
    (dev.readFr (feeding b start line)).2.reg = dev.reg ∧
      Fed (start + 1) count line before (dev.readFr (feeding b start line)).2 := by
  have hclock := h.clock
  have hreg : (dev.readFr (feeding b start line)).2.reg = dev.reg :=
    congrArg (·.reg) (h.settle_some (b := b) hsome)
  have hlook : (dev.readFr (feeding b start line)).2.log.length = dev.log.length + 1 := List.length_append
  have hrx : (dev.readFr (feeding b start line)).2.rx = dev.rx := rfl
  refine ⟨hreg, ?_, ?_, ?_⟩
  · rw [hlook, hreg, hrx]
    omega
  · rw [hreg, hrx]
    exact h.late
  · rw [hreg]
    exact h.arrived

/-- The byte that arrives while the driver has none is the one that it moves. -/
theorem Fed.round_none (h : Fed start count line before dev) (hring : dev.rx.WellFormed)
    (hfifo : dev.reg.rxFifo = []) (hsize : dev.rx.size = 0) :
    ∃ dev', dev.syncReadRound (feeding b start line) = .inl dev' ∧ Fed start (count + 1) line before dev' := by
  have hclock := h.clock
  rw [hfifo, hsize, List.length_nil] at hclock
  have hlook : (dev.readFr (feeding b start line)).2.log.length = dev.log.length + 1 := List.length_append
  have hrx : (dev.readFr (feeding b start line)).2.rx = dev.rx := rfl
  have hreg : (dev.readFr (feeding b start line)).2.reg =
      { dev.reg with rxFifo := [line count], arrived := dev.reg.arrived ++ [line count] } :=
    congrArg (·.reg) (h.settle_none (b := b) hfifo hsize)
  have hfe : (dev.readFr (feeding b start line)).1.2 = false := congrArg Uart.rxfe hreg
  have hroom : ¬dev.rx.available = 0 := by
    rw [Ring.available_eq hring, hsize]
    exact hring.capacity_pos.ne'
  have hmoved : (dev.readFr (feeding b start line)).2.reg.rxFifo = [line count] := congrArg Uart.rxFifo hreg
  have harrived : (dev.readFr (feeding b start line)).2.reg.arrived =
      before ++ (List.range (count + 1)).map line := by
    refine (congrArg Uart.arrived hreg).trans ?_
    rw [h.arrived, List.range_succ, List.map_append, List.append_assoc]
    rfl
  rw [syncReadRound_eq, hfe, if_neg Bool.false_ne_true, if_neg hroom]
  refine ⟨_, rfl, .moved ?_ hmoved (hrx ▸ hring) (hrx ▸ hroom) ?_ (fun _ => ⟨rfl, hrx ▸ hsize⟩) harrived rfl⟩
  · omega
  · rw [hlook, hrx, hsize, List.length_nil]
    omega

/-- A round moves a byte to the ring, or ends with one there. -/
theorem Fed.round (h : Fed start count line before dev) (hring : dev.rx.WellFormed) :
    (∀ dev', dev.syncReadRound (feeding b start line) = .inl dev' →
      ∃ count', Fed start count' line before dev') ∧
    ∀ r dev', dev.syncReadRound (feeding b start line) = .inr (r, dev') →
      ∃ count', Fed (start + 1) count' line before dev' ∧ dev'.rx.size ≠ 0 := by
  by_cases hnone : dev.reg.rxFifo = [] ∧ dev.rx.size = 0
  · obtain ⟨dev₁, hround₁, hfed₁⟩ := h.round_none (b := b) hring hnone.1 hnone.2
    rw [hround₁]
    exact ⟨fun dev' hround => ⟨_, Sum.inl.inj hround ▸ hfed₁⟩,
      fun r dev' hround => absurd hround Sum.inl_ne_inr⟩
  · have hsome : dev.reg.rxFifo ≠ [] ∨ dev.rx.size ≠ 0 := not_and_or.mp hnone
    obtain ⟨hreg, hstay⟩ := h.looked (b := b) hsome
    have hrx : (dev.readFr (feeding b start line)).2.rx = dev.rx := rfl
    have hlook : (dev.readFr (feeding b start line)).2.log.length = dev.log.length + 1 := List.length_append
    have hfe : (dev.readFr (feeding b start line)).1.2 = dev.reg.rxfe := congrArg Uart.rxfe hreg
    rw [syncReadRound_eq, hfe]
    cases hfifo : dev.reg.rxFifo with
    | nil =>
      simp only [Uart.rxfe, hfifo, List.isEmpty_nil, if_true]
      refine ⟨fun dev' hround => absurd hround Sum.inr_ne_inl, fun r dev' hround => ?_⟩
      obtain ⟨-, rfl⟩ := Prod.mk.inj (Sum.inr.inj hround)
      exact ⟨count, hstay, hrx ▸ hsome.resolve_left fun hne => hne hfifo⟩
    | cons c rest =>
      have hclock := h.clock
      rw [hfifo, List.length_cons] at hclock
      simp only [Uart.rxfe, hfifo, List.isEmpty_cons, Bool.false_eq_true, if_false]
      by_cases hfull : dev.rx.available = 0
      · simp only [if_pos hfull]
        refine ⟨fun dev' hround => absurd hround Sum.inr_ne_inl, fun r dev' hround => ?_⟩
        obtain ⟨-, rfl⟩ := Prod.mk.inj (Sum.inr.inj hround)
        refine ⟨count, hstay, ?_⟩
        have hpos := hring.capacity_pos
        rw [Ring.available_eq hring] at hfull
        rw [hrx]
        omega
      · simp only [if_neg hfull]
        refine ⟨fun dev' hround => ?_, fun r dev' hround => absurd hround Sum.inl_ne_inr⟩
        obtain rfl : count = 0 := by
          by_contra hpos
          exact List.cons_ne_nil c rest (hfifo.symm.trans (h.late (Nat.pos_of_ne_zero hpos)).1)
        have hmoved : (dev.readFr (feeding b start line)).2.reg.rxFifo = c :: rest := by rw [hreg, hfifo]
        refine ⟨0, .moved (by omega) hmoved (hrx ▸ hring) (hrx ▸ hfull) ?_
          (fun hpos => absurd hpos (Nat.lt_irrefl 0)) (by rw [hreg]; exact h.arrived) (Sum.inl.inj hround).symm⟩
        rw [hlook, hrx]
        omega

theorem syncRead_fed (h : Fed start count line before dev) (hring : dev.rx.WellFormed) {r : Int}
    (hrun : dev.syncRead (feeding b start line) = some (r, dev')) :
    ∃ count', Fed (start + 1) count' line before dev' ∧ dev'.rx.size ≠ 0 := by
  refine Loop.untilReturn_post (I := fun dev => dev.rx.WellFormed ∧ ∃ count, Fed start count line before dev)
    (Q := fun dev => ∃ count, Fed (start + 1) count line before dev ∧ dev.rx.size ≠ 0)
    (fun dev hdev => ?_) ⟨hring, count, h⟩ hrun
  obtain ⟨hring, count, h⟩ := hdev
  obtain ⟨hon, hend⟩ := h.round (b := b) hring
  refine ⟨fun dev' hround => ⟨?_, hon dev' hround⟩, hend⟩
  rw [syncReadRound_eq] at hround
  split_ifs at hround
  obtain rfl := Sum.inl.inj hround
  exact Ring.write_wellFormed hring _

theorem readLoop_fed {dst dst' : Nat → UInt8} {left idx idx' : Nat}
    (h : Sound (feeding b start line) reg₀ accepted (delivered ++ (List.range idx).map dst) dev)
    (hfed : Fed start count line before dev)
    (hrun : readLoop (feeding b start line) left idx dst dev = some (idx', dst', dev')) :
    idx' = idx + left ∧ ∃ count', dev'.reg.arrived = before ++ (List.range count').map line := by
  induction left generalizing idx dst dev count with
  | zero =>
    obtain ⟨rfl, -, rfl⟩ : idx = idx' ∧ dst = dst' ∧ dev = dev' := by simpa [readLoop] using hrun
    exact ⟨rfl, count, hfed.arrived⟩
  | succ left ih =>
    obtain ⟨⟨r, dev₁⟩, hsync, hsettled⟩ := syncRead_total h.settled
    obtain ⟨count', hfed', hne⟩ := syncRead_fed hfed h.rxRing hsync
    obtain ⟨c, hc, hread⟩ := hsettled.ringRead hne
    rw [List.append_assoc, ← map_range_update dst idx c] at hread
    rw [readLoop, hsync] at hrun
    simp only [hc, Int.toNat_natCast, UInt8.ofNat_toNat, if_neg (Int.not_lt.mpr (Int.natCast_nonneg _))] at hrun
    have hsize : dev₁.rx.read.2.size + 1 = dev₁.rx.size := Ring.size_read hsettled.rxRing hne
    have hclock := hfed'.clock
    have hnext : Fed start count' line before { dev₁ with rx := dev₁.rx.read.2 } := by
      refine ⟨by simp only; omega, fun hpos => ?_, hfed'.arrived⟩
      obtain ⟨hfifo, hone⟩ := hfed'.late hpos
      exact ⟨hfifo, by simp only; omega⟩
    obtain ⟨hidx, hend⟩ := ih hread.toSound hnext hrun
    exact ⟨by omega, hend⟩

theorem Sound.received (h : Sound b reg₀ accepted delivered dev) :
    reg₀.rxFifo ++ dev.reg.arrived = delivered ++ present dev := by
  rw [h.arrived, h.popped, present, List.append_assoc]

/-- Whatever begins with what is there is what a read can give. -/
theorem kdevRead_feeding (h : Sound b reg₀ accepted delivered dev) (dst : Nat → UInt8) {wanted : List UInt8}
    (hfirst : (present dev).take wanted.length <+: wanted) :
    ∃ moves bytes dev',
      dev.kdevRead (b.timed moves) dst wanted.length = some ((wanted.length : Int), bytes, dev') ∧
      (List.range wanted.length).map bytes = wanted := by
  obtain ⟨line, hline⟩ : ∃ line : Nat → UInt8, ∀ k, line k = wanted.getD ((present dev).length + k) 0 :=
    ⟨_, fun _ => rfl⟩
  obtain ⟨start, hstart⟩ : ∃ start, start = dev.log.length + 3 * dev.reg.rxFifo.length + dev.rx.size := ⟨_, rfl⟩
  have hsound : Sound (feeding b start line) reg₀ accepted delivered dev := h.timed _
  have hfed : Fed start 0 line dev.reg.arrived dev :=
    ⟨hstart.symm, fun hpos => absurd hpos (Nat.lt_irrefl 0), (List.append_nil _).symm⟩
  obtain ⟨idx, bytes, dev', hrun, -, hsettled⟩ :=
    readLoop_total wanted.length (show Settled _ _ _ _ (_ ++ (List.range 0).map dst) _ by
      simpa using hsound.settled)
  obtain ⟨hidx, count, harrived⟩ := readLoop_fed (by simpa using hsound) hfed hrun
  rw [Nat.zero_add] at hidx
  subst hidx
  refine ⟨_, bytes, dev', by rw [kdevRead]; exact congrArg (Option.map _) hrun, ?_⟩
  have hgiven : (List.range wanted.length).map bytes ++ present dev' =
      present dev ++ (List.range count).map line := by
    have hreceived := hsettled.toSound.received
    rw [harrived, ← List.append_assoc, h.received, List.append_assoc, List.append_assoc] at hreceived
    exact (List.append_cancel_left hreceived).symm
  have hlen := congrArg List.length hgiven
  simp only [List.length_append, List.length_map, List.length_range] at hlen
  refine List.ext_getElem? fun i => ?_
  rcases Nat.lt_or_ge i wanted.length with hi | hi
  · have hat : ((List.range wanted.length).map bytes)[i]? =
        (present dev ++ (List.range count).map line)[i]? := by
      rw [← hgiven, List.getElem?_append_left (by simpa using hi)]
    rw [hat]
    rcases Nat.lt_or_ge i (present dev).length with hthere | hlater
    · have htake : i < ((present dev).take wanted.length).length := by
        rw [List.length_take]
        omega
      rw [List.getElem?_append_left hthere, List.prefix_iff_getElem?.mp hfirst i htake, List.getElem_take,
        List.getElem?_eq_getElem hthere]
    · rw [List.getElem?_append_right hlater, List.getElem?_map, List.getElem?_range (by omega), Option.map_some,
        hline, Nat.add_sub_cancel' hlater, List.getD_eq_getElem?_getD, List.getElem?_eq_getElem hi,
        Option.getD_some]
  · rw [List.getElem?_eq_none hi, List.getElem?_eq_none (by simpa using hi)]

end DevUart
end PiVOS
