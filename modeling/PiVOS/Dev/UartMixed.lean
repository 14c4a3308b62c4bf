-- SUMMARY: The UART driver when programs also write past its ring.
import PiVOS.Dev.UartBytes
import PiVOS.Lib.Merge

/-!
# Output past the ring

A byte written past the transmit ring overtakes the bytes that wait in it, and nothing else
changes: each of the two ways keeps its own order, and the ring is still served, since a
full FIFO that is written to later is above its trigger level or has raised its interrupt.
-/

namespace PiVOS
namespace DevUart

variable {b : Board} {reg₀ : Uart} {accepted polled delivered : List UInt8} {dev dev' dev'' : DevUart}

/-! ## What calls leave of the transmit side -/

/-- The device will ask for more bytes. -/
def Pending (b : Board) (dev : DevUart) : Prop :=
  b.trigger < dev.reg.txFifo.length ∨ dev.reg.txris = true

/-- The transmit side is as before, but for what the device has sent on its own. -/
structure TxQuiet (b : Board) (dev dev' : DevUart) : Prop where
  tx : dev'.tx = dev.tx
  written : written dev'.log = written dev.log
  pending : Pending b dev → Pending b dev'

theorem TxQuiet.refl (dev : DevUart) : TxQuiet b dev dev := ⟨rfl, rfl, id⟩

theorem TxQuiet.trans (h : TxQuiet b dev dev') (h' : TxQuiet b dev' dev'') : TxQuiet b dev dev'' :=
  ⟨h'.tx.trans h.tx, h'.written.trans h.written, h'.pending ∘ h.pending⟩

theorem txQuiet_of_moves {reg : Uart} (hm : Uart.Moves b dev.reg reg) : TxQuiet b dev { dev with reg } :=
  ⟨rfl, rfl, hm.raises⟩

/-- An access that is no write of `DR`. -/
theorem txQuiet_access {e : RegAccess} (he : DevUart.written [e] = []) :
    TxQuiet b dev { dev.settle b with log := dev.log ++ [e] } :=
  ⟨rfl, by simp [he], (settle_moves dev).raises⟩

theorem readFr_quiet (dev : DevUart) : TxQuiet b dev (dev.readFr b).2 := txQuiet_access rfl

theorem readMis_quiet (dev : DevUart) (bits : BitVec 32) : TxQuiet b dev (dev.readMis b bits) :=
  txQuiet_access rfl

theorem readDr_quiet (dev : DevUart) : TxQuiet b dev (dev.readDr b).2 :=
  ⟨rfl, by simp [readDr], fun h => (settle_moves dev).raises h⟩

theorem syncRead_quiet {r : Int} (h : dev.syncRead b = some (r, dev')) : TxQuiet b dev dev' := by
  refine Loop.untilReturn_invariant (I := TxQuiet b dev) (fun s hs => ?_) (.refl dev) h
  rw [syncReadRound_eq]
  constructor
  · intro s' hround
    split_ifs at hround
    obtain rfl := Sum.inl.inj hround
    have hnext := (hs.trans (readFr_quiet s)).trans (readDr_quiet _)
    exact ⟨hnext.tx, hnext.written, hnext.pending⟩
  · intro r s' hround
    have hlook := hs.trans (readFr_quiet s)
    split_ifs at hround
    · obtain ⟨-, rfl⟩ := Prod.mk.inj (Sum.inr.inj hround)
      exact hlook
    · obtain ⟨-, rfl⟩ := Prod.mk.inj (Sum.inr.inj hround)
      exact hlook

theorem readLoop_quiet {left idx idx' : Nat} {dst dst' : Nat → UInt8}
    (h : readLoop b left idx dst dev = some (idx', dst', dev')) : TxQuiet b dev dev' := by
  induction left generalizing idx dst dev with
  | zero =>
    obtain ⟨-, -, rfl⟩ : idx = idx' ∧ dst = dst' ∧ dev = dev' := by simpa [readLoop] using h
    exact .refl dev
  | succ left ih =>
    rw [readLoop] at h
    cases hsync : dev.syncRead b with
    | none =>
      rw [hsync] at h
      cases h
    | some synced =>
      have hquiet : TxQuiet b dev { synced.2 with rx := synced.2.rx.read.2 } := by
        have hread : TxQuiet b dev synced.2 := syncRead_quiet (r := synced.1) hsync
        exact ⟨hread.tx, hread.written, hread.pending⟩
      rw [hsync] at h
      simp only at h
      split_ifs at h
      · obtain ⟨-, -, rfl⟩ : _ ∧ _ ∧ { synced.2 with rx := synced.2.rx.read.2 } = dev' := by simpa using h
        exact hquiet
      · exact hquiet.trans (ih h)

/-! ## What calls write -/

/-- More has been written to `DR`, behind what was. -/
def Grows (dev dev' : DevUart) : Prop := ∃ moved, written dev'.log = written dev.log ++ moved

theorem Grows.refl (dev : DevUart) : Grows dev dev := ⟨[], (List.append_nil _).symm⟩

theorem Grows.trans (h : Grows dev dev') (h' : Grows dev' dev'') : Grows dev dev'' := by
  obtain ⟨moved, hmoved⟩ := h
  obtain ⟨moved', hmoved'⟩ := h'
  exact ⟨moved ++ moved', by rw [hmoved', hmoved, List.append_assoc]⟩

theorem TxQuiet.grows (h : TxQuiet b dev dev') : Grows dev dev' :=
  ⟨[], by rw [h.written, List.append_nil]⟩

theorem writeDr_grows (dev : DevUart) (c : UInt8) : Grows dev (dev.writeDr b c) :=
  ⟨[c], by simp [writeDr]⟩

theorem syncWrite_grows {r : Int} (h : dev.syncWrite b = some (r, dev')) : Grows dev dev' := by
  refine Loop.untilReturn_invariant (I := Grows dev) (fun s hs => ?_) (.refl dev) h
  rw [syncWriteRound_eq]
  have hlook := hs.trans (readFr_quiet (b := b) s).grows
  constructor
  · intro s' hround
    split_ifs at hround
    obtain rfl := Sum.inl.inj hround
    exact hlook.trans (writeDr_grows { (s.readFr b).2 with tx := s.tx.read.2 } _)
  · intro r s' hround
    split_ifs at hround
    · obtain ⟨-, rfl⟩ := Prod.mk.inj (Sum.inr.inj hround)
      exact hlook
    · obtain ⟨-, rfl⟩ := Prod.mk.inj (Sum.inr.inj hround)
      exact hlook

theorem writeLoop_grows {src : Nat → UInt8} {left idx idx' : Nat}
    (h : writeLoop b src left idx dev = some (idx', dev')) : Grows dev dev' := by
  induction left generalizing idx dev with
  | zero =>
    obtain ⟨-, rfl⟩ : idx = idx' ∧ dev = dev' := by simpa [writeLoop] using h
    exact .refl dev
  | succ left ih =>
    rw [writeLoop] at h
    simp only at h
    split_ifs at h
    · obtain ⟨-, rfl⟩ : _ ∧ { dev with tx := (dev.tx.write (src idx)).2 } = dev' := by simpa using h
      exact .refl dev
    · cases hsync : { dev with tx := (dev.tx.write (src idx)).2 }.syncWrite b with
      | none =>
        rw [hsync] at h
        cases h
      | some synced =>
        rw [hsync] at h
        have hgrows : Grows _ synced.2 := syncWrite_grows (r := synced.1) hsync
        exact Grows.trans hgrows (ih h)

/-! ## The invariant -/

/-- Where every byte is when output goes both ways: what was written to `DR` is a merge of
what the ring has given and of what went past it, and the ring still holds the rest. -/
structure Mixed (b : Board) (reg₀ : Uart) (accepted polled delivered : List UInt8) (dev : DevUart) :
    Prop where
  sound : Sound b reg₀ (written dev.log ++ dev.tx.toList) delivered dev
  line : ∃ taken, accepted = taken ++ dev.tx.toList ∧ Merge taken polled (written dev.log)
  pending : dev.tx.toList ≠ [] → Pending b dev

theorem Sound.settled (h : Sound b reg₀ accepted delivered dev) :
    Settled b False reg₀ accepted delivered dev := ⟨h, fun hfalse => hfalse.elim⟩

/-- Any bookkeeping of the transmit side will do. -/
theorem Sound.rebase (h : Sound b reg₀ accepted delivered dev) :
    Sound b reg₀ (written dev.log ++ dev.tx.toList) delivered dev := { h with accepted := rfl }

theorem Mixed.quiet (h : Mixed b reg₀ accepted polled delivered dev) (hquiet : TxQuiet b dev dev')
    {line delivered' : List UInt8} (hsound : Sound b reg₀ line delivered' dev') :
    Mixed b reg₀ accepted polled delivered' dev' := by
  refine ⟨hsound.rebase, ?_, ?_⟩
  · rw [hquiet.tx, hquiet.written]
    exact h.line
  · rw [hquiet.tx]
    exact fun hne => hquiet.pending (h.pending hne)

/-- What is accepted joins the ring, and what the ring gives has been written. -/
theorem Mixed.grow (h : Mixed b reg₀ accepted polled delivered dev) (hgrows : Grows dev dev')
    {new : List UInt8}
    (hsound : Sound b reg₀ (written dev.log ++ dev.tx.toList ++ new) delivered dev')
    (hpending : dev'.tx.toList ≠ [] → Pending b dev') :
    Mixed b reg₀ (accepted ++ new) polled delivered dev' := by
  obtain ⟨taken, haccepted, hmerge⟩ := h.line
  obtain ⟨moved, hmoved⟩ := hgrows
  have hring : dev.tx.toList ++ new = moved ++ dev'.tx.toList := by
    have hline := hsound.accepted
    rw [hmoved, List.append_assoc, List.append_assoc] at hline
    exact List.append_cancel_left hline
  refine ⟨hsound.rebase, ⟨taken ++ moved, ?_, ?_⟩, hpending⟩
  · rw [haccepted, List.append_assoc, hring, List.append_assoc]
  · rw [hmoved]
    exact hmerge.append_left moved

/-! ## The calls -/

theorem Mixed.syncWrite (h : Mixed b reg₀ accepted polled delivered dev) :
    ∃ r dev', dev.syncWrite b = some (r, dev') ∧ Mixed b reg₀ accepted polled delivered dev' := by
  obtain ⟨⟨r, dev'⟩, hrun, hsettled⟩ : ∃ result, dev.syncWrite b = some result ∧
      Settled b True reg₀ (written dev.log ++ dev.tx.toList) delivered result.2 := syncWrite_total h.sound
  have hsound := hsettled.toSound
  rw [← List.append_nil (written dev.log ++ dev.tx.toList)] at hsound
  have hnext := h.grow (syncWrite_grows hrun) hsound fun hne => (hsettled.waits trivial hne).pending
  rw [List.append_nil] at hnext
  exact ⟨r, dev', hrun, hnext⟩

theorem Mixed.syncRead (h : Mixed b reg₀ accepted polled delivered dev) :
    ∃ r dev', dev.syncRead b = some (r, dev') ∧ Mixed b reg₀ accepted polled delivered dev' := by
  obtain ⟨⟨r, dev'⟩, hrun, hsettled⟩ := syncRead_total h.sound.settled
  exact ⟨r, dev', hrun, h.quiet (syncRead_quiet hrun) hsettled.toSound⟩

/-- The ring is not left waiting by a write either. -/
theorem writeLoop_pending {line : List UInt8} {src : Nat → UInt8} {left idx idx' : Nat}
    (h : Sound b reg₀ line delivered dev) (hpending : dev.tx.toList ≠ [] → Pending b dev)
    (hrun : writeLoop b src left idx dev = some (idx', dev')) : dev'.tx.toList ≠ [] → Pending b dev' := by
  induction left generalizing idx dev line with
  | zero =>
    obtain ⟨-, rfl⟩ : idx = idx' ∧ dev = dev' := by simpa [writeLoop] using hrun
    exact hpending
  | succ left ih =>
    rw [writeLoop] at hrun
    by_cases hfull : dev.tx.size = dev.tx.capacity
    · rw [Ring.write_of_full hfull] at hrun
      obtain ⟨-, rfl⟩ : idx = idx' ∧ dev = dev' := by simpa using hrun
      exact hpending
    · have hsound := h.settled.ringWrite hfull (src idx)
      obtain ⟨⟨r, dev₁⟩, hsync, hsettled⟩ : ∃ result,
          { dev with tx := (dev.tx.write (src idx)).2 }.syncWrite b = some result ∧
          Settled b True reg₀ (line ++ [src idx]) delivered result.2 := syncWrite_total hsound
      simp only [Ring.write_fst_of_room hfull, hsync, Int.lt_irrefl, if_false] at hrun
      exact ih hsettled.toSound (fun hne => (hsettled.waits trivial hne).pending) hrun

theorem Mixed.write (h : Mixed b reg₀ accepted polled delivered dev) (src : Nat → UInt8) (n : Nat) :
    ∃ (r : Nat) (dev' : DevUart), dev.kdevWrite b src n = some ((r : Int), dev') ∧ r ≤ n ∧
      Mixed b reg₀ (accepted ++ (List.range r).map src) polled delivered dev' := by
  have h₀ : Settled b False reg₀ (written dev.log ++ dev.tx.toList ++ (List.range 0).map src) delivered dev := by
    simpa using h.sound.settled
  obtain ⟨r, dev', hrun, hle, hsettled⟩ := writeLoop_total n h₀
  refine ⟨r, dev', by rw [kdevWrite, hrun]; rfl, by omega, ?_⟩
  exact h.grow (writeLoop_grows hrun) hsettled.toSound (writeLoop_pending h.sound h.pending hrun)

theorem Mixed.read (h : Mixed b reg₀ accepted polled delivered dev) (dst : Nat → UInt8) (n : Nat) :
    ∃ (r : Nat) (dst' : Nat → UInt8) (dev' : DevUart), dev.kdevRead b dst n = some ((r : Int), dst', dev') ∧
      r ≤ n ∧ Mixed b reg₀ accepted polled (delivered ++ (List.range r).map dst') dev' := by
  have h₀ : Settled b False reg₀ (written dev.log ++ dev.tx.toList)
      (delivered ++ (List.range 0).map dst) dev := by
    simpa using h.sound.settled
  obtain ⟨r, dst', dev', hrun, hle, hsettled⟩ := readLoop_total n h₀
  refine ⟨r, dst', dev', by rw [kdevRead, hrun]; rfl, by omega, ?_⟩
  exact h.quiet (readLoop_quiet hrun) hsettled.toSound

theorem Mixed.isr (h : Mixed b reg₀ accepted polled delivered dev) (mis : BitVec 32) :
    ∃ dev', dev.kdevIsr b mis = some dev' ∧ Mixed b reg₀ accepted polled delivered dev' := by
  have hmis : Mixed b reg₀ accepted polled delivered (dev.readMis b mis) :=
    h.quiet (readMis_quiet dev mis) (h.sound.settled.readMis mis).toSound
  obtain ⟨dev₁, htx, h₁⟩ : ∃ dev₁, (if mis.getLsbD 5 then
      ((dev.readMis b mis).syncWrite b).map Prod.snd else some (dev.readMis b mis)) = some dev₁ ∧
      Mixed b reg₀ accepted polled delivered dev₁ := by
    cases mis.getLsbD 5 with
    | true =>
      obtain ⟨r, dev₁, hrun, h₁⟩ := hmis.syncWrite
      exact ⟨dev₁, by rw [hrun]; rfl, h₁⟩
    | false => exact ⟨_, rfl, hmis⟩
  obtain ⟨dev₂, hrx, h₂⟩ : ∃ dev₂, (if mis.getLsbD 4 then
      (dev₁.syncRead b).map Prod.snd else some dev₁) = some dev₂ ∧
      Mixed b reg₀ accepted polled delivered dev₂ := by
    cases mis.getLsbD 4 with
    | true =>
      obtain ⟨r, dev₂, hrun, h₂⟩ := h₁.syncRead
      exact ⟨dev₂, by rw [hrun]; rfl, h₂⟩
    | false => exact ⟨_, rfl, h₁⟩
  refine ⟨dev₂, ?_, h₂⟩
  rw [kdevIsr]
  simp only [htx, Option.bind_some, hrx]

theorem Mixed.moves (h : Mixed b reg₀ accepted polled delivered dev) {reg : Uart}
    (hm : Uart.Moves b dev.reg reg) : Mixed b reg₀ accepted polled delivered { dev with reg } :=
  h.quiet (txQuiet_of_moves hm) (h.sound.moves hm)

/-- A byte more in a FIFO that has room: the device is still above its trigger level, or still
asks. -/
theorem pending_writeDr (hroom : (dev.settle b).reg.txFifo.length < b.depth) (c : UInt8)
    (h : Pending b dev) : Pending b (dev.writeDr b c) := by
  have hsettled : Pending b (dev.settle b) := (settle_moves dev).raises h
  have hpush : (dev.writeDr b c).reg = { (dev.settle b).reg with
      txFifo := (dev.settle b).reg.txFifo ++ [c]
      txris := (dev.settle b).reg.txris &&
        decide ((dev.settle b).reg.txFifo.length + 1 ≤ b.trigger) } := by
    rw [writeDr, Uart.push, if_pos hroom]
  rw [Pending, hpush]
  simp only [List.length_append, List.length_singleton]
  rcases hsettled with habove | hasks
  · exact .inl (by omega)
  · rcases Nat.lt_or_ge b.trigger ((dev.settle b).reg.txFifo.length + 1) with hlt | hge
    · exact .inl hlt
    · exact .inr (by rw [hasks, decide_eq_true hge]; rfl)

/-- Output past the ring: the byte is written behind what was, or not at all. -/
theorem Mixed.poll (h : Mixed b reg₀ accepted polled delivered dev) (c : UInt8) :
    ((dev.kdevPoolOut b c).1 = Kstatus.devIoTxWait ∧
      Mixed b reg₀ accepted polled delivered (dev.kdevPoolOut b c).2) ∨
    ((dev.kdevPoolOut b c).1 = Kstatus.devIoOk ∧
      Mixed b reg₀ accepted (polled ++ [c]) delivered (dev.kdevPoolOut b c).2) := by
  have hlook := h.quiet (readFr_quiet dev) h.sound.readFr
  rw [kdevPoolOut_eq]
  cases hfull : (dev.readFr b).1.1 with
  | true => exact .inl ⟨rfl, hlook⟩
  | false =>
    have hroom : (dev.readFr b).2.reg.txFifo.length < b.depth := by
      simpa [readFr_txff, Uart.txff] using hfull
    have hlog := readFr_log (b := b) dev
    rw [hfull] at hlog
    obtain ⟨taken, haccepted, hmerge⟩ := hlook.line
    have hwritten : written ((dev.readFr b).2.writeDr b c).log = written (dev.readFr b).2.log ++ [c] := by
      simp [writeDr]
    refine .inr ⟨rfl, (hlook.sound.writeDr hlog hroom hlook.sound.txRing rfl).rebase,
      ⟨taken, haccepted, ?_⟩, fun hne => ?_⟩
    · rw [if_neg Bool.false_ne_true, hwritten]
      exact hmerge.right c
    · refine pending_writeDr ?_ c (hlook.pending hne)
      exact Nat.lt_of_le_of_lt (settle_moves _).length_le hroom

theorem init_mixed {reg : Uart} (hfifo : reg.txFifo.length ≤ b.depth) (hsent : reg.sent = [])
    (harrived : reg.arrived = []) (txBuf rxBuf : Nat → UInt8) :
    Mixed b reg [] [] [] (DevUart.init reg txBuf rxBuf) where
  sound := (UartSession.start_settled hfifo hsent harrived txBuf rxBuf).toSound.rebase
  line := ⟨[], (Ring.toList_init ringSize txBuf).symm, .nil⟩
  pending hne := absurd (Ring.toList_init ringSize txBuf) hne

end DevUart
end PiVOS
