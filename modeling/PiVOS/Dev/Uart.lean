-- SUMMARY: The UART driver of `dev/uart.c` over a FIFO device that moves on its own.
import PiVOS.Buffer.Ring
import PiVOS.Lib.Loop
import PiVOS.Log

/-!
# The UART driver

The device sends and receives while the driver runs: before every register
access it makes the moves a board lays down for that moment, so a statement about
every board is one about every timing. The driver's register accesses are logged.
-/

namespace PiVOS

/-! ## The device -/

/-- The registers of `struct uart` as far as the data path sees them: the two
FIFOs behind `DR` and `FR`, and the raw transmit interrupt. `sent` and
`arrived` record the bytes that left and entered the FIFOs on the line's side. -/
structure Uart where
  txFifo : List UInt8
  rxFifo : List UInt8
  txris : Bool
  sent : List UInt8
  arrived : List UInt8

/-- What the device does on its own: send the next byte, or receive one. -/
inductive UartMove
  | send
  | receive (c : UInt8)

/-- A device and its surroundings: the depth of the FIFOs, the level of the
transmit FIFO that raises the interrupt, and the moves made before each access. -/
structure Board where
  depth : Nat
  trigger : Nat
  trigger_lt : trigger < depth
  moves : Nat → List UartMove

namespace Uart

variable (b : Board)

def txff (reg : Uart) : Bool := decide (b.depth ≤ reg.txFifo.length)

def rxfe (reg : Uart) : Bool := reg.rxFifo.isEmpty

/-- The interrupt is raised when sending brings the FIFO down to the trigger
level. A byte received while the FIFO is full is lost on the line. -/
def move (reg : Uart) : UartMove → Uart
  | .send =>
    match reg.txFifo with
    | [] => reg
    | c :: rest =>
      { reg with
        txFifo := rest
        sent := reg.sent ++ [c]
        txris := reg.txris || decide (rest.length = b.trigger) }
  | .receive c =>
    if reg.rxFifo.length < b.depth then
      { reg with rxFifo := reg.rxFifo ++ [c], arrived := reg.arrived ++ [c] }
    else reg

/-- A byte written to a full FIFO is lost; filling it above the trigger level
takes the interrupt back. -/
def push (reg : Uart) (c : UInt8) : Uart :=
  if reg.txFifo.length < b.depth then
    { reg with
      txFifo := reg.txFifo ++ [c]
      txris := reg.txris && decide (reg.txFifo.length + 1 ≤ b.trigger) }
  else reg

/-- The byte a read of `DR` gives; an empty FIFO has none to give. -/
def front (reg : Uart) : UInt8 := reg.rxFifo.headD 0

def pop (reg : Uart) : Uart := { reg with rxFifo := reg.rxFifo.tail }

end Uart

/-- The driver's register accesses. `room` is the room of the receive ring at a
read of `DR`. -/
inductive RegAccess
  | readFr (txff rxfe : Bool)
  | readMis (bits : BitVec 32)
  | writeDr (c : UInt8)
  | readDr (c : UInt8) (room : Nat)

structure DevUart where
  reg : Uart
  tx : Ring
  rx : Ring
  log : List RegAccess

namespace DevUart

def ringSize : Nat := 4096

variable (b : Board)

/-- `dev_uart_init`: fresh rings, whatever the two buffers held. -/
def init (reg : Uart) (txBuf rxBuf : Nat → UInt8) : DevUart :=
  { reg, tx := Ring.init ringSize txBuf, rx := Ring.init ringSize rxBuf, log := [] }

/-- The device's moves up to the next access. -/
def settle (dev : DevUart) : DevUart :=
  { dev with reg := (b.moves dev.log.length).foldl (Uart.move b) dev.reg }

/-- A read of `FR`, as the fields `TXFF` and `RXFE`. -/
def readFr (dev : DevUart) : (Bool × Bool) × DevUart :=
  let dev := dev.settle b
  let fr := (dev.reg.txff b, dev.reg.rxfe)
  (fr, { dev with log := dev.log ++ [.readFr fr.1 fr.2] })

def readMis (dev : DevUart) (bits : BitVec 32) : DevUart :=
  let dev := dev.settle b
  { dev with log := dev.log ++ [.readMis bits] }

def writeDr (dev : DevUart) (c : UInt8) : DevUart :=
  let dev := dev.settle b
  { dev with reg := dev.reg.push b c, log := dev.log ++ [.writeDr c] }

def readDr (dev : DevUart) : UInt8 × DevUart :=
  let dev := dev.settle b
  (dev.reg.front,
    { dev with reg := dev.reg.pop, log := dev.log ++ [.readDr dev.reg.front dev.rx.available] })

/-! ## The driver -/

def syncWriteRound (dev : DevUart) : DevUart ⊕ (Int × DevUart) :=
  let (fr, dev) := dev.readFr b
  if fr.1 then .inr (-1, dev) else
    let (res, tx) := dev.tx.read
    let dev := { dev with tx }
    if res < 0 then .inr (0, dev) else
      .inl (dev.writeDr b (UInt8.ofNat res.toNat))

/-- Every round that goes on takes a byte from the ring. -/
def syncWrite (dev : DevUart) : Option (Int × DevUart) :=
  untilReturn (syncWriteRound b) (dev.tx.size + 1) dev

def syncReadRound (dev : DevUart) : DevUart ⊕ (Int × DevUart) :=
  let (fr, dev) := dev.readFr b
  if fr.2 then .inr (0, dev) else
    if dev.rx.available = 0 then .inr (-1, dev) else
      let (c, dev) := dev.readDr b
      .inl { dev with rx := (dev.rx.write c).2 }

/-- Every round that goes on puts a byte into the ring. -/
def syncRead (dev : DevUart) : Option (Int × DevUart) :=
  untilReturn (syncReadRound b) (dev.rx.available + 1) dev

/-- The loop of `dev_uart_kdev_write` from `idx` on, with `left` bytes to go. -/
def writeLoop (src : Nat → UInt8) : Nat → Nat → DevUart → Option (Nat × DevUart)
  | 0, idx, dev => some (idx, dev)
  | left + 1, idx, dev =>
    let (res, tx) := dev.tx.write (src idx)
    let dev := { dev with tx }
    if res < 0 then some (idx, dev) else
      match dev.syncWrite b with
      | none => none
      | some (_, dev) => writeLoop src left (idx + 1) dev

/-- `idx` is an `int32_t`, which does not overflow while `n < 2 ^ 31`. -/
def kdevWrite (src : Nat → UInt8) (n : Nat) (dev : DevUart) : Option (Int × DevUart) :=
  (writeLoop b src n 0 dev).map fun (idx, dev) => (idx, dev)

/-- The loop of `dev_uart_kdev_read`; the memory at `dst` is part of its state. -/
def readLoop : Nat → Nat → (Nat → UInt8) → DevUart → Option (Nat × (Nat → UInt8) × DevUart)
  | 0, idx, dst, dev => some (idx, dst, dev)
  | left + 1, idx, dst, dev =>
    match dev.syncRead b with
    | none => none
    | some (_, dev) =>
      let (res, rx) := dev.rx.read
      let dev := { dev with rx }
      if res < 0 then some (idx, dst, dev) else
        readLoop left (idx + 1) (Function.update dst idx (UInt8.ofNat res.toNat)) dev

def kdevRead (dst : Nat → UInt8) (n : Nat) (dev : DevUart) :
    Option (Int × (Nat → UInt8) × DevUart) :=
  (readLoop b n 0 dst dev).map fun (idx, dst, dev) => (idx, dst, dev)

/-- Output past the ring, for `kcall_io_poll_out`. -/
def kdevPoolOut (c : UInt8) (dev : DevUart) : Int × DevUart :=
  let (fr, dev) := dev.readFr b
  if fr.1 then (Kstatus.devIoTxWait, dev) else (Kstatus.devIoOk, dev.writeDr b c)

/-- `TXMIS` and `RXMIS` are bits 5 and 4 of `MIS`. -/
def kdevIsr (mis : BitVec 32) (dev : DevUart) : Option DevUart :=
  let dev := dev.readMis b mis
  (if mis.getLsbD 5 then (dev.syncWrite b).map Prod.snd else some dev).bind fun dev =>
    if mis.getLsbD 4 then (dev.syncRead b).map Prod.snd else some dev

end DevUart

end PiVOS
