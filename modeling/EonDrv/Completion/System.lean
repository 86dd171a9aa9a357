import EonDrv.Driver.Registers
import EonDrv.Support.StepSystem
import EonDrv.Support.Sticky

/-!
# The completion path

Requesters, the device and `hama_handle_kthread` as one step system.  Each
action is one statement that the other parties can observe: a register write, a
read of `int_status`, a store of a channel state, a write of `int_clear`, a
wake-up, a lock operation.

Every ioctl is a request of its own, numbered by `Nat`, with arguments `reqs r`.
A request runs `eon_hdma_inbound` or `eon_hdma_outbound`.  Each of its two stages
is one call, of `tranfer_desc` for the upload and of `dma_llmode_transmit` for
the data.  The pair of request and stage names the doorbell of that call.

The state carries ghost fields that no statement of the driver reads: who raised
the bits of an `int_status` word, which doorbells were rung, and what the device
did for each of them.
-/

namespace EonDrv
namespace Completion

inductive HdmaOp
  | inbound
  | outbound
  deriving DecidableEq

inductive Stage
  | upload
  | data
  deriving DecidableEq

structure Call where
  request : Nat
  stage : Stage
  deriving DecidableEq

/-- What a request brings to its two stages: its arguments, and the table and
buffer that `set_hdma_desc` left. -/
structure HdmaRequest where
  op : HdmaOp
  hdmaId : Fin maxHdmaNumber
  enable : BitVec 32
  regs : RegInfos
  desc : DpuDescInfo
  table : List (BitVec 8)

/-- Both operations upload on `hdmar[hdma_id]`.  The data of an outbound request
moves on `hdmaw[hdma_id]`. -/
def HdmaRequest.chan (q : HdmaRequest) : Stage → Chan
  | .upload => ⟨.rd, q.hdmaId⟩
  | .data =>
    match q.op with
    | .inbound => ⟨.rd, q.hdmaId⟩
    | .outbound => ⟨.wr, q.hdmaId⟩

def HdmaRequest.writes (q : HdmaRequest) : Stage → List (HdmaReg × BitVec 32)
  | .upload => tranferDescWrites q.desc
  | .data => dmaLlmodeTransmitWrites q.desc

/-- `tranfer_desc` always rings, `dma_llmode_transmit` when `enable` says so. -/
def HdmaRequest.rings (q : HdmaRequest) : Stage → Bool
  | .upload => true
  | .data => q.enable == dmaEnable

/-- The `goto` ladder ends in `return ret` for inbound and `return tc` for
outbound, where `tc` is never assigned. -/
def HdmaRequest.errorReturn (q : HdmaRequest) (ret : Int) : Int :=
  match q.op with
  | .inbound => ret
  | .outbound => 0

/-! ## Places in the code -/

/-- What made a waiter look at the state. -/
inductive Wake
  | woken
  | timeout
  | signal
  deriving DecidableEq

/-- `wait_event_interruptible_timeout`: about to test the condition, or asleep. -/
inductive WaitPc
  | check (why : Wake)
  | asleep
  deriving DecidableEq

inductive ReqPc
  | setupSg
  | setDesc
  | lock (st : Stage)
  | program (st : Stage) (k : Nat)
  | setRunning (st : Stage)
  | batch (k : Nat)
  | doorbell (st : Stage)
  | wait (st : Stage) (w : WaitPc)
  | unlock (st : Stage) (ret : Int)
  | teardownDesc (ret : Int)
  | teardownSg (ret : Int)
  | done (ret : Int)
  deriving DecidableEq

inductive Scan
  | token
  | extra
  deriving DecidableEq

abbrev IntStatus := Sticky (Option Call) 32

inductive KthreadPc
  | wait
  | whileTop
  | read (sc : Scan) (ch : Chan)
  | store (sc : Scan) (ch : Chan) (status : IntStatus)
  | clear (sc : Scan) (ch : Chan) (status : IntStatus)
  | wake (sc : Scan) (ch : Chan) (status : IntStatus)
  | popTokens
  | extraTop
  | outerEnd
  | exited
  deriving DecidableEq

structure Kthread where
  pc : KthreadPc
  flag : BitVec 8
  loop : Nat

/-- The shared part of a `struct hdma_context`.  `credit` is the status word
behind the last `COMPLETED`, and `owed` says that no wake-up followed it yet. -/
structure HdmaContext where
  lock : Option Nat
  state : HdmaState
  regs : HdmaReg → BitVec 32
  intStatus : IntStatus
  credit : IntStatus
  owed : Bool

structure State where
  ctx : Chan → HdmaContext
  req : Nat → ReqPc
  thread : Kthread
  fifo : Nat
  shouldStopFlag : Bool
  kthreadShouldStop : Bool
  mem : BitVec 64 → BitVec 8
  rung : Call → Bool
  stopped : Call → Bool
  aborted : Call → Bool
  -- set by `hdma_terminal_transfer` alone, which no statement of the request path calls
  terminated : Call → Bool

namespace State

def setReq (s : State) (r : Nat) (pc : ReqPc) : State :=
  { s with req := Function.update s.req r pc }

def setCtx (s : State) (ch : Chan) (c : HdmaContext) : State :=
  { s with ctx := Function.update s.ctx ch c }

def setPc (s : State) (pc : KthreadPc) : State :=
  { s with thread := { s.thread with pc := pc } }

end State

/-! ## The status word -/

def stopBit : BitVec 32 := 1#32
def abortBit : BitVec 32 := 4#32

/-- `irq_status & 7`: stop, watermark, abort. -/
def eventMask : BitVec 32 := 7#32

def HasEvent (w : BitVec 32) : Prop := w &&& eventMask ≠ 0#32
def HasStop (w : BitVec 32) : Prop := w &&& stopBit ≠ 0#32
def HasAbort (w : BitVec 32) : Prop := w &&& abortBit ≠ 0#32

instance (w : BitVec 32) : Decidable (HasEvent w) := inferInstanceAs (Decidable (_ ≠ _))
instance (w : BitVec 32) : Decidable (HasStop w) := inferInstanceAs (Decidable (_ ≠ _))
instance (w : BitVec 32) : Decidable (HasAbort w) := inferInstanceAs (Decidable (_ ≠ _))

/-! ## Requesters -/

section Requests

variable (reqs : Nat → HdmaRequest)

/-- The channel whose lock a call takes. -/
def chanOf (c : Call) : Chan := (reqs c.request).chan c.stage

/-- Where a stage function leaves its caller, once the lock is released. -/
def afterStage : Stage → Int → ReqPc
  | .upload, ret => if ret = 0 then .lock .data else .teardownDesc ret
  | .data, ret => .teardownDesc ret

def afterRunning : Stage → ReqPc
  | .upload => .doorbell .upload
  | .data => .batch 0

def stepRequest (s : State) (r : Nat) : Option State :=
  match s.req r with
  | .setupSg => some (s.setReq r .setDesc)
  | .setDesc => some (s.setReq r (.lock .upload))
  | .lock st =>
    let ch := (reqs r).chan st
    let c := s.ctx ch
    match c.lock with
    | none => some ((s.setCtx ch { c with lock := some r }).setReq r (.program st 0))
    | some _ => none
  | .program st k =>
    let ch := (reqs r).chan st
    let c := s.ctx ch
    match ((reqs r).writes st)[k]? with
    | some (reg, val) =>
      some ((s.setCtx ch { c with regs := Function.update c.regs reg val }).setReq r
        (.program st (k + 1)))
    | none => some (s.setReq r (.setRunning st))
  | .setRunning st =>
    let ch := (reqs r).chan st
    some ((s.setCtx ch { s.ctx ch with state := .running }).setReq r (afterRunning st))
  | .batch k =>
    if k < (reqs r).regs.count then
      if regAddrAccepted ((reqs r).regs.write k).regAddr then some (s.setReq r (.batch (k + 1)))
      else some (s.setReq r (.unlock .data (-1)))
    else some (s.setReq r (.doorbell .data))
  | .doorbell st =>
    let t := s.setReq r (.wait st (.check .woken))
    if (reqs r).rings st then some { t with rung := Function.update t.rung ⟨r, st⟩ true }
    else some t
  | .wait st (.check why) =>
    if (s.ctx ((reqs r).chan st)).state ≠ .running then some (s.setReq r (.unlock st 0))
    else
      match why with
      | .woken => some (s.setReq r (.wait st .asleep))
      | .timeout => some (s.setReq r (.unlock st (-1)))
      -- rv is negative here, and only rv == 0 sets ret
      | .signal => some (s.setReq r (.unlock st 0))
  | .wait _ .asleep => none
  | .unlock st ret =>
    let ch := (reqs r).chan st
    some ((s.setCtx ch { s.ctx ch with lock := none }).setReq r (afterStage st ret))
  | .teardownDesc ret => some (s.setReq r (.teardownSg ret))
  | .teardownSg ret =>
    some (s.setReq r (.done (if ret = 0 then 0 else (reqs r).errorReturn ret)))
  | .done _ => none

/-- A failed `dpu_setup_sg` returns at once, a failed `set_hdma_desc` tears the
scatter list down. -/
def stepFail (s : State) (r : Nat) (ret : Int) : Option State :=
  if ret = 0 then none
  else
    match s.req r with
    | .setupSg => some (s.setReq r (.done ret))
    | .setDesc => some (s.setReq r (.teardownSg ret))
    | _ => none

/-- The 5 s timeout of a sleeping waiter. -/
def stepExpire (s : State) (r : Nat) : Option State :=
  match s.req r with
  | .wait st .asleep => some (s.setReq r (.wait st (.check .timeout)))
  | _ => none

/-- A signal, to a waiter asleep or about to sleep. -/
def stepInterrupt (s : State) (r : Nat) : Option State :=
  match s.req r with
  | .wait st .asleep => some (s.setReq r (.wait st (.check .signal)))
  | .wait st (.check .woken) => some (s.setReq r (.wait st (.check .signal)))
  | _ => none

/-! ## Device -/

def storeBytes (mem : BitVec 64 → BitVec 8) (addr : BitVec 64) (bytes : List (BitVec 8)) :
    BitVec 64 → BitVec 8 :=
  fun a => bytes.getD (a - addr).toNat (mem a)

/-- A finished upload has stored its table at the destination. -/
def memAfter (mem : BitVec 64 → BitVec 8) (o : Option Call) (bits : BitVec 32) :
    BitVec 64 → BitVec 8 :=
  match o with
  | some ⟨r, .upload⟩ =>
    if HasStop bits then storeBytes mem (reqs r).desc.descDeviceAddr (reqs r).table else mem
  | _ => mem

def marked (f : Call → Bool) (o : Option Call) (on : Bool) : Call → Bool :=
  fun c => f c || (decide (o = some c) && on)

/-- A raise is for a doorbell rung on the channel, or for none. -/
def RaiseAllowed (s : State) (ch : Chan) (o : Option Call) : Prop :=
  match o with
  | none => True
  | some c => s.rung c = true ∧ chanOf reqs c = ch

instance (s : State) (ch : Chan) (o : Option Call) : Decidable (RaiseAllowed reqs s ch o) := by
  unfold RaiseAllowed
  cases o <;> infer_instance

/-- The device raises `bits` in the `int_status` of a channel. -/
def stepRaise (s : State) (ch : Chan) (o : Option Call) (bits : BitVec 32) : Option State :=
  if RaiseAllowed reqs s ch o then
    let c := s.ctx ch
    some { s.setCtx ch { c with intStatus := c.intStatus.raise o bits } with
      mem := memAfter reqs s.mem o bits
      stopped := marked s.stopped o (HasStop bits)
      aborted := marked s.aborted o (HasAbort bits) }
  else none

def kfifoSize : Nat := 4096

/-- `dma_isr_handler`: one token, dropped when the fifo is full. -/
def dmaIsrHandler (s : State) : State :=
  { s with fifo := if s.fifo < kfifoSize then s.fifo + 1 else s.fifo }

/-! ## The completion thread -/

/-- The scans visit `hdmar[0], hdmaw[0], hdmar[1], ...`. -/
def nextChan (ch : Chan) : Option Chan :=
  match ch.rwType with
  | .rd => some ⟨.wr, ch.id⟩
  | .wr => if h : ch.id.val + 1 < maxHdmaNumber then some ⟨.rd, ⟨ch.id.val + 1, h⟩⟩ else none

def firstChan : Chan := ⟨.rd, 0⟩

/-- `wake_up_interruptible` on the wait queue of a channel. -/
def wakeUp (req : Nat → ReqPc) (ch : Chan) : Nat → ReqPc :=
  fun r =>
    match req r with
    | .wait st .asleep =>
      if (reqs r).chan st = ch then .wait st (.check .woken) else .wait st .asleep
    | pc => pc

/-- The place after a scan, by falling through or by `break`. -/
def afterScan : Scan → KthreadPc
  | .token => .popTokens
  | .extra => .outerEnd

/-- The extra scan wakes always, the token scan when `flag & 1`. -/
def wakes : Scan → BitVec 8 → Bool
  | .token, flag => flag &&& 1#8 == 1#8
  | .extra, _ => true

/-- The tokens taken for a flag: two for stop and watermark together, one for
either. -/
def tokensFor (flag : BitVec 8) : Nat :=
  if flag = 3#8 then 2 else if flag = 2#8 ∨ flag = 1#8 then 1 else 0

/-- The three `kfifo_out` blocks after a pass, and the two `break`s. -/
def popTokens (s : State) : State :=
  let fifo := s.fifo - tokensFor s.thread.flag
  let flag := if tokensFor s.thread.flag = 0 then s.thread.flag else 0#8
  if 32 ≤ s.thread.loop then
    { s with fifo := fifo - 1, thread := ⟨.extraTop, flag, 0⟩ }
  else if s.shouldStopFlag then
    { s with fifo := fifo, thread := ⟨.extraTop, flag, s.thread.loop⟩ }
  else
    { s with fifo := fifo, thread := ⟨.whileTop, flag, s.thread.loop⟩ }

def hamaHandleKthread (s : State) : Option State :=
  match s.thread.pc with
  | .wait => some (s.setPc (if s.kthreadShouldStop then .exited else .whileTop))
  | .whileTop =>
    if 1 ≤ s.fifo then
      some { s with thread := ⟨.read .token firstChan, s.thread.flag, s.thread.loop + 1⟩ }
    else some (s.setPc .extraTop)
  | .read sc ch =>
    let status := (s.ctx ch).intStatus
    if HasEvent status.value then
      let flag := match sc with
        | .token => (status.value &&& 3#32).truncate 8
        | .extra => s.thread.flag
      some { s with thread := ⟨.store sc ch status, flag, s.thread.loop⟩ }
    else
      match nextChan ch with
      | some ch' => some (s.setPc (.read sc ch'))
      | none => some (s.setPc (afterScan sc))
  | .store sc ch status =>
    some ((s.setCtx ch
      { s.ctx ch with state := .completed, credit := status, owed := true }).setPc
        (.clear sc ch status))
  | .clear sc ch status =>
    let c := s.ctx ch
    some ((s.setCtx ch
      { c with intStatus := c.intStatus.clear (hdmaClearIntrStatus status.value) }).setPc
        (.wake sc ch status))
  | .wake sc ch _ =>
    let loop := match sc with
      | .token => 0
      | .extra => s.thread.loop
    let t := { s with thread := ⟨afterScan sc, s.thread.flag, loop⟩ }
    if wakes sc s.thread.flag then
      some { t.setCtx ch { s.ctx ch with owed := false } with req := wakeUp reqs s.req ch }
    else some t
  | .popTokens => some (popTokens s)
  | .extraTop =>
    if s.fifo < 1 then some (s.setPc (.read .extra firstChan)) else some (s.setPc .outerEnd)
  | .outerEnd => some (s.setPc (if s.shouldStopFlag then .exited else .wait))
  | .exited => none

/-! ## The system -/

inductive Action
  | request (r : Nat)
  | fail (r : Nat) (ret : Int)
  | expire (r : Nat)
  | interrupt (r : Nat)
  | raise (ch : Chan) (o : Option Call) (bits : BitVec 32)
  | irq
  | thread
  -- the two stop signals of `eon_remove`
  | removeFlag
  | removeStop

def step (s : State) : Action → Option State
  | .request r => stepRequest reqs s r
  | .fail r ret => stepFail s r ret
  | .expire r => stepExpire s r
  | .interrupt r => stepInterrupt s r
  | .raise ch o bits => stepRaise reqs s ch o bits
  | .irq => some (dmaIsrHandler s)
  | .thread => hamaHandleKthread reqs s
  | .removeFlag => some { s with shouldStopFlag := true }
  | .removeStop => some { s with kthreadShouldStop := true }

end Requests

/-- The state `eon_probe` leaves.  Registers and device memory are arbitrary. -/
structure Initial (s : State) : Prop where
  lock : ∀ ch, (s.ctx ch).lock = none
  state : ∀ ch, (s.ctx ch).state = .idle
  intStatus : ∀ ch, (s.ctx ch).intStatus = []
  owed : ∀ ch, (s.ctx ch).owed = false
  req : ∀ r, s.req r = .setupSg
  thread : s.thread.pc = .wait
  rung : ∀ c, s.rung c = false
  stopped : ∀ c, s.stopped c = false
  aborted : ∀ c, s.aborted c = false
  terminated : ∀ c, s.terminated c = false

def system (reqs : Nat → HdmaRequest) : StepSystem State Action where
  init := Initial
  step := step reqs

end Completion
end EonDrv
