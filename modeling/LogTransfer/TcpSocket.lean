import Mathlib.Logic.Function.Basic
import LogTransfer.Codec
import LogTransfer.LoopHandle

/-!
# The socket over the event loop

The object, the memory it hands to the loop, and what the loop still owes it. A
callback into the owner is a frame: until it returns, the owner may call any
function of the socket, its destructor too.
-/

set_option autoImplicit false

namespace LogTransfer.Net
open LoopHandle

section Types

def UV_EINVAL : ℤ := -22
def UV_EOF : ℤ := -4095

structure WriteRequest where
  buffer : Bytes
  socket : Bool
  deriving DecidableEq, Repr

/-- A running callback, with what its caller has left to do. -/
inductive Frame
  /-- `onAllocate`, `onRead`, `onConnect` or `onError` of a read. -/
  | plain
  /-- `onSendComplete` of a request. -/
  | sent (request : ℕ) (status : ℤ)
  /-- `onError` of a write. -/
  | failed (request : ℕ)
  | closed
  deriving DecidableEq, Repr

/-- What the owner hears. -/
inductive Heard
  | allocate
  | read (size : ℕ)
  | sendComplete (request : ℕ) (status : ℤ)
  | error (status : ℤ) (place : String)
  | closed
  | connect (status : ℤ)
  deriving DecidableEq, Repr

/-- The fields of the object, the heap and the loop. Requests have numbers, and
`writes` are those the loop has not called back for. After `onAllocCb` the loop
calls `onReadCb` before anything else. -/
structure SocketWorld where
  life : Life
  connectRequest : Option ℕ
  pendingWrites : List ℕ
  callback : Bool
  reading : Bool
  closing : Bool
  writeRequests : ℕ → Option WriteRequest
  connectRequests : ℕ → Bool
  fresh : ℕ
  freshConnect : ℕ
  writes : List ℕ
  connecting : Option ℕ
  streaming : Bool
  lent : Bool
  frame : Option Frame

end Types

namespace SocketWorld

section Source

/-- The constructor; `uv_tcp_init` may refuse the handle. -/
def create (started : Bool) : SocketWorld :=
  { life := .init started, connectRequest := none, pendingWrites := [], callback := false,
    reading := false, closing := false, writeRequests := fun _ => none,
    connectRequests := fun _ => false, fresh := 0, freshConnect := 0, writes := [],
    connecting := none, streaming := false, lent := false, frame := none }

variable (w : SocketWorld)

def setCallback (callback : Bool) : SocketWorld := { w with callback := callback }

/-- A call of the loop that reads the handle. -/
def onHandle (r : SocketWorld × ℤ) : Except Fault (SocketWorld × ℤ) :=
  if w.life.there then .ok r else .error .freed

/-- A new request takes the place of an old one, which is freed. -/
def renewConnect : SocketWorld :=
  { w with connectRequest := some w.freshConnect,
           connectRequests := fun i => i = w.freshConnect ||
             (w.connectRequest ≠ some i && w.connectRequests i),
           freshConnect := w.freshConnect + 1 }

def resetConnect : SocketWorld :=
  { w with connectRequest := none,
           connectRequests := fun i => w.connectRequest ≠ some i && w.connectRequests i }

/-- `address` and `rc` are the answers of `uv_ip4_addr` and `uv_tcp_connect`; the
latter takes no handle that is closing. -/
def connect (address rc : ℤ) : Except Fault (SocketWorld × ℤ) :=
  if !w.life.held then .ok (w, UV_EINVAL)
  else if address ≠ 0 then .ok (w, address)
  else if !w.life.takes then .error .closing
  else if rc ≠ 0 then w.onHandle (w.renewConnect.resetConnect, rc)
  else w.onHandle ({ w.renewConnect with connecting := some w.freshConnect }, 0)

def startRead (rc : ℤ) : Except Fault (SocketWorld × ℤ) :=
  if !w.life.held || w.closing then .ok (w, UV_EINVAL)
  else if w.reading then .ok (w, 0)
  else w.onHandle (if rc = 0 then { w with reading := true, streaming := true } else w, rc)

def stopRead (rc : ℤ) : Except Fault (SocketWorld × ℤ) :=
  if !w.life.held || !w.reading then .ok (w, 0)
  else w.onHandle (if rc = 0 then { w with reading := false, streaming := false } else w, rc)

/-- A request that the loop takes; one that it refuses is freed at once. -/
def accept (data : Bytes) : SocketWorld :=
  { w with writeRequests := Function.update w.writeRequests w.fresh (some ⟨data, true⟩),
           fresh := w.fresh + 1, writes := w.writes ++ [w.fresh],
           pendingWrites := w.pendingWrites ++ [w.fresh] }

def send (data : Bytes) (rc : ℤ) : Except Fault (SocketWorld × ℤ) :=
  if !w.life.held || w.closing then .ok (w, UV_EINVAL)
  else w.onHandle (if rc = 0 then w.accept data else w, rc)

/-- `uv_close`: the loop reads no more from the handle. -/
def uvClose : Except Fault SocketWorld := do
  let life ← w.life.close
  pure { w with life := life, streaming := false }

def close (rcStop : ℤ) : Except Fault SocketWorld :=
  if !w.life.held || w.closing then .ok w
  else do
    let (w, _) ← { w with closing := true }.stopRead rcStop
    w.uvClose

/-- The loop of the destructor. -/
def orphan (requests : ℕ → Option WriteRequest) :
    List ℕ → Except Fault (ℕ → Option WriteRequest)
  | [] => .ok requests
  | i::rest =>
    match requests i with
    | none => .error .freed
    | some r => orphan (Function.update requests i (some { r with socket := false })) rest

def destroy : Except Fault SocketWorld := do
  let requests ← orphan w.writeRequests w.pendingWrites
  let life ← w.life.destroy
  pure { w.resetConnect with life := life, writeRequests := requests, pendingWrites := [],
                             streaming := w.streaming && life.takes }

/-- `handle->data` of a callback: whether it is null. -/
def self : Except Fault Bool :=
  match w.life.memory with
  | none => .error .freed
  | some h => if !h.data then .ok false else if w.life.alive then .ok true else .error .freed

/-- The owner's callback, where there is one. -/
def call (frame : Frame) : SocketWorld :=
  if w.callback then { w with frame := some frame } else w

def onAllocCb : Except Fault SocketWorld := do
  let self ← w.self
  pure (if self then { w with lent := true }.call .plain else { w with lent := true })

def onReadCb (nread : ℤ) : Except Fault SocketWorld := do
  let self ← w.self
  let w := { w with lent := false }
  pure (if self && nread ≠ 0 then w.call .plain else w)

/-- The end of `onWriteCb`: its request goes, and the loop looks at the handle. -/
def freeRequest (i : ℕ) : Except Fault SocketWorld :=
  if (w.writeRequests i).isSome && w.life.there then
    .ok { w with writeRequests := Function.update w.writeRequests i none, frame := none }
  else .error .freed

def onWriteCb (i : ℕ) (rest : List ℕ) (status : ℤ) : Except Fault SocketWorld :=
  match w.writeRequests i with
  | none => .error .freed
  | some r =>
    let w := { w with writes := rest }
    if !r.socket then w.freeRequest i
    else if !w.life.alive then .error .freed
    else
      let w := { w with pendingWrites := w.pendingWrites.filter (· ≠ i) }
      if w.callback then .ok (w.call (.sent i status)) else w.freeRequest i

def onConnectCb (i : ℕ) : Except Fault SocketWorld :=
  if w.connectRequests i && w.life.alive then
    .ok ({ w with connecting := none }.call .plain)
  else .error .freed

def onCloseCb : Except Fault SocketWorld := do
  let life ← w.life.onClose
  let w := { w with life := life }
  pure (if life.alive then { w with reading := false }.call .closed else w)

/-- The owner's callback returns. -/
def ret : Frame → Except Fault SocketWorld
  | .plain => if w.life.there then .ok { w with frame := none } else .error .freed
  | .sent i status =>
    if status = 0 then w.freeRequest i
    else if !w.life.alive then .error .freed
    else if !w.callback then .error .null
    else .ok (w.call (.failed i))
  | .failed i => w.freeRequest i
  | .closed => .ok { w with frame := none }

end Source

section System

/-- The calls of the owner with the answers of the loop, then what the loop does. -/
inductive Act
  | setCallback (callback : Bool)
  | connect (address rc : ℤ)
  | startRead (rc : ℤ)
  | stopRead (rc : ℤ)
  | send (data : Bytes) (rc : ℤ)
  | close (rcStop : ℤ)
  | destroy
  | ret
  | alloc
  | read (nread : ℤ)
  | written (status : ℤ)
  | connected (status : ℤ)
  | closed

def Act.ofOwner : Act → Bool
  | .setCallback _ | .connect _ _ | .startRead _ | .stopRead _ | .send _ _ | .close _
  | .destroy => true
  | .ret | .alloc | .read _ | .written _ | .connected _ | .closed => false

variable (w : SocketWorld)

/-- Nothing runs on the loop. -/
def idle : Bool := w.frame.isNone && !w.lent

/-- What can happen next. The owner calls from one of its callbacks or from
elsewhere on the loop; the loop closes a handle when its requests are done. -/
def enabled : Act → Bool
  | .connect _ rc => w.life.alive && (w.frame.isSome || !w.lent) &&
      (rc ≠ 0 || w.connecting.isNone)
  | .setCallback _ | .startRead _ | .stopRead _ | .send _ _ | .close _ | .destroy =>
    w.life.alive && (w.frame.isSome || !w.lent)
  | .ret => w.frame.isSome
  | .alloc => w.idle && w.streaming && w.life.takes
  | .read _ => w.frame.isNone && w.lent
  | .written _ => w.idle && !w.writes.isEmpty
  | .connected _ => w.idle && w.connecting.isSome
  | .closed => w.idle && w.life.due && w.writes.isEmpty && w.connecting.isNone

def act : Act → Except Fault SocketWorld
  | .setCallback callback => .ok (w.setCallback callback)
  | .connect address rc => (w.connect address rc).map Prod.fst
  | .startRead rc => (w.startRead rc).map Prod.fst
  | .stopRead rc => (w.stopRead rc).map Prod.fst
  | .send data rc => (w.send data rc).map Prod.fst
  | .close rcStop => w.close rcStop
  | .destroy => w.destroy
  | .ret => w.frame.elim (.ok w) w.ret
  | .alloc => w.onAllocCb
  | .read nread => w.onReadCb nread
  | .written status => match w.writes with
    | [] => .ok w
    | i::rest => w.onWriteCb i rest status
  | .connected _ => w.connecting.elim (.ok w) w.onConnectCb
  | .closed => w.onCloseCb

/-- The callbacks of a step. -/
def heard : Act → List Heard
  | .alloc => if w.life.alive && w.callback then [.allocate] else []
  | .read nread =>
    if w.life.alive && w.callback && nread ≠ 0 then
      if nread > 0 then [.read nread.toNat]
      else [.error nread (if nread = UV_EOF then "read(eof)" else "read")]
    else []
  | .written status =>
    if w.life.alive && w.callback then w.writes.head?.toList.map (.sendComplete · status) else []
  | .connected status => if w.life.alive && w.callback then [.connect status] else []
  | .closed => if w.life.alive && w.callback then [.closed] else []
  | .ret => match w.frame with
    | some (.sent _ status) => if status = 0 then [] else [.error status "write"]
    | _ => []
  | _ => []

/-- Steps that are allowed, one after the other, with what the owner heard. -/
inductive Run (allowed : SocketWorld → Act → Prop) (w : SocketWorld) :
    List Act → List Heard → SocketWorld → Prop
  | start : Run allowed w [] [] w
  | step {acts : List Act} {events : List Heard} {w₁ w₂ : SocketWorld} (a : Act) :
      Run allowed w acts events w₁ → w₁.enabled a = true → allowed w₁ a → w₁.act a = .ok w₂ →
      Run allowed w (acts ++ [a]) (events ++ w₁.heard a) w₂

/-- The loop alone. -/
def byLoop (_ : SocketWorld) (a : Act) : Prop := a.ofOwner = false

end System

end SocketWorld

end LogTransfer.Net
