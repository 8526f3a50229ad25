import MiniTree.Core.Bytes
import MiniTree.Core.LTS
import MiniTree.Net.TcpServer

/-!
# The MQTT broker (`net/port/mqtt_broker/mqtt_broker.c`)

The broker keeps one session for each slot of the TCP server's table. A poll of a session
reads the slot's ring into the session's buffer, takes complete packets off the front of
the buffer and dispatches them, and last looks at the keep-alive time.

coreMQTT is the environment (`CoreMqtt`): decoding a fixed header, a PUBLISH, and matching
topics. lwIP's callbacks come between polls. `broker_process_session` is cut into steps:
`poll` up to the end of the reading loop, `packet` for one round of the parsing loop; `pc`
is the session in between.

The compaction behind a dispatched packet computes `buf_used - total` in `size_t`. When a
handler has reset the session without closing it, that is negative, and `memmove` runs over
all of memory: `wild`. C gives no meaning to what follows, so the model stops there.

`origin`, `history`, `accepted` and `acts` are history variables: which connection each
buffered byte came from, what a connection sent and what was dispatched, which
connections had a CONNECT accepted, and what the broker acted on.
-/

namespace MiniTree.Net

open MiniTree.Core Algorithm Function List Option

/-! ## coreMQTT -/

inductive PacketType where
  | connect | publish | subscribe | unsubscribe | pubrel | pingreq | disconnect | puback | pubcomp
  | other
  deriving DecidableEq, Repr

/-- What `MQTT_ProcessIncomingPacketTypeAndLength` reports. -/
inductive Fixed where
  | needMoreBytes
  | noDataAvailable
  | badResponse
  | packet (type : PacketType) (headerLength remainingLength : Nat)
  deriving DecidableEq, Repr

structure Publish where
  topic : Bytes
  payload : Bytes
  qos : Nat
  packetId : Nat
  deriving DecidableEq, Repr

structure CoreMqtt where
  processIncoming : Bytes → Fixed
  /-- `MQTT_DeserializePublish` of a whole packet -/
  deserializePublish : Bytes → Option Publish
  matchTopic : Bytes → Bytes → Bool
  /-- `MQTT_GetPublishPacketSize` and `MQTT_SerializePublish` find room in `tx_buf` -/
  serializable : Publish → Bool

/-- A fixed header is decided by its own bytes, of which there are one to five. -/
structure CoreMqtt.Lawful (m : CoreMqtt) : Prop where
  own : ∀ b c type header remaining, m.processIncoming b = .packet type header remaining →
    m.processIncoming (b.take header ++ c) = .packet type header remaining
  header : ∀ b type header remaining, m.processIncoming b = .packet type header remaining →
    0 < header
  decided : ∀ b, 5 ≤ b.length →
    m.processIncoming b ≠ .needMoreBytes ∧ m.processIncoming b ≠ .noDataAvailable

/-! ## Configuration and state -/

structure BrokerCfg where
  mqtt : CoreMqtt
  /-- `CONFIG_TCP_SERVER_MAX_CLIENTS` -/
  clients : Nat
  /-- `CONFIG_TCP_RX_BUF_SIZE` -/
  rxSize : UInt16
  /-- `MQTT_BROKER_PACKET_BUFFER_SIZE` -/
  bufferSize : Nat
  maxTopicLen : Nat
  maxSubscriptions : Nat
  keepAliveFactor : UInt32
  rx_pos : rxSize ≠ 0
  rx_pow : rxSize &&& (rxSize - 1) = 0
  buffer_ge : 5 ≤ bufferSize
  buffer_lt : bufferSize < 2 ^ 32

/-- mirrors mqtt_broker.c:36-43 (`struct broker_session`); `buf` is the
part of `accumulate_buf` in use -/
structure Session where
  mqttConnected : Bool
  protocolLevel : UInt8
  keepAlive : Nat
  lastRx : UInt32
  bufUsed : UInt32
  buf : Bytes
  origin : List Nat
  deriving DecidableEq, Repr

/-- The session behind a read of `data` from the connection `pcb`. -/
def Session.append (s : Session) (data : Bytes) (pcb : Nat) : Session :=
  { s with
    bufUsed := s.bufUsed + .ofNat data.length
    buf := s.buf ++ data
    origin := s.origin ++ List.replicate data.length pcb }

/-- mirrors mqtt_broker.c:48-53 (`struct broker_subscription`); `owner`
is the connection that subscribed -/
structure Subscription where
  isUsed : Bool
  sessionId : Nat
  qos : UInt8
  filter : Bytes
  owner : Nat
  deriving DecidableEq, Repr

/-- What the broker hands to `tcp_server_send`. -/
inductive Msg where
  | connack (reasonCode : Nat)
  | pingresp
  | puback (packetId : Nat)
  | pubrec (packetId : Nat)
  | pubcomp (packetId : Nat)
  | suback (packetId : Nat) (codes : List UInt8)
  | unsuback (protocolLevel : UInt8) (packetId count : Nat)
  | publish (topic payload : Bytes)
  deriving DecidableEq, Repr

/-- What the connection in a slot sent, what the broker read of it, and the packets it
dispatched. -/
structure History where
  stream : Bytes
  taken : Bytes
  packets : List Bytes
  deriving DecidableEq, Repr

/-- A packet the broker acted on: where its bytes came from, and which connections had a
CONNECT accepted by then. -/
structure Act where
  type : PacketType
  origin : List Nat
  known : List Nat
  deriving DecidableEq, Repr

structure Broker where
  slots : Nat → Slot
  sessions : Nat → Session
  subs : List Subscription
  pc : Option Nat
  wild : Bool
  out : List (Nat × Msg)
  connections : Nat
  history : Nat → History
  accepted : List Nat
  acts : List Act

namespace Broker

variable (cfg : BrokerCfg)

/-- mirrors mqtt_broker.c:761-779 (`mqtt_broker_init`) -/
def fresh : Broker where
  slots := fun _ => ⟨false, none, ⟨fun _ => 0, 0, 0, 0, 0, 0⟩⟩
  sessions := fun _ => ⟨false, 0, 0, 0, 0, [], []⟩
  subs := List.replicate cfg.maxSubscriptions ⟨false, 0, 0, [], 0⟩
  pc := none
  wild := false
  out := []
  connections := 0
  history := fun _ => ⟨[], [], []⟩
  accepted := []
  acts := []

section
variable (subs : List Subscription) (b : Broker) (i : Nat)

def setSession (s : Session) : Broker :=
  { b with sessions := update b.sessions i s }

def setSlot (s : Slot) : Broker :=
  { b with slots := update b.slots i s }

def send (m : Msg) : Broker := { b with out := b.out ++ [(i, m)] }

/-- mirrors mqtt_broker.c:166-171 (`broker_remove_subscriptions`) -/
def removeSubscriptions : List Subscription :=
  subs.map fun sub => if sub.isUsed = true ∧ sub.sessionId = i then { sub with isUsed := false } else sub

/-- mirrors mqtt_broker.c:219-226 (`broker_session_reset`) -/
def reset : Broker :=
  { b.setSession i { b.sessions i with
      mqttConnected := false, protocolLevel := 0, keepAlive := 0, bufUsed := 0, buf := [],
      origin := [] } with
    subs := removeSubscriptions b.subs i }

def closeSession : Broker := b.setSlot i (b.slots i).close

/-- mirrors mqtt_broker.c:233-238 (`broker_protocol_violation`) -/
def violation : Broker := (b.reset i).closeSession i

end

/-! ## Packet bodies -/

/-- mirrors mqtt_broker.c:68-71 (`broker_read_u16_be`) -/
def readU16 (data : Bytes) (off : Nat) : Nat :=
  (byteAt data off).toNat * 256 + (byteAt data (off + 1)).toNat

/-- mirrors mqtt_broker.c:132-142 (`broker_skip_utf8_string`) -/
def skipUtf8 (data : Bytes) (off : Nat) : Option Nat :=
  if data.length < off + 2 then none
  else if data.length < off + 2 + readU16 data off then none
  else some (off + 2 + readU16 data off)

/-- The loop over the bytes of a property length, `fuel` of four being left. -/
def propertyLength (data : Bytes) (off : Nat) : Nat → Nat → Nat → Nat → Option (Nat × Nat)
  | 0, _, _, _ => none
  | fuel + 1, decoded, multiplier, len =>
    if data.length ≤ off + decoded then none
    else
      let byte := (byteAt data (off + decoded)).toNat
      let len := len + byte % 128 * multiplier
      if byte < 128 then some (decoded + 1, len)
      else propertyLength data off fuel (decoded + 1) (multiplier * 128) len

/-- mirrors mqtt_broker.c:102-123 (`broker_skip_properties`) -/
def skipProperties (data : Bytes) (off : Nat) : Option Nat :=
  match propertyLength data off 4 0 1 0 with
  | none => none
  | some (decoded, len) =>
    if data.length < off + decoded + len then none else some (off + decoded + len)

inductive Verdict where
  | violation
  | unsupported
  | accepted (protocolLevel : UInt8) (keepAlive : Nat)
  deriving DecidableEq, Repr

/-- The fields behind the keep-alive time, each one only skipped. -/
def skipConnect (data : Bytes) (level flags : UInt8) (off : Nat) : Option Nat := do
  let properties (off : Nat) := if 5 ≤ level then skipProperties data off else some off
  let string (present : Bool) (off : Nat) := if present then skipUtf8 data off else some off
  let off ← properties off
  let off ← skipUtf8 data off
  let off ← if flags &&& 0x04 ≠ 0 then do
      let off ← properties off
      let off ← skipUtf8 data off
      skipUtf8 data off
    else some off
  let off ← string (flags &&& 0x80 ≠ 0) off
  string (flags &&& 0x40 ≠ 0) off

/-- mirrors mqtt_broker.c:377-434 (`broker_handle_connect`) -/
def connectVerdict (data : Bytes) : Verdict :=
  match skipUtf8 data 0 with
  | none => .violation
  | some off =>
    if data.length < off + 4 then .violation
    else
      let level := byteAt data off
      let flags := byteAt data (off + 1)
      let keepAlive := readU16 data (off + 2)
      if level ≠ 4 ∧ level ≠ 5 then .unsupported
      else match skipConnect data level flags (off + 4) with
        | none => .violation
        | some _ => .accepted level keepAlive

/-- The C string in a filter's array. -/
def cString (filter : Bytes) : Bytes := filter.takeWhile (· ≠ 0)

def Subscription.isFor (sub : Subscription) (i : Nat) (filter : Bytes) : Bool :=
  sub.isUsed && sub.sessionId == i && cString sub.filter == filter

/-- mirrors mqtt_broker.c:181-209 (`broker_add_subscription`) -/
def addSubscription (subs : List Subscription) (i owner : Nat) (filter : Bytes) (qos : UInt8) :
    Option (List Subscription) :=
  if filter = [] ∨ cfg.maxTopicLen < filter.length then none
  else match subs.findIdx? (Subscription.isFor · i filter) with
    | some k => some (subs.modify k fun sub => { sub with qos := qos })
    | none => match subs.findIdx? (fun sub => sub.isUsed = false) with
      | some k => some (subs.set k ⟨true, i, qos, filter, owner⟩)
      | none => none

/-- `sizeof(codes)` -/
def maxCodes : Nat := if 256 < cfg.bufferSize then 64 else 32

/-- The loop of `broker_handle_subscribe`: the codes, or `none` for a violation, and the
table. -/
def subscribeLoop (data : Bytes) (i owner : Nat) :
    Nat → Nat → List UInt8 → List Subscription → Option (List UInt8) × List Subscription
  | 0, _, _, subs => (none, subs)
  | fuel + 1, off, codes, subs =>
    if data.length ≤ off then (some codes, subs)
    else if data.length < off + 2 then (none, subs)
    else
      let n := readU16 data off
      if n = 0 ∨ data.length < off + 2 + n + 1 then (none, subs)
      else
        let filter := slice data (off + 2) n
        let reqQos := byteAt data (off + 2 + n) &&& 0x03
        if maxCodes cfg ≤ codes.length then (none, subs)
        else if reqQos = 3 then (none, subs)
        else
          let granted := if 1 < reqQos then 1 else reqQos
          match addSubscription cfg subs i owner filter granted with
          | none => subscribeLoop data i owner fuel (off + 2 + n + 1) (codes ++ [0x80]) subs
          | some subs => subscribeLoop data i owner fuel (off + 2 + n + 1) (codes ++ [granted]) subs

/-- The loop of `broker_handle_unsubscribe`: the count, or `none` for a violation, and the
table. -/
def unsubscribeLoop (data : Bytes) (i : Nat) :
    Nat → Nat → Nat → List Subscription → Option Nat × List Subscription
  | 0, _, _, subs => (none, subs)
  | fuel + 1, off, count, subs =>
    if data.length ≤ off then (some count, subs)
    else match skipUtf8 data off with
      | none => (none, subs)
      | some off' =>
        let filter := slice data (off + 2) (off' - off - 2)
        let subs := subs.map fun sub =>
          if Subscription.isFor sub i filter then { sub with isUsed := false } else sub
        unsubscribeLoop data i fuel off' (count + 1) subs

/-! ## Handlers -/

/-- Where the packet identifier and, in version 5, the properties end. -/
def skipHead (level : UInt8) (data : Bytes) : Option Nat :=
  if 5 ≤ level then skipProperties data 2 else some 2

section
variable (b : Broker) (i owner : Nat)

/-- A repeated CONNECT first resets the session. -/
def resetRepeated : Broker :=
  if (b.sessions i).mqttConnected then b.reset i else b

section
variable (type : PacketType) (packet data : Bytes)

/-- mirrors mqtt_broker.c:368-443 (`broker_handle_connect`) -/
def handleConnect : Broker :=
  let b := b.resetRepeated i
  match connectVerdict data with
  | .violation => b.violation i
  | .unsupported => (b.send i (.connack 1)).closeSession i
  | .accepted level keepAlive =>
    (b.setSession i { b.sessions i with
      mqttConnected := true, protocolLevel := level, keepAlive := keepAlive }).send i (.connack 0)

/-- `owner` is the connection in the slot.
mirrors mqtt_broker.c:451-517 (`broker_handle_subscribe`) -/
def handleSubscribe : Broker :=
  if (b.sessions i).mqttConnected = false ∨ data.length < 2 then b.violation i
  else match skipHead (b.sessions i).protocolLevel data with
    | none => b.violation i
    | some off =>
      let r := subscribeLoop cfg data i owner (data.length + 1) off [] b.subs
      let b := { b with subs := r.2 }
      match r.1 with
      | none => b.violation i
      | some [] => b.violation i
      | some codes => b.send i (.suback (readU16 data 0) codes)

/-- mirrors mqtt_broker.c:525-566 (`broker_handle_unsubscribe`) -/
def handleUnsubscribe : Broker :=
  if (b.sessions i).mqttConnected = false ∨ data.length < 2 then b.violation i
  else match skipHead (b.sessions i).protocolLevel data with
    | none => b.violation i
    | some off =>
      let r := unsubscribeLoop data i (data.length + 1) off 0 b.subs
      let b := { b with subs := r.2 }
      match r.1 with
      | none => b.violation i
      | some count =>
        b.send i (.unsuback (b.sessions i).protocolLevel (readU16 data 0) (count % 256))

def receivers (topic : Bytes) : List Nat :=
  (b.subs.filter fun sub => sub.isUsed && (b.slots sub.sessionId).isUsed &&
    cfg.mqtt.matchTopic topic (cString sub.filter)).map (·.sessionId)

/-- mirrors mqtt_broker.c:329-357 (`broker_forward_publish`), for all
receivers -/
def forward (p : Publish) : Broker :=
  if cfg.mqtt.serializable p then
    { b with out := b.out ++ (receivers cfg b p.topic).map fun j => (j, .publish p.topic p.payload) }
  else b

/-- mirrors mqtt_broker.c:573-613 (`broker_handle_publish`) -/
def handlePublish : Broker :=
  if (b.sessions i).mqttConnected = false then b.violation i
  else match cfg.mqtt.deserializePublish packet with
    | none => b.violation i
    | some p =>
      let b := b.forward cfg p
      if p.qos = 1 then b.send i (.puback p.packetId)
      else if p.qos = 2 then b.send i (.pubrec p.packetId)
      else b

/-- mirrors mqtt_broker.c:620-676 (`broker_dispatch_packet`) -/
def dispatch : Broker :=
  match type with
  | .connect => b.handleConnect i data
  | .publish => b.handlePublish cfg i packet
  | .subscribe => b.handleSubscribe cfg i owner data
  | .unsubscribe => b.handleUnsubscribe i data
  | .pubrel => if 2 ≤ data.length then b.send i (.pubcomp (readU16 data 0)) else b
  | .pingreq => b.send i .pingresp
  | .disconnect => b.reset i
  | .puback | .pubcomp => b
  | .other => b.violation i

/-- Does the broker act on a packet of this type, other than a CONNECT? -/
def actsOn (s : Session) (type : PacketType) (data : Bytes) : Bool :=
  match type with
  | .publish => s.mqttConnected
  | .subscribe | .unsubscribe => s.mqttConnected && decide (2 ≤ data.length)
  | .pubrel => 2 ≤ data.length
  | .pingreq => true
  | _ => false

/-- The history of one dispatched packet, `owner` being the connection in the slot and
`origin` where its bytes came from. -/
def record
    (origin : List Nat) : Broker :=
  { b with
    history := update b.history i
      { b.history i with packets := (b.history i).packets ++ [packet] }
    acts := if actsOn (b.sessions i) type data then b.acts ++ [⟨type, origin, b.accepted⟩] else b.acts
    accepted :=
      match type, connectVerdict data with
      | .connect, .accepted _ _ => if origin.all (· == owner) then b.accepted ++ [owner] else b.accepted
      | _, _ => b.accepted }

end

end

/-! ## A poll -/

/-- The reading loop: the session, the slot, and what was read. -/
def readLoop (s : Session) (slot : Slot) : Nat → Bytes → Session × Slot × Bytes
  | 0, got => (s, slot, got)
  | fuel + 1, got =>
    if s.bufUsed.toNat < cfg.bufferSize then
      let space := cfg.bufferSize - s.bufUsed.toNat
      let chunk := if 128 < space then 128 else space
      match slot.getData (.ofNat chunk) with
      | (some (x :: data), slot) =>
        readLoop (s.append (x :: data) (slot.pcb.getD 0)) slot fuel (got ++ x :: data)
      | (_, slot) => (s, slot, got)
    else (s, slot, got)

/-- mirrors mqtt_broker.c:685-713 (`broker_process_session`) -/
def poll (b : Broker) (i : Nat) (now : UInt32) : Broker :=
  if (b.slots i).isUsed = false then
    if (b.sessions i).mqttConnected = true ∨ 0 < (b.sessions i).bufUsed then b.reset i else b
  else
    let r := readLoop cfg (b.sessions i) (b.slots i) (cfg.bufferSize + 1) []
    let s := if r.2.2 = [] then r.1 else { r.1 with lastRx := now }
    { (b.setSession i s).setSlot i r.2.1 with
      pc := some i
      history := update b.history i
        { b.history i with taken := (b.history i).taken ++ r.2.2 } }

/-- mirrors mqtt_broker.c:749-758 (`broker_process_session`) -/
def finish (b : Broker) (i : Nat) (now : UInt32) : Broker :=
  let s := b.sessions i
  let b := { b with pc := none }
  if s.mqttConnected = true ∧ 0 < s.keepAlive then
    if .ofNat s.keepAlive * 1000 * cfg.keepAliveFactor ≤ now - s.lastRx then
      (b.reset i).closeSession i
    else b
  else b

/-- The end of a round that dispatched a packet of `total` bytes.
mirrors mqtt_broker.c:741-746 -/
def compact (b : Broker) (i total : Nat) : Broker :=
  let s := b.sessions i
  if (b.slots i).isUsed = false then { b with pc := none }
  else if s.bufUsed.toNat < total then
    { b.setSession i { s with bufUsed := s.bufUsed - .ofNat total } with wild := true }
  else
    b.setSession i { s with
      bufUsed := s.bufUsed - .ofNat total
      buf := s.buf.drop total
      origin := s.origin.drop total }

/-- One round of the parsing loop.
mirrors mqtt_broker.c:716-747 (`broker_process_session`) -/
def packet (b : Broker) (i : Nat) (now : UInt32) : Broker :=
  let s := b.sessions i
  if s.bufUsed = 0 then b.finish cfg i now
  else match cfg.mqtt.processIncoming s.buf with
    | .needMoreBytes | .noDataAvailable => b.finish cfg i now
    | .badResponse => { b.violation i with pc := none }
    | .packet type header remaining =>
      let total := header + remaining
      if cfg.bufferSize < total then { b.violation i with pc := none }
      else if s.bufUsed.toNat < total then b.finish cfg i now
      else
        let bytes := s.buf.take total
        let owner := (b.slots i).pcb.getD 0
        let data := slice s.buf header remaining
        ((b.record i owner type bytes data (s.origin.take total)).dispatch cfg i owner type bytes
          data).compact i total

/-! ## Runs -/

inductive Event where
  | accept
  /-- data for the connection in a slot -/
  | receive (i : Nat) (chain : List (Block UInt8))
  /-- the peer of a slot closes, or lwIP reports an error -/
  | release (i : Nat)
  | poll (i : Nat) (now : UInt32)
  | packet (now : UInt32)

/-- Nothing is enabled once memory is gone; callbacks come only between polls. -/
def next (b : Broker) : Event → Option Broker
  | .accept =>
    if b.wild = true ∨ b.pc.isSome = true then none
    else match freeSlot b.slots cfg.clients with
      | none => some b
      | some i => some { b.setSlot i ((b.slots i).accept cfg.rxSize b.connections) with
          connections := b.connections + 1
          history := update b.history i ⟨[], [], []⟩ }
  | .receive i chain =>
    if b.wild = true ∨ b.pc.isSome = true ∨ (b.slots i).isUsed = false then none
    else some { b.setSlot i ((b.slots i).receive chain) with
      history := update b.history i
        { b.history i with stream := (b.history i).stream ++ payload chain } }
  | .release i =>
    if b.wild = true ∨ b.pc.isSome = true ∨ (b.slots i).isUsed = false then none
    else some (b.setSlot i (b.slots i).release)
  | .poll i now =>
    if b.wild = true ∨ b.pc.isSome = true ∨ cfg.clients ≤ i then none else some (b.poll cfg i now)
  | .packet now =>
    if b.wild = true then none
    else match b.pc with
      | none => none
      | some i => some (b.packet cfg i now)

def system : LTS Broker Event := LTS.ofFn (· = fresh cfg) (next cfg)

/-! ## What the handlers leave alone -/

variable {cfg}

/-- Subscriptions are only dropped, changed in their QoS, or added for `owner` in slot `i`. -/
def SubsKept (i owner : Nat) (subs subs' : List Subscription) : Prop :=
  ∀ sub ∈ subs', sub.isUsed = true →
    (∃ old ∈ subs, old.isUsed = true ∧ old.sessionId = sub.sessionId ∧ old.owner = sub.owner) ∨
      sub.sessionId = i ∧ sub.owner = owner

theorem SubsKept.refl {i owner : Nat} (subs : List Subscription) : SubsKept i owner subs subs :=
  fun sub h hu => .inl ⟨sub, h, hu, rfl, rfl⟩

theorem SubsKept.trans {i owner : Nat} {l₁ l₂ l₃ : List Subscription} (h : SubsKept i owner l₁ l₂)
    (h' : SubsKept i owner l₂ l₃) : SubsKept i owner l₁ l₃ := by
  intro sub hm hu
  rcases h' sub hm hu with ⟨old, hold, hou, h1, h2⟩ | hnew
  · rcases h old hold hou with ⟨old', hold', hou', h3, h4⟩ | ⟨h3, h4⟩
    · exact .inl ⟨old', hold', hou', h3.trans h1, h4.trans h2⟩
    · exact .inr ⟨h1.symm.trans h3, h2.symm.trans h4⟩
  · exact .inr hnew

/-- A handler of slot `i`, whose connection is `owner`, only touches that slot and session,
and only adds subscriptions in their names. -/
structure Keeps (i owner : Nat) (b b' : Broker) : Prop where
  slots : ∀ j, j ≠ i → b'.slots j = b.slots j
  sessions : ∀ j, j ≠ i → b'.sessions j = b.sessions j
  slot : b'.slots i = b.slots i ∨ b'.slots i = (b.slots i).close
  pc : b'.pc = b.pc
  wild : b'.wild = b.wild
  connections : b'.connections = b.connections
  history : b'.history = b.history
  accepted : b'.accepted = b.accepted
  acts : b'.acts = b.acts
  subs : SubsKept i owner b.subs b'.subs

section Keeps

variable {i owner : Nat} {b b' b'' : Broker}

theorem Keeps.refl : Keeps i owner b b where
  slots _ _ := rfl
  sessions _ _ := rfl
  slot := .inl rfl
  pc := rfl
  wild := rfl
  connections := rfl
  history := rfl
  accepted := rfl
  acts := rfl
  subs := .refl b.subs

theorem close_close (s : Slot) : s.close.close = s.close := by
  unfold Slot.close
  split
  · rw [if_neg (by simp [Slot.release])]
  · rfl

theorem Keeps.trans (h : Keeps i owner b b') (h' : Keeps i owner b' b'') : Keeps i owner b b'' where
  slots j hj := (h'.slots j hj).trans (h.slots j hj)
  sessions j hj := (h'.sessions j hj).trans (h.sessions j hj)
  slot := by
    rcases h.slot with h1 | h1 <;> rcases h'.slot with h2 | h2
    · exact .inl (h2.trans h1)
    · exact .inr (h2.trans (by rw [h1]))
    · exact .inr (h2.trans h1)
    · exact .inr (h2.trans (by rw [h1, close_close]))
  pc := h'.pc.trans h.pc
  wild := h'.wild.trans h.wild
  connections := h'.connections.trans h.connections
  history := h'.history.trans h.history
  accepted := h'.accepted.trans h.accepted
  acts := h'.acts.trans h.acts
  subs := h.subs.trans h'.subs

theorem keeps_setSession (s : Session) : Keeps i owner b (b.setSession i s) :=
  { Keeps.refl with sessions := fun _ hj => update_of_ne hj .. }

theorem keeps_send (j : Nat) (m : Msg) : Keeps i owner b (b.send j m) :=
  { Keeps.refl with }

theorem keeps_closeSession : Keeps i owner b (b.closeSession i) :=
  { Keeps.refl with
    slots := fun _ hj => update_of_ne hj ..
    slot := .inr (update_self ..) }

theorem keeps_subs {subs : List Subscription} (h : SubsKept i owner b.subs subs) :
    Keeps i owner b { b with subs := subs } :=
  ⟨fun _ _ => rfl, fun _ _ => rfl, .inl rfl, rfl, rfl, rfl, rfl, rfl, rfl, h⟩

/-- Entries that are dropped where a test says so. -/
theorem subsKept_map_unused (p : Subscription → Prop) [DecidablePred p] (subs : List Subscription) :
    SubsKept i owner subs (subs.map fun sub => if p sub then { sub with isUsed := false } else sub) := by
  intro sub hm hu
  obtain ⟨old, hold, rfl⟩ := mem_map.mp hm
  split at hu
  · cases hu
  · rename_i hp
    rw [if_neg hp]
    exact .inl ⟨old, hold, hu, rfl, rfl⟩

theorem keeps_reset : Keeps i owner b (b.reset i) :=
  (keeps_setSession _).trans (keeps_subs (subsKept_map_unused _ b.subs))

theorem keeps_violation : Keeps i owner b (b.violation i) := keeps_reset.trans keeps_closeSession

theorem subsKept_addSubscription {subs subs' : List Subscription} {filter : Bytes} {qos : UInt8}
    (h : addSubscription cfg subs i owner filter qos = some subs') : SubsKept i owner subs subs' := by
  unfold addSubscription at h
  split at h
  · cases h
  split at h
  · cases h
    intro sub hm hu
    obtain ⟨k, hk⟩ := List.getElem?_of_mem hm
    rw [List.getElem?_modify] at hk
    obtain ⟨old, hold, rfl⟩ := map_eq_some_iff.mp hk
    have hmem := mem_of_getElem? hold
    split at hu
    · rename_i hk
      rw [if_pos hk]
      exact .inl ⟨old, hmem, hu, rfl, rfl⟩
    · rename_i hk
      rw [if_neg hk]
      exact .inl ⟨old, hmem, hu, rfl, rfl⟩
  split at h
  · cases h
    intro sub hm hu
    rcases mem_or_eq_of_mem_set hm with hm | rfl
    · exact .inl ⟨sub, hm, hu, rfl, rfl⟩
    · exact .inr ⟨rfl, rfl⟩
  · cases h

section
variable (type : PacketType) (packet data : Bytes)

theorem subsKept_subscribeLoop (fuel off : Nat) (codes : List UInt8) (subs : List Subscription) :
    SubsKept i owner subs (subscribeLoop cfg data i owner fuel off codes subs).2 := by
  induction fuel generalizing off codes subs with
  | zero => exact .refl subs
  | succ fuel ih =>
    unfold subscribeLoop
    split
    · exact .refl subs
    split
    · exact .refl subs
    dsimp only
    split
    · exact .refl subs
    split
    · exact .refl subs
    split
    · exact .refl subs
    split
    · exact ih _ _ subs
    · rename_i hadd
      exact (subsKept_addSubscription hadd).trans (ih _ _ _)

theorem subsKept_unsubscribeLoop (fuel off count : Nat) (subs : List Subscription) :
    SubsKept i owner subs (unsubscribeLoop data i fuel off count subs).2 := by
  induction fuel generalizing off count subs with
  | zero => exact .refl subs
  | succ fuel ih =>
    unfold unsubscribeLoop
    split
    · exact .refl subs
    split
    · exact .refl subs
    · exact (subsKept_map_unused _ subs).trans (ih _ _ _)

theorem keeps_resetRepeated : Keeps i owner b (b.resetRepeated i) := by
  unfold resetRepeated
  split
  · exact keeps_reset
  · exact .refl

theorem keeps_handleConnect : Keeps i owner b (b.handleConnect i data) := by
  unfold handleConnect
  refine keeps_resetRepeated.trans ?_
  dsimp only
  split
  · exact keeps_violation
  · exact (keeps_send i _).trans keeps_closeSession
  · exact (keeps_setSession _).trans (keeps_send i _)

/-- A packet is answered, the session is closed, or it is a CONNECT or a DISCONNECT. -/
theorem dispatch_cases {P : Broker → Prop}
    (hsame : ∀ subs out, SubsKept i owner b.subs subs →
      (b.sessions i).mqttConnected = true ∨ subs = b.subs → P { b with subs := subs, out := out })
    (hviol : ∀ subs, SubsKept i owner b.subs subs → P ({ b with subs := subs }.violation i))
    (hconn : type = .connect → P (b.handleConnect i data))
    (hreset : type = .disconnect → P (b.reset i)) :
    P (b.dispatch cfg i owner type packet data) := by
  have hout : ∀ out, P { b with out := out } := fun out => hsame b.subs out (.refl _) (.inr rfl)
  have hbad : P (b.violation i) := hviol b.subs (.refl _)
  cases type with
  | connect => exact hconn rfl
  | publish =>
    unfold dispatch handlePublish
    dsimp only
    split
    · exact hbad
    split
    · exact hbad
    rename_i p _
    obtain ⟨out, hforward⟩ : ∃ out, b.forward cfg p = { b with out := out } := by
      unfold forward
      split <;> exact ⟨_, rfl⟩
    rw [hforward]
    split
    · exact hout _
    split <;> exact hout _
  | subscribe =>
    unfold dispatch handleSubscribe
    dsimp only
    split
    · exact hbad
    rename_i hc
    split
    · exact hbad
    have hsubs := fun off => @subsKept_subscribeLoop cfg i owner data (data.length + 1) off [] b.subs
    split
    · exact hviol _ (hsubs _)
    · exact hviol _ (hsubs _)
    · exact hsame _ _ (hsubs _) (.inl (Bool.not_eq_false _ ▸ (not_or.mp hc).1))
  | unsubscribe =>
    unfold dispatch handleUnsubscribe
    dsimp only
    split
    · exact hbad
    rename_i hc
    split
    · exact hbad
    have hsubs := fun off => @subsKept_unsubscribeLoop i owner data (data.length + 1) off 0 b.subs
    split
    · exact hviol _ (hsubs _)
    · exact hsame _ _ (hsubs _) (.inl (Bool.not_eq_false _ ▸ (not_or.mp hc).1))
  | pubrel =>
    unfold dispatch
    dsimp only
    split
    · exact hout _
    · exact hout b.out
  | pingreq => exact hout _
  | disconnect => exact hreset rfl
  | puback | pubcomp => exact hout b.out
  | other => exact hbad

theorem keeps_dispatch : Keeps i owner b (b.dispatch cfg i owner type packet data) :=
  dispatch_cases type packet data (fun _ _ h _ => { keeps_subs h with })
    (fun _ h => (keeps_subs h).trans keeps_violation) (fun _ => keeps_handleConnect data)
    fun _ => keeps_reset

end

end Keeps

theorem close_isUsed {s : Slot} (hp : s.isUsed = true → s.pcb.isSome = true) :
    s.close.isUsed = false := by
  unfold Slot.close
  split
  · rfl
  rename_i h
  by_contra hu
  rw [Bool.not_eq_false] at hu
  exact h ⟨hu, hp hu⟩

/-- Outside a poll, and what else the event was tested for. -/
theorem idle_of_guard {b : Broker} {p : Prop}
    (h : ¬ (b.wild = true ∨ b.pc.isSome = true ∨ p)) : b.pc = none ∧ ¬ p :=
  have h := not_or.mp (not_or.mp h).2
  ⟨not_isSome_iff_eq_none.mp h.1, h.2⟩

/-! ## What the handlers do to the session -/

section Session

variable {i owner : Nat} {b : Broker} {type : PacketType} {data : Bytes}

theorem setSession_self (s : Session) : (b.setSession i s).sessions i = s := by
  unfold setSession
  exact update_self ..

theorem setSlot_self (s : Slot) : (b.setSlot i s).slots i = s := by
  unfold setSlot
  exact update_self ..

theorem reset_session : (b.reset i).sessions i = { b.sessions i with
    mqttConnected := false, protocolLevel := 0, keepAlive := 0, bufUsed := 0, buf := [],
    origin := [] } :=
  update_self ..

theorem violation_slot : (b.violation i).slots i = (b.slots i).close := by
  unfold violation closeSession setSlot
  exact update_self ..

/-- A session as the code leaves it after a packet: the buffer is as before, or it is empty,
and then the slot is closed unless the packet was a DISCONNECT or a second CONNECT. -/
structure Handled (b b' : Broker) (i : Nat) (type : PacketType) (data : Bytes) : Prop where
  buffer : (b'.sessions i).bufUsed = (b.sessions i).bufUsed ∧
      (b'.sessions i).buf = (b.sessions i).buf ∧ (b'.sessions i).origin = (b.sessions i).origin ∨
    ((b'.sessions i).bufUsed = 0 ∧ (b'.sessions i).buf = [] ∧ (b'.sessions i).origin = []) ∧
      (type = .disconnect ∨ type = .connect ∧ (b.sessions i).mqttConnected = true ∨
        b'.slots i = (b.slots i).close)
  connected : (b'.sessions i).mqttConnected = true → (b.sessions i).mqttConnected = true ∨
    type = .connect ∧ ∃ level keepAlive, connectVerdict data = .accepted level keepAlive

theorem handled_same {b' : Broker}
    (h : b'.sessions i = b.sessions i) : Handled b b' i type data where
  buffer := .inl (by rw [h]; exact ⟨rfl, rfl, rfl⟩)
  connected hc := .inl (by rw [← h]; exact hc)

theorem handled_violation {b₁ : Broker}
    (h : b₁.slots i = b.slots i) : Handled b (b₁.violation i) i type data where
  buffer := by
    refine .inr ⟨?_, .inr (.inr ?_)⟩
    · have hs : (b₁.violation i).sessions i = _ := reset_session
      rw [hs]
      exact ⟨rfl, rfl, rfl⟩
    · rw [← h]
      exact violation_slot
  connected hc := by
    change ((b₁.reset i).sessions i).mqttConnected = true at hc
    rw [reset_session] at hc
    cases hc

theorem handled_connect (data : Bytes) : Handled b (b.handleConnect i data) i .connect data := by
  -- the session before the body is looked at
  have hslot : (b.resetRepeated i).slots i = b.slots i := by
    unfold resetRepeated
    split <;> rfl
  have hbuf : Handled b (b.resetRepeated i) i .connect data := by
    unfold resetRepeated
    split
    · rename_i hc
      refine ⟨.inr ⟨?_, .inr (.inl ⟨rfl, hc⟩)⟩, fun _ => .inl hc⟩
      rw [reset_session]
      exact ⟨rfl, rfl, rfl⟩
    · exact handled_same rfl
  unfold handleConnect
  dsimp only
  generalize b.resetRepeated i = b1 at hslot hbuf ⊢
  split
  · exact handled_violation hslot
  · refine ⟨?_, hbuf.connected⟩
    rcases hbuf.buffer with h | ⟨h, -⟩
    · exact .inl h
    · refine .inr ⟨h, .inr (.inr ?_)⟩
      rw [← hslot]
      exact update_self ..
  rename_i level keepAlive hv
  have hs : ((b1.setSession i { b1.sessions i with
      mqttConnected := true, protocolLevel := level, keepAlive := keepAlive }).send i
      (.connack 0)).sessions i = _ := update_self ..
  refine ⟨?_, fun _ => .inr ⟨rfl, level, keepAlive, hv⟩⟩
  rw [hs]
  rcases hbuf.buffer with h | ⟨h, h'⟩
  · exact .inl h
  · refine .inr ⟨h, h'.imp_right (.imp_right fun hc => ?_)⟩
    exact hc

theorem handled_dispatch (owner : Nat) (type : PacketType) (packet data : Bytes) :
    Handled b (b.dispatch cfg i owner type packet data) i type data := by
  refine dispatch_cases (P := (Handled b · i type data)) type packet data
    (fun _ _ _ _ => handled_same rfl) (fun _ _ => handled_violation rfl)
    (fun ht => ht ▸ handled_connect data) fun ht => ?_
  refine ⟨.inr ⟨?_, .inl ht⟩, fun hc => ?_⟩
  · rw [reset_session]
    exact ⟨rfl, rfl, rfl⟩
  · rw [reset_session] at hc
    cases hc

end Session

/-! ## The reading loop -/

section ReadLoop

variable {slot : Slot}

theorem getData_some (hu : slot.isUsed = true) (len : UInt16) :
    slot.getData len = (some (slot.rx.readBlock len).2.1, { slot with rx := (slot.rx.readBlock len).2.2 }) := by
  unfold Slot.getData
  rw [if_neg (by simp [hu])]

/-- One round of the loop: it stops, or it appends what it got. -/
theorem readLoop_succ (cfg : BrokerCfg) (s : Session) (fuel : Nat) (got : Bytes) (hu : slot.isUsed = true) :
    ∃ chunk : Nat, s.bufUsed.toNat + chunk ≤ max cfg.bufferSize s.bufUsed.toNat ∧ chunk < 2 ^ 16 ∧
      (readLoop cfg s slot (fuel + 1) got = (s, slot, got) ∨
        ∃ slot', slot'.isUsed = true ∧ slot'.pcb = slot.pcb ∧
          slot'.rx = (slot.rx.readBlock (.ofNat chunk)).2.2 ∧
          ((slot.rx.readBlock (.ofNat chunk)).2.1 = [] ∧
            readLoop cfg s slot (fuel + 1) got = (s, slot', got) ∨
          readLoop cfg s slot (fuel + 1) got =
            readLoop cfg (s.append (slot.rx.readBlock (.ofNat chunk)).2.1 (slot.pcb.getD 0)) slot'
              fuel (got ++ (slot.rx.readBlock (.ofNat chunk)).2.1))) := by
  by_cases hlt : s.bufUsed.toNat < cfg.bufferSize
  · refine ⟨if 128 < cfg.bufferSize - s.bufUsed.toNat then 128
      else cfg.bufferSize - s.bufUsed.toNat, by split <;> omega, by split <;> omega, .inr ?_⟩
    generalize hc : (if 128 < cfg.bufferSize - s.bufUsed.toNat then 128
      else cfg.bufferSize - s.bufUsed.toNat) = chunk
    refine ⟨{ slot with rx := (slot.rx.readBlock (.ofNat chunk)).2.2 }, hu, rfl, rfl, ?_⟩
    rw [readLoop, if_pos hlt]
    dsimp only
    rw [hc, getData_some hu]
    cases hd : (slot.rx.readBlock (.ofNat chunk)).2.1 with
    | nil => exact .inl ⟨rfl, rfl⟩
    | cons x data => exact .inr rfl
  · refine ⟨0, by omega, by decide, .inl ?_⟩
    rw [readLoop, if_neg hlt]

/-- The loop keeps the session's flags and the slot's connection, and everything it reads is
that connection's. -/
theorem readLoop_origin (cfg : BrokerCfg) (s : Session) (fuel : Nat) (got : Bytes) (hu : slot.isUsed = true) :
    (readLoop cfg s slot fuel got).2.1.isUsed = true ∧
      (readLoop cfg s slot fuel got).2.1.pcb = slot.pcb ∧
      (readLoop cfg s slot fuel got).1.mqttConnected = s.mqttConnected ∧
      (s.origin.length = s.buf.length → (readLoop cfg s slot fuel got).1.origin.length =
        (readLoop cfg s slot fuel got).1.buf.length) ∧
      ∀ o ∈ (readLoop cfg s slot fuel got).1.origin, o ∈ s.origin ∨ o = slot.pcb.getD 0 := by
  induction fuel generalizing s slot got with
  | zero => exact ⟨hu, rfl, rfl, id, fun o ho => .inl ho⟩
  | succ fuel ih =>
    obtain ⟨chunk, -, -, h | ⟨slot', hu', hpcb, -, ⟨-, h⟩ | h⟩⟩ := readLoop_succ cfg s fuel got hu
    · rw [h]
      exact ⟨hu, rfl, rfl, id, fun o ho => .inl ho⟩
    · rw [h]
      exact ⟨hu', hpcb, rfl, id, fun o ho => .inl ho⟩
    · rw [h]
      obtain ⟨h1, h2, h3, h4, h5⟩ := ih (s.append _ _) _ hu'
      refine ⟨h1, h2.trans hpcb, h3, fun hl => h4 ?_, fun o ho => ?_⟩
      · unfold Session.append
        rw [length_append, length_append, length_replicate, hl]
      rcases h5 o ho with h | h
      · rcases mem_append.mp h with h | h
        · exact .inl h
        · exact .inr (eq_of_mem_replicate h)
      · rw [hpcb] at h
        exact .inr h

theorem readLoop_spec (cfg : BrokerCfg) {fifo : Bytes} {s : Session} (fuel : Nat) (got : Bytes)
    (hu : slot.isUsed = true) (hf : Holds slot.rx fifo) (hlen : s.bufUsed.toNat = s.buf.length)
    (hle : s.buf.length ≤ cfg.bufferSize) :
    ∃ more fifo', (readLoop cfg s slot fuel got).2.2 = got ++ more ∧ fifo = more ++ fifo' ∧
      Holds (readLoop cfg s slot fuel got).2.1.rx fifo' ∧
      (readLoop cfg s slot fuel got).1.buf = s.buf ++ more ∧
      (readLoop cfg s slot fuel got).1.bufUsed.toNat = (s.buf ++ more).length ∧
      (s.buf ++ more).length ≤ cfg.bufferSize := by
  induction fuel generalizing s slot fifo got with
  | zero => exact ⟨[], fifo, by simp [readLoop, hf, hlen, hle]⟩
  | succ fuel ih =>
    obtain ⟨chunk, hchunk, hlt, h⟩ := readLoop_succ cfg s fuel got hu
    rw [hlen, max_eq_left hle] at hchunk
    obtain ⟨hread, hholds, -⟩ := hf.read (.ofNat chunk)
    rw [UInt16.toNat_ofNat_of_lt' hlt] at hread hholds
    obtain h | ⟨slot', hu', -, hrx, ⟨hnil, h⟩ | h⟩ := h
    · exact ⟨[], fifo, by simp [h, hf, hlen, hle]⟩
    · -- nothing was read, so the ring holds what it held
      rw [hread] at hnil
      have := take_append_drop chunk fifo
      rw [hnil, nil_append] at this
      rw [← hrx, this] at hholds
      exact ⟨[], fifo, by simp [h, hholds, hlen, hle]⟩
    · rw [h, hread]
      have hcount : (fifo.take chunk).length ≤ chunk := by
        rw [length_take]
        omega
      have hsum : (s.append (fifo.take chunk) (slot.pcb.getD 0)).bufUsed.toNat =
          (s.buf ++ fifo.take chunk).length := by
        have := cfg.buffer_lt
        change (s.bufUsed + UInt32.ofNat (fifo.take chunk).length).toNat = _
        rw [UInt32.toNat_add, UInt32.toNat_ofNat_of_lt' (by unfold UInt32.size; omega), hlen,
          length_append]
        omega
      rw [← hrx] at hholds
      obtain ⟨more, fifo', h1, h2, h3, h4, h5, h6⟩ := ih
        (got ++ fifo.take chunk) hu' hholds hsum
        (by change (s.buf ++ fifo.take chunk).length ≤ _; rw [length_append]; omega)
      refine ⟨fifo.take chunk ++ more, fifo', ?_, ?_, h3, ?_, ?_, ?_⟩
      · rw [← append_assoc]
        exact h1
      · rw [append_assoc, ← h2, take_append_drop]
      · rw [← append_assoc]
        exact h4
      · rw [← append_assoc]
        exact h5
      · rw [← append_assoc]
        exact h6

end ReadLoop

/-! ## A small broker -/

def shortType (type : UInt8) : PacketType :=
  if type = 0x10 then .connect else if type = 0x30 then .publish
  else if type = 0x82 then .subscribe else if type = 0xC0 then .pingreq
  else if type = 0xE0 then .disconnect else .other

/-- A decoder of fixed headers with a one-byte length. -/
def shortHeader : Bytes → Fixed
  | [] => .noDataAvailable
  | [_] => .needMoreBytes
  | type :: length :: _ =>
    if length < 128 then .packet (shortType type) 2 length.toNat else .badResponse

def shortMqtt : CoreMqtt := ⟨shortHeader, fun _ => none, fun _ _ => false, fun _ => true⟩

theorem shortHeader_eq_packet {b : Bytes} {type : PacketType} {header remaining : Nat}
    (h : shortHeader b = .packet type header remaining) :
    ∃ x y rest, b = x :: y :: rest ∧ y < 128 ∧ type = shortType x ∧ header = 2 ∧
      remaining = y.toNat := by
  obtain _ | ⟨x, _ | ⟨y, rest⟩⟩ := b
  · cases h
  · cases h
  · change (if y < 128 then Fixed.packet (shortType x) 2 y.toNat else .badResponse) = _ at h
    split at h
    · rename_i hlt
      cases h
      exact ⟨x, y, rest, rfl, hlt, rfl, rfl, rfl⟩
    · cases h

theorem shortMqtt_lawful : shortMqtt.Lawful where
  own b c type header remaining h := by
    obtain ⟨x, y, rest, rfl, hlt, rfl, rfl, rfl⟩ := shortHeader_eq_packet h
    exact if_pos hlt
  header b type header remaining h := by
    obtain ⟨-, -, -, -, -, -, rfl, -⟩ := shortHeader_eq_packet h
    decide
  decided b hb := by
    obtain _ | ⟨x, _ | ⟨y, rest⟩⟩ := b
    · simp at hb
    · simp at hb
    · change (if y < 128 then _ else _) ≠ _ ∧ (if y < 128 then _ else _) ≠ _
      split <;> exact ⟨Fixed.noConfusion, Fixed.noConfusion⟩

def shortCfg : BrokerCfg where
  mqtt := shortMqtt
  clients := 1
  rxSize := 16
  bufferSize := 16
  maxTopicLen := 8
  maxSubscriptions := 1
  keepAliveFactor := 2
  rx_pos := by decide
  rx_pow := by decide
  buffer_ge := by decide
  buffer_lt := by decide

/-- A CONNECT of protocol level 4 with an empty client identifier. -/
def shortConnect : Bytes := [0x10, 12, 0, 4, 77, 81, 84, 84, 4, 0, 0, 0, 0, 0]

/-! ## Sending -/

/-- mirrors mqtt_broker.c:79-93 (`broker_encode_remaining_length`), `n` bytes being left -/
def encodeRemainingLength (value : Nat) : Nat → Bytes
  | 0 => []
  | n + 1 => if value < 128 then [.ofNat value]
    else .ofNat (value % 128 + 128) :: encodeRemainingLength (value / 128) n

/-- A whole packet: a type, the length of the body, and the body. -/
def mqttPacket (type : UInt8) (body : Bytes) : Bytes :=
  type :: encodeRemainingLength body.length 4 ++ body

section
-- what `MQTT_SerializePublish` writes after the length, for a topic and a payload
variable (serialize : Bytes → Bytes → Bytes)

/-- The bytes of a message.
mirrors mqtt_broker.c:248-318 (`broker_send_connack`, `broker_send_simple_ack`,
`broker_send_suback`, `broker_send_unsuback`) -/
def encode : Msg → Bytes
  | .connack reasonCode => mqttPacket 0x20 [0, .ofNat reasonCode]
  | .pingresp => mqttPacket 0xD0 []
  | .puback id => mqttPacket 0x40 (u16 id)
  | .pubrec id => mqttPacket 0x50 (u16 id)
  | .pubcomp id => mqttPacket 0x70 (u16 id)
  | .suback id codes => mqttPacket 0x90 (u16 id ++ codes)
  | .unsuback level id count =>
    mqttPacket 0xB0 (u16 id ++ if 5 ≤ level then replicate count 0 else [])
  | .publish topic payload => mqttPacket 0x30 (serialize topic payload)
where
  u16 (n : Nat) : Bytes := [.ofNat (n / 256), .ofNat n]

/-- One send to a session; the length is cast to `uint16_t` and the result ignored.
mirrors mqtt_broker.c:151-157 -/
def brokerSend (queue : Bytes) (x : Slot × Slot.SendPath × Msg) : Bytes :=
  let packet := encode serialize x.2.2
  (x.1.send x.2.1 (packet.take (packet.length % 2 ^ 16)) queue).2

/-- A sequence of whole packets. -/
def Framed (queue : Bytes) : Prop :=
  ∃ packets : List Bytes, (∀ p ∈ packets, ∃ type body, p = mqttPacket type body) ∧
    queue = packets.flatten

/-- The packet fits the send buffer, or nothing of it is written. -/
def Fits (p : Slot.SendPath) (m : Msg) : Prop :=
  p.sndbuf = 0 ∨ p.write ≠ 0 ∨ (encode serialize m).length ≤ p.sndbuf.toNat

theorem encode_whole (m : Msg) : ∃ type body, encode serialize m = mqttPacket type body := by
  cases m <;> exact ⟨_, _, rfl⟩

variable {serialize}

theorem brokerSend_eq {s : Slot} {p : Slot.SendPath} {m : Msg} (h : Fits serialize p m)
    (queue : Bytes) : brokerSend serialize queue (s, p, m) = queue ∨
      brokerSend serialize queue (s, p, m) = queue ++ encode serialize m := by
  unfold brokerSend Slot.send
  rcases h with h | h | h
  · simp [h]
    grind
  · simp [h]
    grind
  · have hlt : (encode serialize m).length < 2 ^ 16 := h.trans_lt p.sndbuf.toNat_lt
    dsimp only
    rw [Nat.mod_eq_of_lt hlt, take_length]
    simp [not_lt.mpr h]
    grind

theorem outbound_framed (sends : List (Slot × Slot.SendPath × Msg))
    (h : ∀ x ∈ sends, Fits serialize x.2.1 x.2.2) :
    Framed (sends.foldl (brokerSend serialize) []) := by
  refine foldlRecOn sends (brokerSend serialize) ⟨[], by simp⟩ ?_
  rintro queue ⟨packets, hp, rfl⟩ x hx
  rcases brokerSend_eq (h x hx) packets.flatten with he | he
  · exact ⟨packets, hp, he⟩
  · exact ⟨packets ++ [encode serialize x.2.2], forall_mem_append.mpr
      ⟨hp, forall_mem_singleton.mpr (encode_whole serialize x.2.2)⟩, by simp [← he]⟩

end

def openSlot : Slot := ⟨true, some 0, ⟨fun _ => 0, 0, 0, 0, 0, 0⟩⟩

theorem outbound_framed_blocked : Framed ([(openSlot, ⟨0, 0, 0⟩, .pingresp),
    (openSlot, ⟨4, 0, 0⟩, .connack 0)].foldl (brokerSend (· ++ ·)) []) :=
  outbound_framed _ (by simp [Fits]; decide)

/-- With room for one byte, half of a PINGRESP is sent. -/
theorem outbound_cut :
    ¬ Framed ([(openSlot, ⟨1, 0, 0⟩, .pingresp)].foldl (brokerSend (· ++ ·)) []) := by
  rintro ⟨packets, hp, he⟩
  have he : [0xD0] = packets.flatten := he
  cases packets with
  | nil => cases he
  | cons p packets =>
    obtain ⟨type, body, rfl⟩ := hp p mem_cons_self
    simp [mqttPacket, encodeRemainingLength] at he
    grind

end Broker

end MiniTree.Net
