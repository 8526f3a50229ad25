import MiniTree.Net.BrokerSlots

/-!
# Reassembly of MQTT packets

What the broker dispatches of one connection's byte stream, however the stream is cut into
pieces. `frames` says which packets a stream has: the greedy parse up to the first packet
that is incomplete, malformed or larger than the buffer.

A DISCONNECT, and a CONNECT on a session that is connected, reset the session while it
stays open. The round then ends with `buf_used - total` below zero.

**Results.** `reassembly_exact`: without these two, and for a connection that gets a clean slot and whose
pbuf chains fit the slot's ring, the broker dispatches exactly the frames of what it has read of it,
whatever the other connections do, and `buf_used` counts the bytes it has read and not consumed.
-/

namespace MiniTree.Net.Broker

open MiniTree.Core Algorithm Function List Option Nat UInt32

variable (cfg : BrokerCfg)

/-- The first packet of a stream, if it is complete, well formed and fits the buffer. -/
def frame (b : Bytes) : Option Nat :=
  if b = [] then none
  else match cfg.mqtt.processIncoming b with
    | .packet _ header remaining =>
      if header + remaining ≤ cfg.bufferSize ∧ header + remaining ≤ b.length then
        some (header + remaining)
      else none
    | _ => none

def framesFuel : Nat → Bytes → List Bytes
  | 0, _ => []
  | fuel + 1, b => match frame cfg b with
    | none => []
    | some total => b.take total :: framesFuel fuel (b.drop total)

def frames (b : Bytes) : List Bytes := framesFuel cfg b.length b

/-! ## One connection -/

/-- What the broker makes of the stream of the connection in slot `i`. -/
structure Exact (b : Broker) (i : Nat) : Prop where
  tame : b.wild = false
  /-- packets are dispatched once and in order, and nothing else is -/
  dispatched : (b.history i).packets <+: frames cfg (b.history i).taken
  taken : (b.history i).taken <+: (b.history i).stream
  /-- while the session is open no byte is lost, and between its polls nothing is left over -/
  waiting : (b.slots i).isUsed = true →
    (b.history i).stream.length = (b.history i).taken.length + (b.slots i).rx.count.toNat
  complete : (b.slots i).isUsed = true → b.pc ≠ some i →
    (b.history i).packets = frames cfg (b.history i).taken ∧
      (b.sessions i).bufUsed.toNat < cfg.bufferSize
  used : (b.slots i).isUsed = true →
    (b.sessions i).bufUsed.toNat + (b.history i).packets.flatten.length =
      (b.history i).taken.length ∧
    (b.sessions i).bufUsed.toNat ≤ cfg.bufferSize

/-- The type of the packet that the next round dispatches. -/
def nextType (s : Session) : Option PacketType :=
  match frame cfg s.buf, cfg.mqtt.processIncoming s.buf with
  | some _, .packet type _ _ => some type
  | _, _ => none

/-- The packet that the next round dispatches leaves the session's buffer alone or closes it: it is no
DISCONNECT and no second CONNECT. -/
def NextOk (s : Session) : Prop :=
  nextType cfg s ≠ some .disconnect ∧ (nextType cfg s = some .connect → s.mqttConnected = false)
  deriving Decidable

/-- The connection in slot `i` gets a clean session, and its chains fit the ring; no DISCONNECT and no
second CONNECT is dispatched. -/
def Tame (i : Nat) (b : Broker) : Event → Prop
  | .accept => freeSlot b.slots cfg.clients = some i → Clean b i
  | .receive j chain => j = i →
    (payload chain).length + (b.slots i).rx.count.toNat ≤ (b.slots i).rx.size.toNat
  | .packet _ => ∀ j ∈ b.pc, NextOk cfg (b.sessions j)
  | _ => True

instance (i : Nat) (b : Broker) : (e : Event) → Decidable (Tame cfg i b e)
  | .accept | .receive .. => inferInstanceAs (Decidable (_ → _))
  | .packet _ => inferInstanceAs (Decidable (∀ j ∈ b.pc, _))
  | .poll .. | .release _ => .isTrue trivial

/-! ## Frames -/

variable {cfg}

variable {b b' : Broker} {total i j : Nat} {type : PacketType}

theorem frame_eq_some_iff {b : Bytes} : frame cfg b = some total ↔ b ≠ [] ∧
    ∃ type header remaining, cfg.mqtt.processIncoming b = .packet type header remaining ∧
      total = header + remaining ∧ total ≤ cfg.bufferSize ∧ total ≤ b.length := by
  unfold frame
  split
  · simp_all
  rename_i hne
  split
  · rename_i hp
    rw [ite_none_right_eq_some, some_inj]
    simp only [hp, Fixed.packet.injEq]
    exact ⟨fun ⟨hle, ht⟩ => ⟨hne, _, _, _, ⟨rfl, rfl, rfl⟩, ht.symm, ht ▸ hle⟩,
      fun ⟨_, _, _, _, ⟨_, h1, h2⟩, ht, hle⟩ => by subst h1 h2 ht; exact ⟨hle, rfl⟩⟩
  · rename_i hp
    exact ⟨nofun, fun ⟨_, _, _, _, h, _⟩ => (hp _ _ _ h).elim⟩

theorem frame_le {b : Bytes} (h : frame cfg b = some total) :
    total ≤ b.length ∧ total ≤ cfg.bufferSize ∧ b ≠ [] := by
  obtain ⟨hne, _, _, _, -, -, hfit, hle⟩ := frame_eq_some_iff.mp h
  exact ⟨hle, hfit, hne⟩

theorem frame_pos (hm : cfg.mqtt.Lawful) {b : Bytes} (h : frame cfg b = some total) : 0 < total := by
  obtain ⟨-, _, _, _, hp, ht, -⟩ := frame_eq_some_iff.mp h
  have := hm.header _ _ _ _ hp
  omega

/-- A frame is decided by its own bytes. -/
theorem frame_take_append (hm : cfg.mqtt.Lawful) {b : Bytes}
    (h : frame cfg b = some total) (c : Bytes) : frame cfg (b.take total ++ c) = some total := by
  have hpos := frame_pos hm h
  obtain ⟨-, type, header, remaining, hp, rfl, hfit, hle⟩ := frame_eq_some_iff.mp h
  have hlen : (b.take (header + remaining) ++ c).length = header + remaining + c.length := by
    rw [length_append, length_take, min_eq_left hle]
  refine frame_eq_some_iff.mpr ⟨fun hnil => ?_, type, header, remaining, ?_, rfl, hfit, by omega⟩
  · rw [hnil, length_nil] at hlen
    omega
  · rw [take_add, append_assoc]
    exact hm.own _ _ _ _ _ hp

theorem framesFuel_eq (hm : cfg.mqtt.Lawful) {fuel : Nat} {b : Bytes} (h : b.length ≤ fuel) :
    framesFuel cfg fuel b = frames cfg b := by
  unfold frames
  generalize hn : b.length = n at h
  induction n using Nat.strongRecOn generalizing b fuel with
  | _ n ih =>
    cases fuel with
    | zero =>
      obtain rfl : n = 0 := by omega
      rfl
    | succ fuel =>
      cases n with
      | zero =>
        have hnil := length_eq_zero_iff.mp hn
        have : frame cfg b = none := by
          unfold frame
          rw [if_pos hnil]
        simp only [framesFuel, this]
      | succ n =>
        simp only [framesFuel]
        split
        · rfl
        rename_i total hf
        have hpos := frame_pos hm hf
        have hd : (b.drop total).length = b.length - total := length_drop ..
        have h1 := @ih (b.drop total).length (by omega) fuel (b.drop total) rfl (by omega)
        have h2 := @ih (b.drop total).length (by omega) n (b.drop total) rfl (by omega)
        rw [h1, h2]

theorem frames_of_frame_none {b : Bytes} (h : frame cfg b = none) : frames cfg b = [] := by
  unfold frames
  cases b.length with
  | zero => rfl
  | succ n => simp only [framesFuel, h]

theorem frames_cons (hm : cfg.mqtt.Lawful) {p : Bytes} (hp : frame cfg p = some p.length)
    (b : Bytes) : frames cfg (p ++ b) = p :: frames cfg b := by
  have hf : frame cfg (p ++ b) = some p.length := by
    have := frame_take_append hm hp b
    rwa [take_length] at this
  have hpos := frame_pos hm hp
  have hlen : (p ++ b).length = (p.length + b.length - 1) + 1 := by
    rw [length_append]
    omega
  unfold frames
  rw [hlen]
  simp only [framesFuel, hf, take_left', drop_left']
  rw [framesFuel_eq hm (by omega)]
  rfl

theorem frames_flatten (hm : cfg.mqtt.Lawful) {ps : List Bytes}
    (hp : ∀ p ∈ ps, frame cfg p = some p.length) (b : Bytes) :
    frames cfg (ps.flatten ++ b) = ps ++ frames cfg b := by
  induction ps with
  | nil => rfl
  | cons p ps ih =>
    rw [flatten_cons, append_assoc, frames_cons hm (hp p mem_cons_self),
      ih fun q hq => hp q (mem_cons_of_mem _ hq), cons_append]

/-! ## The invariant -/

/-- What was dispatched came, in whole packets, from the front of the stream. -/
structure Past (cfg : BrokerCfg) (h : History) : Prop where
  whole : ∀ p ∈ h.packets, frame cfg p = some p.length
  consumed : h.packets.flatten <+: h.taken
  taken : h.taken <+: h.stream

/-- What was dispatched, what is buffered and what is in the ring make up the stream. -/
structure Live (cfg : BrokerCfg) (b : Broker) (i : Nat) : Prop where
  stream : ∃ fifo, Holds (b.slots i).rx fifo ∧ (b.history i).stream = (b.history i).taken ++ fifo
  taken : (b.history i).taken = (b.history i).packets.flatten ++ (b.sessions i).buf
  idle : b.pc ≠ some i →
    frame cfg (b.sessions i).buf = none ∧ (b.sessions i).buf.length < cfg.bufferSize

structure Flow (cfg : BrokerCfg) (i : Nat) (b : Broker) : Prop where
  tame : b.wild = false
  past : Past cfg (b.history i)
  live : (b.slots i).isUsed = true → Live cfg b i

/-- One more whole packet off the front. -/
theorem Past.next (hm : cfg.mqtt.Lawful) {s : History} {buf rest : Bytes} (h : Past cfg s)
    (hf : frame cfg buf = some total)
    (ht : s.taken = (s.packets ++ [buf.take total]).flatten ++ rest) :
    Past cfg { s with packets := s.packets ++ [buf.take total] } := by
  refine ⟨forall_mem_append.mpr ⟨h.whole, forall_mem_singleton.mpr ?_⟩, ⟨_, ht.symm⟩, h.taken⟩
  have := frame_take_append hm hf []
  rw [append_nil] at this
  rw [this, length_take, min_eq_left (frame_le hf).1]

theorem Flow.exact (hm : cfg.mqtt.Lawful) (h : Flow cfg i b) (hs : Sound cfg b) : Exact cfg b i := by
  obtain ⟨hused, hle⟩ := (hs.kept i).used h.tame
  refine ⟨h.tame, ?_, h.past.taken, fun hu => ?_, fun hu hpc => ?_, fun hu => ?_⟩
  · obtain ⟨rest, hrest⟩ := h.past.consumed
    rw [← hrest, frames_flatten hm h.past.whole]
    exact prefix_append ..
  · obtain ⟨fifo, hf, hs⟩ := (h.live hu).stream
    rw [hs, length_append, hf.count_toNat]
  · obtain ⟨hnone, hlt⟩ := (h.live hu).idle hpc
    rw [(h.live hu).taken, frames_flatten hm h.past.whole, frames_of_frame_none hnone,
      append_nil, hused]
    exact ⟨rfl, hlt⟩
  · rw [(h.live hu).taken, length_append, hused]
    exact ⟨add_comm .., hle⟩

theorem Flow.aside (h : Flow cfg i b) (ha : Aside i b b') (hw : b'.wild = false)
    (hpc : b.pc ≠ some i) : Flow cfg i b' := by
  refine ⟨hw, ha.history ▸ h.past, fun hu => ?_⟩
  rw [ha.slot] at hu
  obtain ⟨hstream, htaken, hidle⟩ := h.live hu
  refine ⟨?_, ?_, fun _ => ?_⟩
  · rw [ha.slot, ha.history]
    exact hstream
  · rw [ha.history, ha.session]
    exact htaken
  · rw [ha.session]
    exact hidle hpc

/-- Once the session is closed only the history matters. -/
theorem Flow.of_closed (hw : b.wild = false) (past : Past cfg (b.history i))
    (hu : (b.slots i).isUsed = false) : Flow cfg i b := by
  refine ⟨hw, past, fun hu' => ?_⟩
  rw [hu] at hu'
  cases hu'

/-! ## Packets -/

theorem nextType_eq {s : Session} {header remaining : Nat}
    (hp : cfg.mqtt.processIncoming s.buf = .packet type header remaining)
    (hf : frame cfg s.buf = some total) : nextType cfg s = some type := by
  unfold nextType
  rw [hf, hp]

section
variable (cfg) (owner : Nat) (packet data : Bytes)
  (hp : (b.slots j).isUsed = true → (b.slots j).pcb.isSome = true)
  (hok : type ≠ .disconnect ∧ (type = .connect → (b.sessions j).mqttConnected = false))
include hp hok

/-- A packet after which the session is open leaves the buffer to the end of the round. -/
theorem dispatch_open (hu : ((b.dispatch cfg j owner type packet data).slots j).isUsed = true) :
    (b.dispatch cfg j owner type packet data).slots j = b.slots j ∧
      ((b.dispatch cfg j owner type packet data).sessions j).bufUsed = (b.sessions j).bufUsed ∧
      ((b.dispatch cfg j owner type packet data).sessions j).buf = (b.sessions j).buf := by
  have hk : Keeps j owner b (b.dispatch cfg j owner type packet data) := keeps_dispatch ..
  refine ⟨isUsed_of_close hk.slot hu, ?_⟩
  rcases (handled_dispatch owner type packet data).buffer with
    ⟨h1, h2, -⟩ | ⟨-, hd | ⟨hc, hc'⟩ | hc⟩
  · exact ⟨h1, h2⟩
  · exact absurd hd hok.1
  · rw [hok.2 hc] at hc'
    cases hc'
  · rw [hc, close_isUsed hp] at hu
    cases hu

theorem dispatch_compact_tame (hw : b.wild = false) (hle : total ≤ (b.sessions j).bufUsed.toNat) :
    ((b.dispatch cfg j owner type packet data).compact j total).wild = false := by
  have hk : Keeps j owner b (b.dispatch cfg j owner type packet data) := keeps_dispatch ..
  unfold compact
  dsimp only
  split
  · exact hk.wild.trans hw
  rename_i hu
  rw [if_neg]
  · exact hk.wild.trans hw
  · rw [(dispatch_open cfg owner packet data hp hok (Bool.not_eq_false _ ▸ hu)).2.1]
    exact not_lt.mpr hle

end

theorem frame_of_packet {s : Session} {header remaining : Nat} (hused : s.bufUsed.toNat = s.buf.length)
    (hz : s.bufUsed ≠ 0) (hp : cfg.mqtt.processIncoming s.buf = .packet type header remaining)
    (hfit : header + remaining ≤ cfg.bufferSize) (hle : header + remaining ≤ s.bufUsed.toNat) :
    frame cfg s.buf = some (header + remaining) := by
  refine frame_eq_some_iff.mpr ⟨fun hnil => ?_, _, _, _, hp, rfl, hfit, hused ▸ hle⟩
  rw [hnil] at hused
  exact hz (UInt32.toNat_inj.mp hused)

theorem packet_tame (h : Sound cfg b) (hw : b.wild = false) (hok : NextOk cfg (b.sessions j))
    (now : UInt32) : (b.packet cfg j now).wild = false := by
  have hfin : (b.finish cfg j now).wild = false := finish_cases (P := (·.wild = false)) now hw hw
  refine packet_cases (P := (·.wild = false)) now hfin hw fun type header remaining hz hin hfit hle => ?_
  have hf := frame_of_packet ((h.kept j).used hw).1 hz hin hfit hle
  unfold NextOk at hok
  rw [nextType_eq hin hf] at hok
  refine dispatch_compact_tame _ _ _ _ (h.kept j).pcb ?_ hw hle
  exact ⟨fun hd => hok.1 (congrArg some hd), fun hc => hok.2 (congrArg some hc)⟩

section
variable (h : Flow cfg i b)
include h

theorem Flow.violation (hp : (b.slots i).isUsed = true → (b.slots i).pcb.isSome = true) :
    Flow cfg i { b.violation i with pc := none } := by
  have hk : Keeps i 0 b (b.violation i) := keeps_violation
  refine .of_closed (hk.wild.trans h.tame) ?_ ?_
  · change Past cfg ((b.violation i).history i)
    rw [hk.history]
    exact h.past
  · change ((b.violation i).slots i).isUsed = false
    rw [violation_slot]
    exact close_isUsed hp

/-- The end of a poll, when the buffer has no whole packet left. -/
theorem Flow.finish (hp : (b.slots i).isUsed = true → (b.slots i).pcb.isSome = true) (now : UInt32)
    (hf : frame cfg (b.sessions i).buf = none)
    (hlt : (b.sessions i).buf.length < cfg.bufferSize) : Flow cfg i (b.finish cfg i now) := by
  have hidle : Flow cfg i { b with pc := none } :=
    ⟨h.tame, h.past, fun hu => { h.live hu with idle := fun _ => ⟨hf, hlt⟩ }⟩
  exact finish_cases now hidle (hidle.violation hp)

theorem Flow.dispatched (hm : cfg.mqtt.Lawful) (hs : Sound cfg b) (hpc : b.pc = some i) (owner : Nat)
    (data : Bytes) (origin : List Nat) (hf : frame cfg (b.sessions i).buf = some total)
    (hok : type ≠ .disconnect ∧ (type = .connect → (b.sessions i).mqttConnected = false)) :
    Flow cfg i (((b.record i owner type ((b.sessions i).buf.take total) data origin).dispatch cfg i
      owner type ((b.sessions i).buf.take total) data).compact i total) := by
  obtain ⟨hstream, htaken, -⟩ := h.live (hs.attended i hpc)
  obtain ⟨hused, -⟩ := (hs.kept i).used h.tame
  have htotal := (frame_le hf).1
  generalize hb1 : b.record i owner type ((b.sessions i).buf.take total) data origin = b1
  have hslots : b1.slots = b.slots := by rw [← hb1]; rfl
  have hsess : b1.sessions = b.sessions := by rw [← hb1]; rfl
  have hhist : b1.history i = { b.history i with
      packets := (b.history i).packets ++ [(b.sessions i).buf.take total] } := by
    rw [← hb1]
    simp only [record, update_self]
  have hwild : b1.wild = false := by rw [← hb1]; exact h.tame
  have htaken1 : (b.history i).taken =
      ((b.history i).packets ++ [(b.sessions i).buf.take total]).flatten ++
        (b.sessions i).buf.drop total := by
    rw [flatten_append, flatten_singleton, append_assoc, take_append_drop]
    exact htaken
  have hpcb : (b1.slots i).isUsed = true → (b1.slots i).pcb.isSome = true := by
    rw [hslots]
    exact (hs.kept i).pcb
  rw [← hsess] at hok
  have hopen := dispatch_open cfg owner ((b.sessions i).buf.take total) data hpcb hok
  have hk : Keeps i owner b1 (b1.dispatch cfg i owner type ((b.sessions i).buf.take total) data) :=
    keeps_dispatch ..
  generalize b1.dispatch cfg i owner type ((b.sessions i).buf.take total) data = b2 at *
  have hpast : Past cfg (b2.history i) := by
    rw [hk.history, hhist]
    exact h.past.next hm hf htaken1
  unfold compact
  dsimp only
  split
  · exact .of_closed (hk.wild.trans hwild) hpast ‹_›
  rename_i hu
  obtain ⟨hslot, hused2, hbuf⟩ := hopen (Bool.not_eq_false _ ▸ hu)
  rw [hsess] at hused2 hbuf
  rw [if_neg (by rw [hused2, hused]; exact not_lt.mpr htotal)]
  refine ⟨hk.wild.trans hwild, hpast, fun _ => ⟨?_, ?_, fun hnot => absurd ?_ hnot⟩⟩
  · change ∃ fifo, Holds (b2.slots i).rx fifo ∧ (b2.history i).stream = (b2.history i).taken ++ fifo
    rw [hslot, hslots, hk.history, hhist]
    exact hstream
  · rw [setSession_self]
    change (b2.history i).taken = (b2.history i).packets.flatten ++ (b2.sessions i).buf.drop total
    rw [hk.history, hhist, hbuf]
    exact htaken1
  · change b2.pc = some i
    rw [hk.pc, ← hb1]
    exact hpc

theorem Flow.packet (hm : cfg.mqtt.Lawful) (hs : Sound cfg b) (hpc : b.pc = some i)
    (hok : NextOk cfg (b.sessions i)) (now : UInt32) : Flow cfg i (b.packet cfg i now) := by
  obtain ⟨hused, hle⟩ := (hs.kept i).used h.tame
  have hp := (hs.kept i).pcb
  have hge := cfg.buffer_ge
  unfold Broker.packet
  dsimp only
  split
  · rename_i hz
    have hnil : (b.sessions i).buf = [] := by
      rw [hz] at hused
      exact length_eq_zero_iff.mp hused.symm
    refine h.finish hp now ?_ ?_
    · unfold frame
      rw [if_pos hnil]
    · rw [hnil, length_nil]
      omega
  rename_i hz
  have hne : (b.sessions i).buf ≠ [] := by
    intro hnil
    rw [hnil] at hused
    exact hz (UInt32.toNat_inj.mp hused)
  -- a header that is not decided has fewer than five bytes
  have hshort : cfg.mqtt.processIncoming (b.sessions i).buf = .needMoreBytes ∨
      cfg.mqtt.processIncoming (b.sessions i).buf = .noDataAvailable →
      Flow cfg i (b.finish cfg i now) := by
    intro hshort
    have hlt : (b.sessions i).buf.length < 5 := by
      by_contra hge
      obtain ⟨h1, h2⟩ := hm.decided _ (not_lt.mp hge)
      exact hshort.elim h1 h2
    refine h.finish hp now ?_ (by omega)
    unfold frame
    rw [if_neg hne]
    rcases hshort with h | h <;> rw [h]
  split
  · exact hshort (.inl ‹_›)
  · exact hshort (.inr ‹_›)
  · exact h.violation hp
  · rename_i type header remaining hin
    split
    · exact h.violation hp
    rename_i hfit
    split
    · rename_i hlt
      rw [hused] at hlt
      refine h.finish hp now ?_ (by omega)
      unfold frame
      rw [if_neg hne, hin]
      exact if_neg (by omega)
    rename_i hfull
    have hf := frame_of_packet hused hz hin (not_lt.mp hfit) (not_lt.mp hfull)
    unfold NextOk at hok
    rw [nextType_eq hin hf] at hok
    exact h.dispatched hm hs hpc _ _ _ hf
      ⟨fun hd => hok.1 (congrArg some hd), fun hc => hok.2 (congrArg some hc)⟩

/-! ## Callbacks and polls -/

theorem Flow.receive {chain : List (Block UInt8)} (hu : (b.slots i).isUsed = true)
    (hok : (payload chain).length + (b.slots i).rx.count.toNat ≤ (b.slots i).rx.size.toNat) :
    Flow cfg i { b.setSlot i ((b.slots i).receive chain) with
      history := update b.history i
        { b.history i with stream := (b.history i).stream ++ payload chain } } := by
  obtain ⟨⟨fifo, hf, hs⟩, htaken, hidle⟩ := h.live hu
  obtain ⟨taken, hholds, -, -, -, hall⟩ := hf.storeChain chain 0
  rw [hf.count_toNat] at hok
  obtain rfl := hall hok
  refine ⟨h.tame, ?_, fun _ => ⟨⟨fifo ++ payload chain, ?_⟩, ?_, hidle⟩⟩
  · simp only [update_self]
    exact { h.past with taken := h.past.taken.trans (prefix_append ..) }
  · simp only [setSlot, update_self]
    exact ⟨hholds, by rw [hs, append_assoc]⟩
  · simp only [update_self]
    exact htaken

theorem Flow.poll (now : UInt32) (hs : Sound cfg b) : Flow cfg i (b.poll cfg i now) := by
  unfold Broker.poll
  split
  · rename_i hu
    split
    · exact .of_closed h.tame h.past hu
    · exact h
  rename_i hu
  rw [Bool.not_eq_false] at hu
  obtain ⟨⟨fifo, hf, hstream⟩, htaken, -⟩ := h.live hu
  obtain ⟨hused, hle⟩ := (hs.kept i).used h.tame
  obtain ⟨more, fifo', h1, h2, h3, h4, -⟩ := readLoop_spec cfg (cfg.bufferSize + 1) [] hu hf hused hle
  generalize readLoop cfg (b.sessions i) (b.slots i) (cfg.bufferSize + 1) [] = r at *
  obtain ⟨s, slot, got⟩ := r
  dsimp only at h1 h3 h4 ⊢
  rw [nil_append] at h1
  subst h1 h2
  obtain ⟨rx, hrx⟩ := lastRx_eq got s now
  rw [hrx]
  refine ⟨h.tame, ?_, fun _ => ⟨⟨fifo', ?_⟩, ?_, fun hn => absurd rfl hn⟩⟩
  · simp only [update_self]
    refine ⟨h.past.whole, h.past.consumed.trans (prefix_append ..), ⟨fifo', ?_⟩⟩
    rw [append_assoc]
    exact hstream.symm
  · simp only [setSlot, update_self]
    exact ⟨h3, by rw [hstream, append_assoc]⟩
  · simp only [setSlot, setSession, update_self]
    rw [h4, htaken, append_assoc]

end

theorem Flow.accept (hw : b.wild = false) (hc : Clean b i) :
    Flow cfg i { b.setSlot i ((b.slots i).accept cfg.rxSize b.connections) with
      connections := b.connections + 1
      history := update b.history i ⟨[], [], []⟩ } := by
  refine ⟨hw, ?_, fun _ => ⟨⟨[], ?_⟩, ?_, fun _ => ?_⟩⟩
  · simp only [update_self]
    exact ⟨fun p hp => (not_mem_nil hp).elim, prefix_rfl, prefix_rfl⟩
  · simp only [setSlot, update_self]
    exact ⟨Slot.accept_holds _ cfg.rx_pos cfg.rx_pow _, rfl⟩
  · simp only [update_self]
    exact hc.2.1.symm
  · change frame cfg (b.sessions i).buf = none ∧ (b.sessions i).buf.length < cfg.bufferSize
    rw [hc.2.1]
    exact ⟨if_pos rfl, lt_of_lt_of_le (zero_lt_succ 4) cfg.buffer_ge⟩

/-! ## Whole runs -/

theorem Flow.step (hm : cfg.mqtt.Lawful) {e : Event} (h : Flow cfg i b) (hs : Sound cfg b)
    (hok : Tame cfg i b e) (hn : next cfg b e = some b') : Flow cfg i b' := by
  have hbusy : b.pc = none → b.pc ≠ some i := fun hpc => hpc ▸ nofun
  unfold next at hn
  cases e with
  | accept =>
    obtain ⟨hg, hn⟩ := ite_none_left_eq_some.mp hn
    split at hn
    · cases hn
      exact h
    rename_i j hfree
    cases hn
    by_cases hj : i = j
    · subst hj
      exact .accept h.tame (hok hfree)
    · exact h.aside (aside_callback hj ..) h.tame (hbusy (not_isSome_iff_eq_none.mp (not_or.mp hg).2))
  | receive j chain =>
    obtain ⟨hg, ⟨⟩⟩ := ite_none_left_eq_some.mp hn
    obtain ⟨hpc, hu⟩ := idle_of_guard hg
    by_cases hj : i = j
    · subst hj
      exact h.receive (Bool.not_eq_false _ ▸ hu) (hok rfl)
    · exact h.aside (aside_callback (n := b.connections) hj ..) h.tame (hbusy hpc)
  | release j =>
    obtain ⟨hg, ⟨⟩⟩ := ite_none_left_eq_some.mp hn
    by_cases hj : i = j
    · subst hj
      refine .of_closed h.tame h.past ?_
      rw [setSlot_self]
      rfl
    · exact h.aside (.of_subs (update_of_ne hj ..) rfl rfl rfl) h.tame (hbusy (idle_of_guard hg).1)
  | poll j now =>
    obtain ⟨hg, ⟨⟩⟩ := ite_none_left_eq_some.mp hn
    by_cases hj : i = j
    · subst hj
      exact h.poll now hs
    · refine h.aside (aside_poll hj now) ?_ (hbusy (idle_of_guard hg).1)
      unfold Broker.poll
      split
      · split <;> exact h.tame
      · exact h.tame
  | packet now =>
    obtain ⟨-, hn⟩ := ite_none_left_eq_some.mp hn
    split at hn
    · cases hn
    rename_i j hpc
    cases hn
    by_cases hj : i = j
    · subst hj
      exact h.packet hm hs hpc (hok i hpc) now
    · refine h.aside (aside_packet hj now) (packet_tame hs h.tame (hok j hpc) now) ?_
      rw [hpc]
      exact fun he => hj (some.inj he).symm

theorem reassembly_exact (cfg : BrokerCfg) (hm : cfg.mqtt.Lawful) (i : Nat) {b : Broker}
    (h : ((system cfg).restrict (Tame cfg i)).Reachable b) : Exact cfg b i := by
  have hinv : ((system cfg).restrict (Tame cfg i)).IsInvariant fun b => Sound cfg b ∧ Flow cfg i b := by
    refine ⟨fun b h0 => ?_, fun _ _ _ hs hn => ⟨hs.1.step hn.2, hs.2.step hm hs.1 hn.1 hn.2⟩⟩
    cases h0
    exact ⟨.init, .of_closed rfl ⟨fun p hp => (not_mem_nil hp).elim, prefix_rfl, prefix_rfl⟩ rfl⟩
  obtain ⟨hs, hf⟩ := hinv.holds h
  exact hf.exact hm hs

/-- A CONNECT cut in two and a PINGREQ behind it, on the second connection of the slot. -/
theorem reassembly_exact_short :
    shortCfg.mqtt.Lawful ∧ ∃ b, ((system shortCfg).restrict (Tame shortCfg 0)).Reachable b ∧
      ((b.history 0).packets = [shortConnect, [0xC0, 0]] ∧ (b.slots 0).isUsed = true ∧
        (b.slots 0).pcb = some 1 ∧ b.pc = none) ∧ Exact shortCfg b 0 := by
  obtain ⟨b, hb, hp⟩ := LTS.Reachable.of_execOk (· = fresh shortCfg) (next shortCfg)
    (Tame shortCfg 0) (fresh shortCfg)
    [.accept, .receive 0 [⟨shortConnect, by decide⟩], .poll 0 0, .packet 0, .packet 0, .release 0,
      .poll 0 1, .accept, .receive 0 [⟨shortConnect.take 5, by decide⟩], .poll 0 1, .packet 1,
      .receive 0 [⟨shortConnect.drop 5 ++ [0xC0], by decide⟩], .poll 0 2, .packet 2, .packet 2,
      .receive 0 [⟨[0], by decide⟩], .poll 0 3, .packet 3, .packet 3]
    (fun b => (b.history 0).packets = [shortConnect, [0xC0, 0]] ∧ (b.slots 0).isUsed = true ∧
      (b.slots 0).pcb = some 1 ∧ b.pc = none) rfl (by decide +kernel)
  exact ⟨shortMqtt_lawful, b, hb, hp, reassembly_exact _ shortMqtt_lawful 0 hb⟩

/-- One client, accepted by a broker that was just started. -/
def Sole (b : Broker) : Event → Prop
  | .accept => b.connections = 0
  | _ => True

instance (b : Broker) (e : Event) : Decidable (Sole b e) := by
  unfold Sole
  split <;> infer_instance

/-- A DISCONNECT: the session is reset and stays open, and `buf_used` becomes `0 - 2`. -/
theorem reassembly_lost_at_disconnect : ¬ ∀ (cfg : BrokerCfg), cfg.mqtt.Lawful → ∀ b,
    ((system cfg).restrict Sole).Reachable b → Exact cfg b 0 := by
  intro h
  obtain ⟨b, hb, hused, hopen⟩ := LTS.Reachable.of_execOk (· = fresh shortCfg) (next shortCfg)
    Sole (fresh shortCfg)
    [.accept, .receive 0 [⟨[0xE0, 0], by decide⟩], .poll 0 1, .packet 1]
    (fun b => (b.sessions 0).bufUsed = 4294967294 ∧ (b.slots 0).isUsed = true) rfl (by decide +kernel)
  have hle := ((h shortCfg shortMqtt_lawful b hb).used hopen).2
  rw [hused] at hle
  exact absurd hle (by decide)

end MiniTree.Net.Broker
