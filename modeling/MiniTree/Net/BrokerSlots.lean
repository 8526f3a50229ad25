import MiniTree.Net.Broker

/-!
# The broker's table in every run

The TCP server gives a slot that was freed to the next connection without asking the broker, which
cleans the session up at its next poll of the slot, if it finds the slot free then.

**Results.** `clean_of_polled`: after such a poll, until the slot is given out again, its session is
as `mqtt_broker_init` left it. So a connection starts with a clean session whenever the broker polled
the slot between the end of the connection before and the accept.
-/

namespace MiniTree.Net.Broker

open MiniTree.Core Algorithm Function List Option Nat

variable {cfg : BrokerCfg}

/-- The session of a slot as `mqtt_broker_init` leaves it. -/
def Clean (b : Broker) (i : Nat) : Prop :=
  (b.sessions i).mqttConnected = false ∧ (b.sessions i).buf = [] ∧
    ∀ sub ∈ b.subs, sub.isUsed = true → sub.sessionId ≠ i
  deriving Decidable

variable {i j owner : Nat} {b b' b'' : Broker}

/-! ## What a round can do -/

theorem finish_cases {P : Broker → Prop} (now : UInt32) (hidle : P { b with pc := none })
    (hlate : P ({ b with pc := none }.violation i)) : P (b.finish cfg i now) := by
  unfold Broker.finish
  dsimp only
  split
  · split
    · exact hlate
    · exact hidle
  · exact hidle

/-- A round ends the poll, closes the session or dispatches the packet at the front of the buffer. -/
theorem packet_cases {P : Broker → Prop} (now : UInt32) (hfin : P (b.finish cfg i now))
    (hviol : P { b.violation i with pc := none })
    (hdisp : ∀ type header remaining, (b.sessions i).bufUsed ≠ 0 →
      cfg.mqtt.processIncoming (b.sessions i).buf = .packet type header remaining →
      header + remaining ≤ cfg.bufferSize → header + remaining ≤ (b.sessions i).bufUsed.toNat →
      P (((b.record i ((b.slots i).pcb.getD 0) type ((b.sessions i).buf.take (header + remaining))
        (slice (b.sessions i).buf header remaining)
        ((b.sessions i).origin.take (header + remaining))).dispatch cfg i ((b.slots i).pcb.getD 0) type
        ((b.sessions i).buf.take (header + remaining)) (slice (b.sessions i).buf header remaining)).compact
        i (header + remaining))) : P (b.packet cfg i now) := by
  unfold Broker.packet
  dsimp only
  split
  · exact hfin
  rename_i hz
  split
  · exact hfin
  · exact hfin
  · exact hviol
  rename_i hin
  split
  · exact hviol
  rename_i hfit
  split
  · exact hfin
  · exact hdisp _ _ _ hz hin (not_lt.mp hfit) (not_lt.mp ‹_›)

/-! ## Steps of another slot -/

/-- Slot `i` keeps what it has, and gets no subscription. -/
structure Aside (i : Nat) (b b' : Broker) : Prop where
  slot : b'.slots i = b.slots i
  session : b'.sessions i = b.sessions i
  history : b'.history i = b.history i
  subs : ∀ sub ∈ b'.subs, sub.isUsed = true → sub.sessionId = i →
    ∃ old ∈ b.subs, old.isUsed = true ∧ old.sessionId = i ∧ old.owner = sub.owner

theorem Aside.of_subs (hslot : b'.slots i = b.slots i) (hsession : b'.sessions i = b.sessions i)
    (hhistory : b'.history i = b.history i) (hsubs : b'.subs = b.subs) : Aside i b b' :=
  ⟨hslot, hsession, hhistory, fun sub hm hu hi => ⟨sub, hsubs ▸ hm, hu, hi, rfl⟩⟩

theorem Aside.trans (h : Aside i b b') (h' : Aside i b' b'') : Aside i b b'' where
  slot := h'.slot.trans h.slot
  session := h'.session.trans h.session
  history := h'.history.trans h.history
  subs sub hm hu hi := by
    obtain ⟨mid, hmid, hmu, hmi, hmo⟩ := h'.subs sub hm hu hi
    obtain ⟨old, hold, hou, hoi, hoo⟩ := h.subs mid hmid hmu hmi
    exact ⟨old, hold, hou, hoi, hoo.trans hmo⟩

theorem Aside.clean (h : Aside i b b') (hc : Clean b i) : Clean b' i := by
  refine ⟨h.session ▸ hc.1, h.session ▸ hc.2.1, fun sub hm hu hi => ?_⟩
  obtain ⟨old, hold, hou, hoi, -⟩ := h.subs sub hm hu hi
  exact hc.2.2 old hold hou hoi

section
variable (hj : i ≠ j)
include hj

theorem Aside.of_keeps (hk : Keeps j owner b b') : Aside i b b' where
  slot := hk.slots i hj
  session := hk.sessions i hj
  history := by rw [hk.history]
  subs sub hm hu hi := by
    rcases hk.subs sub hm hu with ⟨old, hold, hou, hoi, hoo⟩ | ⟨hsj, -⟩
    · exact ⟨old, hold, hou, hoi.trans hi, hoo⟩
    · exact absurd (hi.symm.trans hsj) hj

theorem aside_finish (now : UInt32) : Aside i b (b.finish cfg j now) := by
  have hidle : Aside i b { b with pc := none } := .of_subs rfl rfl rfl rfl
  exact finish_cases now hidle (hidle.trans (.of_keeps hj (keeps_violation : Keeps _ 0 _ _)))

theorem aside_compact (total : Nat) : Aside i b (b.compact j total) := by
  unfold Broker.compact
  dsimp only
  split
  · exact .of_subs rfl rfl rfl rfl
  split
  · exact .of_subs rfl (update_of_ne hj ..) rfl rfl
  · exact .of_subs rfl (update_of_ne hj ..) rfl rfl

theorem aside_packet (now : UInt32) : Aside i b (b.packet cfg j now) := by
  refine packet_cases now (aside_finish hj now) ?_ fun _ _ _ _ _ _ _ => ?_
  · exact { Aside.of_keeps hj (keeps_violation : Keeps _ 0 _ _) with }
  · refine Aside.trans (.trans ?_ (.of_keeps hj (keeps_dispatch ..))) (aside_compact hj _)
    exact .of_subs rfl rfl (update_of_ne hj ..) rfl

theorem aside_poll (now : UInt32) : Aside i b (b.poll cfg j now) := by
  unfold Broker.poll
  split
  · split
    · exact .of_keeps hj (keeps_reset : Keeps _ 0 _ _)
    · exact .of_subs rfl rfl rfl rfl
  · exact .of_subs (update_of_ne hj ..) (update_of_ne hj ..) (update_of_ne hj ..) rfl

theorem aside_callback (slot : Slot) (history : History) (n : Nat) :
    Aside i b { b.setSlot j slot with history := update b.history j history, connections := n } :=
  .of_subs (update_of_ne hj ..) rfl (update_of_ne hj ..) rfl

end

/-- The slot that an event is about. -/
def focus (cfg : BrokerCfg) (b : Broker) : Event → Option Nat
  | .accept => freeSlot b.slots cfg.clients
  | .receive i _ | .release i | .poll i _ => some i
  | .packet _ => b.pc

theorem aside_next {e : Event} (hn : next cfg b e = some b') (hi : focus cfg b e ≠ some i) :
    Aside i b b' := by
  have hne : ∀ {j}, focus cfg b e = some j → i ≠ j := fun hf he => hi (he ▸ hf)
  unfold next at hn
  cases e with
  | accept =>
    obtain ⟨-, hn⟩ := ite_none_left_eq_some.mp hn
    split at hn
    · cases hn
      exact .of_subs rfl rfl rfl rfl
    · cases hn
      exact aside_callback (hne ‹_›) ..
  | receive j chain =>
    obtain ⟨-, ⟨⟩⟩ := ite_none_left_eq_some.mp hn
    exact aside_callback (n := b.connections) (hne rfl) ..
  | release j =>
    obtain ⟨-, ⟨⟩⟩ := ite_none_left_eq_some.mp hn
    exact .of_subs (update_of_ne (hne rfl) ..) rfl rfl rfl
  | poll j now =>
    obtain ⟨-, ⟨⟩⟩ := ite_none_left_eq_some.mp hn
    exact aside_poll (hne rfl) now
  | packet now =>
    obtain ⟨-, hn⟩ := ite_none_left_eq_some.mp hn
    split at hn
    · cases hn
    · cases hn
      exact aside_packet (hne ‹_›) now

theorem tame_of_next {e : Event} (hn : next cfg b e = some b') : b.wild = false := by
  by_contra hw
  rw [Bool.not_eq_false] at hw
  cases e <;> simp [next, hw] at hn

/-! ## One slot -/

/-- What a poll notes is the time of the last bytes. -/
theorem lastRx_eq (got : Bytes) (s : Session) (now : UInt32) :
    ∃ rx, (if got = [] then s else { s with lastRx := now }) = { s with lastRx := rx } := by
  split
  · exact ⟨s.lastRx, rfl⟩
  · exact ⟨now, rfl⟩

/-- A used slot has a connection and a ring in order, only a connected session has subscriptions, and
`buf_used` counts the buffer, each byte of which has an origin. -/
structure Kept (cfg : BrokerCfg) (b : Broker) (i : Nat) : Prop where
  pcb : (b.slots i).isUsed = true → (b.slots i).pcb.isSome = true
  ring : (b.slots i).isUsed = true → ∃ fifo, Holds (b.slots i).rx fifo
  subs : ∀ sub ∈ b.subs, sub.isUsed = true → sub.sessionId = i → (b.sessions i).mqttConnected = true
  origin : (b.sessions i).origin.length = (b.sessions i).buf.length
  used : b.wild = false → (b.sessions i).bufUsed.toNat = (b.sessions i).buf.length ∧
    (b.sessions i).buf.length ≤ cfg.bufferSize

theorem Kept.aside (h : Kept cfg b i) (ha : Aside i b b') (hw : b'.wild = false → b.wild = false) :
    Kept cfg b' i where
  pcb := by
    rw [ha.slot]
    exact h.pcb
  ring := by
    rw [ha.slot]
    exact h.ring
  subs sub hm hu hi := by
    obtain ⟨old, hold, hou, hoi, -⟩ := ha.subs sub hm hu hi
    rw [ha.session]
    exact h.subs old hold hou hoi
  origin := by
    rw [ha.session]
    exact h.origin
  used hw' := by
    rw [ha.session]
    exact h.used (hw hw')

theorem isUsed_of_close {s s' : Slot} (h : s' = s ∨ s' = s.close) (hu : s'.isUsed = true) : s' = s := by
  rcases h with h | h
  · exact h
  unfold Slot.close at h
  split at h
  · rw [h] at hu
    cases hu
  · exact h

/-- The session's own subscriptions are gone. -/
theorem ne_of_mem_removeSubscriptions {subs : List Subscription} {sub : Subscription}
    (hm : sub ∈ removeSubscriptions subs i) (hu : sub.isUsed = true) : sub.sessionId ≠ i := by
  obtain ⟨old, -, rfl⟩ := mem_map.mp hm
  split at hu
  · cases hu
  · rename_i hne
    rw [if_neg hne]
    exact fun hi => hne ⟨hu, hi⟩

/-- A session whose buffer is as it was, or empty. -/
def SameBuffer (s s' : Session) : Prop :=
  s'.bufUsed = s.bufUsed ∧ s'.buf = s.buf ∧ s'.origin = s.origin ∨
    s'.bufUsed = 0 ∧ s'.buf = [] ∧ s'.origin = []

section
variable (h : Kept cfg b i)
include h

theorem Kept.keeps (hk : Keeps i owner b b')
    (hsubs : ∀ sub ∈ b'.subs, sub.isUsed = true → sub.sessionId = i →
      (b'.sessions i).mqttConnected = true)
    (hbuf : SameBuffer (b.sessions i) (b'.sessions i)) : Kept cfg b' i where
  pcb hu := by
    have hs := isUsed_of_close hk.slot hu
    rw [hs] at hu ⊢
    exact h.pcb hu
  ring hu := by
    have hs := isUsed_of_close hk.slot hu
    rw [hs] at hu ⊢
    exact h.ring hu
  subs := hsubs
  origin := by
    rcases hbuf with ⟨-, h2, h3⟩ | ⟨-, h2, h3⟩
    · rw [h2, h3]
      exact h.origin
    · rw [h2, h3]
      rfl
  used hw := by
    rcases hbuf with ⟨h1, h2, -⟩ | ⟨h1, h2, -⟩
    · rw [h1, h2]
      exact h.used (hk.wild ▸ hw)
    · rw [h1, h2]
      exact ⟨rfl, Nat.zero_le _⟩

theorem Kept.reset : Kept cfg (b.reset i) i := by
  refine h.keeps (keeps_reset : Keeps _ 0 _ _) (fun sub hm hu hi => ?_) ?_
  · exact absurd hi (ne_of_mem_removeSubscriptions hm hu)
  · rw [reset_session]
    exact .inr ⟨rfl, rfl, rfl⟩

theorem Kept.withPc (pc : Option Nat) : Kept cfg { b with pc := pc } i := { h with }

theorem Kept.violation : Kept cfg (b.violation i) i :=
  h.reset.keeps (keeps_closeSession : Keeps _ 0 _ _) h.reset.subs (.inl ⟨rfl, rfl, rfl⟩)

theorem Kept.finish (now : UInt32) : Kept cfg (b.finish cfg i now) i :=
  finish_cases (P := (Kept cfg · i)) now (h.withPc none) (h.withPc none).violation

theorem Kept.handleConnect_subs (data : Bytes) : ∀ sub ∈ (b.handleConnect i data).subs,
    sub.isUsed = true → sub.sessionId = i → ((b.handleConnect i data).sessions i).mqttConnected = true := by
  have hnone : ∀ sub ∈ (b.resetRepeated i).subs, sub.isUsed = true → sub.sessionId ≠ i := by
    intro sub hm hu hi
    unfold resetRepeated at hm
    split at hm
    · exact ne_of_mem_removeSubscriptions hm hu hi
    · rename_i hc
      exact hc (h.subs sub hm hu hi)
  unfold handleConnect
  generalize b.resetRepeated i = b1 at hnone
  dsimp only
  split
  · exact fun sub hm hu hi => absurd hi (ne_of_mem_removeSubscriptions hm hu)
  · exact fun sub hm hu hi => absurd hi (hnone sub hm hu)
  · exact fun sub hm hu hi => absurd hi (hnone sub hm hu)

theorem Kept.dispatch (type : PacketType) (packet data : Bytes) :
    Kept cfg (b.dispatch cfg i owner type packet data) i := by
  refine h.keeps (keeps_dispatch type packet data) ?_ ?_
  · refine dispatch_cases (P := fun b' => ∀ sub ∈ b'.subs, sub.isUsed = true → sub.sessionId = i →
      (b'.sessions i).mqttConnected = true) type packet data (fun subs out _ hc sub hm hu hi => ?_)
      (fun _ _ sub hm hu hi => absurd hi (ne_of_mem_removeSubscriptions hm hu))
      (fun _ => h.handleConnect_subs data)
      fun _ sub hm hu hi => absurd hi (ne_of_mem_removeSubscriptions hm hu)
    rcases hc with hc | rfl
    · exact hc
    · exact h.subs sub hm hu hi
  · exact (handled_dispatch owner type packet data).buffer.imp_right And.left

theorem Kept.compact (total : Nat) (hfit : total ≤ cfg.bufferSize) : Kept cfg (b.compact i total) i := by
  have hflag : ∀ s : Session, s.mqttConnected = (b.sessions i).mqttConnected → ∀ sub ∈ b.subs,
      sub.isUsed = true → sub.sessionId = i → ((b.setSession i s).sessions i).mqttConnected = true := by
    intro s hs sub hm hu hi
    rw [setSession_self, hs]
    exact h.subs sub hm hu hi
  unfold Broker.compact
  dsimp only
  split
  · exact h.withPc none
  split
  · refine ⟨h.pcb, h.ring, hflag _ rfl, ?_, nofun⟩
    simp only [setSession, update_self]
    exact h.origin
  rename_i hge
  refine ⟨h.pcb, h.ring, hflag _ rfl, ?_, fun hw => ?_⟩
  · rw [setSession_self, length_drop, length_drop, h.origin]
  obtain ⟨hused, hle⟩ := h.used hw
  have hlt := cfg.buffer_lt
  have htotal : (UInt32.ofNat total).toNat = total :=
    UInt32.toNat_ofNat_of_lt' (by unfold UInt32.size; omega)
  rw [setSession_self, UInt32.toNat_sub_of_le, htotal, hused, length_drop]
  · omega
  · rw [UInt32.le_iff_toNat_le, htotal]
    exact not_lt.mp hge

theorem Kept.packet (now : UInt32) : Kept cfg (b.packet cfg i now) i := by
  refine packet_cases (P := (Kept cfg · i)) now (h.finish now) (h.violation.withPc none)
    fun _ _ _ _ _ hfit _ => ?_
  have hrec : ∀ owner type packet data origin, Kept cfg (b.record i owner type packet data origin) i :=
    fun _ _ _ _ _ => { h with }
  exact ((hrec ..).dispatch ..).compact _ hfit

theorem Kept.poll (now : UInt32) (hw : b.wild = false) : Kept cfg (b.poll cfg i now) i := by
  unfold Broker.poll
  split
  · split
    · exact h.reset
    · exact h
  rename_i hu
  rw [Bool.not_eq_false] at hu
  obtain ⟨fifo, hf⟩ := h.ring hu
  obtain ⟨hused, hle⟩ := h.used hw
  obtain ⟨-, hpcb, hflag, hlen, -⟩ := readLoop_origin cfg (b.sessions i) (cfg.bufferSize + 1) [] hu
  obtain ⟨more, fifo', -, -, h3, h4, h5, h6⟩ := readLoop_spec cfg (cfg.bufferSize + 1) [] hu hf hused hle
  generalize readLoop cfg (b.sessions i) (b.slots i) (cfg.bufferSize + 1) [] = r at *
  obtain ⟨s, slot, got⟩ := r
  dsimp only at hpcb hflag hlen h3 h4 h5 ⊢
  obtain ⟨rx, hrx⟩ := lastRx_eq got s now
  rw [hrx]
  refine ⟨fun _ => ?_, fun _ => ⟨fifo', ?_⟩, fun sub hm hu' hi => ?_, ?_, fun _ => ?_⟩
  · simp only [setSlot, update_self]
    rw [hpcb]
    exact h.pcb hu
  · simp only [setSlot, update_self]
    exact h3
  · simp only [setSlot, setSession, update_self]
    rw [hflag]
    exact h.subs sub hm hu' hi
  · simp only [setSlot, setSession, update_self]
    exact hlen h.origin
  · simp only [setSlot, setSession, update_self]
    rw [h5, h4]
    exact ⟨rfl, h6⟩

/-- A callback puts nothing but a slot in order, or frees it. -/
theorem Kept.callback {slot : Slot} (history : Nat → History) (n : Nat)
    (hslot : slot.isUsed = true → slot.pcb.isSome = true ∧ ∃ fifo, Holds slot.rx fifo) :
    Kept cfg { b.setSlot i slot with history := history, connections := n } i where
  pcb hu := by
    simp only [setSlot, update_self] at hu ⊢
    exact (hslot hu).1
  ring hu := by
    simp only [setSlot, update_self] at hu ⊢
    exact (hslot hu).2
  subs := h.subs
  origin := h.origin
  used := h.used

end

/-! ## Every slot -/

/-- While a slot is being worked on it is used. -/
def Attended (b : Broker) : Prop := ∀ i ∈ b.pc, (b.slots i).isUsed = true

structure Sound (cfg : BrokerCfg) (b : Broker) : Prop where
  kept : ∀ i, Kept cfg b i
  attended : Attended b

theorem attended_none (h : b.pc = none) : Attended b :=
  fun i hi => by rw [h] at hi; cases hi

theorem attended_compact (hpc : b.pc = some i) (total : Nat) : Attended (b.compact i total) := by
  unfold Broker.compact
  dsimp only
  split
  · exact attended_none rfl
  rename_i hu
  have hi : ∀ j ∈ b.pc, (b.slots j).isUsed = true := by
    intro j hj
    rw [hpc] at hj
    cases hj
    exact Bool.not_eq_false _ ▸ hu
  split <;> exact hi

theorem attended_packet (hpc : b.pc = some i) (now : UInt32) : Attended (b.packet cfg i now) := by
  refine packet_cases now (finish_cases now (attended_none rfl) (attended_none rfl)) (attended_none rfl)
    fun _ _ _ _ _ _ _ => attended_compact ?_ _
  exact (keeps_dispatch ..).pc.trans hpc

theorem attended_poll (hpc : b.pc = none) (i : Nat) (now : UInt32) : Attended (b.poll cfg i now) := by
  unfold Broker.poll
  split
  · split
    · exact attended_none hpc
    · exact attended_none hpc
  rename_i hu
  intro j hj
  cases hj
  simp only [setSlot, update_self]
  exact (readLoop_origin cfg (b.sessions i) (cfg.bufferSize + 1) [] (Bool.not_eq_false _ ▸ hu)).1

theorem Sound.init : Sound cfg (fresh cfg) where
  kept i := by
    refine ⟨nofun, nofun, fun sub hm hu => ?_, rfl, fun _ => ⟨rfl, Nat.zero_le _⟩⟩
    cases (eq_of_mem_replicate hm) ▸ hu
  attended := attended_none rfl

theorem Sound.step_focus {e : Event} (h : Sound cfg b) (hn : next cfg b e = some b') :
    Attended b' ∧ ∀ i, focus cfg b e = some i → Kept cfg b' i := by
  have hw := tame_of_next hn
  unfold next at hn
  cases e with
  | accept =>
    obtain ⟨hg, hn⟩ := ite_none_left_eq_some.mp hn
    have hpc := not_isSome_iff_eq_none.mp (not_or.mp hg).2
    split at hn
    · cases hn
      exact ⟨attended_none hpc, fun i _ => h.kept i⟩
    · rename_i j hfree
      cases hn
      refine ⟨attended_none hpc, fun i hi => ?_⟩
      obtain rfl := some.inj (hfree.symm.trans hi)
      exact (h.kept j).callback _ _ fun _ => ⟨rfl, [], Slot.accept_holds _ cfg.rx_pos cfg.rx_pow _⟩
  | receive j chain =>
    obtain ⟨hg, ⟨⟩⟩ := ite_none_left_eq_some.mp hn
    obtain ⟨hpc, hu⟩ := idle_of_guard hg
    have hu := Bool.not_eq_false _ ▸ hu
    refine ⟨attended_none hpc, fun i hi => ?_⟩
    cases hi
    obtain ⟨fifo, hf⟩ := (h.kept j).ring hu
    obtain ⟨taken, hholds, -⟩ := hf.storeChain chain 0
    exact (h.kept j).callback _ b.connections fun _ => ⟨(h.kept j).pcb hu, _, hholds⟩
  | release j =>
    obtain ⟨hg, ⟨⟩⟩ := ite_none_left_eq_some.mp hn
    refine ⟨attended_none (idle_of_guard hg).1, fun i hi => ?_⟩
    cases hi
    exact (h.kept j).callback b.history b.connections nofun
  | poll j now =>
    obtain ⟨hg, ⟨⟩⟩ := ite_none_left_eq_some.mp hn
    refine ⟨attended_poll (idle_of_guard hg).1 j now, fun i hi => ?_⟩
    cases hi
    exact (h.kept j).poll now hw
  | packet now =>
    obtain ⟨-, hn⟩ := ite_none_left_eq_some.mp hn
    split at hn
    · cases hn
    · rename_i j hpc
      cases hn
      refine ⟨attended_packet hpc now, fun i hi => ?_⟩
      obtain rfl := some.inj (hpc.symm.trans hi)
      exact (h.kept j).packet now

theorem Sound.step {e : Event} (h : Sound cfg b) (hn : next cfg b e = some b') : Sound cfg b' := by
  obtain ⟨hpc, hkept⟩ := h.step_focus hn
  refine ⟨fun i => ?_, hpc⟩
  by_cases hi : focus cfg b e = some i
  · exact hkept i hi
  · exact (h.kept i).aside (aside_next hn hi) fun _ => tame_of_next hn

theorem sound_of_reachable (h : (system cfg).Reachable b) : Sound cfg b := by
  have hinv : (system cfg).IsInvariant (Sound cfg) := by
    refine ⟨fun b h0 => ?_, fun _ _ _ hs hn => hs.step hn⟩
    cases h0
    exact .init
  exact hinv.holds h

/-! ## Polls and accepts -/

theorem clean_reset : Clean (b.reset i) i := by
  refine ⟨?_, ?_, fun sub hm hu => ne_of_mem_removeSubscriptions hm hu⟩
  · rw [reset_session]
  · rw [reset_session]

/-- A poll that finds the slot free leaves a clean session, cleaned up now or before. -/
theorem Kept.clean_poll (h : Kept cfg b i) (hw : b.wild = false) (hu : (b.slots i).isUsed = false)
    (now : UInt32) : ((b.poll cfg i now).slots i).isUsed = false ∧ Clean (b.poll cfg i now) i := by
  unfold Broker.poll
  rw [if_pos hu]
  split
  · exact ⟨hu, clean_reset⟩
  · rename_i hidle
    obtain ⟨hflag, hzero⟩ := not_or.mp hidle
    have hbuf : (b.sessions i).buf.length = 0 := by
      rw [← (h.used hw).1]
      exact Nat.eq_zero_of_not_pos hzero
    exact ⟨hu, Bool.eq_false_of_not_eq_true hflag, length_eq_zero_iff.mp hbuf,
      fun sub hm hs hi => hflag (h.subs sub hm hs hi)⟩

/-- Nothing but an accept ends the cleanness of a free slot. -/
theorem Sound.clean_step {e : Event} (h : Sound cfg b) (hu : (b.slots i).isUsed = false)
    (hc : Clean b i) (hn : next cfg b e = some b')
    (he : e = .accept → freeSlot b.slots cfg.clients ≠ some i) :
    (b'.slots i).isUsed = false ∧ Clean b' i := by
  by_cases hi : focus cfg b e = some i
  · have hw := tame_of_next hn
    unfold next at hn
    cases e with
    | accept => exact absurd hi (he rfl)
    | receive j chain | release j =>
      cases hi
      obtain ⟨hg, -⟩ := ite_none_left_eq_some.mp hn
      exact absurd hu (idle_of_guard hg).2
    | poll j now =>
      cases hi
      obtain ⟨-, ⟨⟩⟩ := ite_none_left_eq_some.mp hn
      exact (h.kept i).clean_poll hw hu now
    | packet now =>
      rw [h.attended i hi] at hu
      cases hu
  · have ha := aside_next hn hi
    exact ⟨ha.slot ▸ hu, ha.clean hc⟩

/-- From a poll that finds slot `i` free to the next connection in it. -/
theorem clean_of_polled {b₁ b₂ : Broker} {now : UInt32} (hb : (system cfg).Reachable b)
    (hu : (b.slots i).isUsed = false) (hp : next cfg b (.poll i now) = some b₁)
    (hr : ((LTS.ofFn (· = b₁) (next cfg)).restrict fun b e =>
      e = .accept → freeSlot b.slots cfg.clients ≠ some i).Reachable b₂) : Clean b₂ i := by
  have hs := sound_of_reachable hb
  have hinv : Sound cfg b₂ ∧ (b₂.slots i).isUsed = false ∧ Clean b₂ i := by
    induction hr with
    | init h0 =>
      obtain rfl := h0.trans (some.inj (ite_none_left_eq_some.mp hp).2).symm
      exact ⟨hs.step (h0 ▸ hp), (hs.kept i).clean_poll (tame_of_next hp) hu now⟩
    | step _ hn ih => exact ⟨ih.1.step hn.2, ih.1.clean_step ih.2.1 ih.2.2 hn.2 hn.1⟩
  exact hinv.2.2

end MiniTree.Net.Broker
