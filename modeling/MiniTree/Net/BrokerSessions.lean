import MiniTree.Net.BrokerSlots

/-!
# Isolation of MQTT sessions

The broker's session state lives in the table slot of the TCP server and is only cleaned up
by the next poll of that slot. The TCP server frees a slot in lwIP's callbacks and gives it
to the next connection without asking the broker, so a connection that is accepted before
that poll finds the flag, the subscriptions and the buffered bytes of the one before it.

PINGREQ and PUBREL are answered without a look at the connected flag.

**Results.** `sessions_isolated`: in a run where a connection only gets a slot that the
broker has cleaned up, and where no PINGREQ or PUBREL comes on a session that is not
connected, every packet the broker acts on came from a connection whose own CONNECT was
accepted, and no connection inherits anything. The broker has cleaned a slot up when it
polled it after the connection before ended (`clean_of_polled`).
-/

namespace MiniTree.Net.Broker

open MiniTree.Core Function List Option

variable (cfg : BrokerCfg)

structure Isolated (b : Broker) : Prop where
  /-- each byte of a packet the broker acted on came from a connection that was accepted -/
  acts : ∀ a ∈ b.acts, ∀ o ∈ a.origin, o ∈ a.known
  flag : ∀ i c, (b.slots i).isUsed = true → (b.slots i).pcb = some c →
    (b.sessions i).mqttConnected = true → c ∈ b.accepted
  subs : ∀ sub ∈ b.subs, sub.isUsed = true → ∀ c, (b.slots sub.sessionId).isUsed = true →
    (b.slots sub.sessionId).pcb = some c → sub.owner = c
  bytes : ∀ i c, (b.slots i).isUsed = true → (b.slots i).pcb = some c →
    ∀ o ∈ (b.sessions i).origin, o = c

/-- The packets that are answered whatever the connected flag says. -/
def Unguarded : Fixed → Bool
  | .packet .pingreq _ _ | .packet .pubrel _ _ => true
  | _ => false

/-- A slot that is given out is clean; a PINGREQ or PUBREL at the front of the buffer comes
on a connected session. -/
def Orderly (b : Broker) : Event → Prop
  | .accept => ∀ i ∈ freeSlot b.slots cfg.clients, Clean b i
  | .packet _ => ∀ i ∈ b.pc, Unguarded (cfg.mqtt.processIncoming (b.sessions i).buf) = true →
      (b.sessions i).mqttConnected = true
  | _ => True

instance (b : Broker) (e : Event) : Decidable (Orderly cfg b e) := by
  unfold Orderly
  split <;> infer_instance

/-! ## The invariant -/

variable {cfg}

section Keeps

variable {i owner : Nat} {b b' : Broker} {type : PacketType} {s : Session}

/-- The connection in slot `i` has what is its own. -/
def Owns (b : Broker) (i c : Nat) : Prop := ((b.sessions i).mqttConnected = true → c ∈ b.accepted) ∧
    (∀ sub ∈ b.subs, sub.isUsed = true → sub.sessionId = i → sub.owner = c) ∧
      ∀ o ∈ (b.sessions i).origin, o = c

section
variable (h : Isolated b)
include h

namespace Isolated

theorem owns {c : Nat} (hu : (b.slots i).isUsed = true)
    (hc : (b.slots i).pcb = some c) : Owns b i c := by
  refine ⟨h.flag i c hu hc, fun sub hm hs hi => ?_, h.bytes i c hu hc⟩
  subst hi
  exact h.subs sub hm hs c hu hc

/-- A step on slot `i` has to show that the connection in it, if any, owns what it has. -/
theorem replace (ha : ∀ j, j ≠ i → Aside j b b') (haccepted : b'.accepted = b.accepted)
    (hacts : b'.acts = b.acts)
    (howns : ∀ c, (b'.slots i).isUsed = true → (b'.slots i).pcb = some c → Owns b' i c) :
    Isolated b' := by
  have hall : ∀ j c, (b'.slots j).isUsed = true → (b'.slots j).pcb = some c → Owns b' j c := by
    intro j c hu hc
    by_cases hj : j = i
    · subst hj
      exact howns c hu hc
    have ha := ha j hj
    rw [ha.slot] at hu hc
    obtain ⟨hflag, hsub, hbytes⟩ := h.owns hu hc
    refine ⟨?_, fun sub hm hs hi => ?_, ?_⟩
    · rw [ha.session, haccepted]
      exact hflag
    · obtain ⟨old, hold, hou, hoi, hoo⟩ := ha.subs sub hm hs hi
      rw [← hoo]
      exact hsub old hold hou hoi
    · rw [ha.session]
      exact hbytes
  refine ⟨?_, fun j c hu hc => (hall j c hu hc).1, fun sub hm hs c hu hc =>
    (hall _ c hu hc).2.1 sub hm hs rfl, fun j c hu hc => (hall j c hu hc).2.2⟩
  rw [hacts]
  exact h.acts

theorem reset (i : Nat) : Isolated (b.reset i) := by
  refine h.replace (fun j hj => .of_keeps hj (keeps_reset : Keeps _ 0 _ _)) rfl rfl fun c _ _ =>
    ⟨fun hc => ?_, fun sub hm hu hi => absurd hi (ne_of_mem_removeSubscriptions hm hu), fun o ho => ?_⟩
  · rw [reset_session] at hc
    cases hc
  · rw [reset_session] at ho
    cases ho

theorem closeSession (i : Nat) : Isolated (b.closeSession i) := by
  have hk : Keeps i 0 b (b.closeSession i) := keeps_closeSession
  refine h.replace (fun j hj => .of_keeps hj hk) rfl rfl fun c hu hc => ?_
  have hs := isUsed_of_close hk.slot hu
  rw [hs] at hu hc
  exact h.owns hu hc

theorem violation (i : Nat) : Isolated (b.violation i) := (h.reset i).closeSession i

theorem withPc (pc : Option Nat) : Isolated { b with pc := pc } := { h with }

theorem finish (i : Nat) (now : UInt32) : Isolated (b.finish cfg i now) :=
  finish_cases now (h.withPc none) ((h.withPc none).violation i)

/-- Taking bytes out of the session of a slot, or none. -/
theorem setSession (hf : s.mqttConnected = (b.sessions i).mqttConnected)
    (ho : ∀ o ∈ s.origin, o ∈ (b.sessions i).origin) : Isolated (b.setSession i s) := by
  refine h.replace (fun j hj => .of_subs rfl (update_of_ne hj ..) rfl rfl) rfl rfl fun c hu hc => ?_
  obtain ⟨hflag, hsubs, hbytes⟩ := h.owns hu hc
  refine ⟨?_, hsubs, ?_⟩
  · rw [setSession_self, hf]
    exact hflag
  · rw [setSession_self]
    exact fun o hm => hbytes o (ho o hm)

theorem compact (total : Nat) : Isolated (b.compact i total) := by
  unfold Broker.compact
  dsimp only
  split
  · exact h.withPc none
  split
  · exact { h.setSession (i := i) (s := { b.sessions i with
      bufUsed := (b.sessions i).bufUsed - .ofNat total }) rfl (fun _ ho => ho) with }
  · exact h.setSession rfl fun o ho => mem_of_mem_drop ho

end Isolated

end

theorem actsOn_connected {data : Bytes} (h : actsOn s type data = true)
    (hok : type = .pingreq ∨ type = .pubrel → s.mqttConnected = true) : s.mqttConnected = true := by
  cases type with
  | publish => exact h
  | subscribe | unsubscribe => exact (Bool.and_eq_true_iff.mp h).1
  | pubrel => exact hok (.inr rfl)
  | pingreq => exact hok (.inl rfl)
  | _ => cases h

/-- The history of a packet: all of its bytes came from the connection in the slot. -/
theorem Isolated.record (h : Isolated b) (packet data : Bytes) (total : Nat)
    (hu : (b.slots i).isUsed = true) (hc : (b.slots i).pcb = some owner)
    (hok : type = .pingreq ∨ type = .pubrel → (b.sessions i).mqttConnected = true) :
    Isolated (b.record i owner type packet data ((b.sessions i).origin.take total)) ∧
      (type = .connect ∧ (∃ level keepAlive, connectVerdict data = .accepted level keepAlive) →
        owner ∈ (b.record i owner type packet data ((b.sessions i).origin.take total)).accepted) := by
  have hown : ∀ o ∈ (b.sessions i).origin.take total, o = owner :=
    fun o ho => h.bytes i owner hu hc o (mem_of_mem_take ho)
  have hmore : ∀ c ∈ b.accepted,
      c ∈ (b.record i owner type packet data ((b.sessions i).origin.take total)).accepted := by
    intro c hm
    unfold Broker.record
    dsimp only
    split
    · split
      · exact mem_append_left _ hm
      · exact hm
    · exact hm
  refine ⟨⟨fun a ha o ho => ?_, fun j c hj hjc hf => hmore c (h.flag j c hj hjc hf), h.subs,
    h.bytes⟩, ?_⟩
  · unfold Broker.record at ha
    dsimp only at ha
    split at ha
    · rename_i hacts
      rcases mem_append.mp ha with ha | ha
      · exact h.acts a ha o ho
      · cases mem_singleton.mp ha
        rw [hown o ho]
        exact h.flag i owner hu hc (actsOn_connected hacts hok)
    · exact h.acts a ha o ho
  · rintro ⟨rfl, level, keepAlive, hv⟩
    unfold Broker.record
    simp only [hv]
    rw [if_pos (all_eq_true.mpr fun o ho => beq_iff_eq.mpr (hown o ho))]
    exact mem_append_right _ (mem_singleton_self owner)

theorem Isolated.dispatch (h : Isolated b) {packet data : Bytes}
    (hu : (b.slots i).isUsed = true) (hc : (b.slots i).pcb = some owner)
    (hacc : type = .connect ∧ (∃ level keepAlive, connectVerdict data = .accepted level keepAlive) →
      owner ∈ b.accepted) : Isolated (b.dispatch cfg i owner type packet data) := by
  have hk : Keeps i owner b (b.dispatch cfg i owner type packet data) :=
    keeps_dispatch type packet data
  have hd : Handled b (b.dispatch cfg i owner type packet data) i type data :=
    handled_dispatch _ type packet data
  obtain ⟨hflag, hsubs, hbytes⟩ := h.owns hu hc
  refine h.replace (fun j hj => .of_keeps hj hk) hk.accepted hk.acts fun c hu' hc' => ?_
  rw [isUsed_of_close hk.slot hu', hc] at hc'
  cases hc'
  refine ⟨fun hf => ?_, fun sub hm hs hi => ?_, fun o ho => ?_⟩
  · rw [hk.accepted]
    exact (hd.connected hf).elim hflag hacc
  · rcases hk.subs sub hm hs with ⟨old, hold, hou, h1, h2⟩ | hnew
    · rw [← h2]
      exact hsubs old hold hou (h1.trans hi)
    · exact hnew.2
  · rcases hd.buffer with ⟨-, -, hs⟩ | ⟨⟨-, -, hs⟩, -⟩
    · exact hbytes o (hs ▸ ho)
    · rw [hs] at ho
      cases ho

end Keeps

/-! ## Whole runs -/

structure Inv (cfg : BrokerCfg) (b : Broker) : Prop where
  isolated : Isolated b
  sound : Sound cfg b

section Steps

variable {b : Broker}

theorem Inv.packet {i : Nat} (h : Inv cfg b) (now : UInt32) (hpc : b.pc = some i)
    (hok : Orderly cfg b (.packet now)) : Isolated (b.packet cfg i now) := by
  have hu := h.sound.attended i hpc
  obtain ⟨c, hc⟩ := isSome_iff_exists.mp ((h.sound.kept i).pcb hu)
  refine packet_cases now (h.isolated.finish i now) ((h.isolated.violation i).withPc none)
    fun type header remaining _ hin _ _ => ?_
  have hok := hok i hpc
  rw [hc, getD_some]
  rw [hin] at hok
  have hping : type = .pingreq ∨ type = .pubrel → (b.sessions i).mqttConnected = true := by
    rintro (rfl | rfl)
    · exact hok rfl
    · exact hok rfl
  obtain ⟨hrec, hacc⟩ := h.isolated.record ((b.sessions i).buf.take (header + remaining))
    (slice (b.sessions i).buf header remaining) (header + remaining) hu hc hping
  exact (hrec.dispatch hu hc hacc).compact _

/-- The bytes that a poll reads come from the connection that is in the slot. -/
theorem Isolated.poll (h : Isolated b) (i : Nat) (now : UInt32) : Isolated (b.poll cfg i now) := by
  unfold Broker.poll
  split
  · split
    · exact h.reset i
    · exact h
  rename_i hu
  have hu := Bool.not_eq_false _ ▸ hu
  obtain ⟨-, hpcb, hf, -, ho⟩ := readLoop_origin cfg (b.sessions i) (cfg.bufferSize + 1) [] hu
  generalize readLoop cfg (b.sessions i) (b.slots i) (cfg.bufferSize + 1) [] = r at *
  obtain ⟨s, slot, got⟩ := r
  dsimp only at hpcb hf ho ⊢
  obtain ⟨rx, hrx⟩ := lastRx_eq got s now
  rw [hrx]
  refine h.replace (fun j hj => .of_subs (update_of_ne hj ..) (update_of_ne hj ..) (update_of_ne hj ..)
    rfl) rfl rfl fun c _ hc => ?_
  simp only [Broker.setSlot, update_self] at hc
  rw [hpcb] at hc
  obtain ⟨hflag, hsubs, hbytes⟩ := h.owns hu hc
  refine ⟨?_, hsubs, fun o hm => ?_⟩
  · simp only [Broker.setSlot, Broker.setSession, update_self]
    rw [hf]
    exact hflag
  · simp only [Broker.setSlot, Broker.setSession, update_self] at hm
    rcases ho o hm with hm | hm
    · exact hbytes o hm
    · rw [hm, hc, getD_some]

/-- A callback leaves the broker's sessions alone; a slot it gives to a connection is clean. -/
theorem Inv.callback {i : Nat} {slot : Slot} (history : History) (n : Nat) (h : Inv cfg b)
    (hs : slot.isUsed = true → (b.slots i).isUsed = true ∧ slot.pcb = (b.slots i).pcb ∨ Clean b i) :
    Isolated { b.setSlot i slot with history := update b.history i history, connections := n } := by
  refine h.isolated.replace (fun j hj => aside_callback hj ..) rfl rfl fun c hu hc => ?_
  simp only [Broker.setSlot, update_self] at hu hc
  rcases hs hu with ⟨hold, hpcb⟩ | ⟨hf, hbuf, hsubs⟩
  · exact h.isolated.owns hold (hpcb.symm.trans hc)
  have ho : (b.sessions i).origin = [] := by
    apply eq_nil_of_length_eq_zero
    rw [(h.sound.kept i).origin, hbuf]
    rfl
  refine ⟨fun hf' => ?_, fun sub hm hu hi => absurd hi (hsubs sub hm hu), fun o hm => ?_⟩
  · exact absurd (hf.symm.trans hf') Bool.false_ne_true
  · exact absurd (ho ▸ hm) not_mem_nil

theorem Inv.step {b' : Broker} {e : Event} (h : Inv cfg b) (hok : Orderly cfg b e)
    (hn : next cfg b e = some b') : Inv cfg b' := by
  refine ⟨?_, h.sound.step hn⟩
  unfold next at hn
  cases e with
  | accept =>
    obtain ⟨-, hn⟩ := ite_none_left_eq_some.mp hn
    split at hn
    · cases hn
      exact h.isolated
    · rename_i i hfree
      cases hn
      exact h.callback _ _ fun _ => .inr (hok i hfree)
  | receive i chain =>
    obtain ⟨-, ⟨⟩⟩ := ite_none_left_eq_some.mp hn
    exact h.callback _ b.connections fun hu => .inl ⟨hu, rfl⟩
  | release i =>
    obtain ⟨-, ⟨⟩⟩ := ite_none_left_eq_some.mp hn
    refine h.isolated.replace (fun j hj => .of_subs (update_of_ne hj ..) rfl rfl rfl) rfl rfl
      fun c hu => ?_
    simp only [Broker.setSlot, update_self] at hu
    cases hu
  | poll i now =>
    obtain ⟨-, ⟨⟩⟩ := ite_none_left_eq_some.mp hn
    exact h.isolated.poll i now
  | packet now =>
    obtain ⟨-, hn⟩ := ite_none_left_eq_some.mp hn
    split at hn
    · cases hn
    · rename_i i hpc
      cases hn
      exact h.packet now hpc hok

theorem Inv.init : Inv cfg (fresh cfg) := by
  refine ⟨⟨fun a ha => (not_mem_nil ha).elim, nofun, fun sub hm hs => ?_, nofun⟩, .init⟩
  cases (eq_of_mem_replicate hm) ▸ hs

end Steps

theorem sessions_isolated (cfg : BrokerCfg) {b : Broker}
    (h : ((system cfg).restrict (Orderly cfg)).Reachable b) : Isolated b := by
  have hinv : ((system cfg).restrict (Orderly cfg)).IsInvariant (Inv cfg) := by
    refine ⟨fun b h0 => ?_, fun _ _ _ hs hn => hs.step hn.1 hn.2⟩
    cases h0
    exact .init
  exact (hinv.holds h).isolated

/-- A CONNECT and a PINGREQ; the peer closes, the broker cleans up, and a new connection comes. -/
theorem sessions_isolated_reuse : ∃ b, ((system shortCfg).restrict (Orderly shortCfg)).Reachable b ∧
      (b.acts = [⟨.pingreq, [0, 0], [0]⟩] ∧ (b.slots 0).isUsed = true ∧ (b.slots 0).pcb = some 1) ∧
        Isolated b := by
  obtain ⟨b, hb, hp⟩ := LTS.Reachable.of_execOk (· = fresh shortCfg) (next shortCfg)
    (Orderly shortCfg) (fresh shortCfg)
    [.accept, .receive 0 [⟨shortConnect ++ [0xC0, 0], by decide⟩], .poll 0 1, .packet 1, .packet 1,
      .packet 1, .release 0, .poll 0 2, .accept]
    (fun b => b.acts = [⟨.pingreq, [0, 0], [0]⟩] ∧ (b.slots 0).isUsed = true ∧
      (b.slots 0).pcb = some 1) rfl (by decide +kernel)
  exact ⟨b, hb, hp, sessions_isolated _ hb⟩

/-- The peer closes and another connects before the broker polls the slot. -/
theorem sessions_inherited :
    ¬ ∀ (cfg : BrokerCfg) (b : Broker), (system cfg).Reachable b → Isolated b := by
  intro h
  obtain ⟨b, hb, hu, hc, hf, ha⟩ := LTS.Reachable.of_exec (· = fresh shortCfg) (next shortCfg)
    (fresh shortCfg)
    [.accept, .receive 0 [⟨shortConnect, by decide⟩], .poll 0 1, .packet 1, .packet 1, .release 0,
      .accept]
    (fun b => (b.slots 0).isUsed = true ∧ (b.slots 0).pcb = some 1 ∧
      (b.sessions 0).mqttConnected = true ∧ b.accepted = [0]) rfl (by decide +kernel)
  have hm := (h shortCfg b hb).flag 0 1 hu hc hf
  rw [ha] at hm
  exact absurd hm (by decide)

end MiniTree.Net.Broker
