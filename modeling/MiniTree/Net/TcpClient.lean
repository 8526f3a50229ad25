import MiniTree.Algorithm.FifoBytes
import MiniTree.Core.LTS
import Mathlib.Algebra.Ring.Nat

/-!
# The TCP client (`net/port/tcp/tcp_client.c`)

A context sits between the application and one lwIP connection with a byte ring in each
direction. `tcp_client_send` fills the TX ring and offers up to 128 bytes of it to
`tcp_write`; every acknowledgement offers more. The receive callback copies each pbuf of a
chain into the RX ring and credits the copied bytes back to the window at once.

lwIP is the environment: each event carries what `tcp_sndbuf` and `tcp_write` answer, and
lwIP passes `ERR_OK` with the data it delivers. Each call and each callback is one step.
The fields of `Run` behind the context are history variables.

Neither direction is a reliable stream. Bytes are taken out of the TX ring before
`tcp_write` is asked, so they are gone when it is out of memory; and a chain that does not
fit the RX ring loses bytes of every pbuf that found it full.

**Results.** `client_reliable`: in a run where `tcp_write` never fails and every chain fits, each
side gets a prefix of what the other handed over, and the credit is what was received.
`client_only_loses`: in every run each side gets a subsequence.
-/

namespace MiniTree.Net.TcpClient

open Algorithm MiniTree.Core List Option UInt16

/-- The lwIP codes this layer returns. -/
inductive LErr where
  | ok | mem | val | conn | arg
  deriving DecidableEq, Repr

/-- mirrors tcp_client.h (`struct tcp_client_context`); `pcb` says whether the
pointer is set -/
structure Context where
  pcb : Bool
  isConnected : Bool
  rx : Spsc UInt8
  tx : Spsc UInt8

namespace Context

section
variable (c : Context) (data : Block UInt8) (sndbuf : UInt16)

/-- The code, what `tcp_write` took, and the context.
mirrors tcp_client.c:17-49 (`tcp_client_poll_send`) -/
def pollSend (writeOk : Bool) : LErr × List UInt8 × Context :=
  if c.isConnected = false ∨ c.pcb = false then (.val, [], c)
  else if sndbuf = 0 then (.mem, [], c)
  else
    let chunk := if sndbuf < 128 then sndbuf else 128
    let r := c.tx.readBlock chunk
    let c := { c with tx := r.2.2 }
    if r.2.1 ≠ [] ∧ writeOk = true then (.ok, r.2.1, c) else (.val, [], c)

/-- Data from the peer: the context and the credit given with `tcp_recved`.
mirrors tcp_client.c:75-126 (`tcp_client_receive_callback`) -/
def receiveCallback (chain : List (Block UInt8)) : UInt16 × Context :=
  let r := storeChain chain (c.rx, 0)
  (r.2, { c with rx := r.1 })

/-- The receive callback with `NULL` for the data, the error callback
(net/port/tcp/tcp_client.c:57-65), and net/port/tcp/tcp_client.c:257-273
(`tcp_client_disconnect`) -/
def closed : Context := { c with pcb := false, isConnected := false }

/-- The code, `*sent_len`, what `tcp_write` took, and the context.
mirrors tcp_client.c:224-243 (`tcp_client_send`) -/
def send (writeOk : Bool) : LErr × UInt16 × List UInt8 × Context :=
  if data.val = [] then (.arg, 0, [], c)
  else if c.isConnected = false ∨ c.pcb = false then (.conn, 0, [], c)
  else
    let r := c.tx.writeBlock data.val data.len
    let p := pollSend { c with tx := r.2.2 } sndbuf writeOk
    (.ok, r.2.1, p.2)

/-- The code, the bytes copied to `buf`, and the context.
mirrors tcp_client.c:245-255 (`tcp_client_read`) -/
def read (len : UInt16) : LErr × List UInt8 × Context :=
  if len = 0 then (.arg, [], c)
  else
    let r := c.rx.readBlock len
    (.ok, r.2.1, { c with rx := r.2.2 })

end

end Context

/-! ## Runs of one connection -/

structure Run where
  ctx : Context
  /-- what `tcp_client_send` reported as sent -/
  accepted : List UInt8
  /-- what `tcp_write` took -/
  written : List UInt8
  received : List UInt8
  /-- what `tcp_client_read` returned -/
  read : List UInt8
  /-- the sum over `tcp_recved` -/
  credit : Nat

/-- mirrors tcp_client.c:176-222 (`tcp_client_init_and_connect`) when lwIP starts
the connection -/
def initAndConnect (rxBuffer txBuffer : Nat → UInt8) (rxSize txSize : UInt16) : Option Run :=
  (fifoUniInit rxBuffer 1 rxSize).bind fun rx =>
    (fifoUniInit txBuffer 1 txSize).map fun tx =>
      ⟨⟨true, false, rx, tx⟩, [], [], [], [], 0⟩

inductive Event where
  /-- `tcp_client_connected_callback` -/
  | connected (sndbuf : UInt16) (writeOk : Bool)
  | send (data : Block UInt8) (sndbuf : UInt16) (writeOk : Bool)
  /-- `tcp_client_sent_callback`, or the application polls -/
  | pollSend (sndbuf : UInt16) (writeOk : Bool)
  | read (len : UInt16)
  | receive (chain : List (Block UInt8))
  | closed

/-- lwIP calls back only about the connection it still has. -/
def next (s : Run) : Event → Option Run
  | .connected sndbuf writeOk =>
    if s.ctx.pcb = false ∨ s.ctx.isConnected = true then none
    else
      let r := { s.ctx with isConnected := true }.pollSend sndbuf writeOk
      some { s with ctx := r.2.2, written := s.written ++ r.2.1 }
  | .send data sndbuf writeOk =>
    let r := s.ctx.send data sndbuf writeOk
    some { s with
      ctx := r.2.2.2
      accepted := s.accepted ++ data.val.take r.2.1.toNat
      written := s.written ++ r.2.2.1 }
  | .pollSend sndbuf writeOk =>
    let r := s.ctx.pollSend sndbuf writeOk
    some { s with ctx := r.2.2, written := s.written ++ r.2.1 }
  | .read len =>
    let r := s.ctx.read len
    some { s with ctx := r.2.2, read := s.read ++ r.2.1 }
  | .receive chain =>
    if s.ctx.pcb = false ∨ s.ctx.isConnected = false then none
    else
      let r := s.ctx.receiveCallback chain
      some { s with
        ctx := r.2
        received := s.received ++ payload chain
        credit := s.credit + r.1.toNat }
  | .closed => some { s with ctx := s.ctx.closed }

def client (rxBuffer txBuffer : Nat → UInt8) (rxSize txSize : UInt16) : LTS Run Event :=
  LTS.ofFn (fun s => initAndConnect rxBuffer txBuffer rxSize txSize = some s) next

structure Reliable (s : Run) : Prop where
  sent : s.written <+: s.accepted
  delivered : s.read <+: s.received
  credit : s.read = s.received → s.credit = s.received.length

/-- `tcp_write` does not fail, and a chain fits the free space of the RX ring. -/
def Lossless (s : Run) : Event → Prop
  | .connected _ writeOk | .send _ _ writeOk | .pollSend _ writeOk => writeOk = true
  | .receive chain => (payload chain).length + s.ctx.rx.count.toNat ≤ s.ctx.rx.size.toNat
  | .read _ | .closed => True

instance (s : Run) (e : Event) : Decidable (Lossless s e) := by
  unfold Lossless
  split <;> infer_instance

/-! ## What the calls do to the rings -/

section
variable {c : Context} {tx rx : List UInt8}

/-- A poll takes bytes out of the TX ring; those it does not hand over are lost. -/
theorem pollSend_spec (h : Holds c.tx tx) (sndbuf : UInt16)
    (writeOk : Bool) : ∃ tx', Holds (c.pollSend sndbuf writeOk).2.2.tx tx' ∧
      (c.pollSend sndbuf writeOk).2.2.rx = c.rx ∧
      ((c.pollSend sndbuf writeOk).2.1 ++ tx').Sublist tx ∧
      (writeOk = true → (c.pollSend sndbuf writeOk).2.1 ++ tx' = tx) := by
  unfold Context.pollSend
  split
  · exact ⟨tx, h, rfl, List.Sublist.refl tx, fun _ => rfl⟩
  split
  · exact ⟨tx, h, rfl, List.Sublist.refl tx, fun _ => rfl⟩
  dsimp only
  generalize (if sndbuf < 128 then sndbuf else 128) = chunk
  obtain ⟨hread, hholds, -⟩ := h.read chunk
  refine ⟨tx.drop chunk.toNat, ?_, ?_, ?_, ?_⟩
  · split <;> exact hholds
  · split <;> rfl
  · split
    · rw [hread, take_append_drop]
    · exact drop_sublist ..
  · intro hok
    split
    · rw [hread]
      exact take_append_drop ..
    rename_i hno
    have hnil : (c.tx.readBlock chunk).2.1 = [] := by
      by_contra hne
      exact hno ⟨hne, hok⟩
    rw [hread] at hnil
    have := take_append_drop chunk.toNat tx
    rw [hnil] at this
    exact this

/-- The receive callback credits what it stored. -/
theorem receiveCallback_spec (h : Holds c.rx rx)
    (chain : List (Block UInt8)) : ∃ taken, Holds (c.receiveCallback chain).2.rx (rx ++ taken) ∧
      (c.receiveCallback chain).2.tx = c.tx ∧
      (c.receiveCallback chain).1.toNat = taken.length ∧ taken.Sublist (payload chain) ∧
      ((payload chain).length + rx.length ≤ c.rx.size.toNat → taken = payload chain) := by
  obtain ⟨taken, h1, h2, h3, h4, h5⟩ := h.storeChain chain 0
  refine ⟨taken, h1, rfl, ?_, h4, h5⟩
  -- the ring holds at most 2^15 bytes, so `total_bytes` does not wrap
  have hle : taken.length < 2 ^ 16 := by
    have h6 := h1.length_le
    have h7 := h1.size_le
    rw [length_append] at h6
    omega
  change (storeChain chain (c.rx, 0)).2.toNat = _
  rw [h2, zero_add]
  exact toNat_ofNat_of_lt' hle

theorem send_spec (h : Holds c.tx tx) (data : Block UInt8)
    (sndbuf : UInt16) (writeOk : Bool) : ∃ tx', Holds (c.send data sndbuf writeOk).2.2.2.tx tx' ∧
      (c.send data sndbuf writeOk).2.2.2.rx = c.rx ∧
      ((c.send data sndbuf writeOk).2.2.1 ++ tx').Sublist
        (tx ++ data.val.take (c.send data sndbuf writeOk).2.1.toNat) ∧
      (writeOk = true → (c.send data sndbuf writeOk).2.2.1 ++ tx' =
        tx ++ data.val.take (c.send data sndbuf writeOk).2.1.toNat) := by
  unfold Context.send
  split
  · exact ⟨tx, h, rfl, by simp, fun _ => by simp⟩
  split
  · exact ⟨tx, h, rfl, by simp, fun _ => by simp⟩
  dsimp only
  obtain ⟨hact, hholds, -⟩ := h.write data
  rw [hact]
  exact pollSend_spec hholds
    sndbuf writeOk

theorem read_spec (h : Holds c.rx rx) (len : UInt16) :
    ∃ rx', Holds (c.read len).2.2.rx rx' ∧ (c.read len).2.2.tx = c.tx ∧
      (c.read len).2.1 ++ rx' = rx := by
  unfold Context.read
  split
  · exact ⟨rx, h, rfl, rfl⟩
  obtain ⟨hread, hholds, -⟩ := h.read len
  refine ⟨_, hholds, rfl, ?_⟩
  dsimp only
  rw [hread]
  exact take_append_drop ..

end

/-! ## Whole runs -/

theorem initAndConnect_spec {rxBuffer txBuffer : Nat → UInt8} {rxSize txSize : UInt16} {s : Run}
    (h : initAndConnect rxBuffer txBuffer rxSize txSize = some s) :
    Holds s.ctx.tx [] ∧ Holds s.ctx.rx [] ∧ s.accepted = [] ∧ s.written = [] ∧
      s.received = [] ∧ s.read = [] ∧ s.credit = 0 := by
  obtain ⟨rx, hrx, h⟩ := bind_eq_some_iff.mp h
  obtain ⟨tx, htx, rfl⟩ := map_eq_some_iff.mp h
  exact ⟨(Holds.init htx).1, (Holds.init hrx).1, rfl, rfl, rfl, rfl, rfl⟩

/-- How what is handed on may relate to what came in. -/
structure Loss (R : List UInt8 → List UInt8 → Prop) : Prop where
  refl : ∀ a, R a a
  trans : ∀ a b c, R a b → R b c → R a c
  append : ∀ a b c d, R a b → R c d → R (a ++ c) (b ++ d)

/-- The rings hold what was accepted or received and not yet handed on, up to loss; the
credit covers what was stored. -/
def Carried (R : List UInt8 → List UInt8 → Prop) (s : Run) : Prop :=
  ∃ tx rx, Holds s.ctx.tx tx ∧ Holds s.ctx.rx rx ∧ R (s.written ++ tx) s.accepted ∧
    R (s.read ++ rx) s.received ∧ s.credit = (s.read ++ rx).length

section Carried

variable {R : List UInt8 → List UInt8 → Prop} {s s' : Run}

/-- Bytes `acc` are accepted, `wrote` are handed over and the TX ring then holds `tx'`. -/
theorem Loss.handOn (hR : Loss R) {acc wrote tx tx' written accepted : List UInt8}
    (h : R (written ++ tx) accepted) (hstep : R (wrote ++ tx') (tx ++ acc)) :
    R ((written ++ wrote) ++ tx') (accepted ++ acc) := by
  have h1 := hR.append _ _ _ _ (hR.refl written) hstep
  have h2 := hR.append _ _ _ _ h (hR.refl acc)
  rw [← append_assoc, ← append_assoc] at h1
  exact hR.trans _ _ _ h1 h2

theorem Carried.pollSend (hR : Loss R) {c : Context} (h : Carried R s) (htx : c.tx = s.ctx.tx)
    (hrx : c.rx = s.ctx.rx) {sndbuf : UInt16} {writeOk : Bool}
    (hl : writeOk = true ∨ ∀ a b : List UInt8, a.Sublist b → R a b) : Carried R { s with
      ctx := (c.pollSend sndbuf writeOk).2.2
      written := s.written ++ (c.pollSend sndbuf writeOk).2.1 } := by
  obtain ⟨tx, rx, h1, h2, h3, h4, h5⟩ := h
  obtain ⟨tx', k1, k2, k3, k4⟩ := pollSend_spec (htx ▸ h1 : Holds c.tx tx) sndbuf writeOk
  refine ⟨tx', rx, k1, ?_, ?_, h4, h5⟩
  · change Holds (c.pollSend sndbuf writeOk).2.2.rx rx
    rw [k2, hrx]
    exact h2
  · have hstep : R ((c.pollSend sndbuf writeOk).2.1 ++ tx') (tx ++ []) := by
      rw [append_nil]
      rcases hl with hok | hsub
      · rw [k4 hok]
        exact hR.refl tx
      · exact hsub _ _ k3
    have := hR.handOn h3 hstep
    rwa [append_nil] at this

theorem Carried.step (hR : Loss R) (h : Carried R s) {e : Event}
    (hl : Lossless s e ∨ ∀ a b : List UInt8, a.Sublist b → R a b) (hn : next s e = some s') :
    Carried R s' := by
  cases e with
  | connected sndbuf writeOk =>
    obtain ⟨-, ⟨⟩⟩ := ite_none_left_eq_some.mp hn
    exact h.pollSend hR (c := { s.ctx with isConnected := true }) rfl rfl hl
  | send data sndbuf writeOk =>
    cases hn
    obtain ⟨tx, rx, h1, h2, h3, h4, h5⟩ := h
    obtain ⟨tx', k1, k2, k3, k4⟩ := send_spec h1 data sndbuf writeOk
    refine ⟨tx', rx, k1, ?_, hR.handOn h3 ?_, h4, h5⟩
    · change Holds (s.ctx.send data sndbuf writeOk).2.2.2.rx rx
      rw [k2]
      exact h2
    · rcases hl with hok | hsub
      · rw [k4 hok]
        exact hR.refl _
      · exact hsub _ _ k3
  | pollSend sndbuf writeOk =>
    cases hn
    exact h.pollSend hR rfl rfl hl
  | read len =>
    cases hn
    obtain ⟨tx, rx, h1, h2, h3, h4, h5⟩ := h
    obtain ⟨rx', k1, k2, rfl⟩ := read_spec h2 len
    refine ⟨tx, rx', ?_, k1, h3, ?_, ?_⟩
    · change Holds (s.ctx.read len).2.2.tx tx
      rw [k2]
      exact h1
    · rw [append_assoc]
      exact h4
    · rw [append_assoc]
      exact h5
  | receive chain =>
    obtain ⟨-, ⟨⟩⟩ := ite_none_left_eq_some.mp hn
    obtain ⟨tx, rx, h1, h2, h3, h4, h5⟩ := h
    obtain ⟨taken, k1, k2, k3, k4, k5⟩ := receiveCallback_spec h2 chain
    refine ⟨tx, rx ++ taken, ?_, k1, h3, ?_, ?_⟩
    · change Holds (s.ctx.receiveCallback chain).2.tx tx
      rw [k2]
      exact h1
    · rw [← append_assoc]
      refine hR.append _ _ _ _ h4 ?_
      rcases hl with hfit | hsub
      · rw [k5 (by rw [← h2.count_toNat]; exact hfit)]
        exact hR.refl _
      · exact hsub _ _ k4
    · change s.credit + (s.ctx.receiveCallback chain).1.toNat = (s.read ++ (rx ++ taken)).length
      rw [k3, h5, ← append_assoc, @List.length_append _ (s.read ++ rx)]
  | closed =>
    cases hn
    exact h

end Carried

variable (rxBuffer txBuffer : Nat → UInt8) (rxSize txSize : UInt16)

theorem Carried.init {R : List UInt8 → List UInt8 → Prop} (hR : Loss R) {s : Run}
    (h : initAndConnect rxBuffer txBuffer rxSize txSize = some s) : Carried R s := by
  obtain ⟨htx, hrx, h1, h2, h3, h4, h5⟩ := initAndConnect_spec h
  refine ⟨[], [], htx, hrx, ?_, ?_, ?_⟩
  · rw [h1, h2]
    exact hR.refl []
  · rw [h3, h4]
    exact hR.refl []
  · rw [h4, h5]
    rfl

theorem client_reliable {s : Run}
    (h : ((client rxBuffer txBuffer rxSize txSize).restrict Lossless).Reachable s) : Reliable s := by
  have hR : Loss (Eq) :=
    ⟨fun _ => rfl, fun _ _ _ => Eq.trans, fun _ _ _ _ h1 h2 => by rw [h1, h2]⟩
  have hinv : ((client rxBuffer txBuffer rxSize txSize).restrict Lossless).IsInvariant
      (Carried Eq) :=
    ⟨fun _ h0 => Carried.init _ _ _ _ hR h0, fun _ _ _ hs hn => hs.step hR (.inl hn.1) hn.2⟩
  obtain ⟨tx, rx, -, -, hsent, hgot, hcredit⟩ := hinv.holds h
  exact ⟨⟨tx, hsent⟩, ⟨rx, hgot⟩, fun _ => by rw [hcredit, hgot]⟩

/-- Rings of eight bytes: three bytes are sent in two polls, a chain of two pbufs is read. -/
theorem client_reliable_exchange :
    ∃ s, ((client (fun _ => 0) (fun _ => 0) 8 8).restrict Lossless).Reachable s ∧
      (s.written = [1, 2, 3] ∧ s.read = [7, 8, 9] ∧ s.credit = 3) ∧ Reliable s := by
  obtain ⟨s, hs, hp⟩ := LTS.Reachable.of_create
    (initAndConnect (fun _ => 0) (fun _ => 0) 8 8) next Lossless
    [.connected 4 true, .send ⟨[1, 2, 3], by decide⟩ 2 true, .pollSend 9 true,
      .receive [⟨[7], by decide⟩, ⟨[], by decide⟩, ⟨[8, 9], by decide⟩], .read 2, .read 5]
    (fun s => s.written = [1, 2, 3] ∧ s.read = [7, 8, 9] ∧ s.credit = 3) (by decide +kernel)
  exact ⟨s, hs, hp, client_reliable _ _ _ _ hs⟩

/-- The first byte is taken out of the ring and `tcp_write` is out of memory; the second
then goes out without it. -/
theorem reachable_first_lost : ∃ s, (client (fun _ => 0) (fun _ => 0) 8 8).Reachable s ∧
    s.accepted = [1, 2] ∧ s.written = [2] := by
  obtain ⟨s, hs, hp⟩ := LTS.Reachable.of_create
    (initAndConnect (fun _ => 0) (fun _ => 0) 8 8) next (fun _ _ => True)
    [.connected 4 true, .send ⟨[1], by decide⟩ 4 false, .send ⟨[2], by decide⟩ 4 true]
    (fun s => s.accepted = [1, 2] ∧ s.written = [2]) (by decide +kernel)
  exact ⟨s, hs.of_restrict, hp⟩

theorem client_loses_first_byte :
    ¬ ∀ (rxBuffer txBuffer : Nat → UInt8) (rxSize txSize : UInt16) (s : Run),
      (client rxBuffer txBuffer rxSize txSize).Reachable s → Reliable s := by
  intro h
  obtain ⟨s, hs, ha, hw⟩ := reachable_first_lost
  have := (h _ _ _ _ s hs).sent
  rw [hw, ha] at this
  exact absurd this (by decide)

/-- Nothing is invented, repeated or reordered, and no more is credited than was received. -/
theorem client_only_loses {s : Run} (h : (client rxBuffer txBuffer rxSize txSize).Reachable s) :
    s.written.Sublist s.accepted ∧ s.read.Sublist s.received ∧ s.credit ≤ s.received.length := by
  have hR : Loss Sublist := ⟨.refl, fun _ _ _ => .trans, fun _ _ _ _ => .append⟩
  have hinv : (client rxBuffer txBuffer rxSize txSize).IsInvariant (Carried Sublist) :=
    ⟨fun _ h0 => .init _ _ _ _ hR h0, fun _ _ _ hs hn => hs.step hR (.inr fun _ _ => id) hn⟩
  obtain ⟨tx, rx, -, -, hsent, hgot, hcredit⟩ := hinv.holds h
  exact ⟨(sublist_append_left ..).trans hsent, (sublist_append_left ..).trans hgot,
    hcredit ▸ hgot.length_le⟩

theorem client_only_loses_first : ∃ s, (client (fun _ => 0) (fun _ => 0) 8 8).Reachable s ∧
    (s.accepted = [1, 2] ∧ s.written = [2]) ∧ s.written.Sublist s.accepted ∧
      s.read.Sublist s.received ∧ s.credit ≤ s.received.length := by
  obtain ⟨s, hs, hp⟩ := reachable_first_lost
  exact ⟨s, hs, hp, client_only_loses _ _ _ _ hs⟩

end MiniTree.Net.TcpClient
