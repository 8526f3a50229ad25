import Mathlib.Data.List.Flatten
import MiniTree.Algorithm.FifoRefines
import MiniTree.Bare.Queue

/-!
# Accepted messages survive interrupts

`Delivered b`: what was received, followed by what is queued, is an interleaving of the
messages accepted from each producer, each producer's in its send order.

An interrupt's send that falls between the load and the store of `w_ptr` in
`fifo_write_block` is overwritten (`delivered_fails_in_write_window`).

**Results.** `Sound.step`: one statement, one interrupt outside that window, keep the
invariant. `delivered_of_reachable`: in every run without such an interrupt every reached
state delivers.
-/

namespace MiniTree.Bare

open MiniTree.Core Algorithm Function List Nat UInt16 Option Prod

variable {β : Type*}

section
variable (b : QueueSys β) (p : Producer)

/-- The messages in the ring, oldest first: what the next receives return. -/
def QueueSys.queued : List (List β) :=
  let epi := b.elementsPerItem.toNat
  (List.range (b.fifo.count.toNat / epi)).map fun i =>
    window b.fifo.buf b.fifo.capacity (b.fifo.rPtr.toNat + i * epi) epi

/-- The message of a send that has stored `w_ptr` and not returned yet. -/
def QueueSys.published : List (List β) :=
  match b.pc with
  | .sReturn written => if written = b.elementsPerItem ∧ b.sender = p then [b.item] else []
  | _ => []

def ofProducer (log : List (Producer × List β)) : List (List β) :=
  (log.filter (·.1 = p)).map snd

def Delivered : Prop :=
  ∃ log : List (Producer × List β), log.map snd = b.received ++ b.queued ∧
    ∀ p, ofProducer p log = b.accepted p ++ b.published p

/-- The task-level send is between its load and its store of `w_ptr`. -/
def QueueSys.InWriteWindow : Prop :=
  match b.pc with
  | .sRoom .. | .sCopy .. | .sCopyRest .. | .sStore .. => True
  | _ => False

end

instance (b : QueueSys β) : Decidable b.InWriteWindow := by
  unfold QueueSys.InWriteWindow
  split <;> infer_instance

/-- No interrupt sends in the write window. -/
def IsrClear (b : QueueSys β) : Label β → Prop
  | .sendFromIsr .. | .postFromIsr .. => ¬ b.InWriteWindow
  | _ => True

instance (b : QueueSys β) (l : Label β) : Decidable (IsrClear b l) := by
  unfold IsrClear
  split <;> infer_instance

/-! ## What the ring holds -/

structure Holds (h : Spsc β) (epi : Nat) (msgs : List (List β)) : Prop where
  item : h.itemSize = 1
  pos : 0 < epi
  dvd : epi ∣ h.size.toNat
  len : ∀ m ∈ msgs, m.length = epi
  rep : Rep h msgs.flatten (msgs.length * epi)

section Holds

variable {h : Spsc β} {epi : Nat} {msgs : List (List β)}

theorem Holds.itemSize (r : Holds h epi msgs) : h.itemSize.toNat = 1 := by
  rw [r.item]
  rfl

theorem flatten_length (hlen : ∀ m ∈ msgs, m.length = epi) :
    msgs.flatten.length = msgs.length * epi := by
  rw [length_flatten, map_congr_left hlen]
  simp

variable {item m : List β}

theorem forall_length_append (hlen : ∀ m ∈ msgs, m.length = epi)
    (hitem : item.length = epi) : ∀ m ∈ msgs ++ [item], m.length = epi :=
  forall_mem_append.mpr ⟨hlen, forall_mem_singleton.mpr hitem⟩

/-- Messages of one length are found by their offset. -/
theorem flatten_drop_take (hlen : ∀ m ∈ msgs, m.length = epi) {i : Nat} (hi : i < msgs.length) :
    (msgs.flatten.drop (i * epi)).take epi = msgs[i] := by
  induction msgs generalizing i with
  | nil => simp at hi
  | cons m msgs ih =>
    have hm := hlen m (mem_cons_self ..)
    cases i with
    | zero => simp [hm]
    | succ i =>
      rw [flatten_cons, succ_mul, add_comm, ← drop_drop, drop_left' hm,
        ih (fun m' hm' => hlen m' (mem_cons_of_mem _ hm')) (by simpa using hi),
        getElem_cons_succ]

section
variable (r : Holds h epi msgs) (k : Nat) (data : List β)
include r

/-- A ring that is not full has room for a message: its size is a multiple of theirs. -/
theorem Holds.room (hne : msgs.length * epi ≠ h.size.toNat) :
    msgs.length * epi + epi ≤ h.size.toNat := by
  obtain ⟨k, hk⟩ := r.dvd
  have hle := r.rep.le
  rw [hk, mul_comm epi] at hle hne ⊢
  have hlt : msgs.length < k := by
    refine Nat.lt_of_le_of_ne (Nat.le_of_mul_le_mul_right hle r.pos) fun he => hne ?_
    rw [he]
  rw [← succ_mul]
  exact Nat.mul_le_mul_right _ hlt

theorem Holds.publish (hitem : item.length = epi) (hroom : msgs.length * epi + epi ≤ h.size.toNat)
    (hw : window h.buf h.capacity (h.wPtr.toNat * h.itemSize.toNat) item.length = item) :
    Holds { h with wPtr := h.wPtr + .ofNat epi } epi (msgs ++ [item]) where
  item := r.item
  pos := r.pos
  dvd := r.dvd
  len := forall_length_append r.len hitem
  rep := by
    have := r.rep.publish hroom (by rw [r.itemSize, Nat.mul_one, hitem]) hw
    rwa [flatten_append, flatten_singleton, length_append, Nat.add_mul,
      length_singleton, Nat.one_mul]

theorem Holds.keep {buf : Nat → β}
    (hbuf : window buf h.capacity (h.rPtr.toNat * h.itemSize.toNat) msgs.flatten.length =
      window h.buf h.capacity (h.rPtr.toNat * h.itemSize.toNat) msgs.flatten.length) :
    Holds { h with buf := buf } epi msgs :=
  { r with rep := r.rep.keep hbuf }

/-- A write behind the queue, `k` cells past the write index. -/
theorem Holds.writeBehind (hk : msgs.length * epi + k + data.length ≤ h.size.toNat) : Holds { h with
        buf := ringWrite h.buf h.capacity ((h.wPtr.toNat + k) % h.capacity) data } epi msgs ∧
      window (ringWrite h.buf h.capacity ((h.wPtr.toNat + k) % h.capacity) data) h.capacity
        h.wPtr.toNat (k + data.length) = window h.buf h.capacity h.wPtr.toNat k ++ data := by
  have hcap : h.capacity = h.size.toNat := by rw [Spsc.capacity, r.itemSize, Nat.mul_one]
  have hlen := flatten_length r.len
  refine ⟨r.keep ?_, window_ringWrite r.rep.capacity_pos (by omega)⟩
  have hidx : (h.wPtr.toNat + k) % h.capacity =
      (h.rPtr.toNat * h.itemSize.toNat + (msgs.flatten.length + k)) % h.capacity := by
    have hoff := r.rep.offset_wPtr
    rw [r.rep.offset, r.itemSize, Nat.mul_one, Nat.mul_one] at hoff
    rw [← mod_add_mod, hoff, mod_add_mod, r.itemSize, Nat.mul_one, Nat.add_assoc]
  have hbefore := @window_ringWrite_before _ h.buf h.capacity (h.rPtr.toNat * h.itemSize.toNat)
    (msgs.flatten.length + k) data r.rep.capacity_pos (by omega)
  rw [hidx, ← window_take _ _ _ (Nat.le_add_right msgs.flatten.length k), hbefore,
    window_take _ _ _ (Nat.le_add_right ..)]

/-- A copy that ends before the physical end is a write behind the queue. -/
theorem Holds.copyTo_eq {data : List β}
    (hfits : data.length ≤ h.spaceToEnd h.wPtr) : copyTo h.buf (h.offset h.wPtr) data =
      ringWrite h.buf h.capacity ((h.wPtr.toNat + 0) % h.capacity) data := by
  have hoff : h.offset h.wPtr = (h.wPtr.toNat + 0) % h.capacity := by
    rw [r.rep.offset, r.itemSize, Nat.mul_one, Nat.add_zero]
  rw [← hoff, ringWrite, if_pos (show _ ≤ h.capacity - h.offset h.wPtr from hfits)]

end

theorem Holds.pop (r : Holds h epi (m :: msgs)) :
    Holds { h with rPtr := h.rPtr + .ofNat epi } epi msgs where
  item := r.item
  pos := r.pos
  dvd := r.dvd
  len := fun m' hm' => r.len m' (mem_cons_of_mem _ hm')
  rep := by
    have hm := r.len m (mem_cons_self ..)
    have hle : epi ≤ (m :: msgs).length * epi := Nat.le_mul_of_pos_left _ (zero_lt_succ _)
    have := r.rep.pop hle
    rwa [r.itemSize, Nat.mul_one, flatten_cons, drop_left' hm, length_cons,
      succ_mul, Nat.add_sub_cancel] at this

theorem Holds.front (r : Holds h epi (m :: msgs)) : h.copyOut h.rPtr (.ofNat epi) = m := by
  have hm := r.len m (mem_cons_self ..)
  have hle : epi ≤ (m :: msgs).length * epi := Nat.le_mul_of_pos_left _ (zero_lt_succ _)
  have hlt : epi < 2 ^ 16 := lt_of_le_of_lt (hle.trans r.rep.le) h.size.toNat_lt
  rw [h.copyOut_eq, toNat_ofNat_of_lt' hlt, r.rep.front hle, r.itemSize, Nat.mul_one,
    flatten_cons, take_left' hm]

theorem Holds.put (r : Holds h epi msgs) (hitem : item.length = epi)
    (hroom : msgs.length * epi + epi ≤ h.size.toNat) : Holds (h.put item epi) epi (msgs ++ [item]) where
  item := r.item
  pos := r.pos
  dvd := r.dvd
  len := forall_length_append r.len hitem
  rep := by
    have hcells : item.length = epi * h.itemSize.toNat := by rw [r.itemSize, Nat.mul_one, hitem]
    have := r.rep.push hroom hcells
    rwa [flatten_append, flatten_singleton, length_append, add_mul, length_singleton, Nat.one_mul]

/-- A whole send: refused when the ring is full, else the message is appended. -/
theorem Holds.sendInternal_eq (r : Holds h epi msgs) {w : UInt16} (hw : w.toNat = epi)
    (hitem : item.length = epi) : sendInternal h w item =
      if msgs.length * epi = h.size.toNat then (false, h) else (true, h.put item epi) := by
  have hlen : item.length = w.toNat * h.itemSize.toNat := by rw [r.itemSize, Nat.mul_one, hw, hitem]
  have hwpos : w ≠ 0 := by
    rintro rfl
    exact r.pos.ne' hw.symm
  have hpos := r.pos
  unfold sendInternal
  simp only [lt_iff_toNat_lt, r.rep.free_toNat, hw, r.rep.writeBlock_eq hlen]
  by_cases hfull : msgs.length * epi = h.size.toNat
  · rw [if_pos (by omega), if_pos hfull]
  have hroom := r.room hfull
  have hmin : min epi (h.size.toNat - msgs.length * epi) = epi := by omega
  have hcast : UInt16.ofNat epi = w := by rw [← hw, UInt16.ofNat_toNat]
  have htake : item.take (epi * h.itemSize.toNat) = item := by
    rw [r.itemSize, Nat.mul_one, ← hitem, take_length]
  rw [if_neg (by omega), if_neg hfull]
  simp only [hwpos, hfull, if_false, hmin, hcast, htake, and_self, decide_true]

end Holds

theorem Holds.queued_eq {b : QueueSys β} {msgs : List (List β)}
    (r : Holds b.fifo b.elementsPerItem.toNat msgs) : b.queued = msgs := by
  have hmem := r.rep.mem
  have hlen := flatten_length r.len
  rw [hlen, r.itemSize, Nat.mul_one] at hmem
  unfold QueueSys.queued
  simp only [r.rep.count_toNat, Nat.mul_div_cancel _ r.pos]
  apply ext_getElem (by simp)
  intro i hi hi'
  have hend : (i + 1) * b.elementsPerItem.toNat ≤ msgs.length * b.elementsPerItem.toNat :=
    Nat.mul_le_mul_right _ hi'
  rw [succ_mul] at hend
  rw [← flatten_drop_take r.len hi', ← hmem, window_drop _ _ _ (by omega), window_take _ _ _ (by omega)]
  simp only [getElem_map, getElem_range]

/-! ## The invariant -/

open QueueSys (published)

/-- What a task-level call knows at each of its statements. -/
def PcFacts (b : QueueSys β) (msgs : List (List β)) : Prop :=
  let h := b.fifo
  let epi := b.elementsPerItem
  let room := msgs.length * epi.toNat + epi.toNat ≤ h.size.toNat
  match b.pc with
  | .sCountW | .sCountR _ | .sCheck _ | .sLoadR => b.item.length = epi.toNat
  | .sLoadW r => b.item.length = epi.toNat ∧ r = h.rPtr
  | .sRoom r w => b.item.length = epi.toNat ∧ r = h.rPtr ∧ w = h.wPtr
  | .sCopy w len => b.item.length = epi.toNat ∧ w = h.wPtr ∧ len = epi ∧ room
  | .sCopyRest w len => b.item.length = epi.toNat ∧ w = h.wPtr ∧ len = epi ∧ room ∧
      h.spaceToEnd w < epi.toNat ∧
        window h.buf h.capacity w.toNat (h.spaceToEnd w) = b.item.take (h.spaceToEnd w)
  | .sStore w len => b.item.length = epi.toNat ∧ w = h.wPtr ∧ len = epi ∧ room ∧
      window h.buf h.capacity w.toNat epi.toNat = b.item
  | .rLoadR w => ∃ j ≤ msgs.length, w = h.rPtr + .ofNat (j * epi.toNat)
  | .rRoom w r => r = h.rPtr ∧ ∃ j ≤ msgs.length, w = h.rPtr + .ofNat (j * epi.toNat)
  | .rCopy r len => r = h.rPtr ∧ len = epi ∧ msgs ≠ []
  | .rStore r len item => r = h.rPtr ∧ len = epi ∧ msgs.head? = some item
  | _ => True

/-- The queue holds `msgs`, and `log` is the order in which all messages entered it. -/
structure Sound (b : QueueSys β) (msgs : List (List β)) (log : List (Producer × List β)) : Prop where
  holds : Holds b.fifo b.elementsPerItem.toNat msgs
  flow : log.map snd = b.received ++ msgs
  order : ∀ p, ofProducer p log = b.accepted p ++ b.published p
  sender : ∃ n, b.sender = .task n
  facts : PcFacts b msgs

theorem ofProducer_append (p q : Producer) (item : List β) (log : List (Producer × List β)) :
    ofProducer p (log ++ [(q, item)]) = ofProducer p log ++ if q = p then [item] else [] := by
  unfold ofProducer
  rw [filter_append, map_append]
  by_cases hq : q = p <;> simp [hq]

section Steps

variable {b : QueueSys β} {msgs : List (List β)} {log : List (Producer × List β)}

theorem Sound.delivered (r : Sound b msgs log) : Delivered b :=
  ⟨log, by rw [r.flow, r.holds.queued_eq], r.order⟩

variable {item : List β} {b' : QueueSys β} {w len rp : UInt16}

section
variable (r : Sound b msgs log) (pc : Pc β)
include r

theorem Sound.sendFromIsr (hclear : ¬ b.InWriteWindow) (n : Nat)
    (hitem : item.length = b.elementsPerItem.toNat) (viaBus : Bool) :
    ∃ msgs' log', Sound (b.sendFromIsr n item viaBus) msgs' log' := by
  unfold QueueSys.sendFromIsr
  rw [r.holds.sendInternal_eq rfl hitem]
  by_cases hfull : msgs.length * b.elementsPerItem.toNat = b.fifo.size.toNat
  · refine ⟨msgs, log, ?_⟩
    simp only [hfull, if_true, Bool.false_eq_true, if_false, QueueSys.drop]
    split
    · exact { r with }
    · exact r
  have hput := r.holds.put hitem (r.holds.room hfull)
  refine ⟨msgs ++ [item], log ++ [(.isr n, item)], ?_⟩
  simp only [hfull, if_true, if_false, QueueSys.accept]
  exact {
    holds := hput
    flow := by simp only [map_append, map_singleton, r.flow, append_assoc]
    order := by
      intro p
      obtain ⟨m, hm⟩ := r.sender
      rw [ofProducer_append, r.order]
      by_cases hp : Producer.isr n = p
      · subst hp
        have hpub : b.published (.isr n) = [] := by
          unfold published
          split
          · rw [if_neg (by rw [hm]; simp)]
          · rfl
        rw [hpub, if_pos rfl, append_nil]
        change _ = update b.accepted _ _ _ ++ b.published (.isr n)
        rw [hpub, update_self, append_nil]
      · rw [if_neg hp, append_nil]
        change _ = update b.accepted _ _ p ++ b.published p
        rw [update_of_ne (Ne.symm hp)]
    sender := r.sender
    facts := by
      have hf := r.facts
      unfold PcFacts at hf ⊢
      unfold QueueSys.InWriteWindow at hclear
      -- the window is clear; a receive in progress sees the same front
      cases hpc : b.pc <;> simp only [hpc, not_true_eq_false] at hf hclear ⊢ <;> try exact hf
      case rLoadR w =>
        obtain ⟨j, hj, hw⟩ := hf
        exact ⟨j, by rw [length_append]; omega, hw⟩
      case rRoom w r =>
        obtain ⟨hr, j, hj, hw⟩ := hf
        exact ⟨hr, j, by rw [length_append]; omega, hw⟩
      case rCopy w len => exact ⟨hf.1, hf.2.1, by simp⟩
      case rStore w len m =>
        refine ⟨hf.1, hf.2.1, ?_⟩
        rw [List.head?_append, hf.2.2]
        rfl }

/-- A statement that moves the program counter only. -/
theorem Sound.goto (hpub : ∀ p, published { b with pc := pc } p = b.published p)
    (hfacts : PcFacts { b with pc := pc } msgs) : Sound { b with pc := pc } msgs log where
  holds := r.holds
  flow := r.flow
  order := fun p => (r.order p).trans (congrArg _ (hpub p).symm)
  sender := r.sender
  facts := hfacts

theorem Sound.begin {n : Nat} {viaBus : Bool}
    (hb : b.begin n item viaBus = some b') : Sound b' msgs log := by
  unfold QueueSys.begin at hb
  split at hb
  · rename_i hpc
    obtain ⟨hlen, rfl⟩ := ite_some_none_eq_some.mp hb
    exact {
      holds := r.holds
      flow := r.flow
      order := fun p => (r.order p).trans (by simp [published, hpc])
      sender := ⟨n, rfl⟩
      facts := hlen }
  · cases hb

/-- The send stores `w_ptr`: the message is in the queue. -/
theorem Sound.store (hpc : b.pc = .sStore w len) :
    Sound { b with fifo := { b.fifo with wPtr := w + len }, pc := .sReturn len }
      (msgs ++ [b.item]) (log ++ [(b.sender, b.item)]) := by
  have hf := r.facts
  simp only [PcFacts, hpc] at hf
  obtain ⟨hitem, rfl, rfl, hroom, hwin⟩ := hf
  have hcast : UInt16.ofNat b.elementsPerItem.toNat = b.elementsPerItem := UInt16.ofNat_toNat
  have hpublish := r.holds.publish hitem hroom (by rw [r.holds.itemSize, Nat.mul_one, hitem, hwin])
  rw [hcast] at hpublish
  exact {
    holds := hpublish
    flow := by simp only [map_append, map_singleton, r.flow, append_assoc]
    order := by
      intro p
      have hpub : b.published p = [] := by simp [published, hpc]
      rw [ofProducer_append, r.order, hpub, append_nil]
      simp [published]
    sender := r.sender
    facts := trivial }

theorem Sound.return {written : UInt16} (hpc : b.pc = .sReturn written) :
    Sound (if written = b.elementsPerItem then
        QueueSys.accept { b with pc := .idle } b.sender b.item
      else QueueSys.drop { b with pc := .idle } b.viaBus) msgs log := by
  have hpub : ∀ p, b.published p =
      if written = b.elementsPerItem ∧ b.sender = p then [b.item] else [] := by
    intro p
    simp only [published, hpc]
  split
  · rename_i hw
    exact {
      holds := r.holds
      flow := r.flow
      order := by
        intro p
        rw [r.order, hpub]
        simp only [QueueSys.accept, published, append_nil, hw, true_and]
        by_cases hp : b.sender = p
        · subst hp
          simp
        · rw [if_neg hp, append_nil, update_of_ne (Ne.symm hp)]
      sender := r.sender
      facts := trivial }
  · rename_i hw
    have hgoto : Sound { b with pc := .idle } msgs log :=
      r.goto .idle (fun p => by rw [hpub]; simp [published, hw]) trivial
    unfold QueueSys.drop
    split
    · exact { hgoto with }
    · exact hgoto

/-- The first copy of the send: the free cells behind the queue are written. -/
theorem Sound.copy (hpc : b.pc = .sCopy w len) (hb : b.advance = some b') : Sound b' msgs log := by
  have hf := r.facts
  simp only [PcFacts, hpc] at hf
  obtain ⟨hitem, rfl, rfl, hroom⟩ := hf
  have hpub : ∀ p, b.published p = [] := fun p => by simp [published, hpc]
  simp only [QueueSys.advance, hpc] at hb
  split at hb
  · rename_i hfits
    cases hb
    have htake : b.item.take b.elementsPerItem.toNat = b.item := by rw [← hitem, take_length]
    obtain ⟨hholds, hwin⟩ := r.holds.writeBehind 0 b.item (by omega)
    rw [htake, r.holds.copyTo_eq (hitem.trans_le hfits)]
    refine ⟨hholds, r.flow, fun p => (r.order p).trans (by rw [hpub]; rfl), r.sender,
      hitem, rfl, rfl, hroom, ?_⟩
    rw [zero_add, hitem] at hwin
    exact hwin
  rename_i hlong
  cases hb
  have hlen : (b.item.take (b.fifo.spaceToEnd b.fifo.wPtr)).length = b.fifo.spaceToEnd b.fifo.wPtr := by
    rw [length_take]
    omega
  obtain ⟨hholds, hwin⟩ :=
    r.holds.writeBehind 0 (b.item.take (b.fifo.spaceToEnd b.fifo.wPtr)) (by rw [hlen]; omega)
  rw [r.holds.copyTo_eq hlen.le]
  refine ⟨hholds, r.flow, fun p => (r.order p).trans (by rw [hpub]; rfl), r.sender,
    hitem, rfl, rfl, hroom, Nat.lt_of_not_le hlong, ?_⟩
  rw [zero_add, hlen] at hwin
  exact hwin

/-- The second copy of the send, at the beginning of the buffer. -/
theorem Sound.copyRest (hpc : b.pc = .sCopyRest w len)
    (hb : b.advance = some b') : Sound b' msgs log := by
  have hf := r.facts
  simp only [PcFacts, hpc] at hf
  obtain ⟨hitem, rfl, rfl, hroom, hlong, hfirst⟩ := hf
  have hcap : b.fifo.capacity = b.fifo.size.toNat := by
    rw [Spsc.capacity, r.holds.itemSize, Nat.mul_one]
  have hoff : b.fifo.offset b.fifo.wPtr = b.fifo.wPtr.toNat % b.fifo.capacity := by
    rw [r.holds.rep.offset, r.holds.itemSize, Nat.mul_one]
  have hzero : (b.fifo.wPtr.toNat + b.fifo.spaceToEnd b.fifo.wPtr) % b.fifo.capacity = 0 := by
    have hlt := r.holds.rep.offset_lt b.fifo.wPtr
    rw [← mod_add_mod, ← hoff, Spsc.spaceToEnd, add_sub_of_le hlt.le, mod_self]
  set n := b.fifo.spaceToEnd b.fifo.wPtr
  have hrest : (b.item.drop n).take (b.elementsPerItem.toNat - n) = b.item.drop n := by
    rw [← hitem, ← length_drop, take_length]
  have hlen : (b.item.drop n).length = b.elementsPerItem.toNat - n := by rw [length_drop, hitem]
  obtain ⟨hholds, hwin⟩ := r.holds.writeBehind n (b.item.drop n) (by rw [hlen]; omega)
  simp only [QueueSys.advance, hpc] at hb
  cases hb
  have hcopy : copyTo b.fifo.buf 0 (b.item.drop n) =
      ringWrite b.fifo.buf b.fifo.capacity ((b.fifo.wPtr.toNat + n) % b.fifo.capacity)
        (b.item.drop n) := by
    rw [hzero, ringWrite, if_pos (by rw [hlen]; omega)]
  have hpub : ∀ p, b.published p = [] := fun p => by simp [published, hpc]
  rw [hrest, hcopy]
  refine ⟨hholds, r.flow, fun p => (r.order p).trans (by rw [hpub]; rfl), r.sender,
    hitem, rfl, rfl, hroom, ?_⟩
  rw [hfirst, take_append_drop, hlen, add_sub_of_le hlong.le] at hwin
  exact hwin

/-- The send computes the free space: there is none, or room for a whole message. -/
theorem Sound.roomCheck (hpc : b.pc = .sRoom rp w)
    (hb : b.advance = some b') : Sound b' msgs log := by
  have hf := r.facts
  simp only [PcFacts, hpc] at hf
  obtain ⟨hitem, rfl, rfl⟩ := hf
  have hpos := r.holds.pos
  have hpub : ∀ p, b.published p = [] := fun p => by simp [published, hpc]
  have hfree := r.holds.rep.free_toNat
  rw [Spsc.count] at hfree
  simp only [QueueSys.advance, hpc] at hb
  cases hb
  by_cases hfull : msgs.length * b.elementsPerItem.toNat = b.fifo.size.toNat
  · have hzero : b.fifo.size - (b.fifo.wPtr - b.fifo.rPtr) = 0 := by
      rw [← UInt16.toNat_inj, hfree, hfull, Nat.sub_self]
      rfl
    rw [if_pos hzero]
    refine r.goto _ (fun p => ?_) trivial
    have hne : ¬ (0 : UInt16) = b.elementsPerItem := fun he => by
      rw [← he] at hpos
      exact absurd hpos (by decide)
    simp [published, hpc, hne]
  have hroom := r.holds.room hfull
  have hnz : ¬ b.fifo.size - (b.fifo.wPtr - b.fifo.rPtr) = 0 := fun he => by
    rw [← UInt16.toNat_inj, hfree] at he
    simp only [UInt16.toNat_zero] at he
    omega
  have hge : ¬ b.fifo.size - (b.fifo.wPtr - b.fifo.rPtr) < b.elementsPerItem := by
    rw [lt_iff_toNat_lt, hfree]
    omega
  rw [if_neg hnz, if_neg hge]
  exact r.goto _ (fun p => by rw [hpub]; rfl) ⟨hitem, rfl, rfl, hroom⟩

/-- The receive computes what is there: nothing, or a whole message. -/
theorem Sound.countCheck (hpc : b.pc = .rRoom w rp)
    (hb : b.advance = some b') : Sound b' msgs log := by
  have hf := r.facts
  simp only [PcFacts, hpc] at hf
  obtain ⟨rfl, j, hj, rfl⟩ := hf
  have hpos := r.holds.pos
  have hpub : ∀ p, b.published p = [] := fun p => by simp [published, hpc]
  have hlt : j * b.elementsPerItem.toNat < 2 ^ 16 :=
    lt_of_le_of_lt ((Nat.mul_le_mul_right _ hj).trans r.holds.rep.le) b.fifo.size.toNat_lt
  have hcount : b.fifo.rPtr + .ofNat (j * b.elementsPerItem.toNat) - b.fifo.rPtr =
      .ofNat (j * b.elementsPerItem.toNat) := by rw [UInt16.add_comm, UInt16.add_sub_cancel]
  simp only [QueueSys.advance, hpc, hcount] at hb
  cases hb
  cases j with
  | zero =>
    rw [Nat.zero_mul, if_pos (show UInt16.ofNat 0 = 0 from rfl)]
    exact r.goto _ (fun p => by rw [hpub]; rfl) trivial
  | succ j =>
    have hge : b.elementsPerItem.toNat ≤ (j + 1) * b.elementsPerItem.toNat := by
      rw [succ_mul]
      exact Nat.le_add_left ..
    have hnz : ¬ UInt16.ofNat ((j + 1) * b.elementsPerItem.toNat) = 0 := fun he => by
      rw [← UInt16.toNat_inj, toNat_ofNat_of_lt' hlt, UInt16.toNat_zero] at he
      omega
    have hnlt : ¬ UInt16.ofNat ((j + 1) * b.elementsPerItem.toNat) < b.elementsPerItem := by
      rw [lt_iff_toNat_lt, toNat_ofNat_of_lt' hlt]
      omega
    have hne : msgs ≠ [] := by
      rintro rfl
      simp at hj
    rw [if_neg hnz, if_neg hnlt]
    exact r.goto _ (fun p => by rw [hpub]; rfl) ⟨rfl, rfl, hne⟩

/-- The receive copies the oldest message out. -/
theorem Sound.copyOut (hpc : b.pc = .rCopy rp len) :
    Sound { b with pc := .rStore rp len (b.fifo.copyOut rp len) } msgs log := by
  have hf := r.facts
  simp only [PcFacts, hpc] at hf
  obtain ⟨rfl, rfl, hne⟩ := hf
  obtain ⟨m, rest, rfl⟩ := exists_cons_of_ne_nil hne
  have hfront := r.holds.front
  rw [UInt16.ofNat_toNat] at hfront
  rw [hfront]
  exact r.goto _ (fun p => by simp [published, hpc]) ⟨rfl, rfl, rfl⟩

/-- The receive stores `r_ptr`: the message has left the queue. -/
theorem Sound.take
    (hpc : b.pc = .rStore rp len item) (hb : b.advance = some b') : Sound b' msgs.tail log := by
  have hf := r.facts
  simp only [PcFacts, hpc] at hf
  obtain ⟨rfl, rfl, hhead⟩ := hf
  obtain ⟨rest, rfl⟩ : ∃ rest, msgs = item :: rest := List.head?_eq_some_iff.mp hhead
  have hpop := r.holds.pop
  rw [UInt16.ofNat_toNat] at hpop
  simp only [QueueSys.advance, hpc, if_true] at hb
  cases hb
  exact {
    holds := hpop
    flow := by
      rw [r.flow]
      simp
    order := fun p => (r.order p).trans (by simp [published, hpc])
    sender := r.sender
    facts := trivial }

theorem Sound.advance (hb : b.advance = some b') : ∃ msgs' log', Sound b' msgs' log' := by
  have hf := r.facts
  have hpos := r.holds.pos
  cases hpc : b.pc
  case idle => simp [QueueSys.advance, hpc] at hb
  case sRoom => exact ⟨_, _, r.roomCheck hpc hb⟩
  case sCopy => exact ⟨_, _, r.copy hpc hb⟩
  case sCopyRest => exact ⟨_, _, r.copyRest hpc hb⟩
  case rRoom => exact ⟨_, _, r.countCheck hpc hb⟩
  case rStore => exact ⟨_, _, r.take hpc hb⟩
  all_goals
    simp only [QueueSys.advance, hpc, PcFacts] at hb hf
    cases hb
  case sStore => exact ⟨_, _, r.store hpc⟩
  case sReturn => exact ⟨_, _, r.return hpc⟩
  case rCopy => exact ⟨_, _, r.copyOut hpc⟩
  all_goals refine ⟨msgs, log, r.goto _ (fun p => ?_) ?_⟩
  case sCheck.refl.refine_1 =>
    have hne : ¬ (0 : UInt16) = b.elementsPerItem := fun he => by
      rw [← he] at hpos
      exact absurd hpos (by decide)
    split <;> simp [published, hpc, hne]
  case sCheck.refl.refine_2 =>
    split
    · trivial
    · exact hf
  case rCheck.refl.refine_1 => split <;> simp [published, hpc]
  case rCheck.refl.refine_2 => split <;> trivial
  case rLoadW.refl.refine_2 => exact ⟨msgs.length, le_refl _, r.holds.rep.wPtr⟩
  case rLoadR.refl.refine_2 => exact ⟨rfl, hf⟩
  case sLoadR.refl.refine_2 | sLoadW.refl.refine_2 =>
    simp only [PcFacts]
    tauto
  all_goals first | exact hf | simp [published, hpc]

end

theorem Sound.step (r : Sound b msgs log) {l : Label β} (hl : IsrClear b l)
    (hb : step b l = some b') : ∃ msgs' log', Sound b' msgs' log' := by
  cases l with
  | send n item => exact ⟨_, _, r.begin hb⟩
  | post n id arg =>
    simp only [Bare.step, QueueSys.postInternal] at hb
    split at hb
    · split at hb
      · cases hb
        exact ⟨_, _, r⟩
      · exact ⟨_, _, r.begin hb⟩
    · cases hb
  | sendFromIsr n item =>
    obtain ⟨hlen, rfl⟩ := ite_some_none_eq_some.mp hb
    exact r.sendFromIsr hl n hlen false
  | postFromIsr n id arg =>
    simp only [Bare.step, QueueSys.postInternal] at hb
    split at hb
    · cases hb
      exact ⟨_, _, r⟩
    obtain ⟨hlen, rfl⟩ := ite_some_none_eq_some.mp hb
    exact r.sendFromIsr hl n hlen true
  | receive =>
    simp only [Bare.step] at hb
    split at hb
    · rename_i hpc
      cases hb
      exact ⟨_, _, r.goto _ (fun p => by simp [published, hpc]) trivial⟩
    · cases hb
  | advance => exact r.advance hb
  | busInit | osInit =>
    cases hb
    exact ⟨msgs, log, { r with }⟩

end Steps

theorem sound_create {buf : Nat → β} {elemCount queueLen elementsPerItem : Nat} {b : QueueSys β}
    (hb : miniQueueCreate buf elemCount queueLen elementsPerItem = some b) : Sound b [] [] := by
  unfold miniQueueCreate at hb
  split at hb
  · cases hb
  split at hb
  · cases hb
  split at hb
  · cases hb
  split at hb
  · cases hb
  rename_i hzero hlen hpow _
  obtain ⟨fifo, hfifo, rfl⟩ := map_eq_some_iff.mp hb
  simp only [not_or] at hzero
  have hrep := Rep.init hfifo
  have hsize : fifo.size = .ofNat (queueLen * elementsPerItem) ∧ fifo.itemSize = 1 := by
    obtain ⟨-, ⟨⟩⟩ := ite_none_left_eq_some.mp hfifo
    exact ⟨rfl, rfl⟩
  -- the total is a power of two whose low 16 bits are not all zero, so it fits
  have htotal : queueLen * elementsPerItem ≠ 0 := Nat.mul_ne_zero hzero.1 hzero.2
  obtain ⟨e, he⟩ := (and_sub_one_eq_zero_iff_isPowerOfTwo htotal).mp (not_not.mp hpow)
  have hfit : queueLen * elementsPerItem < 2 ^ 16 := by
    by_contra hge
    have hge16 : 16 ≤ e := by
      by_contra hlt
      exact hge (he ▸ Nat.pow_lt_pow_right (by decide) (by omega))
    have hmod : (UInt16.ofNat (queueLen * elementsPerItem)).toNat = 0 := by
      rw [toNat_ofNat', he]
      exact mod_eq_zero_of_dvd (Nat.pow_dvd_pow 2 hge16)
    have := hrep.size_pos
    rw [hsize.1, hmod] at this
    exact absurd this (lt_irrefl 0)
  have hepi : (UInt16.ofNat elementsPerItem).toNat = elementsPerItem :=
    toNat_ofNat_of_lt' (lt_of_le_of_lt (Nat.le_mul_of_pos_left _ (Nat.pos_of_ne_zero hzero.1)) hfit)
  exact {
    holds := {
      item := hsize.2
      pos := by
        rw [hepi]
        exact Nat.pos_of_ne_zero hzero.2
      dvd := by
        rw [hepi, hsize.1, toNat_ofNat_of_lt' hfit]
        exact Nat.dvd_mul_left ..
      len := by simp
      rep := by
        rw [length_nil, Nat.zero_mul]
        exact hrep }
    flow := rfl
    order := fun _ => rfl
    sender := ⟨0, rfl⟩
    facts := trivial }

/-- In every run in which no interrupt sends between a task-level send's load and store of
`w_ptr`, every accepted message is received once, each producer's in order. -/
theorem delivered_of_reachable {b : QueueSys β} (h : ((bare β).restrict IsrClear).Reachable b) :
    Delivered b := by
  have hinv : ((bare β).restrict IsrClear).IsInvariant fun b => ∃ msgs log, Sound b msgs log := {
    init := by
      rintro b ⟨buf, elemCount, queueLen, elementsPerItem, hb⟩
      exact ⟨[], [], sound_create hb⟩
    step := by
      rintro b l b' ⟨msgs, log, r⟩ ⟨hl, hb⟩
      exact r.step hl hb }
  obtain ⟨msgs, log, r⟩ := hinv.holds h
  exact r.delivered

/-! ## Runs -/

theorem bare_execOk (ok : QueueSys β → Label β → Prop) [∀ b l, Decidable (ok b l)]
    (buf : Nat → β) (elemCount queueLen elementsPerItem : Nat) (ls : List (Label β))
    (P : QueueSys β → Prop) [DecidablePred P]
    (h : ((miniQueueCreate buf elemCount queueLen elementsPerItem).bind fun b =>
      LTS.execOk (fun b l => decide (ok b l)) step b ls).any (P ·) = true) :
    ∃ b, ((bare β).restrict ok).Reachable b ∧ P b := by
  obtain ⟨b', hb', hp⟩ := (any_eq_true _ _).mp h
  obtain ⟨b, hb, hexec⟩ := bind_eq_some_iff.mp hb'
  exact LTS.Reachable.of_execOk _ _ ok b ls P ⟨_, _, _, _, hb⟩
    ((any_eq_true _ _).mpr ⟨b', hexec, hp⟩)

/-- An interrupt sends while a task-level send is before its load of `w_ptr`; a receive
takes the older message. -/
theorem delivered_of_reachable_interrupted :
    ∃ b : QueueSys Nat, ((bare Nat).restrict IsrClear).Reachable b ∧ b.received = [[20]] ∧
      b.queued = [[10]] ∧ Delivered b := by
  obtain ⟨b, hr, hrec, hq⟩ := bare_execOk IsrClear (fun _ => 0) 4 4 1
    ([.send 0 [10]] ++ .replicate 4 .advance ++ [.sendFromIsr 0 [20]] ++ .replicate 5 .advance ++
      [.receive] ++ .replicate 8 .advance)
    (fun b => b.received = [[20]] ∧ b.queued = [[10]]) (by decide +kernel)
  exact ⟨b, hr, hrec, hq, delivered_of_reachable hr⟩

/-- An interrupt's accepted message is overwritten when it falls between the load and the
store of `w_ptr`. -/
theorem delivered_fails_in_write_window : ∃ b : QueueSys Nat, (bare Nat).Reachable b ∧ ¬ Delivered b := by
  obtain ⟨b, hr, hp⟩ := bare_execOk (fun _ _ => True) (fun _ => 0) 4 4 1
    ([.send 0 [10]] ++ .replicate 5 .advance ++ [.sendFromIsr 0 [20]] ++ .replicate 4 .advance)
    (fun b => b.received == [] && b.queued == [[10]] && b.accepted (.task 0) == [[10]] &&
      b.accepted (.isr 0) == [[20]]) (by decide +kernel)
  simp only [Bool.and_eq_true, beq_iff_eq] at hp
  obtain ⟨⟨⟨hrec, hq⟩, htask⟩, hisr⟩ := hp
  refine ⟨b, hr.of_restrict, ?_⟩
  rintro ⟨log, hflow, horder⟩
  -- both messages were accepted, so both are in the log; only one was kept
  have hmem : ([20] : List Nat) ∈ log.map snd := by
    have hin : ([20] : List Nat) ∈ ofProducer (.isr 0) log := by
      rw [horder, hisr]
      simp
    obtain ⟨x, hx, hx2⟩ := mem_map.mp hin
    exact mem_map.mpr ⟨x, (mem_filter.mp hx).1, hx2⟩
  rw [hflow, hrec, hq] at hmem
  simp at hmem

end MiniTree.Bare
