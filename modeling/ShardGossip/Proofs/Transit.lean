import Mathlib.Data.List.TakeWhile
import ShardGossip.Proofs.Connection

/-!
# ShardGossip.Proofs.Transit

**Packets arrive in order, and one data frame at a time is on its way** (`in_order`).

For each direction of a connection (`Lane`) four numbers stand in a row: the frames that the sender
knows to be acknowledged, the packets that were received, the data frames that were written, and one
more than the first. A receipt that is on its way accounts for a step between the first two, a data
frame that is on its way for one between the second and the third, a write that is due for one
between the third and the fourth. So there is never more than one of these, and it is about the head
of the sender's queue. As long as both ends go on, the numbers are told exactly (`Tight`).

Hence what is left when nothing is on its way (`drained`): everything before the first packet whose
frame is over the sender's limit has arrived. That frame stays at the head of the queue for good,
and what is queued behind it is never written (`held_back`).
-/

namespace ShardGossip

open PeerSocket (receipt)

/-- The data frames among the payloads of a stream. -/
def dataOf (payloads : List Bytes) : List Bytes :=
  payloads.filter (· ≠ receipt)

@[simp] theorem dataOf_receipt (payloads : List Bytes) :
    dataOf (receipt :: payloads) = dataOf payloads := by
  simp [dataOf]

theorem dataOf_data {x : Bytes} (h : x ≠ receipt) (payloads : List Bytes) :
    dataOf (x :: payloads) = x :: dataOf payloads := by
  simp [dataOf, h]

theorem dataOf_append (l l' : List Bytes) : dataOf (l ++ l') = dataOf l ++ dataOf l' :=
  List.filter_append ..

/-! ### One direction -/

/-- What end `a` sends to end `b`: `out` are the payloads on their way there, `back` those on their
way from `b`, whose receipts are for `a`. -/
structure Lane (a b : Endpoint) (out back : List Bytes) : Prop where
  sendable : ∀ p ∈ a.sent, p.Sendable a.socket.limit ∧ p.Fits
  /-- What is not acknowledged is queued. -/
  queue : a.socket.outbox.queue = (a.sent.drop a.acknowledged).map Packet.wire
  received : b.received <+: a.sent
  receipts : a.acknowledged + back.count receipt ≤ b.received.length
  frames : b.received.length + (dataOf out).length ≤ a.written
  inFlight : a.written + a.socket.writes.length ≤ a.acknowledged + 1
  free : a.socket.outbox.inFlight = false → a.written + a.socket.writes.length ≤ a.acknowledged
  /-- Only the head of the queue is written. -/
  due : ∀ w ∈ a.socket.writes, a.socket.outbox.queue.head? = some w
  onWay : ∀ d ∈ dataOf out, a.socket.outbox.queue.head? = some d ∧ d.length ≤ a.socket.limit

/-- As long as both ends go on, nothing gets lost, and only a frame over the limit stays behind. -/
structure Tight (a b : Endpoint) (out back : List Bytes) : Prop where
  receipts : a.acknowledged + back.count receipt = b.received.length
  frames : b.received.length + (dataOf out).length = a.written
  busy : a.socket.outbox.inFlight → a.written + a.socket.writes.length = a.acknowledged + 1
  stuck : a.socket.outbox.inFlight = false →
    ∀ w, a.socket.outbox.queue.head? = some w → a.socket.limit < w.length
  fits : ∀ p ∈ b.received, a.writable p

variable {a b a' b' : Endpoint} {out back : List Bytes} {p : Packet} {w : Bytes}

/-- What an end has to do with its sending. -/
def Endpoint.sending (e : Endpoint) : List Packet × Outbox × List Bytes × Nat × Nat :=
  (e.sent, e.socket.outbox, e.socket.writes, e.socket.limit, e.written)

theorem Lane.congr (h : Lane a b out back) (ha : a'.sending = a.sending)
    (hb : b'.received = b.received) : Lane a' b' out back := by
  obtain ⟨⟨id, limit, outbox, writes, incoming, outgoing, inbox, reading, closed, finished, hungUp⟩,
    sent, handled, written⟩ := a'
  cases ha
  obtain ⟨h₁, h₂, h₃, h₄, h₅, h₆, h₇, h₈, h₉⟩ := h
  exact ⟨h₁, h₂, hb ▸ h₃, hb ▸ h₄, hb ▸ h₅, h₆, h₇, h₈, h₉⟩

theorem Tight.congr (h : Tight a b out back) (ha : a'.sending = a.sending)
    (hb : b'.received = b.received) : Tight a' b' out back := by
  obtain ⟨⟨id, limit, outbox, writes, incoming, outgoing, inbox, reading, closed, finished, hungUp⟩,
    sent, handled, written⟩ := a'
  cases ha
  obtain ⟨h₁, h₂, h₃, h₄, h₅⟩ := h
  exact ⟨hb ▸ h₁, hb ▸ h₂, h₃, h₄, hb ▸ h₅⟩

theorem Lane.drop_out (h : Lane a b (w :: out) back) : Lane a b out back := by
  have hs : (dataOf out).Sublist (dataOf (w :: out)) := (List.sublist_cons_self w out).filter _
  have hl := hs.length_le
  have hf := h.frames
  exact { h with frames := by omega, onWay := fun d hd => h.onWay d (hs.subset hd) }

theorem Lane.drop_back (h : Lane a b out (w :: back)) : Lane a b out back := by
  have hl := (List.sublist_cons_self w back).count_le receipt
  have hr := h.receipts
  exact { h with receipts := by omega }

/-- A receipt is no data frame. -/
theorem Tight.drop_receipt (h : Tight a b (receipt :: out) back) : Tight a b out back := by
  have hf := h.frames
  rw [dataOf_receipt] at hf
  exact { h with frames := hf }

theorem Lane.acknowledged_le (h : Lane a b out back) : a.acknowledged ≤ a.sent.length := by
  have hl := h.received.length_le
  have hr := h.receipts
  omega

theorem Lane.length_queue (h : Lane a b out back) :
    a.socket.outbox.queue.length = a.sent.length - a.acknowledged := by
  rw [h.queue, List.length_map, List.length_drop]

/-- The head of the queue is the first packet that is not acknowledged. -/
theorem Lane.head (h : Lane a b out back) (hw : a.socket.outbox.queue.head? = some w) :
    ∃ p, a.sent[a.acknowledged]? = some p ∧ w = p.wire ∧ p.Sendable a.socket.limit ∧ p.Fits := by
  rw [h.queue, List.head?_map, List.head?_drop] at hw
  obtain ⟨p, hp, rfl⟩ := Option.map_eq_some_iff.mp hw
  exact ⟨p, hp, rfl, h.sendable p (List.mem_of_getElem? hp)⟩

theorem Lane.ne_receipt (h : Lane a b out back) (hw : a.socket.outbox.queue.head? = some w) :
    w ≠ receipt := by
  obtain ⟨p, -, rfl, hs, -⟩ := h.head hw
  exact PeerSocket.wire_ne_receipt hs.data

/-! ### Sending -/

theorem head?_concat (l : List Bytes) (w : Bytes) : ∃ v, (l ++ [w]).head? = some v := by
  cases l with
  | nil => exact ⟨w, rfl⟩
  | cons v l => exact ⟨v, rfl⟩

theorem acknowledged_send (a : Endpoint) (p : Packet) :
    Endpoint.acknowledged { a with
      socket := a.socket.send p.wire, sent := a.sent ++ [p] } = a.acknowledged := by
  simp [Endpoint.acknowledged, PeerSocket.send, PeerSocket.withOutbox, Outbox.size]

theorem writes_send (s : PeerSocket) (w : Bytes) :
    (s.send w).writes = s.writes ++
      (if s.outbox.inFlight then none else (s.outbox.queue ++ [w]).head?).toList := rfl

/-- A packet goes to the back of the queue, and its head is due to be written if nothing is in
flight. -/
theorem Lane.push (h : Lane a b out back) (hs : p.Sendable a.socket.limit) (hf : p.Fits) :
    Lane { a with socket := a.socket.send p.wire, sent := a.sent ++ [p] } b out back := by
  have hack := acknowledged_send a p
  have hr := h.receipts
  have hd := h.frames
  have hi := h.inFlight
  have first {v : Bytes} (hv : a.socket.outbox.queue.head? = some v) :
      (a.socket.outbox.queue ++ [p.wire]).head? = some v := by
    rw [List.head?_append, hv, Option.some_or]
  have hw := writes_send a.socket p.wire
  refine
    { sendable := ?sendable
      queue := ?queue
      received := h.received.trans (List.prefix_append _ _)
      receipts := by rw [hack]; exact hr
      frames := hd
      inFlight := ?inFlight
      free := nofun
      due := ?due
      onWay := fun d hd => ⟨first (h.onWay d hd).1, (h.onWay d hd).2⟩ }
  case sendable =>
    intro q hq
    rcases List.mem_append.mp hq with hq | hq
    · exact h.sendable q hq
    · rw [List.mem_singleton.mp hq]
      exact ⟨hs, hf⟩
  case queue =>
    rw [hack]
    show a.socket.outbox.queue ++ [p.wire] = _
    rw [List.drop_append_of_le_length h.acknowledged_le, List.map_append, ← h.queue]
    rfl
  case inFlight =>
    rw [hack]
    show a.written + (a.socket.send p.wire).writes.length ≤ a.acknowledged + 1
    rw [hw, List.length_append]
    cases hb : a.socket.outbox.inFlight with
    | true => exact hi
    | false =>
        have hfree := h.free hb
        obtain ⟨v, hv⟩ := head?_concat a.socket.outbox.queue p.wire
        rw [hv]
        show _ + (_ + 1) ≤ _
        omega
  case due =>
    intro w hm
    rcases List.mem_append.mp (hw ▸ hm : w ∈ _ ++ _) with hm | hm
    · exact first (h.due w hm)
    · split at hm
      · cases hm
      · exact Option.mem_toList.mp hm

theorem Tight.push (h : Tight a b out back) (hl : Lane a b out back) :
    Tight { a with socket := a.socket.send p.wire, sent := a.sent ++ [p] } b out back := by
  have hack := acknowledged_send a p
  have hr := h.receipts
  have hd := h.frames
  refine
    { receipts := by rw [hack]; exact hr
      frames := hd
      busy := fun _ => ?busy
      stuck := nofun
      fits := h.fits }
  case busy =>
    rw [hack]
    show a.written + (a.socket.send p.wire).writes.length = a.acknowledged + 1
    rw [writes_send, List.length_append]
    cases hb : a.socket.outbox.inFlight with
    | true => exact h.busy hb
    | false =>
        have hfree := hl.free hb
        obtain ⟨v, hv⟩ := head?_concat a.socket.outbox.queue p.wire
        rw [hv]
        show _ + (_ + 1) = _
        omega

/-! ### Writing -/

section Writing

variable {rest : List Bytes}

/-- A write is only due when nothing is on its way. -/
theorem Lane.of_due (h : Lane a b out back) (hw : a.socket.writes = w :: rest) :
    rest = [] ∧ a.written = a.acknowledged ∧ b.received.length = a.acknowledged ∧
      dataOf out = [] ∧ back.count receipt = 0 ∧ a.socket.outbox.inFlight := by
  have hr := h.receipts
  have hd := h.frames
  have hi := h.inFlight
  rw [hw, List.length_cons] at hi
  refine ⟨List.length_eq_zero_iff.mp (by omega), by omega, by omega,
    List.length_eq_zero_iff.mp (by omega), by omega, ?_⟩
  rw [← Bool.not_eq_false]
  intro hf
  have hfree := h.free hf
  rw [hw, List.length_cons] at hfree
  omega

/-- A write that was dropped or has failed leaves its frame at the head of the queue. -/
theorem Lane.undone (h : Lane a b out back) (hw : a.socket.writes = w :: rest) {outbox : Outbox}
    (hq : outbox.queue = a.socket.outbox.queue) :
    Lane { a with socket := { a.socket with writes := rest, outbox := outbox } } b out back := by
  obtain ⟨rfl, hn, -⟩ := h.of_due hw
  have hack : Endpoint.acknowledged { a with
      socket := { a.socket with writes := [], outbox := outbox } } = a.acknowledged := by
    simp [Endpoint.acknowledged, Outbox.size, hq]
  exact
    { sendable := h.sendable
      queue := by rw [hack]; exact hq.trans h.queue
      received := h.received
      receipts := by rw [hack]; exact h.receipts
      frames := h.frames
      inFlight := by rw [hack]; exact Nat.le_succ_of_le (Nat.le_of_eq hn)
      free := fun _ => by rw [hack]; exact Nat.le_of_eq hn
      due := nofun
      onWay := fun d hd => ⟨(congrArg _ hq).trans (h.onWay d hd).1, (h.onWay d hd).2⟩ }

theorem Tight.fail (h : Tight a b out back) (hl : Lane a b out back)
    (hw : a.socket.writes = w :: rest) (hlong : a.socket.limit < w.length) :
    Tight { a with socket :=
      { a.socket with writes := rest, outbox := a.socket.outbox.writeFailed } } b out back := by
  have hhead : a.socket.outbox.queue.head? = some w := hl.due w (hw ▸ List.mem_cons_self ..)
  exact { h with
    busy := nofun
    stuck := fun _ v hv => by
      obtain rfl : w = v := Option.some.inj (hhead.symm.trans hv)
      exact hlong }

theorem Lane.wrote (h : Lane a b out back) (hw : a.socket.writes = w :: rest)
    (hshort : w.length ≤ a.socket.limit) (outgoing : Bytes) :
    Lane { a with
      socket := { a.socket with writes := rest, outgoing := outgoing }
      written := a.written + 1 } b (out ++ [w]) back := by
  have hhead : a.socket.outbox.queue.head? = some w := h.due w (hw ▸ List.mem_cons_self ..)
  obtain ⟨rfl, hn, hb, hd, -, hi⟩ := h.of_due hw
  have hone : dataOf (out ++ [w]) = [w] := by
    rw [dataOf_append, hd, dataOf_data (h.ne_receipt hhead)]
    rfl
  exact { h with
    frames := by
      rw [hone]
      exact Nat.le_of_eq (congrArg (· + 1) (hb.trans hn.symm))
    inFlight := Nat.le_of_eq (congrArg (· + 1) hn)
    free := fun hf => absurd hi (ne_true_of_eq_false hf)
    due := nofun
    onWay := by
      rw [hone]
      exact List.forall_mem_singleton.mpr ⟨hhead, hshort⟩ }

theorem Tight.wrote (h : Tight a b out back) (hl : Lane a b out back)
    (hw : a.socket.writes = w :: rest) (outgoing : Bytes) :
    Tight { a with
      socket := { a.socket with writes := rest, outgoing := outgoing }
      written := a.written + 1 } b (out ++ [w]) back := by
  have hhead : a.socket.outbox.queue.head? = some w := hl.due w (hw ▸ List.mem_cons_self ..)
  obtain ⟨rfl, hn, hb, hd, -, hi⟩ := hl.of_due hw
  have hone : dataOf (out ++ [w]) = [w] := by
    rw [dataOf_append, hd, dataOf_data (hl.ne_receipt hhead)]
    rfl
  exact { h with
    frames := by
      rw [hone]
      exact congrArg (· + 1) (hb.trans hn.symm)
    busy := fun _ => congrArg (· + 1) hn
    stuck := fun hf => absurd hi (ne_true_of_eq_false hf) }

end Writing

/-! ### Reading -/

/-- A receipt that arrives is for the head of the queue, the one frame that is in flight. -/
theorem Lane.of_receipt (h : Lane a b out (receipt :: back)) :
    a.written = a.acknowledged + 1 ∧ b.received.length = a.acknowledged + 1 ∧
      back.count receipt = 0 ∧ dataOf out = [] ∧ a.socket.writes = [] ∧
      a.socket.outbox.inFlight ∧
      Endpoint.acknowledged { a with socket := a.socket.acknowledged } = a.acknowledged + 1 := by
  have hr := h.receipts
  have hd := h.frames
  have hi := h.inFlight
  have hl := h.received.length_le
  have hq := h.length_queue
  rw [List.count_cons_self] at hr
  refine ⟨by omega, by omega, by omega, List.length_eq_zero_iff.mp (by omega),
    List.length_eq_zero_iff.mp (by omega), ?_, ?_⟩
  · rw [← Bool.not_eq_false]
    intro hf
    have hfree := h.free hf
    omega
  · have ha : a.acknowledged = a.sent.length - a.socket.outbox.queue.length := rfl
    show a.sent.length - a.socket.outbox.queue.tail.length = _
    rw [List.length_tail]
    omega

theorem writes_acknowledged (s : PeerSocket) :
    s.acknowledged.writes = s.writes ++ s.outbox.queue.tail.head?.toList := rfl

theorem Lane.pop (h : Lane a b out (receipt :: back)) :
    Lane { a with socket := a.socket.acknowledged } b out back := by
  obtain ⟨hn, hb, hc, hd, hw, hi, hack⟩ := h.of_receipt
  have hw' : a.socket.acknowledged.writes = a.socket.outbox.queue.tail.head?.toList := by
    rw [writes_acknowledged, hw, List.nil_append]
  refine
    { sendable := h.sendable
      queue := ?queue
      received := h.received
      receipts := by rw [hack, hc]; exact Nat.le_of_eq hb.symm
      frames := h.frames
      inFlight := ?inFlight
      free := ?free
      due := ?due
      onWay := fun d hm => by rw [hd] at hm; cases hm }
  case queue =>
    rw [hack]
    show a.socket.outbox.queue.tail = _
    rw [h.queue, ← List.map_tail, List.tail_drop]
  case inFlight =>
    rw [hack]
    show a.written + a.socket.acknowledged.writes.length ≤ _
    rw [hw']
    cases a.socket.outbox.queue.tail.head? with
    | none => show a.written + 0 ≤ _; omega
    | some v => show a.written + 1 ≤ _; omega
  case free =>
    intro hf
    rw [hack]
    have hf' : (a.socket.outbox.inFlight && !a.socket.outbox.queue.tail.isEmpty) = false := hf
    rw [hi, Bool.true_and, Bool.not_eq_false', List.isEmpty_iff] at hf'
    show a.written + a.socket.acknowledged.writes.length ≤ _
    rw [hw', hf']
    exact Nat.le_of_eq hn
  case due =>
    intro w hm
    exact Option.mem_toList.mp (hw' ▸ hm : w ∈ Option.toList _)

theorem Tight.pop (h : Tight a b out (receipt :: back)) (hl : Lane a b out (receipt :: back)) :
    Tight { a with socket := a.socket.acknowledged } b out back := by
  obtain ⟨hn, hb, hc, -, hw, hi, hack⟩ := hl.of_receipt
  refine
    { receipts := by rw [hack, hc, hb]
      frames := h.frames
      busy := ?busy
      stuck := ?stuck
      fits := h.fits }
  case busy =>
    intro hf
    have hf' : (a.socket.outbox.inFlight && !a.socket.outbox.queue.tail.isEmpty) = true := hf
    rw [hi, Bool.true_and, Bool.not_eq_true', List.isEmpty_eq_false_iff] at hf'
    obtain ⟨v, hv⟩ := Option.isSome_iff_exists.mp (List.isSome_head?.mpr hf')
    rw [hack]
    show a.written + a.socket.acknowledged.writes.length = _
    rw [writes_acknowledged, hw, List.nil_append, hv, hn]
    rfl
  case stuck =>
    intro hf w hq
    have hf' : (a.socket.outbox.inFlight && !a.socket.outbox.queue.tail.isEmpty) = false := hf
    rw [hi, Bool.true_and, Bool.not_eq_false', List.isEmpty_iff] at hf'
    have hq' : a.socket.outbox.queue.tail.head? = some w := hq
    rw [hf'] at hq'
    cases hq'

/-- A data frame that arrives holds the first packet that was not received yet. -/
theorem Lane.of_data (h : Lane a b (w :: out) back) (hw : w ≠ receipt) :
    dataOf out = [] ∧ back.count receipt = 0 ∧ b.received.length = a.acknowledged ∧
      a.written = a.acknowledged + 1 ∧ ∃ p, a.sent[a.acknowledged]? = some p ∧ w = p.wire ∧
        p.Sendable a.socket.limit ∧ p.Fits ∧ a.writable p := by
  have hr := h.receipts
  have hd := h.frames
  have hi := h.inFlight
  obtain ⟨hq, hshort⟩ := h.onWay w (by rw [dataOf_data hw]; exact List.mem_cons_self ..)
  rw [dataOf_data hw, List.length_cons] at hd
  obtain ⟨p, hp, rfl, hs, hf⟩ := h.head hq
  exact ⟨List.length_eq_zero_iff.mp (by omega), by omega, by omega, by omega, p, hp, rfl, hs, hf,
    decide_eq_true hshort⟩

theorem count_concat_receipt (back : List Bytes) :
    (back ++ [receipt]).count receipt = back.count receipt + 1 := by
  rw [List.count_append, List.count_singleton_self]

theorem Lane.deliver (h : Lane a b (w :: out) back) (hw : w ≠ receipt)
    (hp : a.sent[a.acknowledged]? = some p) (hb' : b'.received = b.received ++ [p]) :
    Lane a b' out (back ++ [receipt]) := by
  obtain ⟨hd, hc, hl, hn, -⟩ := h.of_data hw
  have hlen : b'.received.length = a.acknowledged + 1 := by
    rw [hb', List.length_append, hl]
    rfl
  refine { h with received := ?_, receipts := ?_, frames := ?_, onWay := ?_ }
  · rw [hb', List.prefix_iff_eq_take.mp h.received, hl]
    have ht : a.sent.take (a.acknowledged + 1) = a.sent.take a.acknowledged ++ [p] := by
      rw [List.take_add_one, hp]
      rfl
    rw [← ht]
    exact List.take_prefix ..
  · rw [count_concat_receipt, hc, hlen]
  · rw [hd, hlen, hn]
    exact Nat.le_refl _
  · rw [hd]
    exact nofun

theorem Tight.deliver (h : Tight a b (w :: out) back) (hl : Lane a b (w :: out) back)
    (hw : w ≠ receipt) (hp : a.writable p) (hb' : b'.received = b.received ++ [p]) :
    Tight a b' out (back ++ [receipt]) := by
  obtain ⟨hd, hc, hl, hn, -⟩ := hl.of_data hw
  have hlen : b'.received.length = a.acknowledged + 1 := by
    rw [hb', List.length_append, hl]
    rfl
  refine { h with receipts := ?_, frames := ?_, fits := ?_ }
  · rw [count_concat_receipt, hc, hlen]
  · rw [hd, hlen, hn]
    rfl
  · rw [hb']
    exact List.forall_mem_append.mpr ⟨h.fits, List.forall_mem_singleton.mpr hp⟩

/-! ### Both directions -/

/-- The payloads `out` are on their way from `a` to `b`, as long as `b` reads. -/
structure Carries (a b : Endpoint) (out : List Bytes) : Prop where
  short : ∀ x ∈ out, x.length < Nat.pow 2 32
  stream : b.socket.reading →
    b.socket.incoming ++ a.socket.outgoing = (out.map Frame.layout).flatten

/-- Both directions at an end `a` that has taken the payloads `inward` off its stream but not looked
at them yet. -/
structure Crossing (a b : Endpoint) (inward outward : List Bytes) : Prop where
  fromOther : Lane b a inward outward
  toOther : Lane a b outward inward
  tight : a.socket.Live → b.socket.Live → Tight b a inward outward ∧ Tight a b outward inward
  carries : Carries a b outward

variable {inward outward : List Bytes}

theorem Carries.concat (h : Carries a b outward) (hw : w.length < Nat.pow 2 32)
    (ha : a'.socket.outgoing = a.socket.outgoing ++ Frame.layout w) :
    Carries a' b (outward ++ [w]) where
  short := List.forall_mem_append.mpr ⟨h.short, List.forall_mem_singleton.mpr hw⟩
  stream hr := by
    rw [ha, ← List.append_assoc, h.stream hr]
    simp

/-- What neither sends nor takes anything changes nothing in either direction. -/
theorem Crossing.congr (h : Crossing a b inward outward) (hl : a'.socket.Live → a.socket.Live)
    (ha : a'.sending = a.sending) (hb : a'.received = a.received)
    (ho : a'.socket.outgoing = a.socket.outgoing) : Crossing a' b inward outward where
  fromOther := h.fromOther.congr rfl hb
  toOther := h.toOther.congr ha rfl
  tight hl' hb' :=
    have ht := h.tight (hl hl') hb'
    ⟨ht.1.congr rfl hb, ht.2.congr ha rfl⟩
  carries := ⟨h.carries.short, fun hr => by rw [ho]; exact h.carries.stream hr⟩

/-- An end that has stopped reading does not look at what it has taken off its stream. -/
theorem Crossing.ignore (h : Crossing a b (w :: inward) outward) (hr : ¬a.socket.Live) :
    Crossing a b inward outward where
  fromOther := h.fromOther.drop_out
  toOther := h.toOther.drop_back
  tight hl := absurd hl hr
  carries := h.carries

theorem Crossing.stop (h : Crossing a b inward outward) :
    Crossing { a with socket := a.socket.stopReading } b inward outward :=
  h.congr (fun hl => absurd hl (PeerSocket.not_live_stopReading a.socket)) rfl rfl rfl

theorem Crossing.receive (h : Crossing a b (w :: inward) outward) :
    ∃ outward', Crossing { a with socket := a.socket.receive w } b inward outward' := by
  by_cases hw : w = receipt
  · subst hw
    rw [PeerSocket.receive_receipt]
    refine ⟨outward, ?_⟩
    exact
      { fromOther := h.fromOther.drop_out.congr rfl rfl
        toOther := h.toOther.pop
        tight := fun ha hb => by
          have ht := h.tight ⟨ha.reading, ha.isOpen, ha.present⟩ hb
          exact ⟨ht.1.drop_receipt.congr rfl rfl, ht.2.pop h.toOther⟩
        carries := ⟨h.carries.short, h.carries.stream⟩ }
  · obtain ⟨-, -, -, -, p, hp, hwire, hs, hf, hfit⟩ := h.fromOther.of_data hw
    have hd : Packet.decode w = .ok p := by
      obtain ⟨bytes, he, hd⟩ := Packet.decode_encode hs.inRange hf
      obtain ⟨-, rfl⟩ := Packet.encode_eq_wire.mp he
      rw [hwire]
      exact hd
    rw [PeerSocket.receive_packet hd hs.data]
    split
    · exact ⟨outward, h.stop.ignore (PeerSocket.not_live_stopReading a.socket)⟩
    · refine ⟨outward ++ [receipt], ?_⟩
      have hb (o : Bytes) : Endpoint.received { a with
          socket := { a.socket with outgoing := o, inbox := a.socket.inbox ++ [p] } } =
          a.received ++ [p] := by
        simp [Endpoint.received]
      have hout : dataOf (outward ++ [receipt]) = dataOf outward := by
        rw [dataOf_append, dataOf_receipt]
        exact List.append_nil _
      have hback : (w :: inward).count receipt = inward.count receipt :=
        List.count_cons_of_ne hw
      have hlane := h.toOther
      refine
        { fromOther := h.fromOther.deliver hw hp (hb _)
          toOther := ?_
          tight := fun hl hl' => ?_
          carries := h.carries.concat (by decide) rfl }
      · exact { hlane.drop_back with
          frames := by rw [hout]; exact hlane.frames
          onWay := by rw [hout]; exact hlane.onWay }
      · have ht := h.tight ⟨hl.reading, hl.isOpen, hl.present⟩ hl'
        refine ⟨ht.1.deliver h.fromOther hw hfit (hb _), ?_⟩
        have hr := ht.2.receipts
        rw [hback] at hr
        exact { ht.2 with
          receipts := hr
          frames := by rw [hout]; exact ht.2.frames }

theorem Crossing.receiveAll {payloads : List Bytes}
    (h : Crossing a b (payloads ++ inward) outward) :
    ∃ outward', Crossing { a with socket := a.socket.receiveAll payloads } b inward outward' := by
  induction payloads generalizing a outward with
  | nil => exact ⟨outward, h⟩
  | cons payload payloads ih =>
      rw [PeerSocket.receiveAll_cons]
      by_cases hr : a.socket.reading
      · obtain ⟨outward', h'⟩ := h.receive
        rw [if_pos hr]
        exact ih h'
      · rw [if_neg hr]
        exact ih (h.ignore fun hl => hr hl.reading)

/-! ### Ends at rest -/

/-- What is left of what `a` has sent to `b` when nothing is on its way. -/
structure Endpoint.Drained (a b : Endpoint) : Prop where
  /-- Everything before the first packet over the limit has been read. -/
  received : b.handled ++ b.socket.inbox = a.sent.takeWhile a.writable
  /-- That packet and everything behind it is queued. -/
  queue : a.socket.outbox.queue = (a.sent.dropWhile a.writable).map Packet.wire
  idle : a.socket.outbox.inFlight = false
  /-- Without such a packet nothing is held back. -/
  complete : (∀ p ∈ a.sent, a.writable p) →
    a.socket.outbox.queue = [] ∧ b.handled ++ b.socket.inbox = a.sent

theorem Tight.idle (h : Tight a b [] []) (hw : a.socket.writes = []) :
    a.socket.outbox.inFlight = false := by
  rw [← Bool.not_eq_true]
  intro hb
  have hbusy := h.busy hb
  have hr := h.receipts
  have hf := h.frames
  rw [hw] at hbusy
  simp only [List.count_nil, dataOf, List.filter_nil, List.length_nil] at hbusy hr hf
  omega

theorem drained_of_tight (h : Tight a b [] []) (hl : Lane a b [] []) (hw : a.socket.writes = []) :
    a.Drained b := by
  have hidle := h.idle hw
  obtain ⟨rest, hrest⟩ := hl.received
  have hqueue : a.socket.outbox.queue = rest.map Packet.wire := by
    rw [hl.queue, show a.acknowledged = b.received.length from h.receipts, ← hrest, List.drop_left]
  have hstuck : rest.takeWhile a.writable = [] ∧ rest.dropWhile a.writable = rest := by
    cases rest with
    | nil => exact ⟨rfl, rfl⟩
    | cons p rest =>
        have hlong := h.stuck hidle p.wire (by rw [hqueue]; rfl)
        have hp : ¬a.writable p := by simpa [Endpoint.writable] using hlong
        exact ⟨List.takeWhile_cons_of_neg hp, List.dropWhile_cons_of_neg hp⟩
  have hreceived : b.received = a.sent.takeWhile a.writable := by
    rw [← hrest, List.takeWhile_append_of_pos h.fits, hstuck.1, List.append_nil]
  have hheld : a.socket.outbox.queue = (a.sent.dropWhile a.writable).map Packet.wire := by
    rw [← hrest, List.dropWhile_append_of_pos h.fits, hstuck.2, hqueue]
  refine ⟨hreceived, hheld, hidle, fun hall => ⟨?_, ?_⟩⟩
  · rw [hheld, List.dropWhile_eq_nil_iff.mpr hall]
    rfl
  · exact hreceived.trans (List.takeWhile_eq_self_iff.mpr hall)

/-- A stream without bytes is without payloads. -/
theorem Carries.nil (h : Carries a b out) (hr : b.socket.reading)
    (hs : b.socket.incoming ++ a.socket.outgoing = []) : out = [] := by
  have hf := (h.stream hr).symm.trans hs
  cases out with
  | nil => rfl
  | cons payload rest =>
      exact absurd (List.append_eq_nil_iff.mp hf).1 (Frame.layout_ne_nil payload)

/-! ### What happens at the ends -/

namespace Connection

/-- What holds of a connection whatever happens at its ends. -/
structure Sound (c : Connection) (toFar toNear : List Bytes) : Prop where
  crossing : Crossing c.near c.far toNear toFar
  carries : Carries c.far c.near toNear

variable {c : Connection} {toFar toNear : List Bytes}

theorem Sound.turn (h : c.Sound toFar toNear) : c.turn.Sound toNear toFar where
  crossing :=
    { fromOther := h.crossing.toOther
      toOther := h.crossing.fromOther
      tight := fun hf hn => (h.crossing.tight hn hf).symm
      carries := h.carries }
  carries := h.crossing.carries

theorem Sound.send (h : c.Sound toFar toNear) {packet : Packet}
    (hs : packet.Sendable c.near.socket.limit) : (c.act (.send packet)).Sound toFar toNear := by
  show Sound ⟨c.near.send packet, c.far⟩ toFar toNear
  rcases c.near.send_cases packet with he | ⟨hf, he⟩
  · rw [he]
    exact h
  · rw [he]
    exact
      { crossing :=
          { fromOther := h.crossing.fromOther.congr rfl rfl
            toOther := h.crossing.toOther.push hs hf
            tight := fun hn hf => by
              have ht := h.crossing.tight ⟨hn.reading, hn.isOpen, hn.present⟩ hf
              exact ⟨ht.1.congr rfl rfl, ht.2.push h.crossing.toOther⟩
            carries := ⟨h.crossing.carries.short, h.crossing.carries.stream⟩ }
        carries := ⟨h.carries.short, h.carries.stream⟩ }

theorem Sound.write (h : c.Sound toFar toNear) : ∃ toFar, (c.act .write).Sound toFar toNear := by
  have hl := h.crossing.toOther
  show ∃ toFar, Sound ⟨c.near.write, c.far⟩ toFar toNear
  rcases c.near.write_cases with ⟨-, he⟩ | ⟨frame, rest, hw, ⟨hc, he⟩ | ⟨hf, he⟩ | ⟨hs, he⟩⟩
  · rw [he]
    exact ⟨toFar, h⟩
  · rw [he]
    exact ⟨toFar,
      { crossing :=
          { fromOther := h.crossing.fromOther.congr rfl rfl
            toOther := hl.undone hw rfl
            tight := fun hn _ => by
              have ho := hn.isOpen
              rw [show c.near.socket.closed = true from hc] at ho
              cases ho
            carries := ⟨h.crossing.carries.short, h.crossing.carries.stream⟩ }
        carries := ⟨h.carries.short, h.carries.stream⟩ }⟩
  · rw [he]
    exact ⟨toFar,
      { crossing :=
          { fromOther := h.crossing.fromOther.congr rfl rfl
            toOther := hl.undone hw rfl
            tight := fun hn hb => by
              have ht := h.crossing.tight ⟨hn.reading, hn.isOpen, hn.present⟩ hb
              refine ⟨ht.1.congr rfl rfl, ht.2.fail hl hw (hf.resolve_left ?_)⟩
              exact Bool.not_eq_true _ ▸ hn.present
            carries := ⟨h.crossing.carries.short, h.crossing.carries.stream⟩ }
        carries := ⟨h.carries.short, h.carries.stream⟩ }⟩
  · rw [he]
    have hhead := hl.due frame (hw ▸ List.mem_cons_self ..)
    obtain ⟨p, -, rfl, hp, -⟩ := hl.head hhead
    have hback : (toFar ++ [p.wire]).count receipt = toFar.count receipt := by
      rw [List.count_append, List.count_singleton, if_neg (by simpa using hl.ne_receipt hhead)]
      rfl
    exact ⟨toFar ++ [p.wire],
      { crossing :=
          { fromOther := { h.crossing.fromOther.congr rfl rfl with
              receipts := by rw [hback]; exact h.crossing.fromOther.receipts }
            toOther := hl.wrote hw hs _
            tight := fun hn hb => by
              have ht := h.crossing.tight ⟨hn.reading, hn.isOpen, hn.present⟩ hb
              refine ⟨{ ht.1.congr rfl rfl with receipts := ?_ }, ht.2.wrote hl hw _⟩
              rw [hback]
              exact ht.1.receipts
            carries := h.crossing.carries.concat (hp.announced hs) rfl }
        carries := ⟨h.carries.short, h.carries.stream⟩ }⟩

theorem Sound.carry (h : c.Sound toFar toNear) (count : Nat) :
    (c.act (.carry count)).Sound toFar toNear where
  crossing :=
    { fromOther := h.crossing.fromOther.congr rfl rfl
      toOther := h.crossing.toOther.congr rfl rfl
      tight := fun hn hf => by
        have ht := h.crossing.tight ⟨hn.reading, hn.isOpen, hn.present⟩
          ⟨hf.reading, hf.isOpen, hf.present⟩
        exact ⟨ht.1.congr rfl rfl, ht.2.congr rfl rfl⟩
      carries := ⟨h.crossing.carries.short, fun hr => by
        show c.far.socket.incoming ++ c.near.socket.outgoing.take count
          ++ c.near.socket.outgoing.drop count = _
        rw [List.append_assoc, List.take_append_drop]
        exact h.crossing.carries.stream hr⟩ }
  carries := ⟨h.carries.short, h.carries.stream⟩

theorem Sound.readOn (h : c.Sound toFar toNear) :
    ∃ toFar toNear, (c.act .readOn).Sound toFar toNear := by
  show ∃ toFar toNear, Sound ⟨{ c.near with socket := c.near.socket.readOn }, c.far⟩ toFar toNear
  rcases c.near.socket.readOn_cases with he | ⟨hr, rest, he⟩
  · rw [he]
    exact ⟨toFar, toNear, h⟩
  · obtain ⟨others, rfl, ho⟩ :=
      Frame.of_split c.near.socket.limit h.carries.short (h.carries.stream hr)
    have hs := (List.forall_mem_append.mp h.carries.short).2
    have hn : Crossing { c.near with socket := { c.near.socket with incoming := rest } } c.far
        _ _ :=
      h.crossing.congr (fun hl => ⟨hl.reading, hl.isOpen, hl.present⟩) rfl rfl rfl
    obtain ⟨outward, hx⟩ := hn.receiveAll
    rcases he with he | ⟨hp, he⟩
    · rw [he]
      exact ⟨outward, others, hx.stop, hs, nofun⟩
    · rw [he]
      refine ⟨outward, others, hx, hs, fun _ => ?_⟩
      show (PeerSocket.receiveAll _ _).incoming ++ _ = _
      rw [PeerSocket.incoming_receiveAll]
      exact ho rest hp

theorem Sound.read (h : c.Sound toFar toNear) :
    ∃ toFar toNear, (c.act .read).Sound toFar toNear := by
  show ∃ toFar toNear, Sound ⟨{ c.near with socket := c.near.socket.read }, c.far⟩ toFar toNear
  rcases c.near.socket.read_eq_or with he | he
  · rw [he]
    exact ⟨toFar, toNear, h.crossing.stop, h.carries.short, nofun⟩
  · rw [he]
    exact h.readOn

theorem Sound.handle (h : c.Sound toFar toNear) : (c.act .handle).Sound toFar toNear where
  crossing := h.crossing.congr (fun hl => ⟨hl.reading, hl.isOpen, hl.present⟩) rfl (by
    show c.near.handled ++ c.near.socket.inbox.head?.toList ++ c.near.socket.inbox.tail = _
    unfold Endpoint.received
    cases c.near.socket.inbox with
    | nil => simp
    | cons p rest => simp) rfl
  carries := ⟨h.carries.short, h.carries.stream⟩

theorem Sound.act (h : c.Sound toFar toNear) {action : Action} (ha : c.Allows action) :
    ∃ toFar toNear, (c.act action).Sound toFar toNear := by
  cases action with
  | send packet => exact ⟨toFar, toNear, h.send ha⟩
  | write =>
      obtain ⟨toFar, h⟩ := h.write
      exact ⟨toFar, toNear, h⟩
  | carry count => exact ⟨toFar, toNear, h.carry count⟩
  | read => exact h.read
  | readOn => exact h.readOn
  | handle => exact ⟨toFar, toNear, h.handle⟩
  | close =>
      exact ⟨toFar, toNear, h.crossing.congr (fun hl => nomatch hl.isOpen) rfl rfl rfl,
        h.carries.short, h.carries.stream⟩
  | abandon =>
      exact ⟨toFar, toNear, h.crossing.congr (fun hl => nomatch hl.present) rfl rfl rfl,
        h.carries.short, h.carries.stream⟩

theorem lane_opened (x y : NodeId) (m n : Nat) : Lane (.opened x m) (.opened y n) [] [] where
  sendable := nofun
  queue := rfl
  received := List.prefix_rfl
  receipts := Nat.le_refl _
  frames := Nat.le_refl _
  inFlight := Nat.zero_le _
  free _ := Nat.le_refl _
  due := nofun
  onWay := nofun

theorem tight_opened (x y : NodeId) (m n : Nat) : Tight (.opened x m) (.opened y n) [] [] where
  receipts := rfl
  frames := rfl
  busy := nofun
  stuck := nofun
  fits := nofun

theorem Reached.sound (h : Reached c) : ∃ toFar toNear, c.Sound toFar toNear := by
  induction h with
  | opened a b m n =>
      exact ⟨[], [],
        { crossing :=
            { fromOther := lane_opened a b n m
              toOther := lane_opened b a m n
              tight := fun _ _ => ⟨tight_opened a b n m, tight_opened b a m n⟩
              carries := ⟨nofun, fun _ => rfl⟩ }
          carries := ⟨nofun, fun _ => rfl⟩ }⟩
  | act action _ ha ih =>
      obtain ⟨_, _, h⟩ := ih
      exact h.act ha
  | turn _ ih =>
      obtain ⟨toFar, toNear, h⟩ := ih
      exact ⟨toNear, toFar, h.turn⟩

/-! ### Main results -/

/-- **Packets arrive in the order in which they were sent, and one data frame at a time is on its
way.** Whatever happens at both ends of a connection, in whatever order: the packets that a handler
was given are the first of those that the other end took for sending, and of the data frames that an
end has written at most one is not acknowledged. -/
theorem in_order (h : Reached c) :
    c.far.handled <+: c.near.sent ∧ c.near.handled <+: c.far.sent ∧
      c.near.written ≤ c.near.acknowledged + 1 ∧ c.far.written ≤ c.far.acknowledged + 1 := by
  obtain ⟨toFar, toNear, h⟩ := h.sound
  have hn := h.crossing.toOther
  have hf := h.crossing.fromOther
  have ha := hn.inFlight
  have hb := hf.inFlight
  exact ⟨(List.prefix_append _ _).trans hn.received, (List.prefix_append _ _).trans hf.received,
    by omega, by omega⟩

/-- Two packets that are sent, and the first of them written, read, acknowledged and handled. -/
theorem in_order_of_two :
    ∃ c, Reached c ∧ c.near.sent = [.ack "1-a", .electorReady 2] ∧
      c.far.handled = [.ack "1-a"] ∧
      c.far.handled <+: c.near.sent ∧ c.near.handled <+: c.far.sent ∧
      c.near.written ≤ c.near.acknowledged + 1 ∧ c.far.written ≤ c.far.acknowledged + 1 := by
  have hs : Reached _ := ((Reached.opened ⟨"a"⟩ ⟨"b"⟩ 64 64).act (.send (.ack "1-a"))
    (by decide +kernel)).act (.send (.electorReady 2)) (by decide +kernel)
  have ho : Reached _ := (hs.act .write trivial).act (.carry 12) trivial
  have hr : Reached _ := (ho.turn.act .read trivial).act .handle trivial
  exact ⟨_, hr.turn, by decide +kernel, by decide +kernel, in_order hr.turn⟩

/-- **When nothing is on its way, a packet is only held back by one over the sender's limit.** On a
connection whose ends go on, everything sent before the first such packet has then arrived, and that
packet and everything sent after it is queued. -/
theorem drained (h : Reached c) (live : c.Healthy) (quiet : c.Quiet) :
    c.near.Drained c.far ∧ c.far.Drained c.near := by
  obtain ⟨toFar, toNear, h⟩ := h.sound
  obtain rfl := h.crossing.carries.nil live.far.reading quiet.toFar
  obtain rfl := h.carries.nil live.near.reading quiet.toNear
  obtain ⟨hf, hn⟩ := h.crossing.tight live.near live.far
  exact ⟨drained_of_tight hn h.crossing.toOther quiet.nearWrites,
    drained_of_tight hf h.crossing.fromOther quiet.farWrites⟩

/-- A packet that was sent, read and acknowledged. -/
theorem drained_of_acknowledged :
    ∃ c, Reached c ∧ c.Healthy ∧ c.Quiet ∧ c.near.sent = [.ack "1-a"] ∧
      c.near.Drained c.far ∧ c.far.Drained c.near := by
  obtain ⟨c, hc, live, quiet, hsent⟩ :
      ∃ c, Reached c ∧ c.Healthy ∧ c.Quiet ∧ c.near.sent = [.ack "1-a"] := by
    have hs : Reached _ := (Reached.opened ⟨"a"⟩ ⟨"b"⟩ 64 64).act (.send (.ack "1-a"))
      (by decide +kernel)
    have ho : Reached _ := (hs.act .write trivial).act (.carry 12) trivial
    have hr : Reached _ := (ho.turn.act .read trivial).act (.carry 5) trivial
    exact ⟨_, hr.turn.act .read trivial, by decide +kernel, by decide +kernel, by decide +kernel⟩
  exact ⟨c, hc, live, quiet, hsent, drained hc live quiet⟩

/-- A frame over the limit stays at the head of the queue, and one within the limit behind it. -/
theorem held_back :
    ∃ c, Reached c ∧ c.Healthy ∧ c.Quiet ∧
      ∃ p ∈ c.near.sent, c.near.writable p ∧ p ∉ c.far.handled ++ c.far.socket.inbox := by
  have hs : Reached _ := ((Reached.opened ⟨"a"⟩ ⟨"b"⟩ 8 8).act (.send (.ack "17-a"))
    (by decide +kernel)).act (.send (.ack "1-a")) (by decide +kernel)
  exact ⟨_, hs.act .write trivial, by decide +kernel, by decide +kernel, .ack "1-a",
    by decide +kernel, by decide +kernel, by decide +kernel⟩

end Connection

end ShardGossip
