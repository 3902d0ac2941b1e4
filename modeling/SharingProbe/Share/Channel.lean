import Mathlib.Data.UInt
import SharingProbe.Library.Framing
import SharingProbe.Library.Transition

/-!
# Words over a byte stream

`send_word` and `receive_word` move the eight bytes of a word with as many calls of
`send` and `recv` as it takes.  Each side is a loop with a cursor; between them is a
stream of bytes.  A call moves any positive number of the bytes asked for, is
interrupted, or fails.  After an exception a side makes no further call.
-/

namespace SharingProbe.Share

open Transition

/-! ## Words in memory -/

/-- The bytes of a word. -/
def wordBytes (w : UInt64) : List UInt8 :=
  (List.range 8).map fun i => UInt8.ofNat (w.toNat / 256 ^ i)

/-- The word that some bytes are read as. -/
def ofBytes (bytes : List UInt8) : UInt64 :=
  UInt64.ofNat (bytes.foldr (fun b n => b.toNat + 256 * n) 0)

theorem length_wordBytes (w : UInt64) : (wordBytes w).length = 8 := by simp [wordBytes]

theorem ofBytes_wordBytes (w : UInt64) : ofBytes (wordBytes w) = w := by
  apply UInt64.toNat_inj.mp
  have hw := w.toNat_lt
  unfold ofBytes wordBytes
  simp only [List.range, List.range.loop, List.map_cons, List.map_nil, List.foldr_cons,
    List.foldr_nil, UInt8.toNat_ofNat', UInt64.toNat_ofNat']
  omega

theorem wordBytes_ofBytes {bytes : List UInt8} (hbytes : bytes.length = 8) :
    wordBytes (ofBytes bytes) = bytes := by
  obtain ⟨a, b, c, d, e, f, g, h, rfl⟩ : ∃ a b c d e f g h, bytes = [a, b, c, d, e, f, g, h] := by
    match bytes, hbytes with
    | [a, b, c, d, e, f, g, h], _ => exact ⟨a, b, c, d, e, f, g, h, rfl⟩
  have ha := a.toNat_lt
  have hb := b.toNat_lt
  have hc := c.toNat_lt
  have hd := d.toNat_lt
  have he := e.toNat_lt
  have hf := f.toNat_lt
  have hg := g.toNat_lt
  have hh := h.toNat_lt
  unfold ofBytes wordBytes
  simp only [List.range, List.range.loop, List.map_cons, List.map_nil, List.foldr_cons,
    List.foldr_nil, UInt64.toNat_ofNat', List.cons.injEq, and_true, ← UInt8.toNat_inj,
    UInt8.toNat_ofNat']
  omega

theorem wordBytes_injective : Function.Injective wordBytes := by
  intro w w' h
  rw [← ofBytes_wordBytes w, h, ofBytes_wordBytes]

/-! ## The two loops -/

/-- The state of a loop over `send` or `recv`: the bytes of `value`, and the cursor. -/
structure Cursor where
  value : List UInt8
  moved : ℕ := 0

/-- What `send` or `recv` returns, and whether `errno` is `EINTR`. -/
structure Returned where
  n : ℤ
  interrupted : Bool := false

/-- What one turn of a loop does. -/
inductive Turn where
  | again
  | throws
  | advance (n : ℕ)

/-- The tests that follow a call in both loops. -/
def turn (r : Returned) : Turn :=
  if r.n < 0 ∧ r.interrupted = true then .again
  else if r.n ≤ 0 then .throws
  else .advance r.n.toNat

/-- One side: it is inside of a call for a word, or has thrown. -/
structure Side where
  cursor : Cursor
  thrown : Bool := false

/-- The two ends of a channel.  `index` counts the words that have been sent, `arrived` are
the bytes that `recv` has given. -/
structure Channel where
  index : ℕ := 0
  sender : Side
  stream : List UInt8 := []
  arrived : List UInt8 := []
  got : List UInt64 := []
  receiver : Side

/-- What can happen next: a call returns, or the loop has ended and the function returns.
The next call of `receive_word` finds any bytes in `value`. -/
inductive ChannelStep where
  | send (r : Returned)
  | sendReturns
  | recv (r : Returned)
  | recvReturns (garbage : List UInt8)

/-- The variable `value` of the call of `send_word` for the next word. -/
def nextValue (words : List UInt64) (index : ℕ) : List UInt8 := wordBytes (words.getD index 0)

/-- A turn of the loop of `send_word`.  No more bytes are taken than were offered. -/
def sendStep (words : List UInt64) (s : Channel) (r : Returned) : Option Channel :=
  if s.index < words.length ∧ s.sender.thrown = false ∧ s.sender.cursor.moved < 8 then
    match turn r with
    | .again => some s
    | .throws => some { s with sender := { s.sender with thrown := true } }
    | .advance n =>
        if n ≤ 8 - s.sender.cursor.moved then
          some { s with
            stream := s.stream ++ (s.sender.cursor.value.drop s.sender.cursor.moved).take n
            sender.cursor.moved := s.sender.cursor.moved + n }
        else none
  else none

/-- A turn of the loop of `receive_word`.  No more bytes arrive than are there and were
asked for. -/
def recvStep (s : Channel) (r : Returned) : Option Channel :=
  if s.receiver.thrown = false ∧ s.receiver.cursor.moved < 8 then
    match turn r with
    | .again => some s
    | .throws => some { s with receiver := { s.receiver with thrown := true } }
    | .advance n =>
        if n ≤ 8 - s.receiver.cursor.moved ∧ n ≤ s.stream.length then
          some { s with
            stream := s.stream.drop n
            arrived := s.arrived ++ s.stream.take n
            receiver.cursor := {
              value := s.receiver.cursor.value.take s.receiver.cursor.moved ++ s.stream.take n ++
                s.receiver.cursor.value.drop (s.receiver.cursor.moved + n)
              moved := s.receiver.cursor.moved + n } }
        else none
  else none

/-- `send_word` for one word after the other at one end, `receive_word` at the other. -/
def channel (words : List UInt64) (garbage : List UInt8) : System Channel ChannelStep where
  init := { sender := ⟨⟨nextValue words 0, 0⟩, false⟩, receiver := ⟨⟨garbage, 0⟩, false⟩ }
  step s
    | .send r => sendStep words s r
    | .sendReturns =>
        if s.sender.cursor.moved = 8 then
          some { s with
            index := s.index + 1
            sender.cursor := ⟨nextValue words (s.index + 1), 0⟩ }
        else none
    | .recv r => recvStep s r
    | .recvReturns next =>
        if s.receiver.cursor.moved = 8 ∧ next.length = 8 then
          some { s with
            got := s.got ++ [ofBytes s.receiver.cursor.value]
            receiver.cursor := ⟨next, 0⟩ }
        else none

/-! ## The invariant -/

/-- The sender has put the first words and a part of the next one on the stream. -/
structure SenderAligned (words : List UInt64) (s : Channel) : Prop where
  bound : s.index ≤ words.length
  cursor : s.sender.cursor.moved ≤ 8
  idle : s.index = words.length → s.sender.cursor.moved = 0
  value : s.sender.cursor.value = nextValue words s.index
  bytes : s.arrived ++ s.stream =
    (words.flatMap wordBytes).take (8 * s.index + s.sender.cursor.moved)

/-- The receiver has taken the words that it has returned and a part of the next one. -/
structure ReceiverAligned (s : Channel) : Prop where
  cursor : s.receiver.cursor.moved ≤ 8
  size : s.receiver.cursor.value.length = 8
  arrived : s.arrived = s.got.flatMap wordBytes ++
    s.receiver.cursor.value.take s.receiver.cursor.moved

/-- What a turn of `send_word` does. -/
theorem sendStep_cases {words : List UInt64} {s s' : Channel} {r : Returned}
    (h : sendStep words s r = some s') :
    s' = s ∨ s' = { s with sender := { s.sender with thrown := true } } ∨
      ∃ n, s.index < words.length ∧ s.sender.cursor.moved + n ≤ 8 ∧
        s' = { s with
          stream := s.stream ++ (s.sender.cursor.value.drop s.sender.cursor.moved).take n
          sender.cursor.moved := s.sender.cursor.moved + n } := by
  unfold sendStep at h
  split at h
  · rename_i hguard
    split at h
    · exact Or.inl (Option.some.inj h).symm
    · exact Or.inr (Or.inl (Option.some.inj h).symm)
    · rename_i n hturn
      split at h
      · exact Or.inr (Or.inr ⟨n, hguard.1, by omega, (Option.some.inj h).symm⟩)
      · cases h
  · cases h

/-- What a turn of `receive_word` does. -/
theorem recvStep_cases {s s' : Channel} {r : Returned} (h : recvStep s r = some s') :
    s' = s ∨ s' = { s with receiver := { s.receiver with thrown := true } } ∨
      ∃ n, s.receiver.cursor.moved + n ≤ 8 ∧ n ≤ s.stream.length ∧
        s' = { s with
          stream := s.stream.drop n
          arrived := s.arrived ++ s.stream.take n
          receiver.cursor := {
            value := s.receiver.cursor.value.take s.receiver.cursor.moved ++ s.stream.take n ++
              s.receiver.cursor.value.drop (s.receiver.cursor.moved + n)
            moved := s.receiver.cursor.moved + n } } := by
  unfold recvStep at h
  split at h
  · rename_i hguard
    split at h
    · exact Or.inl (Option.some.inj h).symm
    · exact Or.inr (Or.inl (Option.some.inj h).symm)
    · rename_i n hturn
      split at h
      · rename_i hn
        exact Or.inr (Or.inr ⟨n, by omega, hn.2, (Option.some.inj h).symm⟩)
      · cases h
  · cases h

/-! ## Each step keeps it -/

variable {words : List UInt64} {s s' : Channel}

theorem SenderAligned.take (h : SenderAligned words s) {c : ℕ} (hc : c ≤ 8)
    (hindex : s.index < words.length) :
    (words.flatMap wordBytes).take (8 * s.index + c) =
      (words.take s.index).flatMap wordBytes ++ s.sender.cursor.value.take c := by
  have hget : words[s.index]? = some (words.getD s.index 0) := by simp [hindex]
  rw [Framing.take_flatMap_add length_wordBytes hget hc, h.value]
  rfl

theorem SenderAligned.send (h : SenderAligned words s) {n : ℕ} (hindex : s.index < words.length)
    (hn : s.sender.cursor.moved + n ≤ 8) :
    SenderAligned words { s with
      stream := s.stream ++ (s.sender.cursor.value.drop s.sender.cursor.moved).take n
      sender.cursor.moved := s.sender.cursor.moved + n } where
  bound := h.bound
  cursor := hn
  idle := fun hend => absurd hend (Nat.ne_of_lt hindex)
  value := h.value
  bytes := by
    change s.arrived ++ (s.stream ++ _) =
      (words.flatMap wordBytes).take (8 * s.index + (s.sender.cursor.moved + n))
    rw [h.take hn hindex, List.take_add, ← List.append_assoc, ← List.append_assoc, h.bytes,
      h.take (by omega) hindex]

theorem SenderAligned.returns (h : SenderAligned words s) (hmoved : s.sender.cursor.moved = 8) :
    SenderAligned words { s with
      index := s.index + 1
      sender.cursor := ⟨nextValue words (s.index + 1), 0⟩ } where
  bound := by
    have hbound := h.bound
    have hidle := h.idle
    change s.index + 1 ≤ words.length
    omega
  cursor := Nat.zero_le 8
  idle := fun _ => rfl
  value := rfl
  bytes := by
    change s.arrived ++ s.stream = (words.flatMap wordBytes).take (8 * (s.index + 1) + 0)
    rw [h.bytes, hmoved, Nat.mul_add]

theorem SenderAligned.recv (h : SenderAligned words s) (n : ℕ) (cursor : Cursor) :
    SenderAligned words { s with
      stream := s.stream.drop n
      arrived := s.arrived ++ s.stream.take n
      receiver.cursor := cursor } where
  bound := h.bound
  cursor := h.cursor
  idle := h.idle
  value := h.value
  bytes := by
    change s.arrived ++ s.stream.take n ++ s.stream.drop n = _
    rw [List.append_assoc, List.take_append_drop]
    exact h.bytes

theorem ReceiverAligned.recv (h : ReceiverAligned s) {n : ℕ}
    (hn : s.receiver.cursor.moved + n ≤ 8) (hstream : n ≤ s.stream.length) :
    ReceiverAligned { s with
      stream := s.stream.drop n
      arrived := s.arrived ++ s.stream.take n
      receiver.cursor := {
        value := s.receiver.cursor.value.take s.receiver.cursor.moved ++ s.stream.take n ++
          s.receiver.cursor.value.drop (s.receiver.cursor.moved + n)
        moved := s.receiver.cursor.moved + n } } where
  cursor := hn
  size := by
    have hsize := h.size
    simp only [List.length_append, List.length_take, List.length_drop, hsize]
    omega
  arrived := by
    have hlength : (s.receiver.cursor.value.take s.receiver.cursor.moved ++
        s.stream.take n).length = s.receiver.cursor.moved + n := by
      have hsize := h.size
      simp only [List.length_append, List.length_take, hsize]
      omega
    change s.arrived ++ s.stream.take n = s.got.flatMap wordBytes ++ List.take _ (_ ++ _)
    rw [← hlength, List.take_left, h.arrived, List.append_assoc]

theorem ReceiverAligned.returns (h : ReceiverAligned s) (hmoved : s.receiver.cursor.moved = 8)
    {next : List UInt8} (hnext : next.length = 8) :
    ReceiverAligned { s with
      got := s.got ++ [ofBytes s.receiver.cursor.value]
      receiver.cursor := ⟨next, 0⟩ } where
  cursor := Nat.zero_le 8
  size := hnext
  arrived := by
    change s.arrived = (s.got ++ [ofBytes s.receiver.cursor.value]).flatMap wordBytes ++ []
    rw [h.arrived, hmoved, List.take_of_length_le h.size.le, List.flatMap_append,
      List.flatMap_singleton, wordBytes_ofBytes h.size, List.append_nil]

/-- The cases are the calls that return and the loops that end. -/
theorem aligned_step {garbage : List UInt8} {action : ChannelStep}
    (h : SenderAligned words s ∧ ReceiverAligned s)
    (hstep : (channel words garbage).step s action = some s') :
    SenderAligned words s' ∧ ReceiverAligned s' := by
  obtain ⟨hsender, hreceiver⟩ := h
  cases action with
  | send r =>
      obtain rfl | rfl | ⟨n, hindex, hn, rfl⟩ := sendStep_cases hstep
      · exact ⟨hsender, hreceiver⟩
      · exact ⟨⟨hsender.1, hsender.2, hsender.3, hsender.4, hsender.5⟩,
          ⟨hreceiver.1, hreceiver.2, hreceiver.3⟩⟩
      · exact ⟨hsender.send hindex hn, ⟨hreceiver.1, hreceiver.2, hreceiver.3⟩⟩
  | sendReturns =>
      change (if _ then _ else _) = _ at hstep
      split at hstep
      · rename_i hmoved
        cases hstep
        exact ⟨hsender.returns hmoved, ⟨hreceiver.1, hreceiver.2, hreceiver.3⟩⟩
      · cases hstep
  | recv r =>
      obtain rfl | rfl | ⟨n, hn, hstream, rfl⟩ := recvStep_cases hstep
      · exact ⟨hsender, hreceiver⟩
      · exact ⟨⟨hsender.1, hsender.2, hsender.3, hsender.4, hsender.5⟩,
          ⟨hreceiver.1, hreceiver.2, hreceiver.3⟩⟩
      · exact ⟨hsender.recv n _, hreceiver.recv hn hstream⟩
  | recvReturns next =>
      change (if _ then _ else _) = _ at hstep
      split at hstep
      · rename_i hguard
        cases hstep
        exact ⟨⟨hsender.1, hsender.2, hsender.3, hsender.4, hsender.5⟩,
          hreceiver.returns hguard.1 hguard.2⟩
      · cases hstep

theorem aligned {garbage : List UInt8} (hgarbage : garbage.length = 8)
    (h : Reachable (channel words garbage) s) : SenderAligned words s ∧ ReceiverAligned s := by
  apply h.invariant (fun s => SenderAligned words s ∧ ReceiverAligned s)
  · exact ⟨⟨Nat.zero_le _, Nat.zero_le 8, fun _ => rfl, rfl, rfl⟩, ⟨Nat.zero_le 8, hgarbage, rfl⟩⟩
  · intro s action s' _ ih hstep
    exact aligned_step ih hstep

/-- Whatever the calls of `send` and `recv` do: the words that `receive_word` has returned are
the first words that were sent, each made of the eight bytes of its own that have arrived. -/
theorem words_intact {garbage : List UInt8} (hgarbage : garbage.length = 8)
    (h : Reachable (channel words garbage) s) :
    s.got <+: words ∧ s.got.length ≤ s.index + s.sender.cursor.moved / 8 ∧
      s.got.flatMap wordBytes <+: s.arrived ∧ s.arrived <+: words.flatMap wordBytes := by
  obtain ⟨hsender, hreceiver⟩ := aligned hgarbage h
  have hgot : s.got.flatMap wordBytes <+: s.arrived := ⟨_, hreceiver.arrived.symm⟩
  have hsent : s.arrived <+: (words.flatMap wordBytes).take
      (8 * s.index + s.sender.cursor.moved) := ⟨_, hsender.bytes⟩
  have harrived : s.arrived <+: words.flatMap wordBytes := hsent.trans (List.take_prefix _ _)
  have hlength := (hgot.trans hsent).length_le
  rw [Framing.length_flatMap length_wordBytes, List.length_take] at hlength
  refine ⟨?_, by omega, hgot, harrived⟩
  have htaken := List.prefix_iff_eq_take.mp (hgot.trans harrived)
  rw [Framing.length_flatMap length_wordBytes, ← Framing.flatMap_take length_wordBytes] at htaken
  have heq := Framing.flatMap_injective length_wordBytes (by decide) wordBytes_injective htaken
  exact List.prefix_iff_eq_take.mpr heq

/-- Two words, sent and received in pieces, with interruptions on both sides; then the
receiver throws. -/
def piecewise : List ChannelStep :=
  [.send ⟨3, false⟩, .recv ⟨2, false⟩, .send ⟨-1, true⟩, .send ⟨5, false⟩, .sendReturns,
    .send ⟨4, false⟩, .recv ⟨-1, true⟩, .recv ⟨6, false⟩, .recvReturns (List.replicate 8 7),
    .recv ⟨4, false⟩, .recv ⟨0, false⟩]

theorem words_intact_piecewise :
    (replay (channel [1, 2 ^ 40] (List.replicate 8 0)) piecewise).got <+: [1, 2 ^ 40] :=
  (words_intact (by decide) (reachable_replay piecewise)).1

example : (replay (channel [1, 2 ^ 40] (List.replicate 8 0)) piecewise).got = [1] := by
  decide +kernel

end SharingProbe.Share
