/-
# `LinuxDrivers.Net.Receive` — how a received frame reaches the client

    driver               skb_put(skb, n);  the card's bytes
                         eth_type_trans(skb):  remember where the header is,  skb_pull(skb, 14)
                         netif_rx(skb)  or  netif_receive_skb(skb)
    DDE                  skb_push(skb, 14);  the callback gets data and length;  kfree_skb

`skb_pull` takes nothing off a frame that is shorter than the header, and says so.
`eth_type_trans` does not look, and `skb_push` puts the header back in any case: a short frame
reaches the client with 14 bytes too many, or not at all if there is no room for them in front.

**Proved here.**

    which frames reach the client as they are               (`receive_unchanged_iff`)
-/
import LinuxDrivers.Basic
import LinuxDrivers.Lib.Memory

namespace LinuxDrivers.Net.Receive

open LinuxDrivers.Lib

/-! ## Socket buffers -/

/-- `ETH_HLEN` -/
def ethHlen : Nat := 14

/-- `PACKET_HOST` and its like -/
inductive PktType where
  | host
  | broadcast
  | multicast
  | otherhost
  deriving DecidableEq, Repr

structure NetDevice where
  ifindex : Word
  broadcast : List Byte
  devAddr : List Byte
  deriving DecidableEq

/-- A `struct sk_buff`.  The pointers are addresses; `len` fits into a word as the buffer does. -/
structure SkBuff where
  head : Nat
  data : Nat
  tail : Nat
  endp : Nat
  len : Nat
  /-- what is in fragments -/
  dataLen : Nat
  /-- `mac.raw` -/
  macRaw : Nat
  dev : NetDevice
  pktType : PktType
  deriving DecidableEq

/-- A new buffer of `size` bytes at `head`, after `skb_reserve`. -/
def allocSkb (head size reserve : Nat) (dev : NetDevice) : SkBuff :=
  { head, data := head + reserve, tail := head + reserve, endp := head + size, len := 0,
    dataLen := 0, macRaw := 0, dev, pktType := .host }

/-- `none` is `skb_over_panic`. -/
def skbPut (skb : SkBuff) (n : Nat) : Option SkBuff :=
  if skb.tail + n > skb.endp then none
  else some { skb with tail := skb.tail + n, len := skb.len + n }

/-- `none` is the `BUG_ON`. -/
def skbPullUnchecked (skb : SkBuff) (n : Nat) : Option SkBuff :=
  if skb.len - n < skb.dataLen then none
  else some { skb with len := skb.len - n, data := skb.data + n }

/-- `NULL` is returned for too much, and nothing is done. -/
def skbPull (skb : SkBuff) (n : Nat) : Option SkBuff :=
  if n > skb.len then some skb else skbPullUnchecked skb n

/-- `none` is `skb_under_panic`. -/
def skbPush (skb : SkBuff) (n : Nat) : Option SkBuff :=
  -- `data - n < head`
  if skb.data < skb.head + n then none
  else some { skb with data := skb.data - n, len := skb.len + n }

/-! ## From the driver to the callback -/

/-- The type of a packet, from its destination address. -/
def pktTypeOf (dest : List Byte) (dev : NetDevice) (old : PktType) : PktType :=
  if dest.getD 0 0 &&& 1 ≠ 0 then
    if dest = dev.broadcast then .broadcast else .multicast
  else if dest ≠ dev.devAddr then .otherhost else old

/-- The protocol ID, in the order of the host: 802.3 if the field is short enough to be a
length. -/
def protocolOf (m : Memory Byte) (macRaw data : Nat) : Nat :=
  let proto := (m (macRaw + 12)).toNat * 2 ^ 8 + (m (macRaw + 13)).toNat
  if proto ≥ 1536 then proto
  else if m data = 0xff ∧ m (data + 1) = 0xff then 0x0001 else 0x0004

/-- What `eth_type_trans` finds out once the header is pulled: the type of the packet and the
protocol. -/
def classify (m : Memory Byte) (dev : NetDevice) (skb : SkBuff) : SkBuff × Nat :=
  ({ skb with pktType := pktTypeOf (m.read skb.macRaw 6) dev skb.pktType },
    protocolOf m skb.macRaw skb.data)

/-- The pointer `skb_pull` returns is not looked at. -/
def ethTypeTrans (m : Memory Byte) (skb : SkBuff) (dev : NetDevice) : Option (SkBuff × Nat) :=
  (skbPull { skb with macRaw := skb.data } ethHlen).map (classify m dev)

/-- A call of the callback. -/
structure RxCall where
  ifindex : Word
  packet : List Byte
  len : Nat
  deriving DecidableEq

/-- `registered`: there is a `current_rx_callback` -/
def doRxCallback (m : Memory Byte) (registered : Bool) (skb : SkBuff) : Option (List RxCall) := do
  let skb ← skbPush skb ethHlen
  return if registered then [⟨skb.dev.ifindex, m.read skb.data skb.len, skb.len⟩] else []

def netifRx : Memory Byte → Bool → SkBuff → Option (List RxCall) := doRxCallback

def netifReceiveSkb : Memory Byte → Bool → SkBuff → Option (List RxCall) := doRxCallback

/-- How the driver hands a buffer on. -/
inductive Handoff where
  | netifRx
  | netifReceiveSkb
  deriving DecidableEq, Repr

def Handoff.run : Handoff → Memory Byte → Bool → SkBuff → Option (List RxCall)
  | .netifRx => Receive.netifRx
  | .netifReceiveSkb => Receive.netifReceiveSkb

/-- The driver fills a new buffer with a frame and hands it on; these are the calls the client
sees. -/
def receive (m : Memory Byte) (registered : Bool) (handoff : Handoff) (skb : SkBuff)
    (frame : List Byte) : Option (List RxCall) := do
  let m := m.store skb.tail frame
  let skb ← skbPut skb frame.length
  let (skb, _) ← ethTypeTrans m skb skb.dev
  handoff.run m registered skb

/-! ## Pulling and pushing -/

theorem Handoff.run_eq (handoff : Handoff) : handoff.run = doRxCallback := by
  cases handoff <;> rfl

/-- A buffer with a frame of `n` bytes, as `eth_type_trans` pulls at it. -/
def filled (head size reserve : Nat) (dev : NetDevice) (n : Nat) : SkBuff :=
  { allocSkb head size reserve dev with
    tail := head + reserve + n, len := 0 + n, macRaw := head + reserve }

section

variable (m : Memory Byte) (registered : Bool) (handoff : Handoff) (head reserve : Nat) {size : Nat}
  (dev : NetDevice) {frame : List Byte}

theorem receive_of_full (h : size < reserve + frame.length) :
    receive m registered handoff (allocSkb head size reserve dev) frame = none := by
  have hput : skbPut (allocSkb head size reserve dev) frame.length = none := by
    refine if_pos ?_
    show head + reserve + frame.length > head + size
    omega
  rw [receive, hput]
  rfl

/-- Once the header is pulled, the rest is up to the callback. -/
theorem receive_of_pull {skb : SkBuff} (h : reserve + frame.length ≤ size)
    (hpull : skbPull (filled head size reserve dev frame.length) ethHlen = some skb) :
    receive m registered handoff (allocSkb head size reserve dev) frame =
      doRxCallback (m.store (head + reserve) frame) registered
        (classify (m.store (head + reserve) frame) dev skb).1 := by
  have hput : skbPut (allocSkb head size reserve dev) frame.length =
      some { filled head size reserve dev frame.length with macRaw := 0 } := by
    refine if_neg ?_
    show ¬ head + reserve + frame.length > head + size
    omega
  rw [receive, hput, Handoff.run_eq]
  show ((skbPull (filled head size reserve dev frame.length) ethHlen).map _).bind _ = _
  rw [hpull]
  rfl

/-- A frame with a header loses it and gets it back. -/
theorem receive_of_long (h : reserve + frame.length ≤ size) (hlong : ethHlen ≤ frame.length) :
    receive m registered handoff (allocSkb head size reserve dev) frame =
      some (if registered then [⟨dev.ifindex, frame, frame.length⟩] else []) := by
  have hpull : skbPull (filled head size reserve dev frame.length) ethHlen =
      some { filled head size reserve dev frame.length with
        len := 0 + frame.length - ethHlen, data := head + reserve + ethHlen } := by
    rw [skbPull, if_neg, skbPullUnchecked, if_neg]
    · rfl
    · show ¬ 0 + frame.length - ethHlen < 0
      omega
    · show ¬ ethHlen > 0 + frame.length
      omega
  rw [receive_of_pull m registered handoff head reserve dev h hpull, doRxCallback, skbPush, if_neg]
  · show some (if registered then [RxCall.mk dev.ifindex
      ((m.store (head + reserve) frame).read (head + reserve + ethHlen - ethHlen)
        (0 + frame.length - ethHlen + ethHlen)) (0 + frame.length - ethHlen + ethHlen)] else []) = _
    have hlen : 0 + frame.length - ethHlen + ethHlen = frame.length := by omega
    rw [hlen, Nat.add_sub_cancel, Memory.read_store]
  · show ¬ head + reserve + ethHlen < head + ethHlen
    omega

/-- A frame without a header gets one: whatever is in front of it. -/
theorem receive_of_short (h : reserve + frame.length ≤ size) (hshort : frame.length < ethHlen) :
    receive m registered handoff (allocSkb head size reserve dev) frame =
      if reserve < ethHlen then none
      else some (if registered then [⟨dev.ifindex,
        (m.store (head + reserve) frame).read (head + reserve - ethHlen) (frame.length + ethHlen),
        frame.length + ethHlen⟩] else []) := by
  have hpull : skbPull (filled head size reserve dev frame.length) ethHlen =
      some (filled head size reserve dev frame.length) := by
    refine if_pos ?_
    show ethHlen > 0 + frame.length
    omega
  rw [receive_of_pull m registered handoff head reserve dev h hpull, doRxCallback, skbPush]
  by_cases hroom : reserve < ethHlen
  · rw [if_pos hroom, if_pos]
    · rfl
    · show head + reserve < head + ethHlen
      omega
  · rw [if_neg hroom, if_neg]
    · show some (if registered then [RxCall.mk dev.ifindex
        ((m.store (head + reserve) frame).read (head + reserve - ethHlen)
          (0 + frame.length + ethHlen)) (0 + frame.length + ethHlen)] else []) = _
      rw [Nat.zero_add]
    · show ¬ head + reserve < head + ethHlen
      omega

end

/-! ## The result -/

/-- **Which frames reach the client as they are.**  A frame in a linear buffer with any headroom,
handed on in either way: the callback is called once, with the bytes of the frame and its length,
exactly if the buffer has room for the frame, a callback is registered and the frame is not shorter
than an Ethernet header. -/
theorem receive_unchanged_iff (m : Memory Byte) (registered : Bool) (handoff : Handoff)
    (head size reserve : Nat) (dev : NetDevice) (frame : List Byte) :
    receive m registered handoff (allocSkb head size reserve dev) frame =
        some [⟨dev.ifindex, frame, frame.length⟩] ↔
      reserve + frame.length ≤ size ∧ registered = true ∧ ethHlen ≤ frame.length := by
  by_cases hroom : reserve + frame.length ≤ size
  · by_cases hlong : ethHlen ≤ frame.length
    · rw [receive_of_long m registered handoff head reserve dev hroom hlong]
      cases registered <;> simp [hroom, hlong]
    · refine iff_of_false ?_ (fun h => hlong h.2.2)
      rw [receive_of_short m registered handoff head reserve dev hroom (Nat.not_le.mp hlong)]
      intro h
      split at h
      · cases h
      · cases registered with
        | false => cases h
        | true =>
            have hlen : frame.length + ethHlen = frame.length :=
              congrArg RxCall.len (List.head_eq_of_cons_eq (Option.some.inj h))
            rw [ethHlen] at hlen
            omega
  · refine iff_of_false ?_ (fun h => hroom h.1)
    rw [receive_of_full m registered handoff head reserve dev (Nat.not_le.mp hroom)]
    exact nofun

/-- **A frame of one byte.**  The client is given 15, the first 14 of which were in the buffer
before; and without room in front of the frame the driver stops. -/
theorem short_frame_grows :
    let dev : NetDevice := ⟨1, List.replicate 6 0xff, [2, 0, 0, 0, 0, 1]⟩
    (receive (fun _ => 0xa5) true .netifRx (allocSkb 4096 64 16 dev) [0x5a] =
        some [⟨1, List.replicate 14 0xa5 ++ [0x5a], 15⟩]) ∧
      receive (fun _ => 0xa5) true .netifRx (allocSkb 4096 64 2 dev) [0x5a] = none := by
  decide

end LinuxDrivers.Net.Receive
