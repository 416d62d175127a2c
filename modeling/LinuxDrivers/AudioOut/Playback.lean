/-
# `LinuxDrivers.AudioOut.Playback` — what the PCM device is given to play

The playback thread takes a packet from each channel, puts them together to a period
of frames, and writes the period to the device until it is told that all went well:

    entry:  data = left and right packet, interleaved
            while (dde_linux26_audio_play(data, PERIOD))  complain
            acknowledge the packets
    play:   after an underrun, flush the hardware and prepare the device
            snd_pcm_writei(data, frame_cnt) =  frame_cnt    0
                                               -EPIPE       -2
                                               any other    -1

Any other includes the device that took a part of the frames.  The whole period is then
written again.

**Proved here.**

    data is the two packets, frame by frame                  (`frames_fill`)
    the device takes every frame once, in order, iff it never takes a part of a period
                                                             (`frames_once_iff`)
    a full write for every period is enough to get through  (`entry_returns`)
-/
import LinuxDrivers.AudioOut.Session
import Mathlib.Algebra.Order.BigOperators.Group.List
import Mathlib.Algebra.Order.Group.Nat

namespace LinuxDrivers.AudioOut

/-! ## The code -/

/-- How one call of `snd_pcm_writei` with `period` frames ends: with a number of frames
written, or with the negative of an error number. -/
inductive Reply (period : Nat) where
  | written (frames : Fin (period + 1))
  | error (errno : Nat)
  deriving DecidableEq, Repr

/-- One call of `dde_linux26_audio_play`: whether it finds the device in
`SND_PCM_STATE_XRUN`, and the reply. -/
structure Attempt (period : Nat) where
  xrun : Bool
  reply : Reply period
  deriving DecidableEq, Repr

/-- What the device, and the clients, see of the playback thread. -/
inductive Event (Short : Type) where
  | flushHw
  | prepare
  /-- the device has taken these frames -/
  | taken (frames : List (Short × Short))
  | acknowledge (c : ChannelNumber)
  deriving DecidableEq, Repr

/-- The frames the device has taken. -/
def accepted {Short : Type} (events : List (Event Short)) : List (Short × Short) :=
  events.flatMap (fun
    | .taken frames => frames
    | _ => [])

def epipe : Nat := 32

variable {period : Nat} {Sample Short : Type}

/-- The value of `snd_pcm_writei`. -/
def Reply.played : Reply period → Int
  | .written frames => frames.val
  | .error errno => -errno

/-- The number of frames it has taken. -/
def Reply.count : Reply period → Nat
  | .written frames => frames.val
  | .error _ => 0

def ddeLinux26AudioPlay (data : List (Short × Short)) (a : Attempt period) :
    Int × List (Event Short) :=
  let events := (if a.xrun then [.flushHw, .prepare] else []) ++ [.taken (data.take a.reply.count)]
  if a.reply.played ≠ period then
    if a.reply.played = -epipe then (-2, events) else (-1, events)
  else (0, events)

/-- The `while` loop around it, with the attempts that are left.  It has not ended if the
attempts run out. -/
def playAll (data : List (Short × Short)) :
    List (Attempt period) → Option (List (Event Short) × List (Attempt period))
  | [] => none
  | a :: attempts =>
      let (err, events) := ddeLinux26AudioPlay data a
      if err ≠ 0 then (playAll data attempts).map (fun r => (events ++ r.1, r.2))
      else some (events, attempts)

/-- One round of the loop. -/
theorem playAll_cons (data : List (Short × Short)) (a : Attempt period)
    (attempts : List (Attempt period)) :
    playAll data (a :: attempts) =
      if (ddeLinux26AudioPlay data a).1 ≠ 0 then
        (playAll data attempts).map (fun r => ((ddeLinux26AudioPlay data a).2 ++ r.1, r.2))
      else some ((ddeLinux26AudioPlay data a).2, attempts) := rfl

/-- The packets of one round. -/
structure Packets (Sample : Type) where
  left : Nat → Sample
  right : Nat → Sample
  leftValid : Bool
  rightValid : Bool

section
variable (scale : Sample → Short)

/-- `for (i = first; i < 2 * PERIOD; i += 2) data[i] = content[i / 2] * 32767` -/
def fill (period first : Nat) (content : Nat → Sample) (data : Nat → Short) : Nat → Short :=
  (List.range period).foldl (fun data k => Function.update data (2 * k + first) (scale (content k)))
    data

/-- The frames of an interleaved buffer. -/
def frames (period : Nat) (data : Nat → Short) : List (Short × Short) :=
  (List.range period).map (fun k => (data (2 * k), data (2 * k + 1)))

/-- The static buffer after the two loops; what was in it before is overwritten. -/
def Packets.fill (period : Nat) (p : Packets Sample) (data : Nat → Short) : Nat → Short :=
  AudioOut.fill scale period 1 p.right (AudioOut.fill scale period 0 p.left data)

def Packets.acknowledged (p : Packets Sample) : List (Event Short) :=
  (if p.leftValid then [.acknowledge .left] else []) ++
    (if p.rightValid then [.acknowledge .right] else [])

/-- The rounds of `Root::entry`, one for each pair of packets. -/
def entry (audioOutActive : Bool) : (Nat → Short) → List (Packets Sample) →
    List (Attempt period) → Option (List (Event Short) × List (Attempt period))
  | _, [], attempts => some ([], attempts)
  | data, p :: packets, attempts =>
      let data := p.fill scale period data
      let played := if audioOutActive then playAll (frames period data) attempts
        else some ([], attempts)
      match played with
      | none => none
      | some (events, attempts) =>
          (entry audioOutActive data packets attempts).map
            (fun r => (events ++ p.acknowledged ++ r.1, r.2))

/-- The period the packets stand for. -/
def Packets.frames (period : Nat) (p : Packets Sample) : List (Short × Short) :=
  (List.range period).map (fun k => (scale (p.left k), scale (p.right k)))

end

/-- The device has taken a part of the period. -/
def Attempt.part (a : Attempt period) : Bool := 0 < a.reply.count && a.reply.count < period

/-! ## The buffer -/

section
variable (scale : Sample → Short)

theorem fill_succ (n first : Nat) (content : Nat → Sample) (data : Nat → Short) :
    fill scale (n + 1) first content data =
      Function.update (fill scale n first content data) (2 * n + first) (scale (content n)) := by
  simp [fill, List.range_succ]

/-- The places of the other channel keep their values. -/
theorem fill_other (first : Nat) (content : Nat → Sample) (data : Nat → Short) {j : Nat}
    (hj : ∀ k, j ≠ 2 * k + first) : ∀ n, fill scale n first content data j = data j := by
  intro n
  induction n with
  | zero => rfl
  | succ n ih => rw [fill_succ, Function.update_of_ne (hj n), ih]

theorem fill_own (first : Nat) (content : Nat → Sample) (data : Nat → Short) {k : Nat} :
    ∀ n, k < n → fill scale n first content data (2 * k + first) = scale (content k) := by
  intro n
  induction n with
  | zero =>
      intro hk
      cases hk
  | succ n ih =>
      intro hk
      rw [fill_succ]
      by_cases heq : k = n
      · subst heq
        exact Function.update_self ..
      · rw [Function.update_of_ne (by omega), ih (by omega)]

/-- The buffer holds the two packets, frame by frame. -/
theorem frames_fill (p : Packets Sample) (data : Nat → Short) :
    frames period (p.fill scale period data) = p.frames scale period := by
  refine List.map_congr_left ?_
  intro k hk
  have hk : k < period := List.mem_range.mp hk
  refine Prod.ext ?_ ?_
  · show fill scale period 1 p.right _ (2 * k) = scale (p.left k)
    rw [fill_other scale 1 p.right _ (fun i => by omega) period]
    exact fill_own scale 0 p.left data period hk
  · exact fill_own scale 1 p.right _ period hk

end

/-! ## The frames the device takes -/

@[simp] theorem accepted_append (es fs : List (Event Short)) :
    accepted (es ++ fs) = accepted es ++ accepted fs :=
  List.flatMap_append

theorem accepted_acknowledged (p : Packets Sample) :
    accepted (p.acknowledged : List (Event Short)) = [] := by
  rw [Packets.acknowledged]
  cases p.leftValid <;> cases p.rightValid <;> rfl

theorem accepted_play (data : List (Short × Short)) (a : Attempt period) :
    accepted (ddeLinux26AudioPlay data a).2 = data.take a.reply.count := by
  have hevents : (ddeLinux26AudioPlay data a).2 =
      (if a.xrun then [.flushHw, .prepare] else []) ++ [.taken (data.take a.reply.count)] := by
    unfold ddeLinux26AudioPlay
    simp only
    split
    · split <;> rfl
    · rfl
  rw [hevents]
  cases a.xrun <;> simp [accepted]

/-- Only a full write ends the loop. -/
theorem play_eq_zero (data : List (Short × Short)) (a : Attempt period) :
    (ddeLinux26AudioPlay data a).1 = 0 ↔ a.reply.played = period := by
  unfold ddeLinux26AudioPlay
  simp only
  split
  · rename_i hne
    refine iff_of_false ?_ hne
    split
    · exact show (-2 : Int) ≠ 0 by decide
    · exact show (-1 : Int) ≠ 0 by decide
  · rename_i heq
    exact iff_of_true rfl (not_not.mp heq)

theorem count_le (r : Reply period) : r.count ≤ period := by
  cases r with
  | written n => exact Nat.lt_succ_iff.mp n.isLt
  | error e => exact Nat.zero_le _

/-- A full write has taken all the frames, and any other attempt a part or nothing. -/
theorem count_of_played {r : Reply period} (h : r.played = period) : r.count = period := by
  cases r with
  | written n => exact Int.ofNat.inj h
  | error e =>
      show 0 = period
      simp only [Reply.played] at h
      omega

theorem count_of_not_played {r : Reply period} (h : r.played ≠ period) :
    r.count = 0 ∨ r.count < period := by
  cases r with
  | written n =>
      have hne : n.val ≠ period := fun heq => h (congrArg Nat.cast heq)
      have hle := n.isLt
      exact .inr (show n.val < period by omega)
  | error e => exact .inl rfl

/-- The frames that are written in vain. -/
def Attempt.wasted (a : Attempt period) : Nat := if a.part then a.reply.count else 0

theorem wasted_eq_zero (a : Attempt period) : a.wasted = 0 ↔ a.part = false := by
  unfold Attempt.wasted
  split
  · rename_i hpart
    have hpos : 0 < a.reply.count ∧ a.reply.count < period := by simpa [Attempt.part] using hpart
    exact iff_of_false (by omega) (by simp [hpart])
  · rename_i hpart
    exact iff_of_true rfl (by simpa using hpart)

theorem wasted_of_not_played {a : Attempt period} (h : a.reply.played ≠ period) :
    a.wasted = a.reply.count := by
  unfold Attempt.wasted Attempt.part
  rcases count_of_not_played h with hzero | hlt
  · simp [hzero]
  · by_cases hpos : 0 < a.reply.count
    · simp [hpos, hlt]
    · simp [Nat.eq_zero_of_not_pos hpos]

theorem part_of_played {a : Attempt period} (h : a.reply.played = period) : a.part = false := by
  simp [Attempt.part, count_of_played h]

/-- The wasted frames of several attempts. -/
def wasted (attempts : List (Attempt period)) : Nat := (attempts.map (·.wasted)).sum

theorem wasted_append (as bs : List (Attempt period)) : wasted (as ++ bs) = wasted as + wasted bs := by
  simp [wasted]

/-- What a part of a run has done: it has made the attempts `tried`, the device has taken
the frames of `data` and those wasted, and `data` alone if there are none of these. -/
structure Delivered (data : List (Short × Short)) (tried : List (Attempt period))
    (events : List (Event Short)) : Prop where
  length : (accepted events).length = data.length + wasted tried
  clean : (∀ a ∈ tried, a.part = false) → accepted events = data

theorem Delivered.append {data data' : List (Short × Short)} {tried tried' : List (Attempt period)}
    {events events' : List (Event Short)} (h : Delivered data tried events)
    (h' : Delivered data' tried' events') :
    Delivered (data ++ data') (tried ++ tried') (events ++ events') where
  length := by
    rw [accepted_append, List.length_append, h.length, h'.length, List.length_append, wasted_append]
    omega
  clean := by
    intro hclean
    rw [accepted_append, h.clean fun a ha => hclean a (List.mem_append_left _ ha),
      h'.clean fun a ha => hclean a (List.mem_append_right _ ha)]

/-- The loop for one period. -/
theorem playAll_delivered {data : List (Short × Short)} (hlen : data.length = period) :
    ∀ {attempts rest : List (Attempt period)} {events : List (Event Short)},
      playAll data attempts = some (events, rest) →
        ∃ tried, attempts = tried ++ rest ∧ Delivered data tried events := by
  intro attempts
  induction attempts with
  | nil =>
      intro rest events h
      cases h
  | cons a attempts ih =>
      intro rest events h
      rw [playAll_cons] at h
      split at h
      · -- written again
        rename_i herr
        have hnot : a.reply.played ≠ period := fun heq => herr ((play_eq_zero data a).mpr heq)
        obtain ⟨⟨events', rest'⟩, hrec, heq⟩ := Option.map_eq_some_iff.mp h
        cases heq
        obtain ⟨tried, rfl, hdel⟩ := ih hrec
        refine ⟨a :: tried, rfl, ?_, ?_⟩
        · have htake := count_le a.reply
          rw [accepted_append, accepted_play, List.length_append, List.length_take, hdel.length]
          show _ = data.length + (a.wasted + wasted tried)
          rw [wasted_of_not_played hnot, hlen]
          omega
        · intro hclean
          have hzero := (wasted_eq_zero a).mpr (hclean a List.mem_cons_self)
          rw [wasted_of_not_played hnot] at hzero
          rw [accepted_append, accepted_play, hzero, List.take_zero, List.nil_append]
          exact hdel.clean fun b hb => hclean b (List.mem_cons_of_mem _ hb)
      · rename_i herr
        have hfull : a.reply.played = period := (play_eq_zero data a).mp (not_not.mp herr)
        cases h
        have hall : accepted (ddeLinux26AudioPlay data a).2 = data := by
          rw [accepted_play, count_of_played hfull, ← hlen, List.take_length]
        refine ⟨[a], rfl, ?_, fun _ => hall⟩
        rw [hall]
        simp [wasted, (wasted_eq_zero a).mpr (part_of_played hfull)]

section
variable (scale : Sample → Short)

/-- All the rounds. -/
theorem entry_delivered : ∀ (packets : List (Packets Sample)) (data : Nat → Short)
    (attempts rest : List (Attempt period)) (events : List (Event Short)),
      entry scale true data packets attempts = some (events, rest) →
        ∃ tried, attempts = tried ++ rest ∧
          Delivered (packets.flatMap (·.frames scale period)) tried events := by
  intro packets
  induction packets with
  | nil =>
      intro data attempts rest events h
      cases h
      exact ⟨[], rfl, rfl, fun _ => rfl⟩
  | cons p packets ih =>
      intro data attempts rest events h
      simp only [entry, if_true, frames_fill] at h
      split at h
      · cases h
      · rename_i events₁ attempts₁ hplay
        obtain ⟨⟨events₂, rest₂⟩, hrec, heq⟩ := Option.map_eq_some_iff.mp h
        cases heq
        obtain ⟨tried₁, rfl, hdel₁⟩ := playAll_delivered (by simp [Packets.frames]) hplay
        obtain ⟨tried₂, rfl, hdel₂⟩ := ih _ _ _ _ hrec
        refine ⟨tried₁ ++ tried₂, (List.append_assoc ..).symm, ?_⟩
        refine Delivered.append ⟨?_, ?_⟩ hdel₂
        · rw [accepted_append, accepted_acknowledged, List.append_nil]
          exact hdel₁.length
        · rw [accepted_append, accepted_acknowledged, List.append_nil]
          exact hdel₁.clean

/-- **When every frame is played once.**  Packets are taken only while there are sessions,
so with `audio_out_active` set.  For all packets, and all attempts it takes to play them, the
device has taken exactly the periods one after the other if and only if no attempt ended with
a part of a period written. -/
theorem frames_once_iff (data : Nat → Short) (packets : List (Packets Sample))
    (attempts : List (Attempt period)) (events : List (Event Short))
    (hrun : entry scale true data packets attempts = some (events, [])) :
    accepted events = packets.flatMap (·.frames scale period) ↔
      ∀ a ∈ attempts, a.part = false := by
  obtain ⟨tried, htried, hdel⟩ := entry_delivered scale packets data attempts [] events hrun
  rw [List.append_nil] at htried
  subst htried
  refine ⟨?_, hdel.clean⟩
  intro hall a ha
  have hlength := hdel.length
  rw [hall] at hlength
  have hnone : wasted attempts = 0 := by omega
  exact (wasted_eq_zero a).mp (List.sum_eq_zero_iff.mp hnone _ (List.mem_map_of_mem ha))

end

/-- One period, an underrun, and then a full write. -/
theorem underrun_frames_once :
    ∃ events, entry (fun x : Int => x * 32767) true (fun _ => 0)
        [⟨fun k => k, fun k => -k, true, true⟩] [⟨false, .error 32⟩, ⟨true, .written (4 : Fin 5)⟩] =
          some (events, []) ∧
      accepted events = [(0, 0), (32767, -32767), (65534, -65534), (98301, -98301)] := by
  refine ⟨_, rfl, ?_⟩
  refine ((frames_once_iff (fun x : Int => x * 32767) (fun _ => 0)
    [⟨fun k => k, fun k => -k, true, true⟩] [⟨false, .error 32⟩, ⟨true, .written (4 : Fin 5)⟩]
    _ rfl).mpr (by decide)).trans ?_
  decide

/-- **A frame is played twice.**  Of a period of 1024 frames the device takes one, and then
all. -/
theorem part_frames_twice :
    ∃ events, entry (fun x : Int => x * 32767) true (fun _ => 0)
        [⟨fun k => k, fun k => -k, true, true⟩]
        [⟨false, .written (1 : Fin 1025)⟩, ⟨false, .written (1024 : Fin 1025)⟩] =
          some (events, []) ∧
      accepted events ≠ [⟨fun k => k, fun k => -k, true, true⟩].flatMap
        (Packets.frames (fun x : Int => x * 32767) 1024) := by
  refine ⟨_, rfl, ?_⟩
  intro hall
  obtain ⟨tried, htried, hdel⟩ := entry_delivered (fun x : Int => x * 32767)
    [⟨fun k => k, fun k => -k, true, true⟩] (fun _ => 0)
    [⟨false, .written (1 : Fin 1025)⟩, ⟨false, .written (1024 : Fin 1025)⟩] [] _ rfl
  have hwasted : 0 < wasted tried := by
    rw [List.append_nil] at htried
    subst htried
    decide
  have hlength := hdel.length
  rw [hall] at hlength
  exact absurd hlength (Nat.ne_of_lt (Nat.lt_add_of_pos_right hwasted))

/-! ## Getting through -/

def Attempt.full (a : Attempt period) : Bool := a.reply.played == period

/-- The loop for one period ends with the first full write. -/
theorem playAll_returns (data : List (Short × Short)) :
    ∀ attempts : List (Attempt period), 0 < attempts.countP (·.full) →
      ∃ events rest, playAll data attempts = some (events, rest) ∧
        rest.countP (·.full) + 1 = attempts.countP (·.full) := by
  intro attempts
  induction attempts with
  | nil =>
      intro h
      cases h
  | cons a attempts ih =>
      intro h
      cases hfull : a.full with
      | true =>
          have hzero := (play_eq_zero data a).mpr (beq_iff_eq.mp hfull)
          refine ⟨(ddeLinux26AudioPlay data a).2, attempts, ?_, ?_⟩
          · rw [playAll_cons, if_neg (not_not.mpr hzero)]
          · rw [List.countP_cons_of_pos (by exact hfull)]
      | false =>
          rw [List.countP_cons_of_neg (by simp [hfull])] at h ⊢
          have herr : (ddeLinux26AudioPlay data a).1 ≠ 0 :=
            fun hzero => beq_eq_false_iff_ne.mp hfull ((play_eq_zero data a).mp hzero)
          obtain ⟨events, rest, hrec, hcount⟩ := ih h
          refine ⟨(ddeLinux26AudioPlay data a).2 ++ events, rest, ?_, hcount⟩
          rw [playAll_cons, if_pos herr, hrec]
          rfl

/-- With a full write for every period the thread gets through all of them. -/
theorem entry_returns (scale : Sample → Short) (audioOutActive : Bool) :
    ∀ (packets : List (Packets Sample)) (data : Nat → Short) (attempts : List (Attempt period)),
      packets.length ≤ attempts.countP (·.full) →
        ∃ r, entry scale audioOutActive data packets attempts = some r := by
  intro packets
  induction packets with
  | nil =>
      intro data attempts _
      exact ⟨_, rfl⟩
  | cons p packets ih =>
      intro data attempts h
      rw [List.length_cons] at h
      cases audioOutActive with
      | true =>
          obtain ⟨events, rest, hplay, hcount⟩ :=
            playAll_returns (frames period (p.fill scale period data)) attempts (by omega)
          obtain ⟨r, hrec⟩ := ih (p.fill scale period data) rest (by omega)
          simp only [entry, if_true, hplay, hrec]
          exact ⟨_, rfl⟩
      | false =>
          obtain ⟨r, hrec⟩ := ih (p.fill scale period data) attempts (by omega)
          simp only [entry, Bool.false_eq_true, if_false, hrec]
          exact ⟨_, rfl⟩

end LinuxDrivers.AudioOut
