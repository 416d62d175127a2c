/-
# `LinuxDrivers.AudioOut.Session` — sessions of the audio-out driver

`audio_out/main.cc` has two threads.  The entrypoint creates and closes sessions, one
per channel, and the playback thread plays while there is one for each channel.  What
keeps them apart is one semaphore, with a token for every session:

    constructor    channel_acquired[c] = this;  up
    destructor     down;  channel_acquired[c] = 0;  free
    playback       down, down;  read both pointers, play, acknowledge;  up, up

The pointers themselves are read without any lock.

The playback thread takes its tokens one by one.  While it waits for the second one with
the first in its hands, a destructor that finds no token waits for it, and it for a
session that only the thread in the destructor could create.

**Proved here.**

    one session per channel; the tokens are counted; playback has both its pointers, to
    sessions that are not destroyed before it is done      (`playback_touches_live_sessions`)
    sessions are closed only while both channels have one ⟹ no deadlock
                                                          (`no_deadlock_of_paired_close`)
    closing the only session can always be driven into it  (`last_close_can_deadlock`)
-/
import LinuxDrivers.Basic
import LinuxDrivers.Lib.Machine
import Mathlib.Data.List.Nodup
import Mathlib.Data.List.Perm.Subperm

namespace LinuxDrivers.AudioOut

open LinuxDrivers.Lib

/-! ## Session requests -/

/-- `Channel_number`, without the mark for no channel. -/
inductive ChannelNumber where
  | left
  | right
  deriving DecidableEq, Repr

def names : List (String × ChannelNumber) :=
  [("left", .left), ("front left", .left), ("right", .right), ("front right", .right)]

def channelNumberFromString (name : String) : Option ChannelNumber :=
  (names.find? (·.1 == name)).map (·.2)

/-- The exceptions of the root interface. -/
inductive RootError where
  | quotaExceeded
  | invalidArgs
  | unavailable
  deriving DecidableEq, Repr

/-- The arguments of a request, each of which may be missing. -/
structure SessionArgs where
  ramQuota : Option Word
  bufferSize : Option Word
  channel : Option String
  deriving DecidableEq, Repr

/-- `find_arg(args, "channel").string(channel_name, 16, "left")` -/
def SessionArgs.channelName (args : SessionArgs) : String :=
  match args.channel with
  | some name => String.ofList (name.toList.take 15)
  | none => "left"

/-- `Session_component`, by its address. -/
structure Session where
  addr : Nat
  channel : ChannelNumber
  deriving DecidableEq, Repr

/-- `channel_acquired` -/
abbrev Acquired := ChannelNumber → Option Nat

/-- `Root_policy::aquire`.  `sessionSize` is the size of a `Session_component`, rounded up to
pages. -/
def aquire (sessionSize : Word) (acquired : Acquired) (args : SessionArgs) : Except RootError Unit :=
  let ramQuota := args.ramQuota.getD 0
  let bufferSize := args.bufferSize.getD 0
  if ramQuota < sessionSize || bufferSize > ramQuota - sessionSize then .error .quotaExceeded
  else
    match channelNumberFromString args.channelName with
    | none => .error .invalidArgs
    | some c => if (acquired c).isSome then .error .unavailable else .ok ()

/-- `_create_session`, up to the constructor: the channel of the new session. -/
def createSession (audioOutActive : Bool) (args : SessionArgs) : Except RootError ChannelNumber :=
  if !audioOutActive then .error .unavailable
  else
    match channelNumberFromString args.channelName with
    | some c => .ok c
    -- the mark for no channel; `aquire` has refused these names
    | none => .error .invalidArgs

/-- What the root component does with a request. -/
def request (sessionSize : Word) (audioOutActive : Bool) (acquired : Acquired)
    (args : SessionArgs) : Except RootError ChannelNumber :=
  match aquire sessionSize acquired args with
  | .error e => .error e
  | .ok () => createSession audioOutActive args

/-- A request that is accepted is for a channel without a session. -/
theorem request_ok {sessionSize : Word} {active : Bool} {acquired : Acquired} {args : SessionArgs}
    {c : ChannelNumber} (h : request sessionSize active acquired args = .ok c) :
    acquired c = none := by
  unfold request aquire at h
  simp only at h
  split at h
  · cases h
  · rename_i haq
    split at haq
    · cases haq
    · split at haq
      · cases haq
      · rename_i c' hname
        split at haq
        · cases haq
        · rename_i hfree
          unfold createSession at h
          rw [hname] at h
          split at h
          · cases h
          · cases h
            simpa using hfree

/-! ## The two threads -/

/-- Where the entrypoint thread is, with the session it is at. -/
inductive Entrypoint where
  | idle
  /-- in the constructor, about to store the pointer -/
  | construct (o : Session)
  /-- in the constructor, about to `up` -/
  | signal (o : Session)
  /-- in the destructor, in `down` -/
  | destroy (o : Session)
  /-- in the destructor, about to clear the pointer -/
  | clear (o : Session)
  /-- about to free the session -/
  | free (o : Session)
  deriving DecidableEq, Repr

/-- The accesses to the sessions of the two pointers, and the writing between them. -/
inductive Stage where
  | getLeft
  | getRight
  | write
  | ackLeft
  | ackRight
  deriving DecidableEq, Repr

/-- Where the playback thread is. -/
inductive Player where
  /-- in `down`, in round `i` of the loop -/
  | down (i : ChannelNumber)
  | loadLeft
  | loadRight (left : Option Nat)
  | play (left right : Option Nat) (stage : Stage)
  /-- about to `up`, in round `i` of the loop -/
  | up (i : ChannelNumber)
  deriving DecidableEq, Repr

structure State where
  channelSema : Nat
  channelAcquired : Acquired
  /-- the sessions no constructor or destructor is at work on -/
  sessions : List Session
  entrypoint : Entrypoint
  player : Player

inductive Action where
  /-- a session request, with the memory for the new session if there is any -/
  | request (args : SessionArgs) (memory : Option Nat)
  | close (addr : Nat)
  /-- the entrypoint thread continues -/
  | entrypoint
  | player
  deriving DecidableEq, Repr

def stepEntrypoint (s : State) : Option State :=
  match s.entrypoint with
  | .idle => none
  | .construct o =>
      some { s with channelAcquired := Function.update s.channelAcquired o.channel (some o.addr)
                    entrypoint := .signal o }
  | .signal o =>
      some { s with channelSema := s.channelSema + 1, sessions := o :: s.sessions
                    entrypoint := .idle }
  | .destroy o =>
      match s.channelSema with
      | 0 => none
      | n + 1 => some { s with channelSema := n, entrypoint := .clear o }
  | .clear o =>
      some { s with channelAcquired := Function.update s.channelAcquired o.channel none
                    entrypoint := .free o }
  | .free _ => some { s with entrypoint := .idle }

def stepPlayer (s : State) : Option State :=
  match s.player with
  | .down i =>
      match s.channelSema with
      | 0 => none
      | n + 1 =>
          some { s with channelSema := n
                        player := match i with
                          | .left => .down .right
                          | .right => .loadLeft }
  | .loadLeft => some { s with player := .loadRight (s.channelAcquired .left) }
  | .loadRight left => some { s with player := .play left (s.channelAcquired .right) .getLeft }
  | .play left right .getLeft => some { s with player := .play left right .getRight }
  | .play left right .getRight => some { s with player := .play left right .write }
  | .play left right .write => some { s with player := .play left right .ackLeft }
  | .play left right .ackLeft => some { s with player := .play left right .ackRight }
  | .play _ _ .ackRight => some { s with player := .up .left }
  | .up i =>
      some { s with channelSema := s.channelSema + 1
                    player := match i with
                      | .left => .up .right
                      | .right => .down .left }

section
variable (sessionSize : Word) (audioOutActive : Bool)

/-- Requests and closings find the entrypoint thread idle: it handles one at a time. -/
def step (s : State) : Action → Option State
  | .request args memory =>
      if s.entrypoint ≠ .idle then none
      else
        match request sessionSize audioOutActive s.channelAcquired args, memory with
        | .ok c, some addr =>
            -- memory that is in use is not handed out
            if addr ∈ s.sessions.map (·.addr) then none
            else some { s with entrypoint := .construct ⟨addr, c⟩ }
        | _, _ => some s
  | .close addr =>
      if s.entrypoint ≠ .idle then none
      else
        match s.sessions.find? (·.addr == addr) with
        | none => none
        | some o => some { s with sessions := s.sessions.erase o, entrypoint := .destroy o }
  | .entrypoint => stepEntrypoint s
  | .player => stepPlayer s

def initial : State := ⟨0, fun _ => none, [], .idle, .down .left⟩

def machine : Machine State Action where
  init s := s = initial
  step := step sessionSize audioOutActive

end

/-! ## What is to hold -/

/-- The session the entrypoint thread is at. -/
def Entrypoint.live : Entrypoint → List Session
  | .idle => []
  | .construct o | .signal o | .destroy o | .clear o | .free o => [o]

/-- That session, while the pointer of its channel refers to it. -/
def Entrypoint.pointed : Entrypoint → List Session
  | .signal o | .destroy o | .clear o => [o]
  | _ => []

/-- That session, if its destructor has not passed its wait. -/
def Entrypoint.signalled : Entrypoint → List Session
  | .destroy o => [o]
  | _ => []

/-- The sessions that exist. -/
def State.live (s : State) : List Session := s.entrypoint.live ++ s.sessions

def State.pointed (s : State) : List Session := s.entrypoint.pointed ++ s.sessions

/-- The sessions that have signalled their creation and not taken their token back. -/
def State.signalled (s : State) : List Session := s.entrypoint.signalled ++ s.sessions

/-- The tokens of the playback thread. -/
def Player.held : Player → Nat
  | .down .left => 0
  | .down .right | .up .right => 1
  | .loadLeft | .loadRight _ | .play _ _ _ | .up .left => 2

/-- The copies of the pointers that the playback thread has made are those of `a`. -/
def Player.Current (a : Acquired) : Player → Prop
  | .loadRight left => left = a .left
  | .play left right _ => left = a .left ∧ right = a .right
  | _ => True

structure Safe (s : State) : Prop where
  /-- at most one session per channel -/
  once : (s.live.map (·.channel)).Nodup
  tokens : s.channelSema + s.player.held = s.signalled.length
  /-- with both tokens: each pointer refers to a session that is not destroyed -/
  pointers : s.player.held = 2 → ∀ c, ∃ o ∈ s.signalled, o.channel = c ∧
    s.channelAcquired c = some o.addr
  current : s.player.Current s.channelAcquired

/-- The playback thread waits for its second token, the entrypoint in a destructor, and
there is none. -/
def Deadlocked (s : State) : Prop :=
  s.player = .down .right ∧ (∃ o, s.entrypoint = .destroy o) ∧ s.channelSema = 0

/-! ## The invariant -/

structure Inv (s : State) : Prop where
  once : (s.live.map (·.channel)).Nodup
  acquired : ∀ c addr, s.channelAcquired c = some addr ↔ ⟨addr, c⟩ ∈ s.pointed
  tokens : s.channelSema + s.player.held = s.signalled.length
  current : s.player.Current s.channelAcquired

theorem Inv.initial : Inv initial where
  once := List.nodup_nil
  acquired := by simp [AudioOut.initial, State.pointed, Entrypoint.pointed]
  tokens := rfl
  current := trivial

/-- There are two channels. -/
theorem length_le_two {l : List ChannelNumber} (h : l.Nodup) : l.length ≤ 2 := by
  have hsub : l ⊆ [.left, .right] := by
    intro c _
    cases c <;> simp
  exact (List.subperm_of_subset h hsub).length_le

/-- Two of them are all. -/
theorem mem_of_length_two {l : List ChannelNumber} (h : l.Nodup) (hlen : 2 ≤ l.length)
    (c : ChannelNumber) : c ∈ l := by
  by_contra hc
  have hmore := length_le_two (List.nodup_cons.mpr ⟨hc, h⟩)
  rw [List.length_cons] at hmore
  omega

section
variable {s s' : State}

theorem Inv.live_le (hs : Inv s) : s.live.length ≤ 2 := by
  simpa using length_le_two hs.once

theorem Entrypoint.signalled_sublist (e : Entrypoint) : e.signalled.Sublist e.live := by
  cases e <;> simp [signalled, live]

theorem Entrypoint.signalled_sublist_pointed (e : Entrypoint) :
    e.signalled.Sublist e.pointed := by
  cases e <;> simp [signalled, pointed]

/-- The sessions with a token have different channels. -/
theorem Inv.signalled_nodup (hs : Inv s) : (s.signalled.map (·.channel)).Nodup :=
  hs.once.sublist ((s.entrypoint.signalled_sublist.append_right _).map _)

/-- With both tokens in the hands of the playback thread, no session is on its way. -/
theorem Inv.both_live (hs : Inv s) (hheld : s.player.held = 2) :
    s.entrypoint.live.length ≤ s.entrypoint.signalled.length := by
  have hlive := hs.live_le
  have htokens := hs.tokens
  rw [State.live, List.length_append] at hlive
  rw [State.signalled, List.length_append, hheld] at htokens
  omega

theorem Inv.both_pointed (hs : Inv s) (hheld : s.player.held = 2) (c : ChannelNumber) :
    ∃ o ∈ s.signalled, o.channel = c ∧ s.channelAcquired c = some o.addr := by
  have htokens := hs.tokens
  have hmem := mem_of_length_two hs.signalled_nodup (by rw [List.length_map]; omega) c
  obtain ⟨o, ho, rfl⟩ := List.mem_map.mp hmem
  have hpointed : o ∈ s.pointed :=
    (s.entrypoint.signalled_sublist_pointed.append_right s.sessions).subset ho
  exact ⟨o, ho, rfl, (hs.acquired _ _).mpr hpointed⟩

theorem Inv.safe (hs : Inv s) : Safe s := ⟨hs.once, hs.tokens, hs.both_pointed, hs.current⟩

/-- While the pointers change, the playback thread has made no copies: it would have both
tokens. -/
theorem Inv.current_of_moving (hs : Inv s)
    (hmoving : s.entrypoint.signalled.length < s.entrypoint.live.length) (a : Acquired) :
    s.player.Current a := by
  have hheld : s.player.held ≠ 2 := by
    intro hheld
    have hle := hs.both_live hheld
    omega
  cases hp : s.player with
  | down i => trivial
  | up i => trivial
  | loadLeft => trivial
  | loadRight left => exact absurd (by rw [hp]; rfl) hheld
  | play left right stage => exact absurd (by rw [hp]; rfl) hheld

/-- No other session has the channel of the one the entrypoint is at. -/
theorem Inv.alone (hs : Inv s) {o : Session} (ho : s.entrypoint.live = [o]) (addr : Nat) :
    ⟨addr, o.channel⟩ ∉ s.sessions := by
  have honce := hs.once
  rw [State.live, ho] at honce
  intro hmem
  exact (List.nodup_cons.mp honce).1 (List.mem_map.mpr ⟨_, hmem, rfl⟩)

/-- Storing the pointer. -/
theorem Inv.construct (hs : Inv s) {o : Session} (he : s.entrypoint = .construct o) :
    Inv { s with channelAcquired := Function.update s.channelAcquired o.channel (some o.addr)
                 entrypoint := .signal o } := by
  have halone := hs.alone (o := o) (by rw [he]; rfl)
  have hmoving := hs.current_of_moving (by rw [he]; exact Nat.zero_lt_one)
  obtain ⟨honce, hacquired, htokens, -⟩ := hs
  simp only [State.live, State.pointed, State.signalled, he, Entrypoint.live, Entrypoint.pointed,
    Entrypoint.signalled, List.nil_append] at honce hacquired htokens
  refine ⟨honce, ?_, htokens, hmoving _⟩
  intro c addr
  show Function.update s.channelAcquired o.channel (some o.addr) c = some addr ↔ ⟨addr, c⟩ ∈ o :: s.sessions
  by_cases hc : c = o.channel
  · subst hc
    rw [Function.update_self, List.mem_cons, Option.some.injEq]
    constructor
    · rintro rfl
      exact .inl rfl
    · rintro (heq | hmem)
      · exact (congrArg Session.addr heq).symm
      · exact absurd hmem (halone addr)
  · rw [Function.update_of_ne hc, hacquired, List.mem_cons]
    refine ⟨.inr, ?_⟩
    rintro (rfl | hmem)
    · exact absurd rfl hc
    · exact hmem

/-- Clearing the pointer. -/
theorem Inv.clear (hs : Inv s) {o : Session} (he : s.entrypoint = .clear o) :
    Inv { s with channelAcquired := Function.update s.channelAcquired o.channel none
                 entrypoint := .free o } := by
  have halone := hs.alone (o := o) (by rw [he]; rfl)
  have hmoving := hs.current_of_moving (by rw [he]; exact Nat.zero_lt_one)
  obtain ⟨honce, hacquired, htokens, -⟩ := hs
  simp only [State.live, State.pointed, State.signalled, he, Entrypoint.live, Entrypoint.pointed,
    Entrypoint.signalled, List.nil_append] at honce hacquired htokens
  refine ⟨honce, ?_, htokens, hmoving _⟩
  intro c addr
  show Function.update s.channelAcquired o.channel none c = some addr ↔ ⟨addr, c⟩ ∈ s.sessions
  by_cases hc : c = o.channel
  · subst hc
    rw [Function.update_self]
    exact iff_of_false nofun (halone addr)
  · rw [Function.update_of_ne hc, hacquired]
    constructor
    · intro hmem
      rcases List.mem_cons.mp hmem with rfl | hmem
      · exact absurd rfl hc
      · exact hmem
    · exact List.mem_cons_of_mem _

theorem stepEntrypoint_inv (hs : Inv s) (hstep : stepEntrypoint s = some s') : Inv s' := by
  unfold stepEntrypoint at hstep
  cases he : s.entrypoint with
  | idle =>
      rw [he] at hstep
      cases hstep
  | construct o =>
      rw [he] at hstep
      cases hstep
      exact hs.construct he
  | signal o =>
      rw [he] at hstep
      cases hstep
      obtain ⟨honce, hacquired, htokens, hcurrent⟩ := hs
      simp only [State.live, State.pointed, State.signalled, he, Entrypoint.live,
        Entrypoint.pointed, Entrypoint.signalled, List.nil_append] at honce hacquired htokens
      refine ⟨honce, hacquired, ?_, hcurrent⟩
      show s.channelSema + 1 + s.player.held = s.sessions.length + 1
      omega
  | destroy o =>
      rw [he] at hstep
      simp only at hstep
      split at hstep
      · cases hstep
      · rename_i n hn
        cases hstep
        obtain ⟨honce, hacquired, htokens, hcurrent⟩ := hs
        simp only [State.live, State.pointed, State.signalled, he, Entrypoint.live,
          Entrypoint.pointed, Entrypoint.signalled] at honce hacquired htokens
        refine ⟨honce, hacquired, ?_, hcurrent⟩
        show n + s.player.held = s.sessions.length
        rw [List.length_append, List.length_singleton, hn] at htokens
        omega
  | clear o =>
      rw [he] at hstep
      cases hstep
      exact hs.clear he
  | free o =>
      rw [he] at hstep
      cases hstep
      obtain ⟨honce, hacquired, htokens, hcurrent⟩ := hs
      simp only [State.live, State.pointed, State.signalled, he, Entrypoint.live,
        Entrypoint.pointed, Entrypoint.signalled, List.nil_append] at honce hacquired htokens
      exact ⟨(List.nodup_cons.mp honce).2, hacquired, htokens, hcurrent⟩

/-- A step of the playback thread that leaves the sessions alone and accounts for its
tokens. -/
theorem Inv.player (hs : Inv s) {n : Nat} {p : Player}
    (htokens : n + p.held = s.channelSema + s.player.held) (hcurrent : p.Current s.channelAcquired) :
    Inv { s with channelSema := n, player := p } :=
  ⟨hs.once, hs.acquired, htokens.trans hs.tokens, hcurrent⟩

theorem stepPlayer_inv (hs : Inv s) (hstep : stepPlayer s = some s') : Inv s' := by
  have hcurrent := hs.current
  unfold stepPlayer at hstep
  cases hp : s.player with
  | down i =>
      rw [hp] at hstep
      simp only at hstep
      split at hstep
      · cases hstep
      · rename_i n hn
        cases hstep
        refine hs.player ?_ (by cases i <;> trivial)
        rw [hp, hn]
        cases i <;> simp [Player.held]
  | loadLeft =>
      rw [hp] at hstep
      cases hstep
      exact hs.player (by rw [hp]; rfl) rfl
  | loadRight left =>
      rw [hp] at hstep hcurrent
      cases hstep
      exact hs.player (by rw [hp]; rfl) ⟨hcurrent, rfl⟩
  | play left right stage =>
      rw [hp] at hstep hcurrent
      cases stage with
      | ackRight =>
          cases hstep
          exact hs.player (by rw [hp]; rfl) trivial
      | getLeft | getRight | write | ackLeft =>
          cases hstep
          exact hs.player (by rw [hp]; rfl) hcurrent
  | up i =>
      rw [hp] at hstep
      cases hstep
      refine hs.player ?_ (by cases i <;> trivial)
      rw [hp]
      cases i <;> simp [Player.held]

variable {sessionSize : Word} {audioOutActive : Bool}

theorem request_inv (hs : Inv s) {args : SessionArgs} {memory : Option Nat}
    (hstep : step sessionSize audioOutActive s (.request args memory) = some s') : Inv s' := by
  simp only [step] at hstep
  split at hstep
  · cases hstep
  · rename_i hidle
    have he : s.entrypoint = .idle := not_not.mp hidle
    split at hstep
    · rename_i c addr hreq
      split at hstep
      · cases hstep
      · cases hstep
        have hnone := request_ok hreq
        obtain ⟨honce, hacquired, htokens, hcurrent⟩ := hs
        simp only [State.live, State.pointed, State.signalled, he, Entrypoint.live,
          Entrypoint.pointed, Entrypoint.signalled, List.nil_append] at honce hacquired htokens
        refine ⟨List.nodup_cons.mpr ⟨?_, honce⟩, hacquired, htokens, hcurrent⟩
        intro hmem
        obtain ⟨o, ho, hc⟩ := List.mem_map.mp hmem
        have hsome := (hacquired o.channel o.addr).mpr ho
        rw [hc, hnone] at hsome
        cases hsome
    · cases hstep
      exact hs

/-- A session that is closed moves from the list to the destructor. -/
theorem close_inv (hs : Inv s) {addr : Nat}
    (hstep : step sessionSize audioOutActive s (.close addr) = some s') :
    Inv s' ∧ s'.sessions.length + 1 = s.sessions.length ∧ s.entrypoint = .idle := by
  simp only [step] at hstep
  split at hstep
  · cases hstep
  · rename_i hidle
    have he : s.entrypoint = .idle := not_not.mp hidle
    split at hstep
    · cases hstep
    · rename_i o hfind
      cases hstep
      have hperm : s.sessions.Perm (o :: s.sessions.erase o) :=
        List.perm_cons_erase (List.mem_of_find?_eq_some hfind)
      obtain ⟨honce, hacquired, htokens, hcurrent⟩ := hs
      simp only [State.live, State.pointed, State.signalled, he, Entrypoint.live,
        Entrypoint.pointed, Entrypoint.signalled, List.nil_append] at honce hacquired htokens
      refine ⟨⟨(hperm.map _).nodup_iff.mp honce, ?_, htokens.trans hperm.length_eq, hcurrent⟩,
        hperm.length_eq.symm, he⟩
      intro c addr
      exact (hacquired c addr).trans hperm.mem_iff

theorem step_inv (hs : Inv s) {a : Action}
    (hstep : step sessionSize audioOutActive s a = some s') : Inv s' := by
  cases a with
  | request args memory => exact request_inv hs hstep
  | close addr => exact (close_inv hs hstep).1
  | entrypoint => exact stepEntrypoint_inv hs hstep
  | player => exact stepPlayer_inv hs hstep

/-- The invariant holds in every run, whatever condition the run keeps to. -/
theorem reach_inv {ok : State → Action → Prop}
    (h : (machine sessionSize audioOutActive).Reach ok s) : Inv s := by
  induction h with
  | init h =>
      subst h
      exact Inv.initial
  | step a _ _ hstep ih => exact step_inv ih hstep

end

/-! ## Playback -/

section
variable (sessionSize : Word) (audioOutActive : Bool)

/-- **Playback only touches live sessions.**  In every run of requests, closings and
playback. -/
theorem playback_touches_live_sessions (s : State)
    (h : (machine sessionSize audioOutActive).Reachable s) : Safe s :=
  (reach_inv h).safe

end

/-- A session for each channel; the playback thread takes its first token in between, and is
then about to take a packet from the left session. -/
theorem playback_of_two_sessions :
    ∃ s, (machine 0x1000 true).Reachable s ∧ s.player = .play (some 1) (some 2) .getLeft ∧ Safe s := by
  have hrun : ((machine 0x1000 true).run initial
      [.request ⟨some 0x4000, some 0x2000, none⟩ (some 1), .entrypoint, .entrypoint, .player,
        .request ⟨some 0x4000, some 0x2000, some "front right"⟩ (some 2), .entrypoint, .entrypoint,
        .player, .player, .player]).map (·.player) = some (.play (some 1) (some 2) .getLeft) := by
    decide
  obtain ⟨s, hs, hplayer⟩ := Option.map_eq_some_iff.mp hrun
  have hreach : (machine 0x1000 true).Reachable s := Machine.Reachable.run (.init rfl) _ hs
  exact ⟨s, hreach, hplayer, playback_touches_live_sessions _ _ s hreach⟩

/-! ## Deadlock -/

/-- The condition: a session is closed only while both channels have one. -/
def closesPaired (s : State) : Action → Bool
  | .close _ => (s.channelAcquired .left).isSome && (s.channelAcquired .right).isSome
  | _ => true

/-- With a session in its destructor there is another one. -/
def Paired (s : State) : Prop := ∀ o, s.entrypoint = .destroy o → 0 < s.sessions.length

section
variable {s s' : State} {sessionSize : Word} {audioOutActive : Bool}

/-- Both channels have a session, and no session is on its way. -/
theorem two_sessions (hs : Inv s) (he : s.entrypoint = .idle)
    (hleft : (s.channelAcquired .left).isSome = true)
    (hright : (s.channelAcquired .right).isSome = true) : 2 ≤ s.sessions.length := by
  obtain ⟨l, hl⟩ := Option.isSome_iff_exists.mp hleft
  obtain ⟨r, hr⟩ := Option.isSome_iff_exists.mp hright
  rw [hs.acquired, State.pointed, he] at hl hr
  have hsub : [⟨l, .left⟩, ⟨r, .right⟩] ⊆ s.sessions := by
    intro o ho
    rcases List.mem_cons.mp ho with rfl | ho
    · exact hl
    · rw [List.mem_singleton.mp ho]
      exact hr
  exact (List.subperm_of_subset (by simp) hsub).length_le

/-- A destructor is entered by a closing only. -/
theorem stepEntrypoint_leaves (hstep : stepEntrypoint s = some s') (o : Session) :
    s'.entrypoint ≠ .destroy o := by
  unfold stepEntrypoint at hstep
  cases he : s.entrypoint with
  | idle =>
      rw [he] at hstep
      cases hstep
  | destroy _ =>
      cases hsema : s.channelSema with
      | zero =>
          rw [he, hsema] at hstep
          cases hstep
      | succ n =>
          rw [he, hsema] at hstep
          cases hstep
          exact nofun
  | construct _ | signal _ | clear _ | free _ =>
      rw [he] at hstep
      cases hstep
      exact nofun

theorem stepPlayer_frame (hstep : stepPlayer s = some s') :
    s'.entrypoint = s.entrypoint ∧ s'.sessions = s.sessions := by
  unfold stepPlayer at hstep
  cases hp : s.player with
  | down i =>
      cases hsema : s.channelSema with
      | zero =>
          rw [hp, hsema] at hstep
          cases hstep
      | succ n =>
          rw [hp, hsema] at hstep
          cases hstep
          exact ⟨rfl, rfl⟩
  | play left right stage =>
      rw [hp] at hstep
      cases stage <;> cases hstep <;> exact ⟨rfl, rfl⟩
  | loadLeft | loadRight _ | up _ =>
      rw [hp] at hstep
      cases hstep
      exact ⟨rfl, rfl⟩

theorem step_paired (hs : Inv s) (hp : Paired s) {a : Action} (hok : closesPaired s a = true)
    (hstep : step sessionSize audioOutActive s a = some s') : Paired s' := by
  cases a with
  | request args memory =>
      simp only [step] at hstep
      split at hstep
      · cases hstep
      · split at hstep
        · split at hstep
          · cases hstep
          · cases hstep
            exact nofun
        · cases hstep
          exact hp
  | close addr =>
      obtain ⟨-, hlen, he⟩ := close_inv hs hstep
      rw [closesPaired, Bool.and_eq_true] at hok
      have htwo := two_sessions hs he hok.1 hok.2
      intro o _
      omega
  | entrypoint =>
      intro o ho
      exact absurd ho (stepEntrypoint_leaves hstep o)
  | player =>
      obtain ⟨he, hsessions⟩ := stepPlayer_frame hstep
      intro o ho
      rw [hsessions]
      exact hp o (he ▸ ho)

end

section
variable (sessionSize : Word) (audioOutActive : Bool)

/-- **No deadlock while sessions are closed in pairs.**  In every run in which sessions are
closed only while both channels have one. -/
theorem no_deadlock_of_paired_close (s : State)
    (h : (machine sessionSize audioOutActive).Reach (closesPaired · ·) s) : ¬ Deadlocked s := by
  have hpaired : Paired s := by
    induction h with
    | init h =>
        subst h
        exact nofun
    | step a hreach hok hstep ih => exact step_paired (reach_inv hreach) ih hok hstep
  rintro ⟨hplayer, ⟨o, he⟩, hsema⟩
  have htokens := (reach_inv h).tokens
  rw [hsema, hplayer, State.signalled, he, List.length_append] at htokens
  have hother := hpaired o he
  simp only [Player.held, Entrypoint.signalled, List.length_singleton] at htokens
  omega

end

/-- Two sessions, and one is closed while the playback thread waits for its second token:
there is one for each of them. -/
theorem paired_close_has_token :
    ∃ s, (machine 0x1000 true).Reach (closesPaired · ·) s ∧ s.player = .down .right ∧
      s.entrypoint = .destroy ⟨1, .left⟩ ∧ ¬ Deadlocked s := by
  have hrun : ((machine 0x1000 true).runOk (closesPaired · ·) initial
      [.request ⟨some 0x4000, some 0x2000, none⟩ (some 1), .entrypoint, .entrypoint, .player,
        .request ⟨some 0x4000, some 0x2000, some "right"⟩ (some 2), .entrypoint, .entrypoint,
        .close 1]).map (fun s => (s.player, s.entrypoint)) =
      some (.down .right, .destroy ⟨1, .left⟩) := by
    decide
  obtain ⟨s, hs, hat⟩ := Option.map_eq_some_iff.mp hrun
  obtain ⟨hplayer, he⟩ := Prod.mk.inj hat
  have hreach : (machine 0x1000 true).Reach (closesPaired · ·) s :=
    Machine.Reach.runOk (.init rfl) _ hs
  exact ⟨s, hreach, hplayer, he, no_deadlock_of_paired_close _ _ s hreach⟩

/-- **One session is enough for the deadlock.**  It is created, the playback thread takes
its token, and it is closed. -/
theorem single_session_deadlocks : ∃ s, (machine 0x1000 true).Reachable s ∧ Deadlocked s := by
  have hrun : ((machine 0x1000 true).run initial
      [.request ⟨some 0x4000, some 0x2000, none⟩ (some 1), .entrypoint, .entrypoint, .player,
        .close 1]).map (fun s => (s.player, s.entrypoint, s.channelSema)) =
      some (.down .right, .destroy ⟨1, .left⟩, 0) := by
    decide
  obtain ⟨s, hs, hat⟩ := Option.map_eq_some_iff.mp hrun
  obtain ⟨hplayer, hat⟩ := Prod.mk.inj hat
  obtain ⟨he, hsema⟩ := Prod.mk.inj hat
  exact ⟨s, Machine.Reachable.run (.init rfl) _ hs, hplayer, ⟨_, he⟩, hsema⟩

section
variable (sessionSize : Word) (audioOutActive : Bool)

/-- **Closing the only session can always be driven into the deadlock**, by the playback
thread alone. -/
theorem last_close_can_deadlock (s : State) (h : (machine sessionSize audioOutActive).Reachable s)
    (o : Session) (he : s.entrypoint = .destroy o) (hlast : s.sessions = []) :
    ∃ n t, (machine sessionSize audioOutActive).run s (List.replicate n .player) = some t ∧
      Deadlocked t := by
  have htokens := (reach_inv h).tokens
  rw [State.signalled, he, hlast] at htokens
  obtain ⟨sema, acquired, sessions, entrypoint, player⟩ := s
  cases he
  cases hlast
  cases player with
  | down i =>
      cases i with
      | left =>
          obtain rfl : sema = 1 := by simpa [Player.held, Entrypoint.signalled] using htokens
          exact ⟨1, _, rfl, rfl, ⟨o, rfl⟩, rfl⟩
      | right =>
          obtain rfl : sema = 0 := by simpa [Player.held, Entrypoint.signalled] using htokens
          exact ⟨0, _, rfl, rfl, ⟨o, rfl⟩, rfl⟩
  | up i =>
      cases i with
      | left =>
          simp only [Player.held, Entrypoint.signalled, List.append_nil,
            List.length_singleton] at htokens
          omega
      | right =>
          -- it gives its token back and takes it again
          obtain rfl : sema = 0 := by simpa [Player.held, Entrypoint.signalled] using htokens
          exact ⟨2, _, rfl, rfl, ⟨o, rfl⟩, rfl⟩
  | loadLeft | loadRight _ | play _ _ _ =>
      simp only [Player.held, Entrypoint.signalled, List.append_nil,
        List.length_singleton] at htokens
      omega

end

end LinuxDrivers.AudioOut
